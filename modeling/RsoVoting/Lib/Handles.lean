import Mathlib.Data.List.Basic

namespace RsoVoting

/-!
# Handles held in a field

An object keeps the resource it works with in one field, creates it again when it has to,
and closes it at the end if a flag says that it is in use.  A `Handles` is the history of
such a field: resources are numbered in the order in which they are created.

* `create` / `mark` / `close` — the three things that happen to the field and the flag;
* `Held` — nothing is closed yet, and the field holds the last resource created;
* `Held.allClosed_iff` — closing at the end closes everything that was created exactly if
  that was nothing, or one resource that is marked as in use.
-/

/-- The history of a field that holds a resource. -/
structure Handles where
  created : ℕ := 0
  closed : List ℕ := []
  current : Option ℕ := none
  active : Bool := false
deriving DecidableEq, Repr

namespace Handles

/-- A new resource replaces the one in the field, which is not closed. -/
def create (h : Handles) : Handles :=
  { h with created := h.created + 1, current := some h.created }

/-- Set the flag. -/
def mark (active : Bool) (h : Handles) : Handles := { h with active }

/-- Close the resource in the field if the flag is set. -/
def close (h : Handles) : Handles :=
  if h.active then { h with closed := h.closed ++ h.current.toList } else h

/-- Every resource that was created has been closed. -/
def AllClosed (h : Handles) : Prop := ∀ n < h.created, n ∈ h.closed

instance (h : Handles) : Decidable h.AllClosed :=
  inferInstanceAs (Decidable (∀ n < h.created, n ∈ h.closed))

/-- Nothing has been closed, and the field holds the last resource. -/
structure Held (h : Handles) : Prop where
  closed : h.closed = []
  current : h.current = if h.created = 0 then none else some (h.created - 1)

@[simp] theorem create_created (h : Handles) : h.create.created = h.created + 1 := rfl

@[simp] theorem create_active (h : Handles) : h.create.active = h.active := rfl

@[simp] theorem mark_created (b : Bool) (h : Handles) : (h.mark b).created = h.created := rfl

@[simp] theorem mark_active (b : Bool) (h : Handles) : (h.mark b).active = b := rfl

@[simp] theorem close_created (h : Handles) : h.close.created = h.created := by
  unfold close
  split <;> rfl

@[simp] theorem close_active (h : Handles) : h.close.active = h.active := by
  unfold close
  split <;> rfl

@[simp] theorem close_current (h : Handles) : h.close.current = h.current := by
  unfold close
  split <;> rfl

theorem Held.new : Held {} := ⟨rfl, rfl⟩

theorem Held.create {h : Handles} (hh : Held h) : Held h.create := ⟨hh.closed, rfl⟩

theorem Held.mark {h : Handles} (hh : Held h) (b : Bool) : Held (h.mark b) :=
  ⟨hh.closed, hh.current⟩

/-- What has been closed: what was closed before, and the resource in the field. -/
theorem mem_closed_close {h : Handles} {n : ℕ} :
    n ∈ h.close.closed ↔ n ∈ h.closed ∨ (h.active = true ∧ h.current = some n) := by
  unfold close
  split
  · next hact => simp [hact]
  · next hact => simp [hact]

/-- **What closing leaves open.**  Closing once, or again, closes everything exactly if
    nothing was created, or one resource whose flag is set. -/
theorem Held.allClosed_iff {h : Handles} (hh : Held h) :
    h.close.close.AllClosed ↔ h.created = 0 ∨ (h.created = 1 ∧ h.active = true) := by
  have hmem : ∀ n, n ∈ h.close.close.closed ↔ h.active = true ∧ h.current = some n := by
    intro n
    rw [mem_closed_close, mem_closed_close, hh.closed]
    simp
  unfold AllClosed
  simp only [close_created, hmem, hh.current]
  constructor
  · intro hall
    rcases Nat.eq_zero_or_pos h.created with hzero | hpos
    · exact .inl hzero
    · -- the first resource is closed, so it is the last one
      obtain ⟨hact, hcur⟩ := hall 0 hpos
      rw [if_neg (by omega), Option.some.injEq] at hcur
      exact .inr ⟨by omega, hact⟩
  · rintro (hzero | ⟨hone, hact⟩) n hn
    · omega
    · refine ⟨hact, ?_⟩
      rw [if_neg (by omega), Option.some.injEq]
      omega

end Handles

end RsoVoting
