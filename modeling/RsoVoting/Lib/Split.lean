import Mathlib.Data.List.DropRight

namespace RsoVoting.Split

/-!
# Splitting at a separator, as `String.split` does

Java's `split` by a single character is not the inverse of joining: it drops the pieces at the
end that are empty, unless the separator does not occur at all.  Elements are of any type.

* `split` — the pieces;
* `split_intercalate` — splitting what has been joined: the pieces without the empty ones at
  the end, or the only piece;
* `notMem_of_mem_split` — no piece contains the separator;
* `split_eq_nil_iff` — there may be no piece at all;
* `split_append` — a last piece that is not empty is kept.
-/

variable {α : Type*} [DecidableEq α]

/-- The pieces of a sequence between separators. -/
def split (sep : α) (s : List α) : List (List α) :=
  if sep ∈ s then (s.splitOn sep).rdropWhile List.isEmpty else [s]

variable {sep : α}

omit [DecidableEq α] in
/-- The separator occurs in what has been joined from several pieces, and only then if it does
    not occur in the pieces. -/
theorem mem_intercalate_iff {p : List α} {ps : List (List α)}
    (hsep : ∀ q ∈ p :: ps, sep ∉ q) : sep ∈ [sep].intercalate (p :: ps) ↔ ps ≠ [] := by
  cases ps with
  | nil => simpa using hsep p (by simp)
  | cons q ps => simp [List.intercalate_cons_cons]

/-- **Splitting what has been joined.** -/
theorem split_intercalate {p : List α} {ps : List (List α)} (hsep : ∀ q ∈ p :: ps, sep ∉ q) :
    split sep ([sep].intercalate (p :: ps)) =
      if ps = [] then [p] else (p :: ps).rdropWhile List.isEmpty := by
  unfold split
  rw [List.splitOn_intercalate sep hsep (List.cons_ne_nil p ps)]
  simp only [mem_intercalate_iff hsep]
  cases ps with
  | nil => simp
  | cons q ps => simp

/-- It gives the pieces back if the last one is not empty. -/
theorem split_intercalate_of_last {ps : List (List α)} (hsep : ∀ q ∈ ps, sep ∉ q)
    {p : List α} (hlast : ps.getLast? = some p) (hp : p ≠ []) :
    split sep ([sep].intercalate ps) = ps := by
  cases ps with
  | nil => simp at hlast
  | cons q ps =>
    rw [split_intercalate hsep]
    split
    · next hnil => rw [hnil]
    · -- nothing is dropped at the end
      refine List.rdropWhile_eq_self_iff.mpr fun hne => ?_
      obtain rfl : (q :: ps).getLast hne = p := by
        rwa [List.getLast?_eq_some_getLast hne, Option.some.injEq] at hlast
      simpa using hp

/-- No piece contains the separator. -/
theorem notMem_of_mem_splitOn {s p : List α} (h : p ∈ s.splitOn sep) : sep ∉ p := by
  induction s generalizing p with
  | nil =>
    obtain rfl : p = [] := by simpa [List.splitOn_nil] using h
    exact List.not_mem_nil
  | cons x s ih =>
    obtain ⟨q, qs, hq⟩ := List.exists_cons_of_ne_nil (List.splitOn_ne_nil sep s)
    rw [List.splitOn_cons_eq_if_modifyHead, hq] at h
    have hrest : ∀ p ∈ q :: qs, sep ∉ p := fun p hp => ih (hq ▸ hp)
    split at h
    · -- the separator starts a new piece
      rcases List.mem_cons.mp h with rfl | h
      · exact List.not_mem_nil
      · exact hrest p h
    · next hx =>
      rcases List.mem_cons.mp h with rfl | h
      · have hne : sep ≠ x := fun e => hx (by simp [e])
        simpa [hne] using hrest q (by simp)
      · exact hrest p (List.mem_cons_of_mem _ h)

theorem notMem_of_mem_split {s p : List α} (h : p ∈ split sep s) : sep ∉ p := by
  unfold split at h
  split at h
  · exact notMem_of_mem_splitOn ((List.rdropWhile_prefix _ _).subset h)
  · next hsep =>
    obtain rfl := List.mem_singleton.mp h
    exact hsep

/-- There is no piece exactly in a non-empty sequence of separators only. -/
theorem split_eq_nil_iff {s : List α} : split sep s = [] ↔ s ≠ [] ∧ ∀ x ∈ s, x = sep := by
  have hpieces : (∀ p ∈ s.splitOn sep, p.isEmpty = true) ↔ ∀ x ∈ s, x = sep := by
    induction s with
    | nil => simp [List.splitOn_nil]
    | cons x s ih =>
      obtain ⟨q, qs, hq⟩ := List.exists_cons_of_ne_nil (List.splitOn_ne_nil sep s)
      rw [List.splitOn_cons_eq_if_modifyHead, hq]
      rw [hq] at ih
      by_cases hx : x = sep
      · simpa [hx] using ih
      · simp [hx]
  unfold split
  split
  · next hsep =>
    rw [List.rdropWhile_eq_nil_iff, hpieces]
    exact (and_iff_right (List.ne_nil_of_mem hsep)).symm
  · next hsep =>
    refine iff_of_false (List.cons_ne_nil _ _) ?_
    rintro ⟨hne, hall⟩
    obtain ⟨x, hx⟩ := List.exists_mem_of_ne_nil s hne
    exact hsep (hall x hx ▸ hx)

/-- A last piece that is not empty is kept, and with it all pieces before. -/
theorem split_append {s p : List α} (hsep : sep ∉ p) (hp : p ≠ []) :
    split sep (s ++ sep :: p) = s.splitOn sep ++ [p] := by
  have hmem : sep ∈ s ++ sep :: p := by simp
  rw [split, if_pos hmem, List.splitOn_append_cons_self, List.splitOn_eq_singleton hsep]
  exact List.rdropWhile_concat_neg _ _ _ (by simpa using hp)

end RsoVoting.Split
