import Mathlib.Data.List.Basic
import Mathlib.Logic.Function.Basic

namespace RsoVoting.Runs

/-!
# Runs of a labelled step function

A system is a partial step function `step : S → A → Option S`: an action is a label that
also carries every choice of the environment, and it is `none` where it is not enabled.
This file gives the run of a list of actions and the induction rules its users need:

* `run` — execute a list of actions;
* `Along` — every action of a run is taken in a state where a predicate allows it, which
  is how an assumption about the environment restricts the runs of a system;
* `run_invariant` / `run_invariant_along` — a predicate that each (allowed) step keeps
  holds after the run;
* `run_rel` — a reflexive and transitive relation that each step respects relates the
  two ends of a run;
* `length_add_le` — a measure that every step lowers bounds the length of a run;
* `along_congr` — two guards that agree on every step hold along the same runs;
* `throughout_iff_along` — a predicate holds after every part of a run exactly if each step
  is one that keeps it.
-/

variable {S A : Type*}

/-- The state after taking the actions in order, `none` if one of them is not enabled. -/
def run (step : S → A → Option S) : S → List A → Option S
  | s, []      => some s
  | s, a :: as => (step s a).bind fun s' => run step s' as

/-- `P` allows every action of the run in the state in which it is taken. -/
def Along (step : S → A → Option S) (P : S → A → Prop) : S → List A → Prop
  | _, []      => True
  | s, a :: as => P s a ∧ match step s a with
    | none    => True
    | some s' => Along step P s' as

variable {step : S → A → Option S} {P Q : S → A → Prop}

/-- Guarded runs over a decidable guard can be checked by evaluation. -/
instance decidableAlong [∀ s a, Decidable (P s a)] :
    (s : S) → (as : List A) → Decidable (Along step P s as)
  | _, []      => .isTrue trivial
  | s, a :: as =>
    have : Decidable (match step s a with
        | none => True
        | some s' => Along step P s' as) :=
      match step s a with
      | none    => .isTrue trivial
      | some s' => decidableAlong s' as
    inferInstanceAs (Decidable (_ ∧ _))

/-! ### Unfolding lemmas -/

@[simp] theorem run_nil (s : S) : run step s [] = some s := rfl

theorem run_cons (s : S) (a : A) (as : List A) :
    run step s (a :: as) = (step s a).bind fun s' => run step s' as := rfl

/-- A run of `a :: as` takes the step `a` and then runs `as`. -/
theorem run_cons_eq_some {s t : S} {a : A} {as : List A} :
    run step s (a :: as) = some t ↔ ∃ s', step s a = some s' ∧ run step s' as = some t := by
  rw [run_cons, Option.bind_eq_some_iff]

/-- A run of `as ++ bs` passes through the state that `as` leads to. -/
theorem run_append_eq_some {s t : S} {as bs : List A} :
    run step s (as ++ bs) = some t ↔ ∃ s', run step s as = some s' ∧ run step s' bs = some t := by
  induction as generalizing s with
  | nil => simp
  | cons a as ih =>
    simp only [List.cons_append, run_cons_eq_some, ih]
    constructor
    · rintro ⟨u, hu, s', h₁, h₂⟩
      exact ⟨s', ⟨u, hu, h₁⟩, h₂⟩
    · rintro ⟨s', ⟨u, hu, h₁⟩, h₂⟩
      exact ⟨u, hu, s', h₁, h₂⟩

theorem along_cons {s s' : S} {a : A} {as : List A} (h : Along step P s (a :: as))
    (hs : step s a = some s') : P s a ∧ Along step P s' as := by
  obtain ⟨ha, hrest⟩ := h
  rw [hs] at hrest
  exact ⟨ha, hrest⟩

/-- A guard holds along the rest of a run. -/
theorem along_append {s t : S} {as bs : List A} (h : Along step P s (as ++ bs))
    (hrun : run step s as = some t) : Along step P t bs := by
  induction as generalizing s with
  | nil =>
    obtain rfl : s = t := by simpa using hrun
    exact h
  | cons a as ih =>
    obtain ⟨s', hs', hrest⟩ := run_cons_eq_some.mp hrun
    exact ih (along_cons h hs').2 hrest

/-! ### Induction rules -/

/-- **Invariant rule under a guard.**  What every allowed step keeps holds after a run
    whose steps are all allowed. -/
theorem run_invariant_along {I : S → Prop}
    (hstep : ∀ s a s', I s → P s a → step s a = some s' → I s')
    {s t : S} {as : List A} (hs : I s) (hP : Along step P s as)
    (hrun : run step s as = some t) : I t := by
  induction as generalizing s with
  | nil =>
    obtain rfl : s = t := by simpa using hrun
    exact hs
  | cons a as ih =>
    obtain ⟨s', hs', hrest⟩ := run_cons_eq_some.mp hrun
    obtain ⟨ha, hP'⟩ := along_cons hP hs'
    exact ih (hstep s a s' hs ha hs') hP' hrest

/-- A guard on the actions alone holds along a run of allowed actions. -/
theorem along_of_forall_mem {p : A → Prop} {as : List A} (h : ∀ a ∈ as, p a) (s : S) :
    Along step (fun _ a => p a) s as := by
  induction as generalizing s with
  | nil => trivial
  | cons a as ih =>
    refine ⟨h a (List.mem_cons_self ..), ?_⟩
    cases step s a with
    | none    => trivial
    | some s' => exact ih (fun b hb => h b (List.mem_cons_of_mem _ hb)) s'

theorem along_true (s : S) (as : List A) : Along step (fun _ _ => True) s as := by
  induction as generalizing s with
  | nil => trivial
  | cons a as ih =>
    refine ⟨trivial, ?_⟩
    cases step s a with
    | none    => trivial
    | some s' => exact ih s'

/-- **Invariant rule.**  What every step keeps holds after every run. -/
theorem run_invariant {I : S → Prop} (hstep : ∀ s a s', I s → step s a = some s' → I s')
    {s t : S} {as : List A} (hs : I s) (hrun : run step s as = some t) : I t :=
  run_invariant_along (P := fun _ _ => True) (fun s a s' h _ => hstep s a s' h) hs
    (along_true s as) hrun

/-- **Measure rule.**  If every step lowers a measure, a run is no longer than it was high. -/
theorem length_add_le {I : S → Prop} {μ : S → ℕ}
    (hstep : ∀ s a s', I s → step s a = some s' → I s' ∧ μ s' < μ s)
    {s t : S} {as : List A} (hs : I s) (hrun : run step s as = some t) :
    as.length + μ t ≤ μ s := by
  induction as generalizing s with
  | nil =>
    obtain rfl : s = t := by simpa using hrun
    simp
  | cons a as ih =>
    obtain ⟨s', hs', hrest⟩ := run_cons_eq_some.mp hrun
    obtain ⟨hI, hlt⟩ := hstep s a s' hs hs'
    have hle := ih hI hrest
    rw [List.length_cons]
    omega

/-- A preorder that every step from an invariant state respects relates the two ends of
    a run. -/
theorem run_rel {I : S → Prop} {R : S → S → Prop} (hrefl : ∀ s, R s s)
    (htrans : ∀ s t u, R s t → R t u → R s u)
    (hinv : ∀ s a s', I s → step s a = some s' → I s')
    (hstep : ∀ s a s', I s → step s a = some s' → R s s')
    {s t : S} {as : List A} (hs : I s) (hrun : run step s as = some t) : R s t := by
  induction as generalizing s with
  | nil =>
    obtain rfl : s = t := by simpa using hrun
    exact hrefl s
  | cons a as ih =>
    obtain ⟨s', hs', hrest⟩ := run_cons_eq_some.mp hrun
    exact htrans _ _ _ (hstep s a s' hs hs') (ih (hinv s a s' hs hs') hrest)

/-- Two guards that agree on every step of a run, from which the run goes on to its end,
    hold along it together. -/
theorem along_congr {I : S → Prop} {s t : S} {as : List A}
    (hstep : ∀ s a s', I s → step s a = some s' → I s')
    (hiff : ∀ s a s' bs, I s → step s a = some s' → run step s' bs = some t → (P s a ↔ Q s a))
    (hs : I s) (hrun : run step s as = some t) : Along step P s as ↔ Along step Q s as := by
  induction as generalizing s with
  | nil => exact Iff.rfl
  | cons a as ih =>
    obtain ⟨s', hs', hrest⟩ := run_cons_eq_some.mp hrun
    have hih := ih (hstep s a s' hs hs') hrest
    simp only [Along, hs', hiff s a s' as hs hs' hrest, hih]

/-- **A predicate holds throughout a run** exactly if every step of it is one that keeps it. -/
theorem throughout_iff_along {I : S → Prop}
    (hstep : ∀ s a, I s → ∃ s', step s a = some s' ∧ (I s' ↔ P s a)) {s : S} {as : List A}
    (hs : I s) :
    (∀ bs, bs <+: as → ∀ t, run step s bs = some t → I t) ↔ Along step P s as := by
  induction as generalizing s with
  | nil =>
    refine ⟨fun _ => trivial, fun _ bs hbs t ht => ?_⟩
    obtain rfl := List.prefix_nil.mp hbs
    obtain rfl : s = t := by simpa using ht
    exact hs
  | cons a as ih =>
    obtain ⟨s', hs', hiff⟩ := hstep s a hs
    constructor
    · intro h
      have hI : I s' := h [a] (by simp) s' (by simp [run_cons, hs'])
      refine ⟨hiff.mp hI, ?_⟩
      rw [hs']
      exact (ih hI).mp fun bs hbs t ht => h (a :: bs) (List.cons_prefix_cons.mpr ⟨rfl, hbs⟩) t
        (run_cons_eq_some.mpr ⟨s', hs', ht⟩)
    · intro h bs hbs t ht
      obtain ⟨hP, hrest⟩ := along_cons h hs'
      cases bs with
      | nil =>
        obtain rfl : s = t := by simpa using ht
        exact hs
      | cons b bs =>
        obtain ⟨rfl, hprefix⟩ := List.cons_prefix_cons.mp hbs
        obtain ⟨s'', hs'', hrun⟩ := run_cons_eq_some.mp ht
        obtain rfl := Option.some.inj (hs'.symm.trans hs'')
        exact (ih (hiff.mpr hP)).mpr hrest bs hprefix t hrun

end RsoVoting.Runs
