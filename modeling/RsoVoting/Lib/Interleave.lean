import RsoVoting.Lib.Runs

namespace RsoVoting.Interleave

open RsoVoting.Runs

/-!
# Interleaving of components over a shared store

Components indexed by `ι` each keep a private state in `L` and work on one shared store
in `G`.  `interleave` lets them step in any order; `alone` is one component by itself.

`Unwinding` collects the conditions under which the components do not interfere as far as
an observation `obs t : G → O` of the store goes: a component's step keeps what the others
observe, and depends on the store only through what the component itself observes.
`run_project` turns these step conditions into the two-run statement: what component `t`
does and observes in an interleaved run is what it does and observes when only its own
steps are taken.
-/

variable {ι L G A O : Type*}

/-- All components step over one store, one at a time. -/
def interleave [DecidableEq ι] (step : ι → L → G → A → Option (L × G)) :
    (ι → L) × G → ι × A → Option ((ι → L) × G)
  | (l, g), (t, a) => (step t (l t) g a).map fun p => (Function.update l t p.1, p.2)

/-- One component by itself. -/
def alone (step : L → G → A → Option (L × G)) : L × G → A → Option (L × G)
  | (l, g), a => step l g a

/-- The actions of component `t`, in the order of the interleaved run. -/
def actionsOf [DecidableEq ι] (t : ι) (as : List (ι × A)) : List A :=
  as.filterMap fun p => if p.1 = t then some p.2 else none

section ActionsOf

variable [DecidableEq ι]

@[simp] theorem actionsOf_nil (t : ι) : actionsOf (A := A) t [] = [] := rfl

theorem actionsOf_cons_self (t : ι) (a : A) (as : List (ι × A)) :
    actionsOf t ((t, a) :: as) = a :: actionsOf t as := by
  simp [actionsOf]

theorem actionsOf_cons_of_ne {t u : ι} (h : u ≠ t) (a : A) (as : List (ι × A)) :
    actionsOf t ((u, a) :: as) = actionsOf t as := by
  simp [actionsOf, h]

end ActionsOf

/-- Step conditions for non-interference.  `inv t` is a private invariant that the
    conditions on the store may use. -/
structure Unwinding (step : ι → L → G → A → Option (L × G)) (obs : ι → G → O)
    (inv : ι → L → Prop) : Prop where
  /-- The private invariant is kept. -/
  keeps : ∀ {t l g a l' g'}, inv t l → step t l g a = some (l', g') → inv t l'
  /-- A step changes nothing that another component observes. -/
  respects : ∀ {t u l g a l' g'}, inv u l → u ≠ t → step u l g a = some (l', g') →
    obs t g' = obs t g
  /-- A step depends on the store only through the component's own observation. -/
  consistent : ∀ {t l g g₁ a l' g'}, inv t l → obs t g = obs t g₁ →
    step t l g a = some (l', g') → ∃ g₁', step t l g₁ a = some (l', g₁') ∧ obs t g' = obs t g₁'

variable [DecidableEq ι] {step : ι → L → G → A → Option (L × G)} {obs : ι → G → O}
  {inv : ι → L → Prop}

/-- An interleaved step is a step of the component it names. -/
theorem interleave_eq_some {l l' : ι → L} {g g' : G} {u : ι} {a : A} :
    interleave step (l, g) (u, a) = some (l', g') ↔
      ∃ lu, step u (l u) g a = some (lu, g') ∧ l' = Function.update l u lu := by
  simp only [interleave, Option.map_eq_some_iff, Prod.mk.injEq, Prod.exists]
  constructor
  · rintro ⟨lu, _, hstep, rfl, rfl⟩
    exact ⟨lu, hstep, rfl⟩
  · rintro ⟨lu, hstep, rfl⟩
    exact ⟨lu, g', hstep, rfl, rfl⟩

/-- **Projection.**  Under the unwinding conditions, an interleaved run shows component
    `t` what the run of its own steps shows it: the same private state and the same
    observation, from any store that looks the same to `t` at the start. -/
theorem run_project (hU : Unwinding step obs inv) (t : ι) {as : List (ι × A)}
    {l l' : ι → L} {g g' g₁ : G} (hinv : ∀ u, inv u (l u)) (hobs : obs t g = obs t g₁)
    (hrun : run (interleave step) (l, g) as = some (l', g')) :
    ∃ g₁', run (alone (step t)) (l t, g₁) (actionsOf t as) = some (l' t, g₁') ∧
      obs t g' = obs t g₁' := by
  induction as generalizing l g g₁ with
  | nil =>
    obtain ⟨rfl, rfl⟩ : l = l' ∧ g = g' := by simpa using hrun
    exact ⟨g₁, rfl, hobs⟩
  | cons p as ih =>
    obtain ⟨u, a⟩ := p
    obtain ⟨⟨lm, gm⟩, hstep, hrest⟩ := run_cons_eq_some.mp hrun
    obtain ⟨lu, hu, rfl⟩ := interleave_eq_some.mp hstep
    have hinv' : ∀ v, inv v (Function.update l u lu v) := by
      intro v
      by_cases hv : v = u
      · subst hv
        rw [Function.update_self]
        exact hU.keeps (hinv v) hu
      · rw [Function.update_of_ne hv]
        exact hinv v
    by_cases ht : u = t
    · -- `t`'s own step: take it in the run alone as well
      subst ht
      obtain ⟨gm₁, hu₁, hobs'⟩ := hU.consistent (hinv u) hobs hu
      obtain ⟨g₁', hrun₁, hfin⟩ := ih hinv' hobs' hrest
      refine ⟨g₁', ?_, hfin⟩
      rw [actionsOf_cons_self, run_cons_eq_some]
      rw [Function.update_self] at hrun₁
      exact ⟨(lu, gm₁), hu₁, hrun₁⟩
    · -- another component's step: the run alone does not move
      have hobs' : obs t gm = obs t g₁ := (hU.respects (hinv u) ht hu).trans hobs
      obtain ⟨g₁', hrun₁, hfin⟩ := ih hinv' hobs' hrest
      refine ⟨g₁', ?_, hfin⟩
      rw [actionsOf_cons_of_ne ht]
      rwa [Function.update_of_ne (Ne.symm ht)] at hrun₁

end RsoVoting.Interleave
