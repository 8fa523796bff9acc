import Mathlib.Data.List.Nodup
import Mathlib.Logic.Function.Basic
import Mathlib.Logic.Relation

namespace RsoVoting.Replication

open Relation

/-!
# Replication, all or given up

A job is to store some documents at a number of hosts.  The hosts are chosen once, all at the
same time; the job is accepted when each of them holds everything, or it is given up, and then
what the hosts hold may be dropped again, and may still arrive.  This file has the life of a
job as a relation, with no word on how the hosts are found, asked or told:

* `Job` / `Entry` — what is to be stored, and how far it has come;
* `Step` — the steps of an entry, and `ReflTransGen Step` its histories;
* `Sound` / `sound_of_steps` — what holds of every entry with a history;
* `grows_of_steps` — as long as a job is not given up, no host loses anything;
* `eq_of_accepted` — and once it has been accepted, nothing changes.
-/

/-- Documents that are to be stored at `copies` of the hosts. -/
structure Job (H D : Type*) where
  hosts : List H
  copies : ℕ
  docs : List D

inductive Phase where
  | open
  | aborting
  | accepted
  | rejected
deriving DecidableEq, Repr

/-- How far a job has come: the chosen hosts, and what every host holds of it. -/
@[ext] structure Entry (H D : Type*) where
  chosen : Option (List H) := none
  held : H → List D := fun _ => []
  phase : Phase := .open

/-- The job has been given up. -/
def Entry.GivenUp {H D : Type*} (e : Entry H D) : Prop :=
  e.phase = .aborting ∨ e.phase = .rejected

/-- One step in the life of a job. -/
inductive Step {H D : Type*} [DecidableEq H] (job : Job H D) : Entry H D → Entry H D → Prop
  /-- All hosts are chosen at once. -/
  | choose {e : Entry H D} {hosts} (hopen : e.phase = .open) (hnone : e.chosen = none)
      (hnd : hosts.Nodup) (hcopies : hosts.length = job.copies) (hsub : hosts ⊆ job.hosts) :
      Step job e { e with chosen := some hosts }
  /-- A chosen host gets a document, in the order of the documents. -/
  | put {e : Entry H D} {hosts host doc} (hphase : e.phase ≠ .accepted)
      (hchosen : e.chosen = some hosts) (hmem : host ∈ hosts)
      (hsub : (e.held host ++ [doc]).Sublist job.docs) :
      Step job e { e with held := Function.update e.held host (e.held host ++ [doc]) }
  /-- The job is accepted, and every chosen host holds all of it. -/
  | accept {e : Entry H D} {hosts} (hopen : e.phase = .open) (hchosen : e.chosen = some hosts)
      (hall : ∀ host ∈ hosts, e.held host = job.docs) :
      Step job e { e with phase := .accepted }
  /-- It is given up after the hosts have been chosen. -/
  | abort {e : Entry H D} {hosts} (hopen : e.phase = .open) (hchosen : e.chosen = some hosts) :
      Step job e { e with phase := .aborting }
  /-- A host drops what it holds of a job that has been given up. -/
  | drop {e : Entry H D} (host : H) (hup : e.GivenUp) :
      Step job e { e with held := Function.update e.held host [] }
  /-- It is rejected, after it has been given up or because no hosts were found. -/
  | reject {e : Entry H D} (h : e.phase = .aborting ∨ e.phase = .open ∧ e.chosen = none) :
      Step job e { e with phase := .rejected }

variable {H D : Type*} {job : Job H D} {e e' : Entry H D}

/-! ### What holds of every entry -/

/-- Only chosen hosts hold anything, in order, and each of them everything that has been
    accepted. -/
structure Sound (job : Job H D) (e : Entry H D) : Prop where
  chosen : ∀ hosts, e.chosen = some hosts →
    hosts.Nodup ∧ hosts.length = job.copies ∧ hosts ⊆ job.hosts
  holders : ∀ host, e.held host ≠ [] → ∃ hosts, e.chosen = some hosts ∧ host ∈ hosts
  sublist : ∀ host, (e.held host).Sublist job.docs
  complete : e.phase = .accepted →
    ∃ hosts, e.chosen = some hosts ∧ ∀ host ∈ hosts, e.held host = job.docs

/-- A new entry is sound. -/
theorem Sound.new : Sound job ({} : Entry H D) where
  chosen _ h := by cases h
  holders host h := absurd rfl h
  sublist _ := List.nil_sublist _
  complete h := by cases h

variable [DecidableEq H]

/-- **Step lemma.** -/
theorem Sound.step (hs : Sound job e) (h : Step job e e') : Sound job e' := by
  cases h with
  | choose hopen hnone hnd hcopies hsub =>
    refine ⟨?_, fun host hheld => ?_, hs.sublist, fun hacc => ?_⟩
    · intro hosts hchosen
      obtain rfl := Option.some.inj hchosen
      exact ⟨hnd, hcopies, hsub⟩
    · obtain ⟨hosts, hchosen, -⟩ := hs.holders host hheld
      exact absurd (hnone.symm.trans hchosen) (by simp)
    · exact absurd (hopen.symm.trans hacc) (by decide)
  | @put hosts host doc hphase hchosen hmem hsub =>
    refine ⟨hs.chosen, fun host' hheld => ?_, fun host' => ?_, fun hacc => absurd hacc hphase⟩
    · by_cases hh : host' = host
      · exact ⟨hosts, hchosen, hh ▸ hmem⟩
      · exact hs.holders host' (by simpa [Function.update_of_ne hh] using hheld)
    · by_cases hh : host' = host
      · subst hh
        simpa using hsub
      · simpa [Function.update_of_ne hh] using hs.sublist host'
  | @accept hosts hopen hchosen hall =>
    exact ⟨hs.chosen, hs.holders, hs.sublist, fun _ => ⟨hosts, hchosen, hall⟩⟩
  | abort => exact ⟨hs.chosen, hs.holders, hs.sublist, fun hacc => by cases hacc⟩
  | drop host hup =>
    refine ⟨hs.chosen, fun host' hheld => ?_, fun host' => ?_, fun hacc => ?_⟩
    · by_cases hh : host' = host
      · subst hh
        simp at hheld
      · exact hs.holders host' (by simpa [Function.update_of_ne hh] using hheld)
    · by_cases hh : host' = host
      · subst hh
        simp
      · simpa [Function.update_of_ne hh] using hs.sublist host'
    · rcases hup with hup | hup <;> exact absurd (hup.symm.trans hacc) (by decide)
  | reject => exact ⟨hs.chosen, hs.holders, hs.sublist, fun hacc => by cases hacc⟩

/-- **Every entry with a history is sound.** -/
theorem sound_of_steps (h : ReflTransGen (Step job) {} e) : Sound job e := by
  induction h with
  | refl            => exact .new
  | tail _ hstep ih => exact ih.step hstep

/-! ### What is kept -/

/-- Giving up is final. -/
theorem Entry.GivenUp.step (hup : e.GivenUp) (h : Step job e e') : e'.GivenUp := by
  cases h with
  | choose | put | drop => exact hup
  | accept hopen | abort hopen =>
    rcases hup with hup | hup <;> exact absurd (hopen.symm.trans hup) (by decide)
  | reject => exact .inr rfl

/-- A step that does not follow giving up takes nothing away. -/
theorem Step.grows (h : Step job e e') (hup : ¬e'.GivenUp) (host : H) :
    e.held host <+: e'.held host := by
  cases h with
  | choose | accept | abort | reject => exact List.prefix_rfl
  | @put hosts host' doc =>
    by_cases hh : host = host'
    · subst hh
      simp
    · simp [Function.update_of_ne hh]
  | drop _ hdrop => exact absurd hdrop hup

/-- **As long as a job is not given up, no host loses anything of it.** -/
theorem grows_of_steps (h : ReflTransGen (Step job) e e') (hup : ¬e'.GivenUp) (host : H) :
    e.held host <+: e'.held host := by
  induction h with
  | refl => exact List.prefix_rfl
  | tail _ hstep ih => exact (ih fun hb => hup (hb.step hstep)).trans (hstep.grows hup host)

/-- **What has been accepted does not change.** -/
theorem eq_of_accepted (h : ReflTransGen (Step job) e e') (hacc : e.phase = .accepted) :
    e' = e := by
  -- no step leaves an accepted entry
  rcases h.cases_head with heq | ⟨e₁, hstep, -⟩
  · exact heq.symm
  · cases hstep with
    | choose hopen | accept hopen | abort hopen =>
      exact absurd (hopen.symm.trans hacc) (by decide)
    | put hphase => exact absurd hacc hphase
    | drop _ hup => rcases hup with hup | hup <;> exact absurd (hup.symm.trans hacc) (by decide)
    | reject hup =>
      rcases hup with hup | ⟨hup, -⟩ <;> exact absurd (hup.symm.trans hacc) (by decide)

end RsoVoting.Replication
