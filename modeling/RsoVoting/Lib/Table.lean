import Mathlib.Data.List.AList
import Mathlib.Algebra.BigOperators.Group.List.Basic
import Mathlib.Algebra.Order.BigOperators.Group.List
import Mathlib.Algebra.Order.Group.Int
import Mathlib.Algebra.Ring.Int.Defs
import Mathlib.Algebra.Ring.Nat
import Mathlib.Data.List.Induction

namespace RsoVoting

/-!
# Hash maps that collect and count

A `Table` is a finite map as hash maps are: what counts is what a lookup returns, the order
of the entries is an accident.  This file has what programs do with them:

* `Table.Sub` — one table includes another; what that says about counts of entries;
* `Table.put` / `insertAll` — insert pairs, later ones overwriting earlier ones;
* `Table.tally` — count the elements of a list under their keys, starting from any table;
  `lookup_tally` says what every entry becomes, for any type of counters;
* `Table.sum` — the sum over the entries whose key satisfies a predicate; over a tally it
  is a count again (`sum_tally`).
-/

/-- A finite map from `K` to `V`. -/
abbrev Table (K V : Type*) := AList fun _ : K => V

namespace Table

variable {K V α : Type*} [DecidableEq K]

/-- Two tables with the same lookups have the same entries, in some order. -/
theorem perm_entries {m m' : Table K V} (h : ∀ k, m.lookup k = m'.lookup k) :
    m.entries.Perm m'.entries :=
  List.lookup_ext m.nodupKeys m'.nodupKeys fun k v => by
    rw [show m.entries.dlookup k = m'.entries.dlookup k from h k]

theorem lookup_insert_eq (m : Table K V) (k k' : K) (v : V) :
    (m.insert k v).lookup k' = if k' = k then some v else m.lookup k' := by
  split
  · next h => subst h; exact AList.lookup_insert m
  · next h => exact AList.lookup_insert_ne h

/-- An entry and the entries without its key. -/
theorem perm_cons_erase {m : Table K V} {k : K} {v : V} (h : m.lookup k = some v) :
    m.entries.Perm (⟨k, v⟩ :: (m.erase k).entries) := by
  have hins : (m.insert k v).entries.Perm m.entries := perm_entries fun k' => by
    rw [lookup_insert_eq]
    split
    · next hk => rw [hk, h]
    · rfl
  rw [AList.entries_insert] at hins
  exact hins.symm

/-! ### Inclusion -/

/-- Every entry of `m` is an entry of `m'`. -/
def Sub (m m' : Table K V) : Prop := ∀ k v, m.lookup k = some v → m'.lookup k = some v

/-- A table has no more entries of a kind than one that includes it. -/
theorem Sub.countP_le {m m' : Table K V} (h : Sub m m') (p : (Sigma fun _ : K => V) → Bool) :
    m.entries.countP p ≤ m'.entries.countP p := by
  rw [List.countP_eq_length_filter, List.countP_eq_length_filter]
  refine (List.subperm_of_subset (m.nodupKeys.nodup.filter p) fun e he => ?_).length_le
  obtain ⟨hmem, hp⟩ := List.mem_filter.mp he
  exact List.mem_filter.mpr
    ⟨AList.mem_lookup_iff.mp (h e.1 e.2 (AList.mem_lookup_iff.mpr hmem)), hp⟩

/-! ### Inserting a list of pairs -/

section InsertAll

variable [DecidableEq V]

/-- `put`: insert or overwrite.  A pair that is there already stays where it is. -/
def put (m : Table K V) (k : K) (v : V) : Table K V :=
  if m.lookup k = some v then m else m.insert k v

/-- Put pairs one after the other. -/
def insertAll (m : Table K V) (ps : List (K × V)) : Table K V :=
  ps.foldl (fun m p => put m p.1 p.2) m

theorem lookup_put (m : Table K V) (k k' : K) (v : V) :
    (put m k v).lookup k' = if k' = k then some v else m.lookup k' := by
  unfold put
  split
  · next h =>
    split
    · next hk => rw [hk, h]
    · rfl
  · exact lookup_insert_eq m k k' v

@[simp] theorem insertAll_nil (m : Table K V) : insertAll m [] = m := rfl

theorem insertAll_cons (m : Table K V) (p : K × V) (ps : List (K × V)) :
    insertAll m (p :: ps) = insertAll (put m p.1 p.2) ps := rfl

theorem insertAll_append (m : Table K V) (ps qs : List (K × V)) :
    insertAll m (ps ++ qs) = insertAll (insertAll m ps) qs :=
  List.foldl_append

/-- What is found was inserted, or was there. -/
theorem mem_of_lookup_insertAll {m : Table K V} {ps : List (K × V)} {k : K} {v : V}
    (h : (insertAll m ps).lookup k = some v) : (k, v) ∈ ps ∨ m.lookup k = some v := by
  induction ps generalizing m with
  | nil => exact .inr h
  | cons p ps ih =>
    rcases ih h with hmem | hlook
    · exact .inl (by simp [hmem])
    · rw [lookup_put] at hlook
      split at hlook
      · next hk =>
        obtain rfl := Option.some.inj hlook
        exact .inl (by simp [hk])
      · exact .inr hlook

/-- A key is found exactly if it was inserted or was there. -/
theorem isSome_lookup_insertAll {m : Table K V} {ps : List (K × V)} {k : K} :
    ((insertAll m ps).lookup k).isSome = true ↔
      (∃ v, (k, v) ∈ ps) ∨ (m.lookup k).isSome = true := by
  induction ps generalizing m with
  | nil => simp
  | cons p ps ih =>
    rw [insertAll_cons, ih, lookup_put]
    by_cases hk : k = p.1
    · subst hk
      simp only [if_true, Option.isSome_some, or_true, true_iff]
      exact .inl ⟨p.2, by simp⟩
    · rw [if_neg hk]
      refine or_congr_left ⟨fun ⟨v, hv⟩ => ⟨v, by simp [hv]⟩, fun ⟨v, hv⟩ => ?_⟩
      rcases List.mem_cons.mp hv with rfl | hv
      · exact absurd rfl hk
      · exact ⟨v, hv⟩

/-- If all pairs with a key have the same value, that is the one found. -/
theorem lookup_insertAll_of_consistent {ps : List (K × V)} {k : K} {v : V}
    (hmem : (k, v) ∈ ps) (hcons : ∀ v', (k, v') ∈ ps → v' = v) :
    (insertAll ∅ ps).lookup k = some v := by
  obtain ⟨v', hv'⟩ := Option.isSome_iff_exists.mp
    (isSome_lookup_insertAll (m := (∅ : Table K V)).mpr (.inl ⟨v, hmem⟩))
  rcases mem_of_lookup_insertAll hv' with hmem' | hlook
  · rw [hv', hcons v' hmem']
  · simp at hlook

/-- A key that is not inserted keeps its value. -/
theorem lookup_insertAll_of_not_mem {m : Table K V} {ps : List (K × V)} {k : K}
    (h : k ∉ ps.map Prod.fst) : (insertAll m ps).lookup k = m.lookup k := by
  induction ps generalizing m with
  | nil => rfl
  | cons p ps ih =>
    rw [List.map_cons, List.mem_cons, not_or] at h
    rw [insertAll_cons, ih h.2, lookup_put, if_neg h.1]

/-- A key that is inserted forgets the value it had. -/
theorem lookup_insertAll_of_mem {m m' : Table K V} {ps : List (K × V)} {k : K}
    (h : k ∈ ps.map Prod.fst) : (insertAll m ps).lookup k = (insertAll m' ps).lookup k := by
  induction ps generalizing m m' with
  | nil => exact absurd h List.not_mem_nil
  | cons p ps ih =>
    rw [insertAll_cons, insertAll_cons]
    by_cases hps : k ∈ ps.map Prod.fst
    · exact ih hps
    · have hk : k = p.1 := by
        rw [List.map_cons, List.mem_cons] at h
        exact h.resolve_right hps
      rw [lookup_insertAll_of_not_mem hps, lookup_insertAll_of_not_mem hps, lookup_put,
        lookup_put, if_pos hk, if_pos hk]

/-- Putting pairs that are there already changes nothing. -/
theorem insertAll_of_forall_lookup {m : Table K V} {ps : List (K × V)}
    (h : ∀ p ∈ ps, m.lookup p.1 = some p.2) : insertAll m ps = m := by
  induction ps with
  | nil => rfl
  | cons p ps ih =>
    rw [insertAll_cons, put, if_pos (h p (by simp))]
    exact ih fun q hq => h q (by simp [hq])

/-- The pairs of a table. -/
def toPairs (m : Table K V) : List (K × V) := m.entries.map fun e => (e.1, e.2)

omit [DecidableEq V] in
theorem mem_toPairs {m : Table K V} {k : K} {v : V} :
    (k, v) ∈ toPairs m ↔ m.lookup k = some v := by
  rw [← Option.mem_def, AList.mem_lookup_iff, toPairs, List.mem_map]
  constructor
  · rintro ⟨e, he, heq⟩
    obtain ⟨rfl, rfl⟩ := Prod.mk.inj heq
    exact he
  · exact fun h => ⟨_, h, rfl⟩

omit [DecidableEq V] [DecidableEq K] in
theorem nodup_keys_toPairs (m : Table K V) : ((toPairs m).map Prod.fst).Nodup := by
  rw [toPairs, List.map_map]
  exact m.nodupKeys

omit [DecidableEq V] in
/-- The pairs whose key satisfies `p`, told by any enumeration of these keys. -/
theorem perm_map_filter_toPairs {β : Type*} {m : Table K V} {p : K → Bool} {keys : List K}
    (hnd : keys.Nodup) (hkeys : ∀ k, k ∈ keys ↔ p k = true ∧ (m.lookup k).isSome = true)
    {f : K × V → β} {g : K → β}
    (hfg : ∀ k v, p k = true → m.lookup k = some v → f (k, v) = g k) :
    (((toPairs m).filter fun e => p e.1).map f).Perm (keys.map g) := by
  have hmap : ((toPairs m).filter fun e => p e.1).map f =
      (((toPairs m).filter fun e => p e.1).map Prod.fst).map g := by
    rw [List.map_map]
    apply List.map_congr_left
    intro e he
    obtain ⟨hmem, hp⟩ := List.mem_filter.mp he
    exact hfg e.1 e.2 hp (mem_toPairs.mp hmem)
  have hnd' : (((toPairs m).filter fun e => p e.1).map Prod.fst).Nodup :=
    (nodup_keys_toPairs m).sublist (List.filter_sublist.map _)
  rw [hmap]
  apply List.Perm.map
  apply (List.perm_ext_iff_of_nodup hnd' hnd).mpr
  intro k
  rw [hkeys, List.mem_map]
  constructor
  · rintro ⟨e, he, rfl⟩
    obtain ⟨hmem, hp⟩ := List.mem_filter.mp he
    exact ⟨hp, Option.isSome_of_eq_some (mem_toPairs.mp hmem)⟩
  · rintro ⟨hp, hsome⟩
    obtain ⟨v, hv⟩ := Option.isSome_iff_exists.mp hsome
    exact ⟨(k, v), List.mem_filter.mpr ⟨mem_toPairs.mpr hv, hp⟩, rfl⟩

/-- Inserting pairs with distinct keys once more changes nothing. -/
theorem insertAll_again {ps : List (K × V)} (hnd : (ps.map Prod.fst).Nodup) :
    insertAll (insertAll ∅ ps) ps = insertAll ∅ ps :=
  insertAll_of_forall_lookup fun _ hp =>
    lookup_insertAll_of_consistent hp fun _ hv' =>
      (Prod.mk.inj (List.inj_on_of_nodup_map hnd hv' hp rfl)).2

/-- Pairs with distinct keys are found after they have been inserted into an empty table. -/
theorem lookup_insertAll_of_nodup {ps : List (K × V)} (hnd : (ps.map Prod.fst).Nodup) {k : K}
    {v : V} : (insertAll ∅ ps).lookup k = some v ↔ (k, v) ∈ ps := by
  constructor
  · intro h
    exact (mem_of_lookup_insertAll h).resolve_right (by simp)
  · intro h
    apply lookup_insertAll_of_consistent h
    intro v' hv'
    exact (Prod.mk.inj (List.inj_on_of_nodup_map hnd hv' h rfl)).2

/-- And nothing else is in it, so it may be counted pair by pair. -/
theorem countP_insertAll_of_nodup {ps : List (K × V)} (hnd : (ps.map Prod.fst).Nodup)
    (p : (Sigma fun _ : K => V) → Bool) :
    (insertAll ∅ ps).entries.countP p = ps.countP fun q => p ⟨q.1, q.2⟩ := by
  have hperm : (toPairs (insertAll ∅ ps)).Perm ps := by
    refine (List.perm_ext_iff_of_nodup (nodup_keys_toPairs _).of_map hnd.of_map).mpr fun q => ?_
    rw [mem_toPairs, lookup_insertAll_of_nodup hnd]
  rw [← hperm.countP_eq, toPairs, List.countP_map]
  rfl

/-- Inserting the pairs of a table into an empty one, with the values mapped, makes the
    mapped lookups. -/
theorem lookup_insertAll_map {W : Type*} (f : W → V) (m : Table K W) (k : K) :
    (insertAll ∅ ((toPairs m).map fun p => (p.1, f p.2))).lookup k = (m.lookup k).map f := by
  have hmem : ∀ {v}, (k, v) ∈ (toPairs m).map (fun p => (p.1, f p.2)) ↔
      (m.lookup k).map f = some v := by
    intro v
    rw [List.mem_map, Option.map_eq_some_iff]
    constructor
    · rintro ⟨p, hp, heq⟩
      obtain ⟨rfl, rfl⟩ := Prod.mk.inj heq
      exact ⟨p.2, mem_toPairs.mp hp, rfl⟩
    · rintro ⟨w, hw, rfl⟩
      exact ⟨(k, w), mem_toPairs.mpr hw, rfl⟩
  -- a table has one value for a key, so the pairs are consistent
  cases hk : (m.lookup k).map f with
  | some v =>
    refine lookup_insertAll_of_consistent (hmem.mpr hk) fun v' hv' => ?_
    exact Option.some.inj ((hmem.mp hv').symm.trans hk)
  | none =>
    rw [← Option.not_isSome_iff_eq_none, isSome_lookup_insertAll]
    rintro (⟨v, hv⟩ | hempty)
    · rw [hmem.mp hv] at hk
      cases hk
    · simp at hempty

/-- Inserting the pairs of a table into an empty one makes the same lookups. -/
theorem lookup_insertAll_toPairs (m : Table K V) (k : K) :
    (insertAll ∅ (toPairs m)).lookup k = m.lookup k := by
  simpa using lookup_insertAll_map id m k

end InsertAll

/-! ### Counting under keys -/

section Tally

variable (one : V) (inc : V → V)

/-- One more under key `k`: the counter is incremented, or set to `one`. -/
def bump (m : Table K V) (k : K) : Table K V :=
  match m.lookup k with
  | some v => m.insert k (inc v)
  | none   => m.insert k one

/-- Count elements under their keys. -/
def tally (key : α → K) (m : Table K V) (xs : List α) : Table K V :=
  xs.foldl (fun m x => bump one inc m (key x)) m

/-- What counting once more makes of an entry. -/
def next : Option V → Option V
  | some v => some (inc v)
  | none   => some one

variable {one inc}

theorem lookup_bump (m : Table K V) (k k' : K) :
    (bump one inc m k).lookup k' =
      if k' = k then next one inc (m.lookup k) else m.lookup k' := by
  unfold bump
  cases m.lookup k <;> exact lookup_insert_eq m k k' _

/-- **Every entry of a tally** has been counted once for each element under its key, on top
    of what was there before. -/
theorem lookup_tally (key : α → K) (m : Table K V) (xs : List α) (k : K) :
    (tally one inc key m xs).lookup k =
      (next one inc)^[xs.countP fun x => key x = k] (m.lookup k) := by
  induction xs generalizing m with
  | nil => rfl
  | cons x xs ih =>
    have hcons : tally one inc key m (x :: xs) =
        tally one inc key (bump one inc m (key x)) xs := rfl
    rw [hcons, ih, lookup_bump, List.countP_cons]
    by_cases hk : k = key x
    · subst hk
      simp [Function.iterate_succ_apply]
    · simp [hk, Ne.symm hk]

theorem tally_concat (key : α → K) (m : Table K V) (xs : List α) (x : α) :
    tally one inc key m (xs ++ [x]) = bump one inc (tally one inc key m xs) (key x) := by
  simp [tally]

/-- A counter that has been started is incremented. -/
theorem iterate_next_some (n : ℕ) (v : V) :
    (next one inc)^[n] (some v) = some (inc^[n] v) := by
  induction n generalizing v with
  | zero => rfl
  | succ n ih =>
    rw [Function.iterate_succ_apply, Function.iterate_succ_apply]
    exact ih (inc v)

/-- A counter is started by the first count. -/
theorem iterate_next_none (n : ℕ) :
    (next one inc)^[n + 1] none = some (inc^[n] one) := by
  rw [Function.iterate_succ_apply]
  exact iterate_next_some n one

end Tally

/-! ### Sums over entries -/

/-- The sum of `f` over the entries whose key satisfies `p`. -/
def sum (p : K → Bool) (f : V → ℤ) (m : Table K V) : ℤ :=
  ((m.entries.filter fun e => p e.1).map fun e => f e.2).sum

omit [DecidableEq K] in
theorem sum_perm {p : K → Bool} {f : V → ℤ} {m m' : Table K V}
    (h : m.entries.Perm m'.entries) : sum p f m = sum p f m' :=
  ((h.filter _).map _).sum_eq

omit [DecidableEq K] in
/-- A sum of values that are not negative is not negative. -/
theorem sum_nonneg {p : K → Bool} {f : V → ℤ} {m : Table K V}
    (h : ∀ e ∈ m.entries, 0 ≤ f e.2) : 0 ≤ sum p f m := by
  refine List.sum_nonneg fun x hx => ?_
  obtain ⟨e, he, rfl⟩ := List.mem_map.mp hx
  exact h e (List.mem_of_mem_filter he)

/-- The contribution of one key. -/
def term (p : K → Bool) (f : V → ℤ) (k : K) (o : Option V) : ℤ :=
  if p k then o.elim 0 f else 0

/-- The sum splits into the contribution of one key and the sum without it. -/
theorem sum_eq_term_add (p : K → Bool) (f : V → ℤ) (m : Table K V) (k : K) :
    sum p f m = term p f k (m.lookup k) + sum p f (m.erase k) := by
  cases hk : m.lookup k with
  | none =>
    have hnot : k ∉ m.entries.keys := AList.lookup_eq_none.mp hk
    have herase : (m.erase k).entries = m.entries := List.kerase_of_notMem_keys hnot
    simp [sum, term, herase]
  | some v =>
    rw [sum, (((perm_cons_erase hk).filter _).map _).sum_eq, List.filter_cons]
    by_cases hp : p k = true <;> simp [hp, term, sum]

/-- An insertion changes the contribution of its key. -/
theorem sum_insert (p : K → Bool) (f : V → ℤ) (m : Table K V) (k : K) (v : V) :
    sum p f (m.insert k v) =
      sum p f m - term p f k (m.lookup k) + term p f k (some v) := by
  -- without the key the two tables are the same
  have herase : sum p f ((m.insert k v).erase k) = sum p f (m.erase k) := by
    refine sum_perm (perm_entries fun k' => ?_)
    by_cases hk : k' = k
    · subst hk
      rw [AList.lookup_erase, AList.lookup_erase]
    · rw [AList.lookup_erase_ne hk, AList.lookup_erase_ne hk, AList.lookup_insert_ne hk]
  rw [sum_eq_term_add p f (m.insert k v) k, sum_eq_term_add p f m k, AList.lookup_insert, herase]
  omega

/-- A table that keeps the entries whose key satisfies `q` sums up as the whole table does
    over those keys. -/
theorem sum_of_lookup_filter (p : K → Bool) {q : K → Bool} (f : V → ℤ) {m m' : Table K V}
    (h : ∀ k, m'.lookup k = if q k then m.lookup k else none) :
    sum p f m' = sum (fun k => q k && p k) f m := by
  -- without repetitions, the entries are told by the lookups
  have hperm : m'.entries.Perm (m.entries.filter fun e => q e.1) := by
    refine (List.perm_ext_iff_of_nodup m'.nodupKeys.nodup
      (m.nodupKeys.nodup.filter _)).mpr fun e => ?_
    rw [List.mem_filter]
    have hm' : e ∈ m'.entries ↔ m'.lookup e.1 = some e.2 := AList.mem_lookup_iff.symm
    have hm : e ∈ m.entries ↔ m.lookup e.1 = some e.2 := AList.mem_lookup_iff.symm
    rw [hm', hm, h]
    by_cases hq : q e.1 = true <;> simp [hq]
  rw [sum, ((hperm.filter _).map _).sum_eq, List.filter_filter, sum]
  simp only [Bool.and_comm]

/-- **The sum over a tally is a count.**  `f` reads a counter, as long as it has not been
    incremented more often than there are elements under one key. -/
theorem sum_tally {one : V} {inc : V → V} {f : V → ℤ} (p : K → Bool) (key : α → K)
    (xs : List α) (hf : ∀ k, ∀ n < xs.countP fun x => key x = k, f (inc^[n] one) = n + 1) :
    sum p f (tally one inc key ∅ xs) = xs.countP fun x => p (key x) := by
  induction xs using List.reverseRecOn with
  | nil => rfl
  | append_singleton xs x ih =>
    have hcount : ∀ k, (xs ++ [x]).countP (fun y => key y = k) =
        xs.countP (fun y => key y = k) + if key x = k then 1 else 0 := by
      intro k
      simp [List.countP_append, List.countP_singleton]
    have hx := hcount (key x)
    rw [if_pos rfl] at hx
    have ih' := ih fun k n hn => hf k n (Nat.lt_of_lt_of_le hn (hcount k ▸ Nat.le_add_right _ _))
    -- the counter of `x` before its last increment
    have hlook : (tally one inc key ∅ xs).lookup (key x) =
        (next one inc)^[xs.countP fun y => key y = key x] none :=
      lookup_tally key ∅ xs (key x)
    rw [tally_concat, List.countP_append, Int.natCast_add, ← ih', bump]
    cases hn : xs.countP fun y => key y = key x with
    | zero =>
      -- the first element under its key starts a counter
      rw [hn, Function.iterate_zero, id] at hlook
      have h0 := hf (key x) 0 (by omega)
      rw [hlook]
      dsimp only
      rw [sum_insert, hlook]
      by_cases hp : p (key x) = true <;> simp_all [term]
    | succ n =>
      -- a later one increments it
      rw [hn, iterate_next_none] at hlook
      have hn₀ := hf (key x) n (by omega)
      have hn₁ := hf (key x) (n + 1) (by omega)
      rw [Function.iterate_succ_apply'] at hn₁
      rw [hlook]
      dsimp only
      rw [sum_insert, hlook]
      by_cases hp : p (key x) = true
      · simp only [term, hp, if_true, Option.elim_some, hn₀, hn₁, List.countP_singleton]
        push_cast
        omega
      · simp [term, hp]

/-- The sum over a table that has the entries of a tally whose key satisfies `q`. -/
theorem sum_of_lookup_tally {one : V} {inc : V → V} {f : V → ℤ} {m : Table K V} {q : K → Bool}
    (key : α → K) (xs : List α)
    (hm : ∀ k, m.lookup k =
      if q k then (next one inc)^[xs.countP fun x => key x = k] none else none)
    (hf : ∀ k, ∀ n < xs.countP fun x => key x = k, f (inc^[n] one) = n + 1) (p : K → Bool) :
    sum p f m = xs.countP fun x => q (key x) && p (key x) := by
  have htally : ∀ k, m.lookup k = if q k then (tally one inc key ∅ xs).lookup k else none := by
    intro k
    rw [hm, lookup_tally]
    rfl
  rw [sum_of_lookup_filter p f htally, sum_tally _ key xs hf]

end Table

end RsoVoting
