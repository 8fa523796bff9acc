import RsoVoting.Lib.Table
import Mathlib.Data.List.Dedup
import Mathlib.Data.List.TakeWhile

namespace RsoVoting.Grouping

/-!
# Rows collected by group and matched by position

A table of rows is often passed on as the list of its labels, in the order in which they
first appear, and for each group the list of its values, in the order of the rows.  Whoever
reads it takes the `i`-th value of a group to belong to the `i`-th label.  This file says
when it does.

* `firstSeen` — the labels in order of first appearance; `getElem?_firstSeen` finds a label
  behind those that appear before it;
* `push` / `lookup_foldl_push` — values appended to the list of their group;
* `Attributed` — every row is found at the position of its label;
* `Aligned` — the condition on the rows: no group leaves out a label that appears before one
  it has, and rows that the two orders exchange have equal values;
* `attributed_iff` — the two are the same for rows with distinct groups and labels, in any
  order;
* `NoGaps` / `NoGaps.aligned` — rows that are ordered by label are aligned if no group leaves
  out a label that is smaller than one it has.
-/

/-! ### Labels in order of first appearance -/

section Labels

variable {L : Type*} [DecidableEq L]

/-- Append a label that is not there yet. -/
def addNew (labels : List L) (x : L) : List L := if x ∈ labels then labels else labels ++ [x]

/-- The labels of a list, each at its first appearance. -/
def firstSeen (xs : List L) : List L := xs.foldl addNew []

/-- The labels that appear before the first `x`. -/
def seenBefore (xs : List L) (x : L) : List L := (xs.takeWhile (· ≠ x)).dedup

theorem mem_foldl_addNew {labels xs : List L} {x : L} :
    x ∈ xs.foldl addNew labels ↔ x ∈ labels ∨ x ∈ xs := by
  induction xs generalizing labels with
  | nil => simp
  | cons y xs ih =>
    rw [List.foldl_cons, ih, List.mem_cons, ← or_assoc]
    apply or_congr_left
    unfold addNew
    split
    · next h => exact ⟨.inl, fun hx => hx.elim id fun e => e ▸ h⟩
    · simp

theorem nodup_foldl_addNew {labels : List L} (h : labels.Nodup) (xs : List L) :
    (xs.foldl addNew labels).Nodup := by
  induction xs generalizing labels with
  | nil => exact h
  | cons y xs ih =>
    apply ih
    unfold addNew
    split
    · exact h
    · next hy =>
      refine List.nodup_append.mpr ⟨h, by simp, ?_⟩
      rintro a ha b hb rfl
      obtain rfl : a = y := by simpa using hb
      exact hy ha

theorem prefix_foldl_addNew (labels xs : List L) : labels <+: xs.foldl addNew labels := by
  induction xs generalizing labels with
  | nil => exact List.prefix_rfl
  | cons y xs ih =>
    refine List.IsPrefix.trans ?_ (ih _)
    unfold addNew
    split
    · exact List.prefix_rfl
    · exact List.prefix_append _ _

theorem mem_firstSeen {xs : List L} {x : L} : x ∈ firstSeen xs ↔ x ∈ xs := by
  simp [firstSeen, mem_foldl_addNew]

theorem nodup_firstSeen (xs : List L) : (firstSeen xs).Nodup :=
  nodup_foldl_addNew List.nodup_nil xs

theorem perm_dedup_firstSeen (xs : List L) : (firstSeen xs).Perm xs.dedup :=
  (List.perm_ext_iff_of_nodup (nodup_firstSeen xs) xs.nodup_dedup).mpr fun x => by
    rw [mem_firstSeen, List.mem_dedup]

/-- A list around the first appearance of `x`. -/
theorem eq_takeWhile_append {xs : List L} {x : L} (hx : x ∈ xs) :
    ∃ ys, xs = xs.takeWhile (· ≠ x) ++ x :: ys := by
  induction xs with
  | nil => simp at hx
  | cons y xs ih =>
    by_cases hy : y = x
    · subst hy
      exact ⟨xs, by simp⟩
    · obtain ⟨ys, hys⟩ := ih ((List.mem_cons.mp hx).resolve_left (Ne.symm hy))
      exact ⟨ys, by simpa [hy] using hys⟩

/-- A label stands behind the labels that appear before it. -/
theorem firstSeen_prefix {xs : List L} {x : L} (hx : x ∈ xs) :
    firstSeen (xs.takeWhile (· ≠ x)) ++ [x] <+: firstSeen xs := by
  obtain ⟨ys, hys⟩ := eq_takeWhile_append hx
  have hnot : x ∉ firstSeen (xs.takeWhile (· ≠ x)) := by
    rw [mem_firstSeen]
    intro hmem
    simpa using List.mem_takeWhile_imp hmem
  have hfold : firstSeen xs =
      ys.foldl addNew (addNew (firstSeen (xs.takeWhile (· ≠ x))) x) := by
    conv_lhs => rw [hys]
    rw [firstSeen, List.foldl_append, List.foldl_cons]
    rfl
  rw [hfold, addNew, if_neg hnot]
  exact prefix_foldl_addNew _ _

theorem nodup_seenBefore (xs : List L) (x : L) : (seenBefore xs x).Nodup := List.nodup_dedup _

theorem notMem_seenBefore (xs : List L) (x : L) : x ∉ seenBefore xs x := by
  rw [seenBefore, List.mem_dedup]
  intro hmem
  simpa using List.mem_takeWhile_imp hmem

theorem length_firstSeen_takeWhile (xs : List L) (x : L) :
    (firstSeen (xs.takeWhile (· ≠ x))).length = (seenBefore xs x).length :=
  (perm_dedup_firstSeen _).length_eq

/-- So its position is their number. -/
theorem getElem?_firstSeen {xs : List L} {x : L} (hx : x ∈ xs) :
    (firstSeen xs)[(seenBefore xs x).length]? = some x := by
  obtain ⟨rest, hrest⟩ := firstSeen_prefix hx
  rw [← hrest, ← length_firstSeen_takeWhile, List.append_assoc,
    List.getElem?_append_right (Nat.le_refl _)]
  simp

end Labels

/-! ### Values appended to their group -/

section Groups

variable {G V R : Type*} [DecidableEq G]

/-- Append a value to the list of its group, which is made for the first one. -/
def push (m : Table G (List V)) (g : G) (v : V) : Table G (List V) :=
  match m.lookup g with
  | some vs => m.insert g (vs ++ [v])
  | none    => m.insert g [v]

theorem lookup_push (m : Table G (List V)) (g g' : G) (v : V) :
    (push m g v).lookup g' =
      if g' = g then some ((m.lookup g).getD [] ++ [v]) else m.lookup g' := by
  unfold push
  cases m.lookup g <;> exact Table.lookup_insert_eq m g g' _

/-- The rows of a group. -/
def ofGroup (group : R → G) (rows : List R) (g : G) : List R := rows.filter (group · = g)

theorem mem_ofGroup {group : R → G} {rows : List R} {g : G} {r : R} :
    r ∈ ofGroup group rows g ↔ r ∈ rows ∧ group r = g := by
  simp [ofGroup]

/-- **The list of a group** are the values of its rows, behind those that were there. -/
theorem lookup_foldl_push (group : R → G) (value : R → V) (rows : List R)
    (m : Table G (List V)) (g : G) :
    (rows.foldl (fun m r => push m (group r) (value r)) m).lookup g =
      if ofGroup group rows g = [] then m.lookup g
      else some ((m.lookup g).getD [] ++ (ofGroup group rows g).map value) := by
  induction rows generalizing m with
  | nil => simp [ofGroup]
  | cons r rows ih =>
    rw [List.foldl_cons, ih, lookup_push]
    by_cases hr : g = group r
    · have hcons : ofGroup group (r :: rows) g = r :: ofGroup group rows g := by
        simp [ofGroup, hr]
      rw [hcons, if_pos hr, hr]
      split
      · next hnil => simp [hnil]
      · simp
    · have hcons : ofGroup group (r :: rows) g = ofGroup group rows g := by
        simp [ofGroup, Ne.symm hr]
      rw [hcons, if_neg hr]

end Groups

/-! ### Reading by position -/

section Positions

variable {G L V R : Type*} [DecidableEq G] [DecidableEq L] (group : R → G) (label : R → L)
  (value : R → V) (rows : List R)

/-- The list of the values of a group. -/
def series (g : G) : List V := (ofGroup group rows g).map value

/-- Every row is found in the list of its group, at the position of its label. -/
def Attributed : Prop :=
  ∀ r ∈ rows, ∃ i : ℕ, (firstSeen (rows.map label))[i]? = some (label r) ∧
    (series group value rows (group r))[i]? = some (value r)

/-- The groups leave out no label before one that they have, and where a row stands at the
    position of another label of its group, the two values are equal. -/
structure Aligned : Prop where
  complete : ∀ r ∈ rows, ∀ l ∈ seenBefore (rows.map label) (label r),
    ∃ r' ∈ rows, group r' = group r ∧ label r' = l
  equal : ∀ r ∈ rows, ∀ r',
    (ofGroup group rows (group r))[(seenBefore (rows.map label) (label r)).length]? = some r' →
    value r' = value r

variable {group label value rows}

omit [DecidableEq L] in
/-- The labels of a group are distinct. -/
theorem nodup_labels (hnd : (rows.map fun r => (group r, label r)).Nodup) (g : G) :
    ((ofGroup group rows g).map label).Nodup := by
  have hsub : ((ofGroup group rows g).map fun r => (group r, label r)).Nodup :=
    hnd.sublist (List.filter_sublist.map _)
  have heq : ((ofGroup group rows g).map fun r => (group r, label r)) =
      ((ofGroup group rows g).map label).map fun l => (g, l) := by
    rw [List.map_map]
    refine List.map_congr_left fun r hr => ?_
    rw [(mem_ofGroup.mp hr).2]
    rfl
  exact (heq ▸ hsub).of_map _

/-- The position of a label is the number of labels before it. -/
theorem position_eq {r : R} (hr : r ∈ rows) {i : ℕ}
    (hi : (firstSeen (rows.map label))[i]? = some (label r)) :
    i = (seenBefore (rows.map label) (label r)).length := by
  have hmem : label r ∈ rows.map label := List.mem_map_of_mem hr
  have hpos := getElem?_firstSeen hmem
  obtain ⟨hlt, -⟩ := List.getElem?_eq_some_iff.mp hi
  exact (List.getElem?_inj hlt (nodup_firstSeen _)).mp (hi.trans hpos.symm)

/-- If all rows of a group are found at the positions of their labels, these are the first
    positions. -/
theorem Attributed.perm_take (hnd : (rows.map fun r => (group r, label r)).Nodup)
    (h : Attributed group label value rows) (g : G) :
    ((ofGroup group rows g).map label).Perm
      ((firstSeen (rows.map label)).take (ofGroup group rows g).length) := by
  have hsub : (ofGroup group rows g).map label ⊆
      (firstSeen (rows.map label)).take (ofGroup group rows g).length := by
    intro l hl
    obtain ⟨r, hr, rfl⟩ := List.mem_map.mp hl
    obtain ⟨hrows, rfl⟩ := mem_ofGroup.mp hr
    obtain ⟨i, hi, hv⟩ := h r hrows
    -- there is a value of the group at this position
    obtain ⟨hlt, -⟩ := List.getElem?_eq_some_iff.mp hv
    rw [series, List.length_map] at hlt
    refine List.mem_of_getElem? (i := i) ?_
    rw [List.getElem?_take_of_lt hlt, hi]
  refine (List.subperm_of_subset (nodup_labels hnd g) hsub).perm_of_length_le ?_
  rw [List.length_map]
  exact List.length_take_le _ _

/-- A group that is aligned has a row at the position of each of its labels. -/
theorem Aligned.exists_row (h : Aligned group label value rows) {r : R} (hr : r ∈ rows) :
    ∃ r', (ofGroup group rows (group r))[(seenBefore (rows.map label) (label r)).length]? =
      some r' := by
  -- the labels before this one, and this one, are all labels of the group
  have hsub : label r :: seenBefore (rows.map label) (label r) ⊆
      (ofGroup group rows (group r)).map label := by
    intro l hl
    rcases List.mem_cons.mp hl with rfl | hl
    · exact List.mem_map_of_mem (mem_ofGroup.mpr ⟨hr, rfl⟩)
    · obtain ⟨r', hr', hg, rfl⟩ := h.complete r hr l hl
      exact List.mem_map_of_mem (mem_ofGroup.mpr ⟨hr', hg⟩)
  have hnot := notMem_seenBefore (rows.map label) (label r)
  have hlen := (List.subperm_of_subset
    (List.nodup_cons.mpr ⟨hnot, nodup_seenBefore _ _⟩) hsub).length_le
  rw [List.length_cons, List.length_map] at hlen
  exact ⟨_, List.getElem?_eq_getElem hlen⟩

/-- **When reading by position is right.** -/
theorem attributed_iff (hnd : (rows.map fun r => (group r, label r)).Nodup) :
    Attributed group label value rows ↔ Aligned group label value rows := by
  constructor
  · refine fun h => ⟨fun r hr l hl => ?_, fun r hr r' hr' => ?_⟩
    · -- the label stands before a position that the group fills
      obtain ⟨i, hi, hv⟩ := h r hr
      obtain rfl := position_eq hr hi
      obtain ⟨hlt, -⟩ := List.getElem?_eq_some_iff.mp hv
      rw [series, List.length_map] at hlt
      have hmem : label r ∈ rows.map label := List.mem_map_of_mem hr
      have hfirst : l ∈ firstSeen ((rows.map label).takeWhile (· ≠ label r)) :=
        (perm_dedup_firstSeen _).mem_iff.mpr hl
      obtain ⟨rest, hrest⟩ := firstSeen_prefix hmem
      have htake : l ∈ (firstSeen (rows.map label)).take (ofGroup group rows (group r)).length := by
        obtain ⟨j, hj⟩ := List.getElem?_of_mem hfirst
        obtain ⟨hjlt, -⟩ := List.getElem?_eq_some_iff.mp hj
        have hjlt' := hjlt
        rw [length_firstSeen_takeWhile] at hjlt'
        refine List.mem_of_getElem? (i := j) ?_
        rw [List.getElem?_take_of_lt (hjlt'.trans hlt), ← hrest, List.append_assoc,
          List.getElem?_append_left hjlt, hj]
      obtain ⟨r', hr', rfl⟩ := List.mem_map.mp ((h.perm_take hnd (group r)).mem_iff.mpr htake)
      exact ⟨r', (mem_ofGroup.mp hr').1, (mem_ofGroup.mp hr').2, rfl⟩
    · obtain ⟨i, hi, hv⟩ := h r hr
      obtain rfl := position_eq hr hi
      rw [series, List.getElem?_map, hr'] at hv
      simpa using hv
  · intro h r hr
    obtain ⟨r', hr'⟩ := h.exists_row hr
    refine ⟨_, getElem?_firstSeen (List.mem_map_of_mem hr), ?_⟩
    rw [series, List.getElem?_map, hr', Option.map_some, h.equal r hr r' hr']

/-- Then nothing else stands in a list than the rows of its group. -/
theorem Attributed.exists_row (hnd : (rows.map fun r => (group r, label r)).Nodup)
    (h : Attributed group label value rows) {g : G} {i : ℕ} {v : V}
    (hv : (series group value rows g)[i]? = some v) :
    ∃ r ∈ rows, group r = g ∧ (firstSeen (rows.map label))[i]? = some (label r) ∧ value r = v := by
  have hlt : i < (ofGroup group rows g).length := by
    obtain ⟨hlt, -⟩ := List.getElem?_eq_some_iff.mp hv
    rwa [series, List.length_map] at hlt
  -- the label at this position is one of the group
  have hperm := h.perm_take hnd g
  have hlen := hperm.length_eq
  rw [List.length_map, List.length_take] at hlen
  obtain ⟨l, hl⟩ : ∃ l, (firstSeen (rows.map label))[i]? = some l :=
    ⟨_, List.getElem?_eq_getElem (by omega)⟩
  have hmem : l ∈ (firstSeen (rows.map label)).take (ofGroup group rows g).length := by
    refine List.mem_of_getElem? (i := i) ?_
    rw [List.getElem?_take_of_lt hlt, hl]
  obtain ⟨r, hr, rfl⟩ := List.mem_map.mp (hperm.mem_iff.mpr hmem)
  obtain ⟨hrows, rfl⟩ := mem_ofGroup.mp hr
  refine ⟨r, hrows, rfl, hl, ?_⟩
  -- and its row is found there
  obtain ⟨j, hj, hvj⟩ := h r hrows
  obtain rfl : i = j := (position_eq hrows hl).trans (position_eq hrows hj).symm
  exact Option.some.inj (hvj.symm.trans hv)

/-! ### Rows without gaps -/

/-- The first row with the label of `r`, and what appears before it. -/
theorem exists_first (label : R → L) {r : R} (hr : r ∈ rows) :
    ∃ before r₀ after, rows = before ++ r₀ :: after ∧ label r₀ = label r ∧
      ∀ l, l ∈ seenBefore (rows.map label) (label r) ↔ ∃ r' ∈ before, label r' = l := by
  obtain ⟨ys, hys⟩ := eq_takeWhile_append (List.mem_map_of_mem (f := label) hr)
  obtain ⟨before, tail, hrows, hbefore, htail⟩ := List.map_eq_append_iff.mp hys
  obtain ⟨r₀, after, rfl, hr₀, -⟩ := List.map_eq_cons_iff.mp htail
  refine ⟨before, r₀, after, hrows, hr₀, fun l => ?_⟩
  rw [seenBefore, List.mem_dedup, ← hbefore, List.mem_map]

/-- The rows of every group are in the order `lt` of their labels, and no group leaves out a
    label that is smaller than one it has. -/
structure NoGaps (group : R → G) (label : R → L) (lt : L → L → Prop) (rows : List R) : Prop where
  asymm : ∀ l l', lt l l' → ¬lt l' l
  total : ∀ r ∈ rows, ∀ r' ∈ rows, label r ≠ label r' →
    lt (label r) (label r') ∨ lt (label r') (label r)
  ordered : rows.Pairwise fun r r' => group r = group r' → lt (label r) (label r')
  noGaps : ∀ r ∈ rows, ∀ r' ∈ rows, lt (label r') (label r) →
    ∃ r'' ∈ rows, group r'' = group r ∧ label r'' = label r'

omit [DecidableEq G] in
/-- Without gaps the labels first appear in their order. -/
theorem NoGaps.mem_seenBefore {lt : L → L → Prop} (h : NoGaps group label lt rows) {r : R}
    (hr : r ∈ rows) {l : L} :
    l ∈ seenBefore (rows.map label) (label r) ↔
      (∃ r' ∈ rows, label r' = l) ∧ lt l (label r) := by
  obtain ⟨before, r₀, after, hrows, hr₀, hseen⟩ := exists_first label hr
  have hord := h.ordered
  rw [hrows, List.pairwise_append, List.pairwise_cons] at hord
  obtain ⟨-, ⟨hafter, -⟩, hcross⟩ := hord
  have hr₀mem : r₀ ∈ rows := by rw [hrows]; simp
  constructor
  · intro hl
    obtain ⟨r', hr', rfl⟩ := (hseen l).mp hl
    have hr'mem : r' ∈ rows := by rw [hrows]; simp [hr']
    refine ⟨⟨r', hr'mem, rfl⟩, ?_⟩
    have hne : label r' ≠ label r := fun e => notMem_seenBefore (rows.map label) (label r) (e ▸ hl)
    refine (h.total r' hr'mem r hr hne).resolve_right fun hlt => ?_
    -- otherwise the group of `r'` would have the label of `r` before it
    obtain ⟨r₂, hr₂, hg, hlab⟩ := h.noGaps r' hr'mem r hr hlt
    have hnot : r₂ ∉ before := fun hmem =>
      notMem_seenBefore (rows.map label) (label r) ((hseen _).mpr ⟨r₂, hmem, hlab⟩)
    have hr₂' : r₂ ∈ r₀ :: after := by
      rw [hrows] at hr₂
      exact (List.mem_append.mp hr₂).resolve_left hnot
    have hlt' := hcross r' hr' r₂ hr₂' hg.symm
    rw [hlab] at hlt'
    exact h.asymm _ _ hlt' hlt
  · rintro ⟨⟨r', hr', rfl⟩, hlt⟩
    rw [← hr₀] at hlt
    -- the group of the first row has the smaller label as well, before that row
    obtain ⟨r₂, hr₂, hg, hlab⟩ := h.noGaps r₀ hr₀mem r' hr' hlt
    refine (hseen _).mpr ⟨r₂, ?_, hlab⟩
    rw [hrows] at hr₂
    rcases List.mem_append.mp hr₂ with hr₂ | hr₂
    · exact hr₂
    · rcases List.mem_cons.mp hr₂ with rfl | hr₂
      · rw [hlab] at hlt
        exact absurd hlt (h.asymm _ _ hlt)
      · have hlt' := hafter r₂ hr₂ hg.symm
        rw [hlab] at hlt'
        exact absurd hlt (h.asymm _ _ hlt')

/-- And the rows of a group that precede `r` have the labels that appear before that of `r`. -/
theorem NoGaps.perm_front {lt : L → L → Prop} (h : NoGaps group label lt rows)
    (hnd : (rows.map fun r => (group r, label r)).Nodup) {r : R} {front back : List R}
    (hgroup : ofGroup group rows (group r) = front ++ r :: back) :
    (front.map label).Perm (seenBefore (rows.map label) (label r)) := by
  have hmem : ∀ {r₁}, r₁ ∈ front ++ r :: back ↔ r₁ ∈ rows ∧ group r₁ = group r :=
    fun {r₁} => hgroup ▸ mem_ofGroup
  have hr : r ∈ rows := (hmem.mp (by simp)).1
  have hlabels := hgroup ▸ nodup_labels hnd (group r)
  have hord : (front ++ r :: back).Pairwise fun r r' =>
      group r = group r' → lt (label r) (label r') :=
    hgroup ▸ h.ordered.sublist List.filter_sublist
  rw [List.pairwise_append, List.pairwise_cons] at hord
  obtain ⟨-, ⟨hback, -⟩, hcross⟩ := hord
  rw [List.map_append] at hlabels
  refine (List.perm_ext_iff_of_nodup (List.nodup_append.mp hlabels).1
    (nodup_seenBefore _ _)).mpr fun l => ?_
  rw [h.mem_seenBefore hr, List.mem_map]
  constructor
  · rintro ⟨r₁, h₁, rfl⟩
    obtain ⟨hrows, hg⟩ := hmem.mp (List.mem_append_left _ h₁)
    exact ⟨⟨r₁, hrows, rfl⟩, hcross r₁ h₁ r (by simp) hg⟩
  · rintro ⟨⟨r₁, h₁, rfl⟩, hlt⟩
    obtain ⟨r₂, h₂, hg, hlab⟩ := h.noGaps r hr r₁ h₁ hlt
    rw [← hlab] at hlt ⊢
    -- a row behind `r` would have a label that is not smaller
    rcases List.mem_append.mp (hmem.mpr ⟨h₂, hg⟩) with h₂ | h₂
    · exact ⟨r₂, h₂, rfl⟩
    · rcases List.mem_cons.mp h₂ with rfl | h₂
      · exact absurd hlt (h.asymm _ _ hlt)
      · exact absurd hlt (h.asymm _ _ (hback r₂ h₂ hg.symm))

/-- **Rows without gaps are aligned.** -/
theorem NoGaps.aligned {lt : L → L → Prop} (h : NoGaps group label lt rows)
    (hnd : (rows.map fun r => (group r, label r)).Nodup) :
    Aligned group label value rows where
  complete r hr l hl := by
    obtain ⟨⟨r', hr', rfl⟩, hlt⟩ := (h.mem_seenBefore hr).mp hl
    exact h.noGaps r hr r' hr' hlt
  equal r hr r' hr' := by
    -- `r` itself is the row of its group at this position
    have hmem : r ∈ ofGroup group rows (group r) := mem_ofGroup.mpr ⟨hr, rfl⟩
    obtain ⟨front, back, hgroup⟩ := List.append_of_mem hmem
    have hlen := (h.perm_front hnd hgroup).length_eq
    rw [List.length_map] at hlen
    rw [hgroup, ← hlen, List.getElem?_append_right (Nat.le_refl _), Nat.sub_self,
      List.getElem?_cons_zero] at hr'
    rw [Option.some.inj hr']

end Positions

end RsoVoting.Grouping
