import RsoVoting.Lib.Grouping
import Mathlib.Data.List.Sort

namespace RsoVoting.Web2py

open RsoVoting RsoVoting.Grouping

/-!
# The grouped charts

Three actions of the controller return the counts by party and constituency, age group or
education: the values of each party as a list, and the names of the other dimension in the
order in which the rows first show them.  The browser draws the `i`-th value of a party over
the `i`-th name.

* `ResultsDb` — the tables that the queries join; `select` is the query;
* `groupedData` — what the three actions make of the rows;
* `GroupedData.drawn` — what `showMixedColumnChart` draws;
* `charts_attribute_iff` — when every count is drawn over its own name;
* `attributes_of_complete` — in particular if no party leaves out a name before one it has;
* `sparse_charts_misattribute` — but not if two parties have votes of different names only.
-/

/-! ### The queries -/

/-- A row of a query: `name, votes_sum, districtName`. -/
structure Row where
  name : String
  votesSum : Int32
  districtName : String
deriving DecidableEq, Repr

/-- The tables that the charts are made of: the names by id, the counts by party and id. -/
structure ResultsDb where
  dParties : Table Int32 String
  dConstituencies : Table Int32 String
  dAge : Table Int32 String
  dEducation : Table Int32 String
  resPartyConstituency : Table (Int32 × Int32) Int32
  resPartyAge : Table (Int32 × Int32) Int32
  resPartyEducation : Table (Int32 × Int32) Int32

/-- `ORDER BY` the party's id and the other one, both `ASC`. -/
def orderBy (k k' : Int32 × Int32) : Prop := k.1 < k'.1 ∨ k.1 = k'.1 ∧ k.2 ≤ k'.2

instance : DecidableRel orderBy := fun _ _ => inferInstanceAs (Decidable (_ ∨ _))

/-- The counts in the order of their ids. -/
def sorted (results : Table (Int32 × Int32) Int32) : List ((Int32 × Int32) × Int32) :=
  (Table.toPairs results).insertionSort fun e e' => orderBy e.1 e'.1

/-- The counts joined with the names of their party and of their other id. -/
def select (parties names : Table Int32 String) (results : Table (Int32 × Int32) Int32) :
    List Row :=
  (sorted results).filterMap fun e => do
    let name ← parties.lookup e.1.1
    let districtName ← names.lookup e.1.2
    return { name, votesSum := e.2, districtName }

/-! ### The actions -/

/-- What an action returns; `votes` is `None` if there are no rows. -/
structure GroupedData where
  votes : Option (Table String (List Int32)) := none
  districts : List String := []

/-- The body of the loop over the rows. -/
def GroupedData.add (data : GroupedData) (row : Row) : GroupedData where
  districts :=
    if row.districtName ∈ data.districts then data.districts
    else data.districts ++ [row.districtName]
  votes :=
    match data.votes with
    | none => some (AList.insert row.name [row.votesSum] ∅)
    | some dictionary =>
      match dictionary.lookup row.name with
      | some votes => some (dictionary.insert row.name (votes ++ [row.votesSum]))
      | none       => some (dictionary.insert row.name [row.votesSum])

/-- The common body of the three actions. -/
def groupedData (results : List Row) : GroupedData := results.foldl GroupedData.add {}

namespace ResultsDb

/-- The rows of the query of `getConstituenciesPercentageData()`. -/
def constituencyRows (db : ResultsDb) : List Row :=
  select db.dParties db.dConstituencies db.resPartyConstituency

/-- The rows of the query of `getAgePercentageData()`. -/
def ageRows (db : ResultsDb) : List Row := select db.dParties db.dAge db.resPartyAge

/-- The rows of the query of `getEducationPercentageData()`. -/
def educationRows (db : ResultsDb) : List Row :=
  select db.dParties db.dEducation db.resPartyEducation

/-- `getConstituenciesPercentageData()`. -/
def getConstituenciesPercentageData (db : ResultsDb) : GroupedData :=
  groupedData db.constituencyRows

/-- `getAgePercentageData()`. -/
def getAgePercentageData (db : ResultsDb) : GroupedData := groupedData db.ageRows

/-- `getEducationPercentageData()`. -/
def getEducationPercentageData (db : ResultsDb) : GroupedData := groupedData db.educationRows

end ResultsDb

/-- What `showMixedColumnChart` draws for a party over the `i`-th label. -/
def GroupedData.drawn (data : GroupedData) (name : String) (i : ℕ) : Option Int32 := do
  let dictionary ← data.votes
  let votes ← dictionary.lookup name
  votes[i]?

/-- Every row is drawn over its name, and nothing but a 0 anywhere else. -/
def GroupedData.Attributes (data : GroupedData) (rows : List Row) : Prop :=
  (∀ row ∈ rows, ∃ i, data.districts[i]? = some row.districtName ∧
    data.drawn row.name i = some row.votesSum) ∧
  ∀ name i v, data.drawn name i = some v →
    v = 0 ∨ ∃ row ∈ rows, row.name = name ∧ data.districts[i]? = some row.districtName ∧
      row.votesSum = v

/-! ### What the loop collects -/

/-- The loop collects the names in order of first appearance. -/
theorem districts_groupedData (rows : List Row) :
    (groupedData rows).districts = firstSeen (rows.map Row.districtName) := by
  have hloop : ∀ data : GroupedData, (rows.foldl GroupedData.add data).districts =
      (rows.map Row.districtName).foldl addNew data.districts := by
    induction rows with
    | nil => exact fun _ => rfl
    | cons row rows ih => exact fun data => ih (data.add row)
  exact hloop {}

/-- The dictionary, empty while it is `None`. -/
def GroupedData.dictionary (data : GroupedData) : Table String (List Int32) := data.votes.getD ∅

/-- A row is pushed to the list of its party. -/
theorem GroupedData.dictionary_add (data : GroupedData) (row : Row) :
    (data.add row).dictionary = push data.dictionary row.name row.votesSum := by
  unfold dictionary add push
  cases data.votes with
  | none => rfl
  | some dictionary => cases h : dictionary.lookup row.name <;> simp [h]

theorem GroupedData.drawn_eq (data : GroupedData) (name : String) (i : ℕ) :
    data.drawn name i = (data.dictionary.lookup name).bind (·[i]?) := by
  unfold drawn dictionary
  cases data.votes <;> rfl

/-- What is drawn for a party are the counts of its rows, one after the other. -/
theorem drawn_groupedData (rows : List Row) (name : String) (i : ℕ) :
    (groupedData rows).drawn name i = (series Row.name Row.votesSum rows name)[i]? := by
  have hloop : ∀ data : GroupedData, (rows.foldl GroupedData.add data).dictionary =
      rows.foldl (fun m row => push m row.name row.votesSum) data.dictionary := by
    induction rows with
    | nil => exact fun _ => rfl
    | cons row rows ih =>
      intro data
      rw [List.foldl_cons, List.foldl_cons, ih, data.dictionary_add]
  have hdict := hloop {}
  rw [GroupedData.drawn_eq, groupedData, hdict, lookup_foldl_push]
  split
  · next hnil => simp [series, hnil, GroupedData.dictionary]
  · simp [series, GroupedData.dictionary]

/-- The loop attributes rows with distinct names exactly if they are aligned. -/
theorem groupedData_attributes_iff {rows : List Row}
    (hnd : (rows.map fun row => (row.name, row.districtName)).Nodup) :
    (groupedData rows).Attributes rows ↔
      Aligned Row.name Row.districtName Row.votesSum rows := by
  rw [← attributed_iff hnd]
  unfold GroupedData.Attributes
  simp only [districts_groupedData, drawn_groupedData]
  refine ⟨fun h => h.1, fun h => ⟨h, fun name i v hv => .inr ?_⟩⟩
  exact h.exists_row hnd hv

/-! ### The rows of a query -/

/-- The names are distinct. -/
def Distinct (names : Table Int32 String) : Prop :=
  ∀ i j n, names.lookup i = some n → names.lookup j = some n → i = j

section Select

variable {parties names : Table Int32 String} {results : Table (Int32 × Int32) Int32}

theorem orderBy_total (k k' : Int32 × Int32) : orderBy k k' ∨ orderBy k' k := by
  simp only [orderBy, Int32.lt_iff_toInt_lt, Int32.le_iff_toInt_le, ← Int32.toInt_inj]
  omega

theorem orderBy_trans {k₁ k₂ k₃ : Int32 × Int32} (h : orderBy k₁ k₂) (h' : orderBy k₂ k₃) :
    orderBy k₁ k₃ := by
  simp only [orderBy, Int32.lt_iff_toInt_lt, Int32.le_iff_toInt_le, ← Int32.toInt_inj] at *
  omega

/-- The counts come in the order of their ids. -/
theorem pairwise_sorted (results : Table (Int32 × Int32) Int32) :
    (sorted results).Pairwise fun e e' => orderBy e.1 e'.1 := by
  have : Std.Total fun e e' : (Int32 × Int32) × Int32 => orderBy e.1 e'.1 :=
    ⟨fun e e' => orderBy_total e.1 e'.1⟩
  have : IsTrans _ fun e e' : (Int32 × Int32) × Int32 => orderBy e.1 e'.1 :=
    ⟨fun _ _ _ => orderBy_trans⟩
  exact List.pairwise_insertionSort _ _

theorem mem_sorted {k : Int32 × Int32} {v : Int32} :
    (k, v) ∈ sorted results ↔ results.lookup k = some v := by
  rw [sorted, List.mem_insertionSort, Table.mem_toPairs]

theorem nodup_keys_sorted (results : Table (Int32 × Int32) Int32) :
    ((sorted results).map Prod.fst).Nodup :=
  ((List.perm_insertionSort _ _).map _).nodup_iff.mpr (Table.nodup_keys_toPairs results)

/-- The names of a row. -/
def joined (parties names : Table Int32 String) (k : Int32 × Int32) : Option (String × String) := do
  let name ← parties.lookup k.1
  let districtName ← names.lookup k.2
  return (name, districtName)

theorem joined_eq_some {k : Int32 × Int32} {n m : String} :
    joined parties names k = some (n, m) ↔
      parties.lookup k.1 = some n ∧ names.lookup k.2 = some m := by
  unfold joined
  cases parties.lookup k.1 <;> cases names.lookup k.2 <;> simp

/-- The rows are the counts whose ids have names. -/
theorem select_eq : select parties names results =
    (sorted results).filterMap fun e =>
      (joined parties names e.1).map fun n => ⟨n.1, e.2, n.2⟩ := by
  unfold select joined
  refine List.filterMap_congr fun e _ => ?_
  cases parties.lookup e.1.1 <;> cases names.lookup e.1.2 <;> rfl

/-- Distinct ids have distinct names. -/
theorem nodup_names_select (hparties : Distinct parties) (hnames : Distinct names) :
    ((select parties names results).map fun row => (row.name, row.districtName)).Nodup := by
  have hkeys : ((select parties names results).map fun row => (row.name, row.districtName)) =
      ((sorted results).map Prod.fst).filterMap (joined parties names) := by
    rw [select_eq, List.map_filterMap, List.filterMap_map]
    refine List.filterMap_congr fun e _ => ?_
    simp [Option.map_map, Function.comp_def]
  rw [hkeys]
  refine (nodup_keys_sorted results).filterMap fun k k' n hk hk' => ?_
  obtain ⟨hp, hn⟩ := joined_eq_some.mp (Option.mem_def.mp hk)
  obtain ⟨hp', hn'⟩ := joined_eq_some.mp (Option.mem_def.mp hk')
  exact Prod.ext (hparties _ _ _ hp hp') (hnames _ _ _ hn hn')

/-- A row with its ids. -/
theorem mem_select {row : Row} :
    row ∈ select parties names results ↔
      ∃ k, results.lookup k = some row.votesSum ∧ parties.lookup k.1 = some row.name ∧
        names.lookup k.2 = some row.districtName := by
  rw [select_eq, List.mem_filterMap]
  constructor
  · rintro ⟨e, he, hrow⟩
    obtain ⟨n, hn, rfl⟩ := Option.map_eq_some_iff.mp hrow
    exact ⟨e.1, mem_sorted.mp he, joined_eq_some.mp hn⟩
  · rintro ⟨k, hv, hnames⟩
    exact ⟨(k, row.votesSum), mem_sorted.mpr hv, by rw [joined_eq_some.mpr hnames]; rfl⟩

/-- No party leaves out an id that is smaller than one it has and that some party has. -/
def Complete (results : Table (Int32 × Int32) Int32) : Prop :=
  ∀ k k', (results.lookup k).isSome = true → (results.lookup k').isSome = true → k'.2 < k.2 →
    (results.lookup (k.1, k'.2)).isSome = true

/-- The order of the names by their ids. -/
def byId (names : Table Int32 String) (n n' : String) : Prop :=
  ∃ i j, names.lookup i = some n ∧ names.lookup j = some n' ∧ i < j

/-- The rows of complete tables have no gaps. -/
theorem noGaps_select (hparties : Distinct parties) (hnames : Distinct names)
    (hcomplete : Complete results) :
    NoGaps Row.name Row.districtName (byId names) (select parties names results) where
  asymm := by
    rintro n n' ⟨i, j, hi, hj, hlt⟩ ⟨j', i', hj', hi', hlt'⟩
    obtain rfl := hnames _ _ _ hi hi'
    obtain rfl := hnames _ _ _ hj hj'
    rw [Int32.lt_iff_toInt_lt] at hlt hlt'
    omega
  total row hrow row' hrow' hne := by
    obtain ⟨k, -, -, hk⟩ := mem_select.mp hrow
    obtain ⟨k', -, -, hk'⟩ := mem_select.mp hrow'
    have hid : k.2 ≠ k'.2 := fun e => hne (Option.some.inj (hk.symm.trans (e ▸ hk')))
    have hlt : k.2 < k'.2 ∨ k'.2 < k.2 := by
      rw [Ne, ← Int32.toInt_inj] at hid
      rw [Int32.lt_iff_toInt_lt, Int32.lt_iff_toInt_lt]
      omega
    exact hlt.imp (fun h => ⟨_, _, hk, hk', h⟩) fun h => ⟨_, _, hk', hk, h⟩
  ordered := by
    rw [select_eq, List.pairwise_filterMap]
    have hnd := List.pairwise_map.mp (nodup_keys_sorted results)
    refine (pairwise_sorted results).imp₂ (fun e e' hord hne row hrow row' hrow' hname => ?_) hnd
    obtain ⟨n, hn, rfl⟩ := Option.map_eq_some_iff.mp hrow
    obtain ⟨n', hn', rfl⟩ := Option.map_eq_some_iff.mp hrow'
    obtain ⟨hp, hc⟩ := joined_eq_some.mp hn
    obtain ⟨hp', hc'⟩ := joined_eq_some.mp hn'
    -- the same party, so the other ids are ordered, and they are different
    have hparty : e.1.1 = e'.1.1 := hparties _ _ _ hp (hp'.trans (congrArg some hname.symm))
    refine ⟨_, _, hc, hc', ?_⟩
    have hid : e.1.2 ≠ e'.1.2 := fun h => hne (Prod.ext hparty h)
    rw [orderBy, Int32.lt_iff_toInt_lt, Int32.le_iff_toInt_le, hparty] at hord
    rw [Ne, ← Int32.toInt_inj] at hid
    rw [Int32.lt_iff_toInt_lt]
    omega
  noGaps row hrow row' hrow' hlt := by
    obtain ⟨k, hv, hp, hc⟩ := mem_select.mp hrow
    obtain ⟨k', hv', -, hc'⟩ := mem_select.mp hrow'
    obtain ⟨i, j, hi, hj, hlt⟩ := hlt
    obtain rfl := hnames _ _ _ hi hc'
    obtain rfl := hnames _ _ _ hj hc
    obtain ⟨v, hv₂⟩ := Option.isSome_iff_exists.mp
      (hcomplete k k' (by simp [hv]) (by simp [hv']) hlt)
    exact ⟨⟨row.name, v, row'.districtName⟩, mem_select.mpr ⟨_, hv₂, hp, hc'⟩, rfl, rfl⟩

end Select

/-! ### When the charts are right -/

/-- **The grouped charts** attribute every count to its own name exactly if, among the rows in
    the order of the query, no party leaves out a name that is shown before one it has, and
    where a party's row stands at the place of another of its names the two counts are equal. -/
theorem charts_attribute_iff (db : ResultsDb) (hparties : Distinct db.dParties)
    (hconstituencies : Distinct db.dConstituencies) (hage : Distinct db.dAge)
    (heducation : Distinct db.dEducation) :
    (db.getConstituenciesPercentageData.Attributes db.constituencyRows ↔
      Aligned Row.name Row.districtName Row.votesSum db.constituencyRows) ∧
    (db.getAgePercentageData.Attributes db.ageRows ↔
      Aligned Row.name Row.districtName Row.votesSum db.ageRows) ∧
    (db.getEducationPercentageData.Attributes db.educationRows ↔
      Aligned Row.name Row.districtName Row.votesSum db.educationRows) :=
  ⟨groupedData_attributes_iff (nodup_names_select hparties hconstituencies),
    groupedData_attributes_iff (nodup_names_select hparties hage),
    groupedData_attributes_iff (nodup_names_select hparties heducation)⟩

/-- So a chart of a complete table is right. -/
theorem attributes_of_complete {parties names : Table Int32 String}
    {results : Table (Int32 × Int32) Int32} (hparties : Distinct parties)
    (hnames : Distinct names) (hcomplete : Complete results) :
    (groupedData (select parties names results)).Attributes (select parties names results) :=
  have hnd := nodup_names_select hparties hnames
  (groupedData_attributes_iff hnd).mpr ((noGaps_select hparties hnames hcomplete).aligned hnd)

/-! ### Two parties -/

namespace Sample

/-- Two names. -/
def names (n m : String) : Table Int32 String := AList.insert 1 n (AList.insert 2 m ∅)

/-- The same counts by constituency, age group and education. -/
def resultsDb (results : Table (Int32 × Int32) Int32) : ResultsDb where
  dParties := names "A" "B"
  dConstituencies := names "x" "y"
  dAge := names "x" "y"
  dEducation := names "x" "y"
  resPartyConstituency := results
  resPartyAge := results
  resPartyEducation := results

/-- Only `B` has no vote of the second name. -/
def dense : Table (Int32 × Int32) Int32 :=
  AList.insert (2, 1) 5 (AList.insert (1, 2) 4 (AList.insert (1, 1) 3 ∅))

/-- `A` has votes of the first name only, `B` of the second only. -/
def sparse : Table (Int32 × Int32) Int32 := AList.insert (2, 2) 5 (AList.insert (1, 1) 3 ∅)

theorem distinct_names {n m : String} (h : n ≠ m) : Distinct (names n m) := by
  intro i j k hi hj
  simp only [names, Table.lookup_insert_eq, AList.lookup_empty] at hi hj
  split_ifs at hi hj <;> simp_all

theorem aligned_dense :
    Aligned Row.name Row.districtName Row.votesSum (resultsDb dense).constituencyRows where
  complete := by decide
  equal := show ∀ r ∈ _, ∀ r' ∈ (_ : Option Row), _ from by decide

/-- `B`'s only count is drawn over `x`. -/
theorem not_attributes_sparse : ¬(groupedData (resultsDb sparse).constituencyRows).Attributes
    (resultsDb sparse).constituencyRows := by
  rintro ⟨hrows, -⟩
  obtain ⟨i, hi, hv⟩ := hrows ⟨"B", 5, "y"⟩ (by decide)
  have hdistricts : (groupedData (resultsDb sparse).constituencyRows).districts = ["x", "y"] := by
    decide
  rw [hdistricts] at hi
  match i, hi with
  | 1, _ => exact absurd hv (by decide)

end Sample

/-- A party without votes of the last name does no harm. -/
theorem charts_attribute_sample :
    (Sample.resultsDb Sample.dense).getConstituenciesPercentageData.Attributes
      (Sample.resultsDb Sample.dense).constituencyRows ∧
    (Sample.resultsDb Sample.dense).getAgePercentageData.Attributes
      (Sample.resultsDb Sample.dense).ageRows ∧
    (Sample.resultsDb Sample.dense).getEducationPercentageData.Attributes
      (Sample.resultsDb Sample.dense).educationRows := by
  have hab := Sample.distinct_names (show "A" ≠ "B" by decide)
  have hxy := Sample.distinct_names (show "x" ≠ "y" by decide)
  obtain ⟨hconstituencies, hage, heducation⟩ :=
    charts_attribute_iff (Sample.resultsDb Sample.dense) hab hxy hxy hxy
  exact ⟨hconstituencies.mpr Sample.aligned_dense, hage.mpr Sample.aligned_dense,
    heducation.mpr Sample.aligned_dense⟩

/-- **A count is drawn over the wrong name**, in all three charts, if the first party has votes
    of the first name only and the second of the second only. -/
theorem sparse_charts_misattribute :
    (Distinct (Sample.resultsDb Sample.sparse).dParties ∧
      Distinct (Sample.resultsDb Sample.sparse).dConstituencies ∧
      Distinct (Sample.resultsDb Sample.sparse).dAge ∧
      Distinct (Sample.resultsDb Sample.sparse).dEducation) ∧
    ¬(Sample.resultsDb Sample.sparse).getConstituenciesPercentageData.Attributes
      (Sample.resultsDb Sample.sparse).constituencyRows ∧
    ¬(Sample.resultsDb Sample.sparse).getAgePercentageData.Attributes
      (Sample.resultsDb Sample.sparse).ageRows ∧
    ¬(Sample.resultsDb Sample.sparse).getEducationPercentageData.Attributes
      (Sample.resultsDb Sample.sparse).educationRows := by
  have hab := Sample.distinct_names (show "A" ≠ "B" by decide)
  have hxy := Sample.distinct_names (show "x" ≠ "y" by decide)
  exact ⟨⟨hab, hxy, hxy, hxy⟩, Sample.not_attributes_sparse, Sample.not_attributes_sparse,
    Sample.not_attributes_sparse⟩

end RsoVoting.Web2py
