import RsoVoting.Lib.Grouping

namespace RsoVoting.Web2py

open RsoVoting RsoVoting.Grouping

/-!
# The list of the candidates

The action `candidates` groups the candidates by the name of their party, in the order in
which the query returns them; the page shows a list for each party.

* `CandidatesDb` — the two tables; `joined` are the rows of the query;
* `OrderedRows` — what the query may return: these rows, in its `ORDER BY`;
* `candidates` — the loop over the rows;
* `candidates_listed` — every candidate of a party is listed once, with the others of the
  party or of one with the same name, ordered by surname; the others are not listed.
-/

/-- A row of the query: `name, lastname, partyname`. -/
structure CandidateListRow where
  name : String
  lastname : String
  partyname : String
deriving DecidableEq, Repr

/-- The tables that the query joins: the parties by id, and the candidates with their name,
    surname and party. -/
structure CandidatesDb where
  dParties : Table Int32 String
  dCandidates : Table Int32 (String × String × Option Int32)

/-- The row of a candidate, if it has a party. -/
def CandidatesDb.row (db : CandidatesDb) (candidate : String × String × Option Int32) :
    Option CandidateListRow := do
  let partyId ← candidate.2.2
  let partyname ← db.dParties.lookup partyId
  return { name := candidate.1, lastname := candidate.2.1, partyname }

/-- `d_candidates JOIN d_parties`. -/
def CandidatesDb.joined (db : CandidatesDb) : List CandidateListRow :=
  (Table.toPairs db.dCandidates).filterMap fun e => db.row e.2

/-- `ORDER BY d_parties.name ASC, d_candidates.surname ASC`, with the collation of the
    database. -/
def rowOrder (le : String → String → Prop) (row row' : CandidateListRow) : Prop :=
  (le row.partyname row'.partyname ∧ ¬le row'.partyname row.partyname) ∨
  (le row.partyname row'.partyname ∧ le row'.partyname row.partyname ∧
    le row.lastname row'.lastname)

/-- What the query may return. -/
structure OrderedRows (db : CandidatesDb) (le : String → String → Prop)
    (results : List CandidateListRow) : Prop where
  perm : results.Perm db.joined
  ordered : results.Pairwise (rowOrder le)

/-- `name + ", " + lastname`. -/
def CandidateListRow.entry (row : CandidateListRow) : String := row.name ++ ", " ++ row.lastname

/-- The body of the loop; `none` is the `None` before the first row. -/
def addCandidate (dictionary : Option (Table String (List String))) (row : CandidateListRow) :
    Option (Table String (List String)) :=
  match dictionary with
  | none => some (AList.insert row.partyname [row.entry] ∅)
  | some dictionary =>
    match dictionary.lookup row.partyname with
    | some entries => some (dictionary.insert row.partyname (entries ++ [row.entry]))
    | none         => some (dictionary.insert row.partyname [row.entry])

/-- `candidates()`. -/
def candidates (results : List CandidateListRow) : Option (Table String (List String)) :=
  results.foldl addCandidate none

/-! ### The loop -/

/-- A row is pushed to the list of its party. -/
theorem addCandidate_eq (dictionary : Option (Table String (List String)))
    (row : CandidateListRow) :
    addCandidate dictionary row = some (push (dictionary.getD ∅) row.partyname row.entry) := by
  unfold addCandidate push
  cases dictionary with
  | none => rfl
  | some dictionary => cases h : dictionary.lookup row.partyname <;> simp [h]

theorem foldl_addCandidate (results : List CandidateListRow)
    (dictionary : Option (Table String (List String))) :
    (results.foldl addCandidate dictionary).getD ∅ =
      results.foldl (fun m row => push m row.partyname row.entry) (dictionary.getD ∅) := by
  induction results generalizing dictionary with
  | nil => rfl
  | cons row results ih => rw [List.foldl_cons, List.foldl_cons, ih, addCandidate_eq]; rfl

theorem candidates_eq_none_iff {results : List CandidateListRow} :
    candidates results = none ↔ results = [] := by
  cases results using List.reverseRecOn with
  | nil => exact iff_of_true rfl rfl
  | append_singleton results row =>
    rw [candidates, List.foldl_append, List.foldl_cons, List.foldl_nil, addCandidate_eq]
    simp

/-- The list of a party are the entries of its rows. -/
theorem lookup_candidates (results : List CandidateListRow) (partyname : String) :
    ((candidates results).getD ∅).lookup partyname =
      if ofGroup CandidateListRow.partyname results partyname = [] then none
      else some ((ofGroup CandidateListRow.partyname results partyname).map
        CandidateListRow.entry) := by
  rw [candidates, foldl_addCandidate, lookup_foldl_push]
  simp

/-! ### What is listed -/

/-- **Every candidate of a party is listed once.**  Whatever the tables and the collation, the
    action returns `None` if no candidate has a party.  Otherwise a name has a list exactly if
    a party of this name has a candidate; the list has the candidates of all parties of the
    name, each once, and in the order of their surnames. -/
theorem candidates_listed {db : CandidatesDb} {le : String → String → Prop}
    {results : List CandidateListRow} (h : OrderedRows db le results) :
    (candidates results = none ↔
      ∀ c candidate, db.dCandidates.lookup c = some candidate → db.row candidate = none) ∧
    ∀ partyname, ∃ rows : List CandidateListRow,
      rows.Perm (db.joined.filter fun row => row.partyname = partyname) ∧
      rows.Pairwise (fun row row' => le row.lastname row'.lastname) ∧
      ((candidates results).getD ∅).lookup partyname =
        if rows = [] then none else some (rows.map CandidateListRow.entry) := by
  constructor
  · have hnil : results = [] ↔ db.joined = [] := by
      constructor
      · rintro rfl
        exact h.perm.nil_eq.symm
      · intro hjoined
        exact (hjoined ▸ h.perm).eq_nil
    rw [candidates_eq_none_iff, hnil, CandidatesDb.joined, List.filterMap_eq_nil_iff]
    constructor
    · exact fun hall c candidate hc => hall (c, candidate) (Table.mem_toPairs.mpr hc)
    · exact fun hall e he => hall e.1 e.2 (Table.mem_toPairs.mp he)
  · intro partyname
    refine ⟨ofGroup CandidateListRow.partyname results partyname, h.perm.filter _, ?_,
      lookup_candidates results partyname⟩
    -- within one party the rows are ordered by surname
    apply (h.ordered.filter _).imp_of_mem
    intro row row' hrow hrow' hle
    have hname := (mem_ofGroup.mp hrow).2.trans (mem_ofGroup.mp hrow').2.symm
    rcases hle with ⟨hle, hnot⟩ | ⟨-, -, hle⟩
    · rw [hname] at hle hnot
      exact absurd hle hnot
    · exact hle

namespace Sample

/-- Two candidates of one party, and one without a party. -/
def candidatesDb : CandidatesDb where
  dParties := AList.insert 1 "A" ∅
  dCandidates := AList.insert 1 ("Jan", "Nowak", some 1) (AList.insert 2 ("Anna", "Lis", some 1)
    (AList.insert 3 ("Ewa", "Kot", none) ∅))

/-- The rows of its query. -/
def candidateListRows : List CandidateListRow := [⟨"Anna", "Lis", "A"⟩, ⟨"Jan", "Nowak", "A"⟩]

end Sample

/-- The two candidates are listed under the name of their party. -/
theorem candidates_listed_sample : ∃ rows : List CandidateListRow,
    rows.Perm (Sample.candidatesDb.joined.filter fun row => row.partyname = "A") ∧
      ((candidates Sample.candidateListRows).getD ∅).lookup "A" =
        some (rows.map CandidateListRow.entry) := by
  have horder : OrderedRows Sample.candidatesDb (· ≤ ·) Sample.candidateListRows := by
    constructor
    · decide
    · exact List.pairwise_pair.mpr (.inr ⟨by decide, by decide, by decide⟩)
  obtain ⟨rows, hperm, -, hlookup⟩ := (candidates_listed horder).2 "A"
  refine ⟨rows, hperm, hlookup.trans (if_neg ?_)⟩
  rintro rfl
  exact absurd hperm.length_eq (by decide)

end RsoVoting.Web2py
