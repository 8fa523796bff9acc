import Mathlib.Data.List.Basic

namespace RsoVoting

/-!
# Documents of the `votes` collection

Votes travel through the whole system as schemaless documents: the servlet takes any JSON
object, the two-phase commit stores it, the aggregator reads six of its fields.  A
`Document` keeps the fields that some part of the code reads or writes, each with an
arbitrary BSON value or absent; other fields are left out.

* `BsonValue` — a field's value, as far as the code tells values apart;
* `Document.getInteger` / `getString` — the typed getters of the Java driver;
* `matchesTxId` — the equality filter on `txId` that a rollback deletes by.
-/

/-- A field's value: a 32-bit integer, a string, an explicit null, or a value of another
    type (kept as its text), which no typed getter of the code accepts. -/
inductive BsonValue where
  | int32 (n : Int32)
  | string (s : String)
  | null
  | other (json : String)
deriving DecidableEq, Repr

/-- A stored vote: the fields that the code reads, `none` where the field is absent. -/
structure Document where
  rowId : Option BsonValue := none
  txId : Option BsonValue := none
  pesel : Option BsonValue := none
  vote : Option BsonValue := none
  constituency : Option BsonValue := none
  gender : Option BsonValue := none
  education : Option BsonValue := none
deriving DecidableEq, Repr

/-- What the typed getters throw when the field has another type. -/
inductive ReadError where
  | classCastException
  | nullPointerException
deriving DecidableEq, Repr

/-- `document.getInteger(key)`: null for an absent field. -/
def getInteger : Option BsonValue → Except ReadError (Option Int32)
  | none            => .ok none
  | some .null      => .ok none
  | some (.int32 n) => .ok (some n)
  | some _          => .error .classCastException

/-- `document.getString(key)`: null for an absent field. -/
def getString : Option BsonValue → Except ReadError (Option String)
  | none             => .ok none
  | some .null       => .ok none
  | some (.string s) => .ok (some s)
  | some _           => .error .classCastException

/-- `Document("txId" -> txId)` with an optional id, read as a filter: an id matches the
    documents that carry it, `None` is sent as null and matches a null or absent field. -/
def matchesTxId (txId : Option String) (d : Document) : Bool :=
  match txId with
  | some t => d.txId = some (.string t)
  | none   => d.txId = none ∨ d.txId = some .null

/-- The documents of transaction `t` in a collection. -/
def ofTx (t : String) (votes : List Document) : List Document :=
  votes.filter fun d => d.txId = some (.string t)

theorem ofTx_append (t : String) (xs ys : List Document) :
    ofTx t (xs ++ ys) = ofTx t xs ++ ofTx t ys :=
  List.filter_append xs ys

/-- Storing a document of `t` shows up among the documents of `t`. -/
theorem ofTx_concat_self {t : String} {votes : List Document} {d : Document}
    (hd : d.txId = some (.string t)) : ofTx t (votes ++ [d]) = ofTx t votes ++ [d] := by
  simp [ofTx, hd]

/-- Storing a document of another transaction does not. -/
theorem ofTx_concat_of_ne {t u : String} {votes : List Document} {d : Document}
    (hd : d.txId = some (.string u)) (hne : u ≠ t) : ofTx t (votes ++ [d]) = ofTx t votes := by
  simp [ofTx, hd, hne]

/-- Deleting by the id of `t` removes every document of `t`. -/
theorem ofTx_delete_self (t : String) (votes : List Document) :
    ofTx t (votes.filter fun d => !matchesTxId (some t) d) = [] := by
  simp [ofTx, matchesTxId, List.filter_filter]

/-- Deleting by another id, or by no id, leaves the documents of `t` alone. -/
theorem ofTx_delete_of_ne {t : String} {txId : Option String} (h : txId ≠ some t)
    (votes : List Document) :
    ofTx t (votes.filter fun d => !matchesTxId txId d) = ofTx t votes := by
  rw [ofTx, List.filter_filter, ofTx]
  refine List.filter_congr fun d _ => ?_
  by_cases hd : d.txId = some (.string t)
  · cases txId with
    | none   => simp [matchesTxId, hd]
    | some u =>
      have hu : t ≠ u := fun e => h (e ▸ rfl)
      simp [matchesTxId, hd, hu]
  · simp [hd]

end RsoVoting
