import RsoVoting.Lib.Framing
import RsoVoting.TwoPhase.CommitActor

namespace RsoVoting.TwoPhase

open RsoVoting.Framing

/-!
# Commands as bytes on a TCP connection

Every command and every reply is written as one JSON object, with nothing between two of
them, and both ends parse each chunk `Received(data)` by itself.  So the commands get through
exactly if the chunks happen to be the objects.

* `WireCommand` / `Reply.text` — the texts that are written, as the JSON printer of the
  standard library makes them;
* `DbAgentActor.received` / `CommitActor.received` — the reactions to a chunk;
* `ParsesOneValue` — what is assumed of `JSON.parseFull(data.utf8String)`;
* `scan` — an automaton that finds where an object with a field can begin, and finds no
  such place inside a text;
* `acts_on_sent_iff` — the result, for both directions of the connection.
-/

/-! ### The texts -/

/-- `mkString(sep)`. -/
def mkString (sep : String) : List String → String
  | []           => ""
  | [x]          => x
  | x :: y :: xs => x ++ sep ++ mkString sep (y :: xs)

/-- A hexadecimal digit, as `%04x` prints it. -/
def hexDigit (n : ℕ) : Char := if n < 10 then Char.ofNat (48 + n) else Char.ofNat (87 + n)

/-- One character of a quoted string: quotes, backslashes and slashes are escaped, control
    characters are written as escapes. -/
def quoteChar (c : Char) : List Char :=
  match c.toNat with
  | 0x22 => "\\\"".toList
  | 0x5c => "\\\\".toList
  | 0x2f => "\\/".toList
  | 0x08 => "\\b".toList
  | 0x0c => "\\f".toList
  | 0x0a => "\\n".toList
  | 0x0d => "\\r".toList
  | 0x09 => "\\t".toList
  | n    =>
    if n ≤ 0x1f ∨ (0x7f ≤ n ∧ n ≤ 0x9f) then
      "\\u00".toList ++ [hexDigit (n / 16), hexDigit (n % 16)]
    else [c]

/-- `quoteString`. -/
def quoteString (s : String) : String := String.ofList (s.toList.flatMap quoteChar)

/-- A string as a JSON value. -/
def quoted (s : String) : String := "\"" ++ quoteString s ++ "\""

/-- `JSONArray(items).toString` for strings. -/
def jsonArray (items : List String) : String := "[" ++ mkString ", " (items.map quoted) ++ "]"

/-- `JSONObject(fields).toString`, with the values already printed. -/
def jsonObject (fields : List (String × String)) : String :=
  "\x7b" ++ mkString ", " (fields.map fun f => quoted f.1 ++ " : " ++ f.2) ++ "\x7d"

/-- `ByteString(text, "UTF-8")`. -/
def bytes (s : String) : List UInt8 := s.toList.flatMap String.utf8EncodeChar

@[simp] theorem bytes_append (s t : String) : bytes (s ++ t) = bytes s ++ bytes t := by
  simp [bytes]

/-- A command as it goes over the wire; `O` is how the vote's objects are represented. -/
inductive WireCommand (O : Type) where
  | vote (txId : String) (objects : List O)
  | commit
  | rollback
deriving DecidableEq, Repr

/-- `documents map { doc => write(doc) }`: the objects travel as the texts of their JSON. -/
def Command.onWire (write : Document → String) : Command → WireCommand String
  | .vote txId objects => .vote txId (objects.map write)
  | .commit            => .commit
  | .rollback          => .rollback

/-- `command.toString()`. -/
def WireCommand.text : WireCommand String → String
  | .vote txId objects =>
    jsonObject [("command", quoted "vote"), ("txId", quoted txId), ("objects", jsonArray objects)]
  | .commit            => jsonObject [("command", quoted "commit")]
  | .rollback          => jsonObject [("command", quoted "rollback")]

/-- The `response` field of an agent's reply. -/
def Reply.response : Reply → String
  | .voteOk => "vote_ok"
  | .ack    => "ack"

/-- `respond(replyTo, response)`. -/
def Reply.text (r : Reply) : String := jsonObject [("command", quoted r.response)]

/-! ### The reactions to a chunk -/

/-- A parsed JSON value, as far as the handlers tell values apart. -/
inductive Json where
  | obj (fields : List (String × Json))
  | arr (items : List Json)
  | str (s : String)
  | other

/-- The parsed form of a command. -/
def WireCommand.json : WireCommand String → Json
  | .vote txId objects =>
    .obj [("command", .str "vote"), ("txId", .str txId), ("objects", .arr (objects.map .str))]
  | .commit            => .obj [("command", .str "commit")]
  | .rollback          => .obj [("command", .str "rollback")]

/-- The parsed form of a reply. -/
def Reply.json (r : Reply) : Json := .obj [("command", .str r.response)]

/-- A command as the agent reads it: the objects of a vote are whatever values there are. -/
def WireCommand.asRead : WireCommand String → WireCommand Json
  | .vote txId objects => .vote txId (objects.map .str)
  | .commit            => .commit
  | .rollback          => .rollback

namespace DbAgentActor

/-- The command that the agent acts on when a chunk has this parse.  An unparsable chunk is
    logged and forgotten; a value that is no object, an unknown command and an incomplete
    vote throw, and the restarted agent goes on with the next chunk. -/
def received : Option Json → Option (WireCommand Json)
  | some (.obj fields) =>
    match fields.lookup "command" with
    | some (.str "vote") =>
      match fields.lookup "objects", fields.lookup "txId" with
      | some (.arr objects), some (.str txId) => some (.vote txId objects)
      | _, _                                  => none
    | some (.str "commit")   => some .commit
    | some (.str "rollback") => some .rollback
    | _                      => none
  | _ => none

/-- The commands that the agent acts on over a sequence of chunks. -/
def acts (parse : List UInt8 → Option Json) (chunks : List (List UInt8)) :
    List (WireCommand Json) :=
  chunks.filterMap fun data => received (parse data)

end DbAgentActor

namespace CommitActor

/-- The message that is forwarded to the listener for a parsed chunk. -/
def forwarded : Json → Message
  | .obj fields =>
    match fields.lookup "command" with
    | some (.str "vote_ok") => .voteOk
    | some (.str "ack")     => .ack
    | _                     => .unknownError
  | _ => .unknownError

/-- The messages forwarded over a sequence of chunks.  An unparsable chunk throws (`.get`
    of `None`), and the restarted actor no longer handles `Received`. -/
def received (parse : List UInt8 → Option Json) : List (List UInt8) → List Message
  | []             => []
  | data :: chunks =>
    match parse data with
    | none   => []
    | some v => forwarded v :: received parse chunks

end CommitActor

/-! ### What is assumed of the parser -/

/-- White space between JSON tokens. -/
def blank (b : UInt8) : Prop := b.toNat ≤ 0x20

instance : DecidablePred blank := fun b => inferInstanceAs (Decidable (b.toNat ≤ 0x20))

/-- The bytes begin, behind white space, with an object that has a field. -/
def StartsObject (x : List UInt8) : Prop :=
  ∃ ws₁ ws₂ rest, x = ws₁ ++ 0x7b :: ws₂ ++ 0x22 :: rest ∧
    (∀ b ∈ ws₁, blank b) ∧ ∀ b ∈ ws₂, blank b

/-- `JSON.parseFull(data.utf8String)` accepts exactly one complete JSON value: an accepted
    object with a field begins like one, and an accepted text stays accepted only with white
    space behind it. -/
structure ParsesOneValue (parse : List UInt8 → Option Json) : Prop where
  startsObject : ∀ {x fields}, parse x = some (.obj fields) → fields ≠ [] → StartsObject x
  oneValue : ∀ {x y v w}, parse x = some v → parse (x ++ y) = some w → ∀ b ∈ y, blank b

/-! ### Where an object can begin in a text -/

/-- Scan for the opening brace and the quote of an object with a field.  The state says
    whether such a brace has just been read; `none` is a find. -/
def scanByte (opened : Bool) (b : UInt8) : Option Bool :=
  if b.toNat = 0x22 then (if opened then none else some false)
  else if b.toNat = 0x7b then some true
  else if b.toNat ≤ 0x20 then some opened
  else some false

/-- Scan a sequence of bytes. -/
def scan (opened : Bool) (x : List UInt8) : Option Bool := x.foldlM scanByte opened

theorem scan_append (opened : Bool) (x y : List UInt8) :
    scan opened (x ++ y) = (scan opened x).bind fun s => scan s y := by
  simp [scan, List.foldlM_append]

/-- White space leaves the scan where it is. -/
theorem scan_blank {opened : Bool} {x : List UInt8} (h : ∀ b ∈ x, blank b) :
    scan opened x = some opened := by
  induction x with
  | nil => rfl
  | cons b x ih =>
    have hb : b.toNat ≤ 0x20 := h b (by simp)
    have hstep : scanByte opened b = some opened := by
      rw [scanByte, if_neg (by omega), if_neg (by omega), if_pos hb]
    rw [show b :: x = [b] ++ x from rfl, scan_append, scan, List.foldlM_cons, hstep]
    exact ih fun b' hb' => h b' (by simp [hb'])

/-- The scan finds the beginning of an object with a field, wherever it is. -/
theorem scan_eq_none {opened : Bool} {w x : List UInt8} (hx : StartsObject x) :
    scan opened (w ++ x) = none := by
  obtain ⟨ws₁, ws₂, rest, rfl, -, h₂⟩ := hx
  have hopen : ∀ o, scan o [0x7b] = some true := by decide
  have hquote : scan true [0x22] = none := by decide
  rw [scan_append]
  cases scan opened w with
  | none => rfl
  | some o₁ =>
    rw [show ws₁ ++ 0x7b :: ws₂ ++ 0x22 :: rest = ws₁ ++ ([0x7b] ++ (ws₂ ++ ([0x22] ++ rest))) by
      simp]
    -- the brace is remembered over the white space, and the quote is the find
    simp only [scan_append, Option.bind_some]
    cases scan o₁ ws₁ with
    | none => rfl
    | some o₂ => simp [hopen, scan_blank h₂, hquote]

/-! #### Scanning a quoted string -/

/-- A byte that is no quote, no opening brace and no white space. -/
def Plain (b : UInt8) : Prop := b.toNat ≠ 0x22 ∧ b.toNat ≠ 0x7b ∧ 0x20 < b.toNat

/-- Plain bytes end a find. -/
theorem scan_plain (opened : Bool) {x : List UInt8} (hne : x ≠ []) (h : ∀ b ∈ x, Plain b) :
    scan opened x = some false := by
  induction x generalizing opened with
  | nil => exact absurd rfl hne
  | cons b x ih =>
    obtain ⟨hq, hb, hw⟩ := h b (by simp)
    have hstep : scanByte opened b = some false := by
      rw [scanByte, if_neg hq, if_neg hb, if_neg (by omega)]
    rw [scan, List.foldlM_cons, hstep]
    by_cases hx : x = []
    · subst hx
      rfl
    · exact ih false hx fun b' hb' => h b' (by simp [hb'])

/-- The bytes of a plain character are plain, however many they are. -/
theorem plain_of_mem_utf8EncodeChar {c : Char} (hq : c.toNat ≠ 0x22) (hb : c.toNat ≠ 0x7b)
    (hw : 0x20 < c.toNat) : ∀ b ∈ String.utf8EncodeChar c, Plain b := by
  -- every byte of an encoding of more than one byte is at least `0x80`
  have hlow : ∀ n, n % 256 ≠ 0x22 ∧ n % 256 ≠ 0x7b ∧ 0x20 < n % 256 → Plain (UInt8.ofNat n) := by
    intro n hn
    simpa [Plain] using hn
  have hc : c.toNat = c.val.toNat := rfl
  have hlt : c.val.toNat < 0x110000 := by
    have := c.valid
    simp only [UInt32.isValidChar, Nat.isValidChar] at this
    omega
  rw [hc] at hq hb hw
  simp only [String.utf8EncodeChar]
  split_ifs <;>
    simp only [List.mem_cons, List.not_mem_nil, or_false, forall_eq_or_imp, forall_eq]
  · exact hlow _ (by omega)
  · exact ⟨hlow _ (by omega), hlow _ (by omega)⟩
  · exact ⟨hlow _ (by omega), hlow _ (by omega), hlow _ (by omega)⟩
  · exact ⟨hlow _ (by omega), hlow _ (by omega), hlow _ (by omega), hlow _ (by omega)⟩

/-- The state of the scan behind a character of a quoted string. -/
def opensAfter (opened : Bool) (c : Char) : Bool :=
  c.toNat == 0x7b || (opened && c.toNat == 0x20)

/-- A character without an escape of its own. -/
theorem quoteChar_eq {c : Char}
    (hc : c.toNat ∉ [0x22, 0x5c, 0x2f, 0x08, 0x0c, 0x0a, 0x0d, 0x09]) :
    quoteChar c =
      if c.toNat ≤ 0x1f ∨ (0x7f ≤ c.toNat ∧ c.toNat ≤ 0x9f) then
        "\\u00".toList ++ [hexDigit (c.toNat / 16), hexDigit (c.toNat % 16)]
      else [c] := by
  simp only [List.mem_cons, List.not_mem_nil, or_false, not_or] at hc
  obtain ⟨h₁, h₂, h₃, h₄, h₅, h₆, h₇, h₈⟩ := hc
  unfold quoteChar
  split <;> first | contradiction | rfl

/-- An escape never looks like the end of a string, and no other character is written as
    a quote. -/
theorem scan_quoteChar (opened : Bool) (c : Char) :
    scan opened ((quoteChar c).flatMap String.utf8EncodeChar) = some (opensAfter opened c) := by
  have hchar : ∀ n, c.toNat = n → c = Char.ofNat n := fun n h => h ▸ (Char.ofNat_toNat c).symm
  -- the characters the scan or the printer treats specially are few enough to run through
  have hspecial : ∀ n ∈ [0x22, 0x5c, 0x2f, 0x08, 0x0c, 0x0a, 0x0d, 0x09, 0x7b, 0x20],
      ∀ o, scan o ((quoteChar (Char.ofNat n)).flatMap String.utf8EncodeChar) =
        some (opensAfter o (Char.ofNat n)) := by decide
  by_cases hmem : c.toNat ∈ [0x22, 0x5c, 0x2f, 0x08, 0x0c, 0x0a, 0x0d, 0x09, 0x7b, 0x20]
  · have h := hspecial _ hmem opened
    rwa [Char.ofNat_toNat] at h
  have hafter : opensAfter opened c = false := by
    simp only [List.mem_cons, not_or] at hmem
    simp [opensAfter, hmem]
  rw [hafter]
  simp only [List.mem_cons, List.not_mem_nil, or_false, not_or] at hmem
  have hquote := quoteChar_eq (c := c) (by simp [hmem])
  by_cases hctrl : c.toNat ≤ 0x1f ∨ (0x7f ≤ c.toNat ∧ c.toNat ≤ 0x9f)
  · -- a control character is written as an escape
    have hesc : quoteChar c =
        "\\u00".toList ++ [hexDigit (c.toNat / 16), hexDigit (c.toNat % 16)] :=
      hquote.trans (if_pos hctrl)
    have hhex : ∀ n < 16, (hexDigit n).toNat ≠ 0x22 ∧ (hexDigit n).toNat ≠ 0x7b ∧
        0x20 < (hexDigit n).toNat := by decide
    have hpre : scan opened ("\\u00".toList.flatMap String.utf8EncodeChar) = some false := by
      cases opened <;> decide
    rw [hesc, List.flatMap_append, scan_append, hpre, Option.bind_some]
    obtain ⟨h₁, h₂, h₃⟩ := hhex (c.toNat / 16) (by omega)
    obtain ⟨h₄, h₅, h₆⟩ := hhex (c.toNat % 16) (by omega)
    refine scan_plain false (by simp [String.utf8EncodeChar_ne_nil]) fun b hb => ?_
    simp only [List.flatMap_cons, List.flatMap_nil, List.append_nil, List.mem_append] at hb
    exact hb.elim (plain_of_mem_utf8EncodeChar h₁ h₂ h₃ b)
      (plain_of_mem_utf8EncodeChar h₄ h₅ h₆ b)
  -- any other character is written as it is
  · have hself : quoteChar c = [c] := hquote.trans (if_neg hctrl)
    rw [hself, List.flatMap_singleton]
    exact scan_plain opened String.utf8EncodeChar_ne_nil
      (plain_of_mem_utf8EncodeChar (by omega) (by omega) (by omega))

/-- The state of the scan behind the characters of a quoted string: whether they end in an
    opening brace and white space. -/
def opensAt (opened : Bool) (cs : List Char) : Bool := cs.foldl opensAfter opened

theorem scan_quoteString (opened : Bool) (s : String) :
    scan opened (bytes (quoteString s)) = some (opensAt opened s.toList) := by
  rw [bytes, quoteString, String.toList_ofList, List.flatMap_assoc]
  induction s.toList generalizing opened with
  | nil => rfl
  | cons c cs ih =>
    rw [List.flatMap_cons, scan_append, scan_quoteChar, Option.bind_some, ih]
    rfl

/-- A string that does not end in an opening brace is scanned without a find. -/
theorem scan_quoted {s : String} (h : opensAt false s.toList = false) :
    scan false (bytes (quoted s)) = some false := by
  have hquote : scan false (bytes "\"") = some false := by decide
  rw [quoted, bytes_append, bytes_append, scan_append, scan_append, hquote, Option.bind_some,
    scan_quoteString, h, Option.bind_some, hquote]

/-- A string without opening braces is one such string. -/
theorem opensAt_of_notMem {cs : List Char} (h : ∀ c ∈ cs, c.toNat ≠ 0x7b) :
    opensAt false cs = false := by
  induction cs with
  | nil => rfl
  | cons c cs ih =>
    have hc : opensAfter false c = false := by simp [opensAfter, h c (by simp)]
    rw [opensAt, List.foldl_cons, hc]
    exact ih fun c' hc' => h c' (by simp [hc'])

/-- The text of an object, which ends in a closing brace, is another one. -/
theorem opensAt_of_getLast? {cs : List Char} {c : Char} (h : cs.getLast? = some c)
    (hc : c.toNat = 0x7d) : opensAt false cs = false := by
  obtain ⟨init, rfl⟩ := List.getLast?_eq_some_iff.mp h
  simp [opensAt, opensAfter, hc]

/-! #### The texts of the protocol -/

/-- What the texts need to be made of: an id without an opening brace, and objects. -/
def WireCommand.WellFormed : WireCommand String → Prop
  | .vote txId objects =>
    (∀ c ∈ txId.toList, c.toNat ≠ 0x7b) ∧
      ∀ s ∈ objects, ∃ c, s.toList.getLast? = some c ∧ c.toNat = 0x7d
  | .commit   => True
  | .rollback => True

/-- The commands of a `CommitActor` are made of such texts, as its transaction id is a UUID
    and documents are printed as objects. -/
theorem Command.wellFormed_onWire {write : Document → String}
    (hwrite : ∀ d, ∃ c, (write d).toList.getLast? = some c ∧ c.toNat = 0x7d) {m : Command}
    (hid : ∀ txId objects, m = .vote txId objects → ∀ c ∈ txId.toList, c.toNat ≠ 0x7b) :
    (m.onWire write).WellFormed := by
  cases m with
  | vote txId objects =>
    refine ⟨hid txId objects rfl, fun s hs => ?_⟩
    obtain ⟨d, -, rfl⟩ := List.mem_map.mp hs
    exact hwrite d
  | commit   => trivial
  | rollback => trivial

theorem scan_mkString {items : List String}
    (h : ∀ s ∈ items, scan false (bytes s) = some false) :
    scan false (bytes (mkString ", " items)) = some false := by
  have hsep : scan false (bytes ", ") = some false := by decide
  induction items with
  | nil => decide
  | cons x items ih =>
    have hx := h x (by simp)
    cases items with
    | nil => exact hx
    | cons y ys =>
      rw [mkString, bytes_append, bytes_append, scan_append, scan_append, hx, Option.bind_some,
        hsep, Option.bind_some, ih fun s hs => h s (by simp [hs])]

theorem scan_jsonArray {items : List String}
    (h : ∀ s ∈ items, opensAt false s.toList = false) :
    scan false (bytes (jsonArray items)) = some false := by
  have hopen : scan false (bytes "[") = some false := by decide
  have hclose : scan false (bytes "]") = some false := by decide
  have hitems : scan false (bytes (mkString ", " (items.map quoted))) = some false := by
    refine scan_mkString fun s hs => ?_
    obtain ⟨s', hs', rfl⟩ := List.mem_map.mp hs
    exact scan_quoted (h s' hs')
  rw [jsonArray, bytes_append, bytes_append, scan_append, scan_append, hopen, Option.bind_some,
    hitems, Option.bind_some, hclose]

/-- A written object: an opening brace, then no place where another object with a field
    could begin, and a closing brace at the end. -/
def ObjectText (x : List UInt8) : Prop :=
  ∃ body, x = 0x7b :: (body ++ [0x7d]) ∧ scan false (body ++ [0x7d]) = some false

theorem objectText_jsonObject {fields : List (String × String)}
    (h : ∀ f ∈ fields, opensAt false f.1.toList = false ∧ scan false (bytes f.2) = some false) :
    ObjectText (bytes (jsonObject fields)) := by
  have hcolon : scan false (bytes " : ") = some false := by decide
  have hclose : scan false [0x7d] = some false := by decide
  have hitems : scan false (bytes (mkString ", "
      (fields.map fun f => quoted f.1 ++ " : " ++ f.2))) = some false := by
    refine scan_mkString fun s hs => ?_
    obtain ⟨f, hf, rfl⟩ := List.mem_map.mp hs
    obtain ⟨hkey, hvalue⟩ := h f hf
    rw [bytes_append, bytes_append, scan_append, scan_append, scan_quoted hkey, Option.bind_some,
      hcolon, Option.bind_some, hvalue]
  refine ⟨bytes (mkString ", " (fields.map fun f => quoted f.1 ++ " : " ++ f.2)), ?_, ?_⟩
  · rw [jsonObject, bytes_append, bytes_append]
    rfl
  · rw [scan_append, hitems, Option.bind_some, hclose]

/-- Every command is written as such an object. -/
theorem WireCommand.objectText {m : WireCommand String} (h : m.WellFormed) :
    ObjectText (bytes m.text) := by
  cases m with
  | vote txId objects =>
    obtain ⟨hid, hobjects⟩ := h
    -- a quoted document ends in its own closing brace, so its quote opens nothing
    have hitems : ∀ s ∈ objects, opensAt false s.toList = false := by
      intro s hs
      obtain ⟨c, hlast, hc⟩ := hobjects s hs
      exact opensAt_of_getLast? hlast hc
    refine objectText_jsonObject fun f hf => ?_
    simp only [List.mem_cons, List.not_mem_nil, or_false] at hf
    rcases hf with rfl | rfl | rfl
    · exact ⟨by decide, scan_quoted (by decide)⟩
    · exact ⟨show opensAt false "txId".toList = false by decide,
        scan_quoted (opensAt_of_notMem hid)⟩
    · exact ⟨show opensAt false "objects".toList = false by decide, scan_jsonArray hitems⟩
  | commit | rollback =>
    refine objectText_jsonObject fun f hf => ?_
    obtain rfl := List.mem_singleton.mp hf
    exact ⟨by decide, scan_quoted (by decide)⟩

/-- So is every reply. -/
theorem Reply.objectText (r : Reply) : ObjectText (bytes r.text) := by
  refine objectText_jsonObject fun f hf => ?_
  obtain rfl := List.mem_singleton.mp hf
  cases r <;> exact ⟨by decide, scan_quoted (by decide)⟩

/-! ### A receiver acts on whole objects only -/

section Delimited

variable {parse : List UInt8 → Option Json}

/-- A text of the protocol that the parser accepts. -/
def IsText (parse : List UInt8 → Option Json) (x : List UInt8) : Prop :=
  ObjectText x ∧ ∃ v, parse x = some v

/-- A receiver that acts only on objects with a field acts on whole texts only. -/
theorem delimited (hp : ParsesOneValue parse) {acts : List UInt8 → Bool}
    (hacts : ∀ x, acts x = true → ∃ fields, parse x = some (.obj fields) ∧ fields ≠ []) :
    Delimited acts (IsText parse) where
  acts_nil := by
    rw [Bool.eq_false_iff]
    intro h
    obtain ⟨fields, hparse, hne⟩ := hacts [] h
    obtain ⟨ws₁, ws₂, rest, hx, -⟩ := hp.startsObject hparse hne
    simp at hx
  inner {w u c r s} htext hw hu hc heq := by
    obtain ⟨⟨body, hbody, hscan⟩, -⟩ := htext
    obtain ⟨fields, hparse, hne⟩ := hacts c hc
    obtain ⟨ws₁, ws₂, rest, rfl, h₁, h₂⟩ := hp.startsObject hparse hne
    -- the text begins with a brace, which lies in front of the chunk
    obtain ⟨b, w', rfl⟩ := List.exists_cons_of_ne_nil hw
    have htail : w' ++ u = body ++ [0x7d] := by simpa using (List.cons.inj hbody).2
    -- the beginning of the object lies within the text, which does not have another one
    have hsplit : (ws₁ ++ 0x7b :: ws₂ ++ [0x22]) ++ (rest ++ r) = u ++ s := by
      rw [← heq]
      simp
    rcases List.append_eq_append_iff.mp hsplit with ⟨a, hu', -⟩ | ⟨a, hpat, -⟩
    · have hstart : StartsObject u := ⟨ws₁, ws₂, a, by rw [hu']; simp, h₁, h₂⟩
      rw [← htail, scan_eq_none hstart] at hscan
      simp at hscan
    -- the text ends before the quote: its closing brace would be in the white space
    · have hlast : (0x7d : UInt8) ∈ u := by
        have hend : (w' ++ u).getLast? = some 0x7d := by rw [htail, List.getLast?_concat]
        rw [List.getLast?_append_of_ne_nil _ hu] at hend
        exact List.mem_of_getLast? hend
      have hmem : (0x7d : UInt8) ∈ ws₁ ++ 0x7b :: ws₂ ++ [0x22] := hpat ▸ by simp [hlast]
      simp only [List.mem_append, List.mem_cons, List.not_mem_nil, or_false] at hmem
      rcases hmem with (hmem | hmem | hmem) | hmem
      · exact absurd (h₁ _ hmem) (by decide)
      · exact absurd hmem (by decide)
      · exact absurd (h₂ _ hmem) (by decide)
      · exact absurd hmem (by decide)
  outer {t c r ts} ht hts hc heq := by
    obtain ⟨⟨body, hbody, -⟩, v, hv⟩ := ht
    obtain ⟨fields, hparse, -⟩ := hacts c hc
    rcases List.append_eq_append_iff.mp heq with ⟨a, hta, -⟩ | ⟨a, rfl, hrest⟩
    · -- the chunk is a prefix of the text: what is missing ends in a brace or is empty
      have hblank := hp.oneValue hparse (hta ▸ hv)
      by_cases ha : a = []
      · simp [hta, ha]
      have hend : (c ++ a).getLast? = some 0x7d := by
        rw [← hta, hbody, ← List.cons_append, List.getLast?_concat]
      rw [List.getLast?_append_of_ne_nil _ ha] at hend
      exact absurd (hblank _ (List.mem_of_getLast? hend)) (by decide)
    · -- the text is a prefix of the chunk: what is more begins with a brace or is empty
      have hblank := hp.oneValue hv hparse
      cases a with
      | nil => simp
      | cons b a =>
        have hb : b = 0x7b := by
          cases ts with
          | nil => simp at hrest
          | cons t' ts =>
            obtain ⟨⟨body', hbody', -⟩, -⟩ := hts t' (by simp)
            rw [hbody'] at hrest
            exact (List.cons.inj hrest).1.symm
        exact absurd (hblank b (by simp)) (by rw [hb]; decide)

end Delimited

/-! ### The two directions of a connection -/

section Directions

variable {parse : List UInt8 → Option Json}

theorem DbAgentActor.received_json (m : WireCommand String) :
    received (some m.json) = some m.asRead := by
  cases m <;> rfl

theorem CommitActor.forwarded_json (r : Reply) :
    forwarded r.json = Connection.Reply.forward r := by
  cases r <;> rfl

/-- The agent acts on objects with a field only. -/
theorem DbAgentActor.obj_of_received {x : List UInt8}
    (h : (received (parse x)).isSome = true) :
    ∃ fields, parse x = some (.obj fields) ∧ fields ≠ [] := by
  unfold received at h
  split at h
  · next fields hparse =>
    refine ⟨fields, hparse, ?_⟩
    rintro rfl
    simp at h
  · simp at h

/-- So does the `CommitActor`, as far as it forwards a `VoteOk` or an `Ack`. -/
theorem CommitActor.obj_of_forwarded {v : Json} (h : forwarded v ≠ .unknownError) :
    ∃ fields, v = .obj fields ∧ fields ≠ [] := by
  unfold forwarded at h
  split at h
  · next fields =>
    refine ⟨fields, rfl, ?_⟩
    rintro rfl
    simp at h
  · exact absurd rfl h

/-- **From the coordinator to the agent**: the agent acts on exactly the commands sent if
    and only if every chunk is the text of one of them. -/
theorem DbAgentActor.acts_iff (hp : ParsesOneValue parse) {sent : List (WireCommand String)}
    (hwf : ∀ m ∈ sent, m.WellFormed) (hsent : ∀ m ∈ sent, parse (bytes m.text) = some m.json)
    {chunks : List (List UInt8)} (hne : ∀ c ∈ chunks, c ≠ [])
    (hstream : chunks.flatten = (sent.map fun m => bytes m.text).flatten) :
    acts parse chunks = sent.map WireCommand.asRead ↔
      chunks = sent.map fun m => bytes m.text := by
  constructor
  · intro h
    -- as many chunks are acted on as commands were sent
    have hD : Delimited (fun x => (received (parse x)).isSome) (IsText parse) :=
      delimited hp fun x => obj_of_received
    refine chunks_eq_of_length hD ?_ hne hstream ?_
    · intro x hx
      obtain ⟨m, hm, rfl⟩ := List.mem_map.mp hx
      exact ⟨m.objectText (hwf m hm), _, hsent m hm⟩
    · have hlen := congrArg List.length h
      rw [acts, List.length_filterMap_eq_countP, List.length_map] at hlen
      rw [← List.countP_eq_length_filter, hlen, List.length_map]
  · rintro rfl
    clear hne hstream hwf
    induction sent with
    | nil => rfl
    | cons m sent ih =>
      have hm := hsent m (by simp)
      rw [acts, List.map_cons, List.filterMap_cons, hm, received_json, List.map_cons]
      exact congrArg _ (ih fun m' hm' => hsent m' (by simp [hm']))

/-- As long as it forwards neither an unknown message nor stops, every chunk counts. -/
private theorem CommitActor.length_filter {replies : List Reply} {chunks : List (List UInt8)}
    (h : received parse chunks = replies.map Connection.Reply.forward) :
    replies.length ≤ (chunks.filter fun x =>
      (parse x).any fun v => forwarded v ≠ .unknownError).length := by
  induction chunks generalizing replies with
  | nil =>
    cases replies with
    | nil => simp
    | cons r replies => simp [received] at h
  | cons c cs ih =>
    rw [received] at h
    cases hparse : parse c with
    | none =>
      rw [hparse] at h
      cases replies with
      | nil => simp
      | cons r replies => simp at h
    | some v =>
      rw [hparse] at h
      cases replies with
      | nil => simp
      | cons r replies =>
        simp only [List.map_cons, List.cons.injEq] at h
        obtain ⟨hv, hrest⟩ := h
        have hne : forwarded v ≠ .unknownError := by rw [hv]; cases r <;> decide
        rw [List.filter_cons_of_pos (by simp [hparse, hne])]
        simpa using ih hrest

/-- **From the agent to the coordinator**: the `CommitActor` forwards exactly the replies
    sent if and only if every chunk is the text of one of them. -/
theorem CommitActor.received_iff (hp : ParsesOneValue parse) {replies : List Reply}
    (hreplies : ∀ r ∈ replies, parse (bytes r.text) = some r.json)
    {chunks : List (List UInt8)} (hne : ∀ c ∈ chunks, c ≠ [])
    (hstream : chunks.flatten = (replies.map fun r => bytes r.text).flatten) :
    received parse chunks = replies.map Connection.Reply.forward ↔
      chunks = replies.map fun r => bytes r.text := by
  constructor
  · intro h
    have hD : Delimited (fun x => (parse x).any fun v => forwarded v ≠ .unknownError)
        (IsText parse) := by
      refine delimited hp fun x hx => ?_
      cases hparse : parse x with
      | none => simp [hparse] at hx
      | some v =>
        have hforward : forwarded v ≠ .unknownError := by simpa [hparse] using hx
        obtain ⟨fields, rfl, hne⟩ := obj_of_forwarded hforward
        exact ⟨fields, rfl, hne⟩
    have htexts : ∀ x ∈ replies.map fun r => bytes r.text, IsText parse x := by
      intro x hx
      obtain ⟨r, hr, rfl⟩ := List.mem_map.mp hx
      exact ⟨r.objectText, _, hreplies r hr⟩
    -- the chunks that count are texts of replies, and there is one for each forwarded message
    have hle := (filter_sublist hD (u := []) htexts (.inl rfl) hstream).length_le
    refine chunks_eq_of_length hD htexts hne hstream (Nat.le_antisymm hle ?_)
    rw [List.length_map]
    exact length_filter h
  · rintro rfl
    clear hne hstream
    induction replies with
    | nil => rfl
    | cons r replies ih =>
      rw [List.map_cons, received, hreplies r (by simp), List.map_cons]
      dsimp only
      rw [forwarded_json, ih fun r' hr' => hreplies r' (by simp [hr'])]

/-- **When the command protocol survives segmentation.**  However the two streams of a
    connection are cut into chunks, the agent acts on exactly the commands sent if and only
    if its chunks are exactly their texts, and the `CommitActor` forwards exactly the
    replies sent if and only if its chunks are exactly theirs. -/
theorem acts_on_sent_iff (hp : ParsesOneValue parse) {sent : List (WireCommand String)}
    (hwf : ∀ m ∈ sent, m.WellFormed) (hsent : ∀ m ∈ sent, parse (bytes m.text) = some m.json)
    {replies : List Reply} (hreplies : ∀ r ∈ replies, parse (bytes r.text) = some r.json)
    {chunks replyChunks : List (List UInt8)} (hne : ∀ c ∈ chunks, c ≠ [])
    (hne' : ∀ c ∈ replyChunks, c ≠ [])
    (hstream : chunks.flatten = (sent.map fun m => bytes m.text).flatten)
    (hstream' : replyChunks.flatten = (replies.map fun r => bytes r.text).flatten) :
    (DbAgentActor.acts parse chunks = sent.map WireCommand.asRead ↔
      chunks = sent.map fun m => bytes m.text) ∧
    (CommitActor.received parse replyChunks = replies.map Connection.Reply.forward ↔
      replyChunks = replies.map fun r => bytes r.text) :=
  ⟨DbAgentActor.acts_iff hp hwf hsent hne hstream,
    CommitActor.received_iff hp hreplies hne' hstream'⟩

end Directions

/-! ### A sample parser -/

namespace Sample

/-- A vote with one document. -/
def vote : WireCommand String := .vote "t1" ["\x7b\"vote\" : 7\x7d"]

/-- The texts of this vote, and of the commands and replies without data. -/
def texts : List (List UInt8 × Json) :=
  [(bytes vote.text, vote.json),
    (bytes (WireCommand.text .commit), WireCommand.json .commit),
    (bytes (WireCommand.text .rollback), WireCommand.json .rollback),
    (bytes Reply.voteOk.text, Reply.voteOk.json), (bytes Reply.ack.text, Reply.ack.json)]

/-- A parser that knows these texts only. -/
def parse (x : List UInt8) : Option Json := texts.lookup x

theorem exists_mem_of_parse {x : List UInt8} {v : Json} (h : parse x = some v) :
    x ∈ texts.map (·.1) := by
  obtain ⟨l₁, l₂, heq, -⟩ := List.lookup_eq_some_iff.mp h
  simp [heq]

/-- It behaves like one that accepts one complete value. -/
theorem parsesOneValue : ParsesOneValue parse where
  startsObject {x fields} h _ := by
    have hstart : ∀ x ∈ texts.map (·.1), ∃ rest, x = [] ++ 0x7b :: [] ++ 0x22 :: rest := by
      intro x hx
      refine ⟨x.drop 2, ?_⟩
      have : ∀ x ∈ texts.map (·.1), x = [] ++ 0x7b :: [] ++ 0x22 :: x.drop 2 := by decide
      exact this x hx
    obtain ⟨rest, hx⟩ := hstart x (exists_mem_of_parse h)
    exact ⟨[], [], rest, hx, by simp, by simp⟩
  oneValue {x y v w} hx hy := by
    have hprefix : ∀ a ∈ texts.map (·.1), ∀ b ∈ texts.map (·.1), a <+: b → a = b := by decide
    have heq := hprefix x (exists_mem_of_parse hx) _ (exists_mem_of_parse hy)
      (List.prefix_append x y)
    have hnil : y = [] := by simpa using heq
    simp [hnil]

end Sample

/-- A commit and a rollback that arrive in one chunk are both missed. -/
theorem joined_commands_are_missed :
    ¬∀ (parse : List UInt8 → Option Json) (sent : List (WireCommand String))
      (chunks : List (List UInt8)), ParsesOneValue parse → (∀ m ∈ sent, m.WellFormed) →
      (∀ m ∈ sent, parse (bytes m.text) = some m.json) → (∀ c ∈ chunks, c ≠ []) →
      chunks.flatten = (sent.map fun m => bytes m.text).flatten →
      DbAgentActor.acts parse chunks = sent.map WireCommand.asRead := by
  intro h
  have hmissed : DbAgentActor.acts Sample.parse
      [bytes (WireCommand.text .commit) ++ bytes (WireCommand.text .rollback)] = [] := by rfl
  have hall := h Sample.parse [.commit, .rollback]
    [bytes (WireCommand.text .commit) ++ bytes (WireCommand.text .rollback)]
    Sample.parsesOneValue (by simp [WireCommand.WellFormed])
    (by rintro m hm
        simp only [List.mem_cons, List.not_mem_nil, or_false] at hm
        rcases hm with rfl | rfl <;> rfl)
    (by decide) (by simp)
  rw [hmissed] at hall
  simp at hall

/-- A vote and a commit: with a chunk for each they get through, and so do the replies; with
    the vote cut behind its transaction id they do not. -/
theorem acts_on_sent_iff_sample :
    let vote := bytes Sample.vote.text
    let commit := bytes (WireCommand.text .commit)
    DbAgentActor.acts Sample.parse [vote, commit] = [Sample.vote.asRead, .commit] ∧
    DbAgentActor.acts Sample.parse [vote.take 34, vote.drop 34, commit] ≠
      [Sample.vote.asRead, .commit] ∧
    CommitActor.received Sample.parse [bytes Reply.voteOk.text, bytes Reply.ack.text] =
      [.voteOk, .ack] := by
  intro vote commit
  have hwf : ∀ m ∈ [Sample.vote, .commit], m.WellFormed := by
    rintro m hm
    simp only [List.mem_cons, List.not_mem_nil, or_false] at hm
    rcases hm with rfl | rfl
    · exact ⟨by simp, by simp⟩
    · trivial
  have hsent : ∀ m ∈ [Sample.vote, .commit], Sample.parse (bytes m.text) = some m.json := by
    intro m hm
    simp only [List.mem_cons, List.not_mem_nil, or_false] at hm
    rcases hm with rfl | rfl <;> rfl
  have hreplies : ∀ r ∈ [Reply.voteOk, .ack], Sample.parse (bytes r.text) = some r.json := by
    intro r _
    cases r <;> rfl
  have hne : ∀ c ∈ [vote, commit], c ≠ [] := by decide
  have hne' : ∀ c ∈ [vote.take 34, vote.drop 34, commit], c ≠ [] := by decide
  have hreply : ∀ c ∈ [bytes Reply.voteOk.text, bytes Reply.ack.text], c ≠ [] := by decide
  obtain ⟨hwhole, hforwards⟩ :=
    acts_on_sent_iff Sample.parsesOneValue hwf hsent hreplies hne hreply rfl rfl
  obtain ⟨hcut, -⟩ :=
    acts_on_sent_iff Sample.parsesOneValue hwf hsent hreplies hne' hreply rfl rfl
  exact ⟨hwhole.mpr rfl, fun h => absurd (hcut.mp h) (by decide), hforwards.mpr rfl⟩

end RsoVoting.TwoPhase
