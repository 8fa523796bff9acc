import RsoVoting.Lib.Split
import RsoVoting.Lib.Table

namespace RsoVoting.Configuration

open RsoVoting

/-!
# Lists of hosts

The servlet and the aggregator are told the same hosts by one variable of the environment, a
list with commas, and each appends the port of the program that it talks to there.  The name
server has such lists as properties, and answers with an entry that it draws.

* `split` — Java's `split` by one character, which also takes an address apart;
* `dbHostsConf` / `getProperties` — the addresses that the two programs make of a variable;
* `CommitActor.remote` — where the servlet then connects to;
* `configured_hosts` — both go to the hosts that were listed, if no name contains a colon;
* `DnsController` — the name server;
* `resolves_exactly` — a name is answered with the entries of its list and nothing else.
-/

/-- `s.split(sep)`. -/
def split (sep : Char) (s : String) : List String :=
  (Split.split sep s.toList).map String.ofList

/-- `Integer.parseInt(s)`, `none` if it throws. -/
def parseInt (s : String) : Option ℤ :=
  let (sign, digits) : ℤ × List Char := match s.toList with
    | '-' :: digits => (-1, digits)
    | '+' :: digits => (1, digits)
    | digits        => (1, digits)
  if digits ≠ [] ∧ digits.all Char.isDigit then
    let n := sign * (digits.foldl (fun n d => 10 * n + (d.toNat - '0'.toNat)) 0 : ℕ)
    if -2 ^ 31 ≤ n ∧ n < 2 ^ 31 then some n else none
  else none

/-! ### The addresses of the hosts -/

/-- The environment of a process. -/
abbrev Environment := String → Option String

/-- `dbHostsConf` of `TwoPhaseCommitActor`: the agents listen on port 8881. -/
def dbHostsConf (env : Environment) : Option (List String) := do
  let hosts ← env "MONGO_HOSTS"
  return (split ',' hosts).map (· ++ ":8881")

/-- The addresses that `getProperties()` of a handler makes of a variable; without the two
    variables the aggregator exits. -/
def getProperties (name port : String) (env : Environment) : Option (List String) := do
  guard ((env "MONGO_HOSTS").isSome ∧ (env "POSTGRES_HOSTS").isSome)
  let allHosts ← env name
  return (split ',' allHosts).map (· ++ ":" ++ port)

/-- `getProperties()` of `MongoHandler`. -/
def MongoHandler.getProperties : Environment → Option (List String) :=
  Configuration.getProperties "MONGO_HOSTS" "27017"

/-- `getProperties()` of `PostgresHandler`. -/
def PostgresHandler.getProperties : Environment → Option (List String) :=
  Configuration.getProperties "POSTGRES_HOSTS" "5432"

/-- `hostname` and `port` of a `CommitActor`, `none` if its constructor throws. -/
def CommitActor.remote (dbHostUrl : String) : Option (String × ℤ) := do
  let hostname ← (split ':' dbHostUrl)[0]?
  let port ← (split ':' dbHostUrl)[1]? >>= parseInt
  return (hostname, port)

/-! ### The name server -/

namespace DnsController

/-- What the name server answers: an address, `404`, or the failure of a request whose
    handler throws. -/
inductive Response where
  | ok (ip : String)
  | notFound
  | error
deriving DecidableEq, Repr

/-- `init()`, over the properties that have been loaded. -/
def init (prop : Table String String) : Table String (List String) :=
  Table.insertAll ∅ ((Table.toPairs prop).map fun p => (p.1, split ',' p.2))

/-- `random.nextInt(bound)` for a draw of the generator; it throws for an empty range. -/
def nextInt (draw bound : ℕ) : Option ℕ := if bound = 0 then none else some (draw % bound)

/-- `resolve(domainName)`. -/
def resolve (lookupTable : Table String (List String)) (domainName : String) (draw : ℕ) :
    Response :=
  match lookupTable.lookup domainName with
  | none     => .notFound
  | some ips =>
    match (nextInt draw ips.length).bind fun i => ips[i]? with
    | some ip => .ok ip
    | none    => .error

end DnsController

/-! ### Splitting strings -/

/-- Splitting a list with commas, or the like, that has been joined. -/
theorem split_intercalate {sep : Char} {parts : List String}
    (hsep : ∀ s ∈ parts, sep ∉ s.toList) {last : String} (hlast : parts.getLast? = some last)
    (hne : last ≠ "") : split sep ((String.singleton sep).intercalate parts) = parts := by
  have hsplit : Split.split sep ([sep].intercalate (parts.map String.toList)) =
      parts.map String.toList := by
    refine Split.split_intercalate_of_last (by simpa using hsep) (p := last.toList) ?_ ?_
    · rw [List.getLast?_map, hlast, Option.map_some]
    · simpa using hne
  rw [split, String.toList_intercalate, String.toList_singleton, hsplit, List.map_map]
  simp [Function.comp_def]

/-- The entries of a list do not contain its separator. -/
theorem notMem_of_mem_split {sep : Char} {s part : String} (h : part ∈ split sep s) :
    sep ∉ part.toList := by
  obtain ⟨p, hp, rfl⟩ := List.mem_map.mp h
  rw [String.toList_ofList]
  exact Split.notMem_of_mem_split hp

/-- There is no entry exactly in a list of separators only. -/
theorem split_eq_nil_iff {sep : Char} {s : String} :
    split sep s = [] ↔ s ≠ "" ∧ ∀ c ∈ s.toList, c = sep := by
  rw [split, List.map_eq_nil_iff, Split.split_eq_nil_iff]
  simp

/-! ### Where the programs go -/

/-- **The agent that a `CommitActor` connects to** is the one on the host, exactly if the name
    of the host contains no colon. -/
theorem remote_eq_iff (host : String) :
    CommitActor.remote (host ++ ":8881") = some (host, 8881) ↔ ':' ∉ host.toList := by
  have hport : parseInt "8881" = some 8881 := by decide
  have hsplit : split ':' (host ++ ":8881") =
      (host.toList.splitOn ':').map String.ofList ++ ["8881"] := by
    have hlist : (host ++ ":8881").toList = host.toList ++ ':' :: "8881".toList := by
      rw [String.toList_append]
      rfl
    rw [split, hlist, Split.split_append (by decide) (by decide), List.map_append]
    rfl
  constructor
  · intro h hcolon
    -- the name it takes is the first piece, which has no colon
    simp only [CommitActor.remote, Option.bind_eq_bind, Option.bind_eq_some_iff] at h
    obtain ⟨hostname, hhost, port, -, h⟩ := h
    obtain ⟨rfl, -⟩ := Prod.mk.inj (Option.some.inj h)
    exact notMem_of_mem_split (List.mem_of_getElem? hhost) hcolon
  · intro hcolon
    rw [List.splitOn_eq_singleton hcolon] at hsplit
    simp [CommitActor.remote, hsplit, hport]

theorem getProperties_eq {env : Environment} {name port allHosts : String}
    (hset : (env "MONGO_HOSTS").isSome ∧ (env "POSTGRES_HOSTS").isSome)
    (h : env name = some allHosts) :
    getProperties name port env = some ((split ',' allHosts).map (· ++ ":" ++ port)) := by
  unfold getProperties
  rw [guard, if_pos hset, h]
  rfl

/-- **Both programs go to the hosts that were listed.**  Of a list of names without commas,
    the aggregator makes the addresses of the same hosts, in the same order, and so does the
    servlet; its `CommitActor`s then connect to these hosts exactly if no name contains a
    colon. -/
theorem configured_hosts {env : Environment} {hosts : List String}
    (hcomma : ∀ host ∈ hosts, ',' ∉ host.toList) {last : String}
    (hlast : hosts.getLast? = some last) (hne : last ≠ "")
    (hmongo : env "MONGO_HOSTS" = some (",".intercalate hosts))
    (hpostgres : (env "POSTGRES_HOSTS").isSome = true) :
    MongoHandler.getProperties env = some (hosts.map fun host => host ++ ":27017") ∧
      ((dbHostsConf env).map fun urls => urls.map CommitActor.remote) =
        some (hosts.map fun host => CommitActor.remote (host ++ ":8881")) ∧
      ((hosts.map fun host => CommitActor.remote (host ++ ":8881")) =
          (hosts.map fun host => some (host, 8881)) ↔
        ∀ host ∈ hosts, ':' ∉ host.toList) := by
  have hsplit : split ',' (",".intercalate hosts) = hosts := split_intercalate hcomma hlast hne
  refine ⟨?_, ?_, ?_⟩
  · have hguard : (env "MONGO_HOSTS").isSome ∧ (env "POSTGRES_HOSTS").isSome :=
      ⟨by rw [hmongo]; rfl, hpostgres⟩
    have hport : ∀ host : String, host ++ ":" ++ "27017" = host ++ ":27017" := fun host => by
      rw [String.append_assoc]
      rfl
    rw [MongoHandler.getProperties, getProperties_eq hguard hmongo, hsplit]
    exact congrArg some (List.map_congr_left fun host _ => hport host)
  · simp [dbHostsConf, hmongo, hsplit]
  · rw [List.map_inj_left]
    exact forall₂_congr fun host _ => remote_eq_iff host

/-- Three hosts, of which one is written with a port: the servlet connects to that port. -/
theorem configured_hosts_sample :
    let hosts := ["10.0.0.1", "mongo", "b:27017"]
    let env : Environment := fun _ => some (",".intercalate hosts)
    MongoHandler.getProperties env =
        some ["10.0.0.1:27017", "mongo:27017", "b:27017:27017"] ∧
      (dbHostsConf env).map (fun urls => urls.map CommitActor.remote) =
        some [some ("10.0.0.1", 8881), some ("mongo", 8881), some ("b", 27017)] ∧
      (hosts.map fun host => CommitActor.remote (host ++ ":8881")) ≠
        hosts.map fun host => some (host, 8881) := by
  intro hosts env
  obtain ⟨hmongo, hservlet, hcolon⟩ :=
    @configured_hosts env hosts (by decide) "b:27017" rfl (by decide) rfl rfl
  exact ⟨hmongo, hservlet.trans (by decide), fun h => absurd (hcolon.mp h) (by decide)⟩

/-! ### What the name server answers -/

namespace DnsController

variable {prop : Table String String} {domainName value : String}

/-- The name server has a list for every property. -/
theorem lookup_init (prop : Table String String) (domainName : String) :
    (init prop).lookup domainName = (prop.lookup domainName).map (split ',') :=
  Table.lookup_insertAll_map (split ',') prop domainName

/-- A name that is a property is answered by a draw from its list. -/
theorem resolve_of_lookup (hvalue : prop.lookup domainName = some value) (draw : ℕ) :
    resolve (init prop) domainName draw =
      ((split ',' value)[draw % (split ',' value).length]?).elim .error .ok := by
  have hdraw : ((nextInt draw (split ',' value).length).bind fun i => (split ',' value)[i]?) =
      (split ',' value)[draw % (split ',' value).length]? := by
    unfold nextInt
    split
    · next h => simp [List.eq_nil_of_length_eq_zero h]
    · rfl
  unfold resolve
  rw [lookup_init, hvalue, Option.map_some]
  dsimp only
  rw [hdraw]
  cases (split ',' value)[draw % (split ',' value).length]? <;> rfl

/-- **A name is answered with the entries of its list and nothing else**, each for some draw.
    A request fails exactly if the list consists of commas, and there is no answer for the
    names that are not properties. -/
theorem resolves_exactly (prop : Table String String) (domainName : String) :
    (prop.lookup domainName = none ↔ ∀ draw, resolve (init prop) domainName draw = .notFound) ∧
    ∀ value, prop.lookup domainName = some value →
      (∀ ip, (∃ draw, resolve (init prop) domainName draw = .ok ip) ↔ ip ∈ split ',' value) ∧
      (∀ draw, resolve (init prop) domainName draw = .error ↔
        value ≠ "" ∧ ∀ c ∈ value.toList, c = ',') := by
  refine ⟨⟨fun h draw => ?_, fun h => ?_⟩, fun value hvalue => ⟨fun ip => ?_, fun draw => ?_⟩⟩
  · unfold resolve
    rw [lookup_init, h]
    rfl
  · by_contra hsome
    obtain ⟨value, hvalue⟩ := Option.ne_none_iff_exists'.mp hsome
    have hanswer : ∀ o : Option String, o.elim Response.error .ok ≠ .notFound := by
      rintro (- | ip) <;> exact Response.noConfusion
    exact hanswer _ ((resolve_of_lookup hvalue 0).symm.trans (h 0))
  · constructor
    · rintro ⟨draw, h⟩
      rw [resolve_of_lookup hvalue] at h
      cases hip : (split ',' value)[draw % (split ',' value).length]? with
      | none => simp [hip] at h
      | some ip' =>
        obtain rfl : ip' = ip := by simpa [hip] using h
        exact List.mem_of_getElem? hip
    · intro hmem
      -- the draw of its position
      obtain ⟨i, hi⟩ := List.getElem?_of_mem hmem
      have hlt : i < (split ',' value).length := (List.getElem?_eq_some_iff.mp hi).1
      refine ⟨i, ?_⟩
      rw [resolve_of_lookup hvalue, Nat.mod_eq_of_lt hlt, hi]
      rfl
  · rw [resolve_of_lookup hvalue, ← split_eq_nil_iff, ← List.length_eq_zero_iff]
    cases hip : (split ',' value)[draw % (split ',' value).length]? with
    | none =>
      have hle := List.getElem?_eq_none_iff.mp hip
      refine iff_of_true rfl ?_
      by_contra hpos
      exact absurd (Nat.mod_lt draw (Nat.pos_of_ne_zero hpos)) (Nat.not_lt.mpr hle)
    | some ip =>
      have hlt : draw % (split ',' value).length < (split ',' value).length :=
        (List.getElem?_eq_some_iff.mp hip).1
      refine iff_of_false (by simp) ?_
      omega

end DnsController

end RsoVoting.Configuration
