import Wispr.Daemon.Uthash

/-!
# Runs of a hash table

The daemon only ever looks a key up, adds a zeroed element for a key it has not found, and writes
through a pointer it has found. Served from a null head, any sequence of such requests gets the
answers of a map, whatever the hash function: no expansion loses, duplicates or changes an element.
-/

namespace Wispr.Daemon.Uthash

variable {K V : Type} [DecidableEq K]

/-- What the daemon asks of a table. -/
inductive Request (K V : Type) where
  | find (key : K)
  | getOrAdd (key : K) (initial : V)
  | assign (key : K) (value : V)

/-- The lookup of a key and the addition of an initial value when there is none: the shape of
`get_or_add_ingresssession`, `get_or_add_mirror_session` and `add_Src_ip_host`. -/
def getOrAdd (hashFcn : K → UInt32) (head : Option (HashTable K V)) (key : K) (initial : V) :
    Option (HashTable K V) × V :=
  match hashFind hashFcn head key with
  | some element => (head, element.value)
  | none => (some (hashAdd hashFcn head key initial), initial)

/-- A request served by the table: the next table and the value behind the returned pointer. -/
def serve (hashFcn : K → UInt32) (head : Option (HashTable K V)) :
    Request K V → Option (HashTable K V) × Option V
  | .find key => (head, (hashFind hashFcn head key).map Element.value)
  | .getOrAdd key initial =>
      let (head, value) := getOrAdd hashFcn head key initial
      (head, some value)
  | .assign key value =>
      match hashFind hashFcn head key with
      | some _ => (head.map fun tbl ↦ hashWrite hashFcn tbl key value, some value)
      | none => (head, none)

def serveMap (map : K → Option V) : Request K V → (K → Option V) × Option V
  | .find key => (map, map key)
  | .getOrAdd key initial =>
      match map key with
      | some value => (map, some value)
      | none => (Function.update map key (some initial), some initial)
  | .assign key value =>
      match map key with
      | some _ => (Function.update map key (some value), some value)
      | none => (map, none)

def served (hashFcn : K → UInt32) (requests : List (Request K V)) : Option (HashTable K V) :=
  requests.foldl (fun head request ↦ (serve hashFcn head request).1) none

def servedMap (requests : List (Request K V)) : K → Option V :=
  requests.foldl (fun map request ↦ (serveMap map request).1) fun _ ↦ none

variable {hashFcn : K → UInt32}

theorem contents_eq_none {head : Option (HashTable K V)} {key : K} :
    contents hashFcn head key = none ↔ hashFind hashFcn head key = none :=
  Option.map_eq_none_iff

theorem getOrAdd_spec {head : Option (HashTable K V)} (hvalid : ValidHead hashFcn head) (key : K)
    (initial : V) :
    ValidHead hashFcn (getOrAdd hashFcn head key initial).1 ∧
      (getOrAdd hashFcn head key initial).2 = (contents hashFcn head key).getD initial ∧
      contents hashFcn (getOrAdd hashFcn head key initial).1 =
        Function.update (contents hashFcn head) key
          (some ((contents hashFcn head key).getD initial)) := by
  cases hfind : hashFind hashFcn head key with
  | some element =>
    have hvalue : contents hashFcn head key = some element.value := by
      rw [contents, hfind, Option.map_some]
    simp only [getOrAdd, hfind, hvalue, Option.getD_some, true_and]
    refine ⟨hvalid, ?_⟩
    rw [← hvalue, Function.update_eq_self]
  | none =>
    obtain ⟨hadded, hcontents⟩ := hashAdd_spec hvalid hfind initial
    simp only [getOrAdd, hfind, contents_eq_none.mpr hfind, Option.getD_none, hcontents, and_true]
    intro tbl htbl
    cases htbl
    exact hadded

theorem assign_spec {head : Option (HashTable K V)} (hvalid : ValidHead hashFcn head) {key : K}
    (hpresent : contents hashFcn head key ≠ none) (value : V) :
    ValidHead hashFcn (head.map fun tbl ↦ hashWrite hashFcn tbl key value) ∧
      contents hashFcn (head.map fun tbl ↦ hashWrite hashFcn tbl key value) =
        Function.update (contents hashFcn head) key (some value) := by
  rw [Ne, contents_eq_none] at hpresent
  cases head with
  | none => exact absurd rfl hpresent
  | some tbl =>
    obtain ⟨hwritten, hcontents⟩ := hashWrite_spec (hvalid tbl rfl) hpresent value
    refine ⟨?_, hcontents⟩
    intro next hnext
    cases hnext
    exact hwritten

/-- One request: the answers agree, and the next table stands for the next map. -/
theorem serve_spec {head : Option (HashTable K V)} (hvalid : ValidHead hashFcn head)
    (request : Request K V) :
    ValidHead hashFcn (serve hashFcn head request).1 ∧
      (contents hashFcn (serve hashFcn head request).1, (serve hashFcn head request).2) =
        serveMap (contents hashFcn head) request := by
  cases request with
  | find key => exact ⟨hvalid, rfl⟩
  | getOrAdd key initial =>
    obtain ⟨hnext, hvalue, hcontents⟩ := getOrAdd_spec hvalid key initial
    refine ⟨hnext, ?_⟩
    simp only [serve, serveMap, hvalue, hcontents]
    cases hkey : contents hashFcn head key with
    | some value => rw [Option.getD_some, Function.update_eq_self_iff.mpr hkey.symm]
    | none => rfl
  | assign key value =>
    cases hfind : hashFind hashFcn head key with
    | some element =>
      have hvalue : contents hashFcn head key = some element.value := by
        rw [contents, hfind, Option.map_some]
      obtain ⟨hnext, hcontents⟩ := assign_spec hvalid (hvalue ▸ Option.some_ne_none _) value
      simp only [serve, serveMap, hfind, hvalue, hcontents, and_true]
      exact hnext
    | none =>
      simp only [serve, serveMap, hfind, contents_eq_none.mpr hfind, and_true]
      exact hvalid

theorem served_spec (requests : List (Request K V)) :
    ValidHead hashFcn (served hashFcn requests) ∧
      contents hashFcn (served hashFcn requests) = servedMap requests := by
  induction requests using List.reverseRecOn with
  | nil => exact ⟨nofun, rfl⟩
  | append_singleton requests request ih =>
    obtain ⟨hvalid, hcontents⟩ := ih
    obtain ⟨hnext, hserved⟩ := serve_spec hvalid request
    rw [hcontents] at hserved
    simp only [served, servedMap, List.foldl_append, List.foldl_cons, List.foldl_nil] at *
    exact ⟨hnext, congrArg Prod.fst hserved⟩

/-- After any requests, whatever the hash function, the table passes the bucket checks of
`HASH_FSCK`, holds exactly what a map would hold, and answers the next request as the map does. -/
theorem uthash_refines_map (hashFcn : K → UInt32) (requests : List (Request K V))
    (request : Request K V) :
    ValidHead hashFcn (served hashFcn requests) ∧
      contents hashFcn (served hashFcn requests) = servedMap requests ∧
      (serve hashFcn (served hashFcn requests) request).2 =
        (serveMap (servedMap requests) request).2 := by
  obtain ⟨hvalid, hcontents⟩ := @served_spec K V _ hashFcn requests
  refine ⟨hvalid, hcontents, ?_⟩
  rw [← hcontents]
  exact congrArg Prod.snd (serve_spec hvalid request).2

end Wispr.Daemon.Uthash
