import Mathlib.Algebra.BigOperators.Group.Finset.Basic
import Mathlib.Tactic

/-!
# The hash tables of the daemon

`uthash.h` as the daemon uses it: `HASH_FIND`, `HASH_ADD` and writes through the pointer a lookup
returns. Elements hang in chains, one per bucket; a new element goes to the front of its chain. When
a chain reaches its limit the number of buckets doubles and every element moves to the front of its
new chain. Two expansions in a row that leave more than half of the elements beyond the ideal chain
length end all further expansion.

A chain is the list of its elements from `hh_head` along `hh_next`, and the bucket array is a
function of the index. The counters are natural numbers, within the bound of `counters_fit` the same
as the `unsigned` ones. The application-order links, which only `HASH_ITER` and `HASH_DELETE`
follow, and the check for a failed `malloc` are left out.
-/

namespace Wispr.Daemon.Uthash

variable {K V : Type}

/-- `HASH_INITIAL_NUM_BUCKETS`. -/
def initialNumBuckets : ℕ := 32

/-- `HASH_INITIAL_NUM_BUCKETS_LOG2`. -/
def initialNumBucketsLog2 : ℕ := 5

/-- `HASH_BKT_CAPACITY_THRESH`. -/
def bktCapacityThresh : ℕ := 10

/-- `HASH_JEN_MIX`. -/
def hashJenMix (a b c : UInt32) : UInt32 × UInt32 × UInt32 :=
  let a := (a - b - c) ^^^ (c >>> 13)
  let b := (b - c - a) ^^^ (a <<< 8)
  let c := (c - a - b) ^^^ (b >>> 13)
  let a := (a - b - c) ^^^ (c >>> 12)
  let b := (b - c - a) ^^^ (a <<< 16)
  let c := (c - a - b) ^^^ (b >>> 5)
  let a := (a - b - c) ^^^ (c >>> 3)
  let b := (b - c - a) ^^^ (a <<< 10)
  let c := (c - a - b) ^^^ (b >>> 15)
  (a, b, c)

/-- Four bytes of a key, least significant first. -/
def keyWord (k0 k1 k2 k3 : UInt8) : UInt32 :=
  k0.toUInt32 + (k1.toUInt32 <<< 8) + (k2.toUInt32 <<< 16) + (k3.toUInt32 <<< 24)

/-- The loop of `HASH_JEN` over blocks of twelve bytes: the rest of the key and the three words. -/
def hashJenLoop : List UInt8 → UInt32 → UInt32 → UInt32 → List UInt8 × UInt32 × UInt32 × UInt32
  | k0 :: k1 :: k2 :: k3 :: k4 :: k5 :: k6 :: k7 :: k8 :: k9 :: k10 :: k11 :: rest, i, j, hashv =>
      let mixed := hashJenMix (i + keyWord k0 k1 k2 k3) (j + keyWord k4 k5 k6 k7)
        (hashv + keyWord k8 k9 k10 k11)
      hashJenLoop rest mixed.1 mixed.2.1 mixed.2.2
  | rest, i, j, hashv => (rest, i, j, hashv)

/-- `HASH_JEN`. The switch falls through from the number of bytes left down, so every byte that is
left is added at its place. -/
def hashJen (key : List UInt8) : UInt32 :=
  let (rest, i, j, hashv) := hashJenLoop key 0x9e3779b9 0x9e3779b9 0xfeedbeef
  let byte (index : ℕ) : UInt32 := (rest.getD index 0).toUInt32
  let hashv := hashv + UInt32.ofNat key.length
  let hashv := hashv + (byte 10 <<< 24) + (byte 9 <<< 16) + (byte 8 <<< 8)
  let j := j + (byte 7 <<< 24) + (byte 6 <<< 16) + (byte 5 <<< 8) + byte 4
  let i := i + (byte 3 <<< 24) + (byte 2 <<< 16) + (byte 1 <<< 8) + byte 0
  (hashJenMix i j hashv).2.2

/-- An element with the hash value of its handle. -/
structure Element (K V : Type) where
  key : K
  hashv : UInt32
  value : V

/-- `UT_hash_bucket`. -/
structure Bucket (K V : Type) where
  chain : List (Element K V)
  count : ℕ
  expandMult : ℕ

/-- The `memset` of a new bucket. -/
def Bucket.zero : Bucket K V := ⟨[], 0, 0⟩

/-- `UT_hash_table`. -/
structure HashTable (K V : Type) where
  buckets : ℕ → Bucket K V
  numBuckets : ℕ
  log2NumBuckets : ℕ
  numItems : ℕ
  idealChainMaxlen : ℕ
  nonidealItems : ℕ
  ineffExpands : ℕ
  noexpand : ℕ

/-- `HASH_TO_BKT`. -/
def hashToBkt (hashv : UInt32) (numBkts : ℕ) : ℕ := hashv.toNat &&& (numBkts - 1)

/-- `HASH_FIND_IN_BKT`: the first element of the chain with the hash value and the key. -/
def hashFindInBkt [DecidableEq K] (key : K) (hashv : UInt32) :
    List (Element K V) → Option (Element K V)
  | [] => none
  | element :: rest =>
      if element.hashv = hashv ∧ element.key = key then some element
      else hashFindInBkt key hashv rest

/-- `HASH_FIND`. -/
def hashFind [DecidableEq K] (hashFcn : K → UInt32) (head : Option (HashTable K V)) (key : K) :
    Option (Element K V) :=
  match head with
  | none => none
  | some tbl =>
      let hashv := hashFcn key
      hashFindInBkt key hashv (tbl.buckets (hashToBkt hashv tbl.numBuckets)).chain

/-- `HASH_MAKE_TABLE`. -/
def hashMakeTable : HashTable K V where
  buckets _ := .zero
  numBuckets := initialNumBuckets
  log2NumBuckets := initialNumBucketsLog2
  numItems := 0
  idealChainMaxlen := 0
  nonidealItems := 0
  ineffExpands := 0
  noexpand := 0

/-- The body of the loop of `HASH_EXPAND_BUCKETS`: one element moves to its new bucket. -/
def moveElement (idealChainMaxlen numBkts : ℕ) (state : (ℕ → Bucket K V) × ℕ)
    (element : Element K V) : (ℕ → Bucket K V) × ℕ :=
  let bkt := hashToBkt element.hashv numBkts
  let newbkt := state.1 bkt
  let count := newbkt.count + 1
  let nonideal := idealChainMaxlen < count
  let expandMult := if nonideal then count / idealChainMaxlen else newbkt.expandMult
  (Function.update state.1 bkt ⟨element :: newbkt.chain, count, expandMult⟩,
    if nonideal then state.2 + 1 else state.2)

/-- The elements in the order in which the expansion visits them. -/
def elements (tbl : HashTable K V) : List (Element K V) :=
  (List.range tbl.numBuckets).flatMap fun bkt ↦ (tbl.buckets bkt).chain

/-- `HASH_EXPAND_BUCKETS`. -/
def hashExpandBuckets (tbl : HashTable K V) : HashTable K V :=
  let idealChainMaxlen := (tbl.numItems >>> (tbl.log2NumBuckets + 1)) +
    if tbl.numItems &&& (tbl.numBuckets * 2 - 1) ≠ 0 then 1 else 0
  let (newBuckets, nonidealItems) :=
    (elements tbl).foldl (moveElement idealChainMaxlen (tbl.numBuckets * 2)) (fun _ ↦ .zero, 0)
  let ineffExpands := if tbl.numItems >>> 1 < nonidealItems then tbl.ineffExpands + 1 else 0
  { buckets := newBuckets
    numBuckets := tbl.numBuckets * 2
    log2NumBuckets := tbl.log2NumBuckets + 1
    numItems := tbl.numItems
    idealChainMaxlen := idealChainMaxlen
    nonidealItems := nonidealItems
    ineffExpands := ineffExpands
    noexpand := if 1 < ineffExpands then 1 else tbl.noexpand }

/-- `HASH_ADD_TO_BKT` without the test that may expand the table. -/
def pushElement (tbl : HashTable K V) (bkt : ℕ) (element : Element K V) : HashTable K V :=
  let head := tbl.buckets bkt
  { tbl with
    buckets := Function.update tbl.buckets bkt
      ⟨element :: head.chain, head.count + 1, head.expandMult⟩ }

/-- `HASH_ADD_TO_BKT`. -/
def hashAddToBkt (tbl : HashTable K V) (bkt : ℕ) (element : Element K V) : HashTable K V :=
  let tbl := pushElement tbl bkt element
  let head := tbl.buckets bkt
  if (head.expandMult + 1) * bktCapacityThresh ≤ head.count ∧ tbl.noexpand ≠ 1 then
    hashExpandBuckets tbl
  else tbl

/-- `HASH_ADD`. -/
def hashAdd (hashFcn : K → UInt32) (head : Option (HashTable K V)) (key : K) (value : V) :
    HashTable K V :=
  let hashv := hashFcn key
  let tbl := head.getD hashMakeTable
  let tbl := { tbl with numItems := tbl.numItems + 1 }
  hashAddToBkt tbl (hashToBkt hashv tbl.numBuckets) ⟨key, hashv, value⟩

/-- An element, with a new value if it has the key. -/
def overwrite [DecidableEq K] (key : K) (value : V) (element : Element K V) : Element K V :=
  if element.key = key then { element with value := value } else element

/-- A write through the pointer that a lookup of the key has returned. -/
def hashWrite [DecidableEq K] (hashFcn : K → UInt32) (tbl : HashTable K V) (key : K) (value : V) :
    HashTable K V :=
  let bkt := hashToBkt (hashFcn key) tbl.numBuckets
  let head := tbl.buckets bkt
  { tbl with
    buckets := Function.update tbl.buckets bkt
      { head with chain := head.chain.map (overwrite key value) } }

@[simp] theorem overwrite_key [DecidableEq K] (key : K) (value : V) (element : Element K V) :
    (overwrite key value element).key = element.key := by
  unfold overwrite
  split
  · rfl
  · rfl

@[simp] theorem overwrite_hashv [DecidableEq K] (key : K) (value : V) (element : Element K V) :
    (overwrite key value element).hashv = element.hashv := by
  unfold overwrite
  split
  · rfl
  · rfl

/-! ## Integrity -/

/-- What `HASH_FSCK` checks of the buckets, and where the elements are: every bucket counts its
chain, the table counts all elements, every element is in the bucket of its hash value, and no key
occurs twice. -/
structure Valid (hashFcn : K → UInt32) (tbl : HashTable K V) : Prop where
  power : tbl.numBuckets = 2 ^ tbl.log2NumBuckets
  counted : ∀ bkt, (tbl.buckets bkt).count = (tbl.buckets bkt).chain.length
  total : tbl.numItems = ∑ bkt ∈ Finset.range tbl.numBuckets, (tbl.buckets bkt).count
  placed : ∀ {bkt element}, element ∈ (tbl.buckets bkt).chain →
    element.hashv = hashFcn element.key ∧ hashToBkt element.hashv tbl.numBuckets = bkt
  distinct : ∀ bkt, ((tbl.buckets bkt).chain.map Element.key).Nodup

theorem hashToBkt_eq_mod (hashv : UInt32) (log2 : ℕ) :
    hashToBkt hashv (2 ^ log2) = hashv.toNat % 2 ^ log2 := Nat.and_two_pow_sub_one_eq_mod ..

theorem hashToBkt_lt (hashv : UInt32) (log2 : ℕ) : hashToBkt hashv (2 ^ log2) < 2 ^ log2 := by
  rw [hashToBkt_eq_mod]
  exact Nat.mod_lt _ (Nat.two_pow_pos log2)

/-- A sum over the buckets changes with one of them. -/
theorem sum_update {buckets : ℕ → Bucket K V} {bound bkt : ℕ} (hbkt : bkt < bound)
    (bucket : Bucket K V) (measure : Bucket K V → ℕ) :
    ∑ index ∈ Finset.range bound, measure (Function.update buckets bkt bucket index) +
        measure (buckets bkt) =
      ∑ index ∈ Finset.range bound, measure (buckets index) + measure bucket := by
  have hmem : bkt ∈ Finset.range bound := Finset.mem_range.mpr hbkt
  have hrest : ∑ index ∈ (Finset.range bound).erase bkt,
      measure (Function.update buckets bkt bucket index) =
        ∑ index ∈ (Finset.range bound).erase bkt, measure (buckets index) := by
    apply Finset.sum_congr rfl
    intro index hindex
    rw [Function.update_of_ne (Finset.ne_of_mem_erase hindex)]
  rw [← Finset.add_sum_erase _ _ hmem,
    ← Finset.add_sum_erase _ (fun index ↦ measure (buckets index)) hmem, hrest,
    Function.update_self]
  omega

theorem hashFindInBkt_eq_some [DecidableEq K] {hashFcn : K → UInt32}
    {chain : List (Element K V)} {key : K}
    (hplaced : ∀ element ∈ chain, element.hashv = hashFcn element.key)
    (hdistinct : (chain.map Element.key).Nodup) {element : Element K V} :
    hashFindInBkt key (hashFcn key) chain = some element ↔
      element ∈ chain ∧ element.key = key := by
  induction chain with
  | nil => simp [hashFindInBkt]
  | cons first rest ih =>
    obtain ⟨hfirst, hrest⟩ := List.nodup_cons.mp hdistinct
    have ih := ih (fun other hother ↦ hplaced other (List.mem_cons_of_mem _ hother)) hrest
    rw [hashFindInBkt]
    by_cases hkey : first.key = key
    · have hhash : first.hashv = hashFcn key := by
        rw [hplaced first (List.mem_cons_self ..), hkey]
      rw [if_pos ⟨hhash, hkey⟩]
      constructor
      · intro hsame
        cases hsame
        exact ⟨List.mem_cons_self .., hkey⟩
      · rintro ⟨hmem, hkey'⟩
        rcases List.mem_cons.mp hmem with rfl | hlater
        · rfl
        · exact absurd (hkey.trans hkey'.symm ▸ List.mem_map_of_mem hlater) hfirst
    · rw [if_neg fun hboth ↦ hkey hboth.2, ih]
      constructor
      · rintro ⟨hmem, hkey'⟩
        exact ⟨List.mem_cons_of_mem _ hmem, hkey'⟩
      · rintro ⟨hmem, hkey'⟩
        rcases List.mem_cons.mp hmem with rfl | hlater
        · exact absurd hkey' hkey
        · exact ⟨hlater, hkey'⟩

/-- A lookup finds the element with the key, wherever it is. -/
theorem Valid.hashFind_eq_some [DecidableEq K] {hashFcn : K → UInt32} {tbl : HashTable K V}
    (hvalid : Valid hashFcn tbl) {key : K} {element : Element K V} :
    hashFind hashFcn (some tbl) key = some element ↔
      (∃ bkt, element ∈ (tbl.buckets bkt).chain) ∧ element.key = key := by
  rw [hashFind, hashFindInBkt_eq_some (fun other hother ↦ (hvalid.placed hother).1)
    (hvalid.distinct _)]
  constructor
  · rintro ⟨hmem, hkey⟩
    exact ⟨⟨_, hmem⟩, hkey⟩
  · rintro ⟨⟨bkt, hmem⟩, rfl⟩
    obtain ⟨hhash, hbkt⟩ := hvalid.placed hmem
    rw [← hhash, hbkt]
    exact ⟨hmem, rfl⟩

/-- The new buckets after some elements have moved: each one holds its elements in reverse order of
their move, and the two measures of unevenness are exact. -/
structure Moved (ideal numBkts : ℕ) (moved : List (Element K V)) (state : (ℕ → Bucket K V) × ℕ) :
    Prop where
  chain : ∀ bkt, (state.1 bkt).chain =
    (moved.filter fun element ↦ hashToBkt element.hashv numBkts = bkt).reverse
  counted : ∀ bkt, (state.1 bkt).count = (state.1 bkt).chain.length
  expandMult : ∀ bkt, (state.1 bkt).expandMult =
    if ideal < (state.1 bkt).count then (state.1 bkt).count / ideal else 0
  nonideal : state.2 = ∑ bkt ∈ Finset.range numBkts, ((state.1 bkt).count - ideal)
  total : moved.length = ∑ bkt ∈ Finset.range numBkts, (state.1 bkt).count

theorem moved_nil (ideal numBkts : ℕ) :
    Moved ideal numBkts ([] : List (Element K V)) (fun _ ↦ .zero, 0) := by
  refine ⟨fun _ ↦ rfl, fun _ ↦ rfl, ?_, ?_, ?_⟩
  · intro bkt
    simp [Bucket.zero]
  · simp [Bucket.zero]
  · simp [Bucket.zero]

theorem Moved.step {ideal numBkts : ℕ} {moved : List (Element K V)}
    {state : (ℕ → Bucket K V) × ℕ} (h : Moved ideal numBkts moved state) {element : Element K V}
    (hbkt : hashToBkt element.hashv numBkts < numBkts) :
    Moved ideal numBkts (moved ++ [element]) (moveElement ideal numBkts state element) := by
  have hcounted := h.counted (hashToBkt element.hashv numBkts)
  have hmult := h.expandMult (hashToBkt element.hashv numBkts)
  refine ⟨?_, ?_, ?_, ?_, ?_⟩
  · intro bkt
    rw [List.filter_append, List.reverse_append, ← h.chain bkt]
    by_cases hsame : bkt = hashToBkt element.hashv numBkts
    · simp [moveElement, ← hsame]
    · simp [moveElement, Ne.symm hsame, hsame]
  · intro bkt
    by_cases hsame : bkt = hashToBkt element.hashv numBkts
    · simp only [moveElement, hsame, Function.update_self, List.length_cons, hcounted]
    · simp only [moveElement, Function.update_of_ne hsame, h.counted bkt]
  · intro bkt
    by_cases hsame : bkt = hashToBkt element.hashv numBkts
    · simp only [moveElement, hsame, Function.update_self]
      split
      · rfl
      · rename_i hideal
        rw [hmult, if_neg (by omega)]
    · simp only [moveElement, Function.update_of_ne hsame, h.expandMult bkt]
  · have hsum := @sum_update _ _ state.1 _ _ hbkt
      ((moveElement ideal numBkts state element).1 (hashToBkt element.hashv numBkts))
      (fun bucket ↦ bucket.count - ideal)
    have hnonideal := h.nonideal
    by_cases hideal : ideal < (state.1 (hashToBkt element.hashv numBkts)).count + 1
    · simp only [moveElement, Function.update_self, hideal, if_true] at hsum ⊢
      omega
    · simp only [moveElement, Function.update_self, hideal, if_false] at hsum ⊢
      omega
  · have hsum := @sum_update _ _ state.1 _ _ hbkt
      ((moveElement ideal numBkts state element).1 (hashToBkt element.hashv numBkts)) Bucket.count
    have htotal := h.total
    simp only [moveElement, Function.update_self, List.length_append, List.length_singleton]
      at hsum ⊢
    omega

theorem Moved.run {ideal numBkts : ℕ} {moved : List (Element K V)} {state : (ℕ → Bucket K V) × ℕ}
    (h : Moved ideal numBkts moved state) {pending : List (Element K V)}
    (hbkt : ∀ element ∈ pending, hashToBkt element.hashv numBkts < numBkts) :
    Moved ideal numBkts (moved ++ pending) (pending.foldl (moveElement ideal numBkts) state) := by
  induction pending generalizing moved state with
  | nil => simpa using h
  | cons first rest ih =>
    have hfirst := h.step (hbkt first (List.mem_cons_self ..))
    have hrest := ih hfirst fun element helement ↦ hbkt element (List.mem_cons_of_mem _ helement)
    simpa using hrest

/-- The number of elements a chain would have if all chains were equally long, rounded up. -/
def idealLength (numItems numBkts : ℕ) : ℕ := (numItems + numBkts - 1) / numBkts

theorem ideal_eq (numItems log2 : ℕ) :
    (numItems >>> (log2 + 1)) + (if numItems &&& (2 ^ log2 * 2 - 1) ≠ 0 then 1 else 0) =
      idealLength numItems (2 ^ (log2 + 1)) := by
  have hpos := Nat.two_pow_pos (log2 + 1)
  have hdouble : 2 ^ log2 * 2 = 2 ^ (log2 + 1) := rfl
  rw [hdouble, Nat.and_two_pow_sub_one_eq_mod, Nat.shiftRight_eq_div_pow, idealLength]
  generalize 2 ^ (log2 + 1) = size at hpos
  have hdiv := Nat.div_add_mod numItems size
  have hmod := Nat.mod_lt numItems hpos
  split
  · rename_i hrest
    have hsum : numItems + size - 1 = (numItems % size - 1) + size * (numItems / size + 1) := by
      rw [Nat.mul_add, Nat.mul_one]
      omega
    have hsmall : (numItems % size - 1) / size = 0 := Nat.div_eq_of_lt (by omega)
    rw [hsum, Nat.add_mul_div_left _ _ hpos, hsmall, Nat.zero_add]
  · rename_i hrest
    have hsum : numItems + size - 1 = (size - 1) + size * (numItems / size) := by omega
    have hsmall : (size - 1) / size = 0 := Nat.div_eq_of_lt (by omega)
    rw [hsum, Nat.add_mul_div_left _ _ hpos, hsmall, Nat.zero_add, Nat.add_zero]

theorem idealLength_pos {numItems numBkts : ℕ} (hitems : 0 < numItems) (hbkts : 0 < numBkts) :
    0 < idealLength numItems numBkts := by
  rw [idealLength]
  exact Nat.div_pos (by omega) hbkts

theorem mem_elements {hashFcn : K → UInt32} {tbl : HashTable K V} (hvalid : Valid hashFcn tbl)
    {element : Element K V} :
    element ∈ elements tbl ↔ ∃ bkt, element ∈ (tbl.buckets bkt).chain := by
  simp only [elements, List.mem_flatMap, List.mem_range]
  constructor
  · rintro ⟨bkt, -, hmem⟩
    exact ⟨bkt, hmem⟩
  · rintro ⟨bkt, hmem⟩
    refine ⟨bkt, ?_, hmem⟩
    have hbkt := hashToBkt_lt element.hashv tbl.log2NumBuckets
    rwa [← hvalid.power, (hvalid.placed hmem).2] at hbkt

theorem elements_nodup {hashFcn : K → UInt32} {tbl : HashTable K V} (hvalid : Valid hashFcn tbl) :
    ((elements tbl).map Element.key).Nodup := by
  rw [elements, List.map_flatMap, List.nodup_flatMap]
  refine ⟨fun bkt _ ↦ hvalid.distinct bkt, ?_⟩
  refine List.nodup_range.imp ?_
  intro bkt bkt' hdiffer key hkey hkey'
  obtain ⟨element, hmem, rfl⟩ := List.mem_map.mp hkey
  obtain ⟨element', hmem', hsame⟩ := List.mem_map.mp hkey'
  obtain ⟨hhash, hbkt⟩ := hvalid.placed hmem
  obtain ⟨hhash', hbkt'⟩ := hvalid.placed hmem'
  apply hdiffer
  rw [← hbkt, ← hbkt', hhash, hhash', hsame]

theorem length_flatMap_range {A : Type} (chains : ℕ → List A) (bound : ℕ) :
    ((List.range bound).flatMap chains).length =
      ∑ index ∈ Finset.range bound, (chains index).length := by
  induction bound with
  | zero => rfl
  | succ bound ih =>
    rw [List.range_succ, List.flatMap_append, List.length_append, ih, Finset.sum_range_succ]
    simp

theorem elements_length {hashFcn : K → UInt32} {tbl : HashTable K V} (hvalid : Valid hashFcn tbl) :
    (elements tbl).length = tbl.numItems := by
  rw [elements, length_flatMap_range, hvalid.total]
  exact Finset.sum_congr rfl fun bkt _ ↦ (hvalid.counted bkt).symm

/-- What an expansion has computed: the new chains, the ideal length for the doubled table, the
number of elements beyond it, and the multiplier of every chain that is longer. -/
structure Expanded (tbl expanded : HashTable K V) : Prop where
  log2 : expanded.log2NumBuckets = tbl.log2NumBuckets + 1
  doubled : expanded.numBuckets = 2 * tbl.numBuckets
  numItems : expanded.numItems = tbl.numItems
  ideal : expanded.idealChainMaxlen = idealLength expanded.numItems expanded.numBuckets
  moved : Moved expanded.idealChainMaxlen expanded.numBuckets (elements tbl)
    (expanded.buckets, expanded.nonidealItems)
  ineff : expanded.ineffExpands =
    if tbl.numItems / 2 < expanded.nonidealItems then tbl.ineffExpands + 1 else 0
  noexpand : expanded.noexpand = if 1 < expanded.ineffExpands then 1 else tbl.noexpand

theorem hashExpandBuckets_expanded {tbl : HashTable K V}
    (hpower : tbl.numBuckets = 2 ^ tbl.log2NumBuckets) : Expanded tbl (hashExpandBuckets tbl) where
  log2 := rfl
  doubled := Nat.mul_comm ..
  numItems := rfl
  ideal := by
    have hideal := ideal_eq tbl.numItems tbl.log2NumBuckets
    rw [← hpower] at hideal
    refine hideal.trans ?_
    rw [pow_succ, ← hpower]
    rfl
  moved := by
    have hdouble : tbl.numBuckets * 2 = 2 ^ (tbl.log2NumBuckets + 1) := by rw [hpower, pow_succ]
    have hbkt : ∀ element ∈ elements tbl,
        hashToBkt element.hashv (tbl.numBuckets * 2) < tbl.numBuckets * 2 := by
      intro element _
      rw [hdouble]
      exact hashToBkt_lt element.hashv _
    exact (moved_nil (hashExpandBuckets tbl).idealChainMaxlen (tbl.numBuckets * 2)).run hbkt
  ineff := by
    rw [← Nat.shiftRight_one]
    rfl
  noexpand := rfl

/-- An expansion loses no element, invents none, and leaves a valid table. -/
theorem Expanded.valid {hashFcn : K → UInt32} {tbl expanded : HashTable K V}
    (hexpanded : Expanded tbl expanded) (hvalid : Valid hashFcn tbl) :
    Valid hashFcn expanded ∧ ∀ element : Element K V,
      (∃ bkt, element ∈ (expanded.buckets bkt).chain) ↔
        ∃ bkt, element ∈ (tbl.buckets bkt).chain := by
  have hchain := hexpanded.moved.chain
  constructor
  · refine ⟨?_, hexpanded.moved.counted, ?_, ?_, ?_⟩
    · rw [hexpanded.doubled, hexpanded.log2, hvalid.power, pow_succ, Nat.mul_comm]
    · rw [hexpanded.numItems, ← elements_length hvalid]
      exact hexpanded.moved.total
    · intro bkt element hmem
      rw [hchain bkt, List.mem_reverse, List.mem_filter, decide_eq_true_eq] at hmem
      obtain ⟨old, hold⟩ := (mem_elements hvalid).mp hmem.1
      exact ⟨(hvalid.placed hold).1, hmem.2⟩
    · intro bkt
      rw [hchain bkt, List.map_reverse, List.nodup_reverse]
      exact (elements_nodup hvalid).sublist ((List.filter_sublist).map Element.key)
  · intro element
    rw [← mem_elements hvalid]
    constructor
    · rintro ⟨bkt, hmem⟩
      rw [hchain bkt, List.mem_reverse, List.mem_filter] at hmem
      exact hmem.1
    · intro hmem
      refine ⟨hashToBkt element.hashv expanded.numBuckets, ?_⟩
      rw [hchain, List.mem_reverse, List.mem_filter, decide_eq_true_eq]
      exact ⟨hmem, rfl⟩

section Operations

variable [DecidableEq K] {hashFcn : K → UInt32}

/-- A table is absent or valid. -/
def ValidHead (hashFcn : K → UInt32) (head : Option (HashTable K V)) : Prop :=
  ∀ tbl, head = some tbl → Valid hashFcn tbl

/-- What lookups in a table return, as a map. -/
def contents (hashFcn : K → UInt32) (head : Option (HashTable K V)) (key : K) : Option V :=
  (hashFind hashFcn head key).map Element.value

omit [DecidableEq K] in
theorem hashMakeTable_valid : Valid hashFcn (hashMakeTable : HashTable K V) where
  power := rfl
  counted _ := rfl
  total := by simp [hashMakeTable, Bucket.zero]
  placed h := by cases h
  distinct _ := List.nodup_nil

theorem hashFind_getD (head : Option (HashTable K V)) (key : K) :
    hashFind hashFcn (some (head.getD hashMakeTable)) key = hashFind hashFcn head key := by
  cases head with
  | none => rfl
  | some tbl => rfl

theorem Valid.push {tbl : HashTable K V} (hvalid : Valid hashFcn tbl) {key : K}
    (habsent : hashFind hashFcn (some tbl) key = none) (value : V) :
    let pushed := pushElement { tbl with numItems := tbl.numItems + 1 }
      (hashToBkt (hashFcn key) tbl.numBuckets) ⟨key, hashFcn key, value⟩
    Valid hashFcn pushed ∧ ∀ element : Element K V,
      (∃ bkt, element ∈ (pushed.buckets bkt).chain) ↔
        element = ⟨key, hashFcn key, value⟩ ∨ ∃ bkt, element ∈ (tbl.buckets bkt).chain := by
  intro pushed
  have hlt : hashToBkt (hashFcn key) tbl.numBuckets < tbl.numBuckets := by
    rw [hvalid.power]
    exact hashToBkt_lt _ _
  have hchain : ∀ bkt, (pushed.buckets bkt).chain =
      if bkt = hashToBkt (hashFcn key) tbl.numBuckets then
        ⟨key, hashFcn key, value⟩ :: (tbl.buckets bkt).chain
      else (tbl.buckets bkt).chain := by
    intro bkt
    by_cases hbkt : bkt = hashToBkt (hashFcn key) tbl.numBuckets
    · simp [pushed, pushElement, hbkt]
    · simp [pushed, pushElement, hbkt]
  have hfresh : ∀ bkt, ∀ element ∈ (tbl.buckets bkt).chain, element.key ≠ key := by
    intro bkt element hmem hkey
    have hfound := hvalid.hashFind_eq_some.mpr ⟨⟨bkt, hmem⟩, hkey⟩
    rw [habsent] at hfound
    cases hfound
  constructor
  · refine ⟨hvalid.power, ?_, ?_, ?_, ?_⟩
    · intro bkt
      by_cases hbkt : bkt = hashToBkt (hashFcn key) tbl.numBuckets
      · rw [hchain, if_pos hbkt, List.length_cons, ← hvalid.counted]
        simp [pushed, pushElement, hbkt]
      · rw [hchain, if_neg hbkt, ← hvalid.counted]
        simp [pushed, pushElement, hbkt]
    · have hsum := @sum_update _ _ tbl.buckets _ _ hlt
        (pushed.buckets (hashToBkt (hashFcn key) tbl.numBuckets)) Bucket.count
      have htotal := hvalid.total
      simp only [pushed, pushElement, Function.update_self] at hsum ⊢
      omega
    · intro bkt element hmem
      rw [hchain] at hmem
      split at hmem
      · rename_i hbkt
        rcases List.mem_cons.mp hmem with rfl | hold
        · exact ⟨rfl, hbkt.symm⟩
        · exact hvalid.placed hold
      · exact hvalid.placed hmem
    · intro bkt
      rw [hchain]
      split
      · rw [List.map_cons, List.nodup_cons]
        refine ⟨?_, hvalid.distinct bkt⟩
        intro hkey
        obtain ⟨element, hmem, hsame⟩ := List.mem_map.mp hkey
        exact hfresh bkt element hmem hsame
      · exact hvalid.distinct bkt
  · intro element
    simp only [hchain]
    constructor
    · rintro ⟨bkt, hmem⟩
      split at hmem
      · rcases List.mem_cons.mp hmem with rfl | hold
        · exact .inl rfl
        · exact .inr ⟨bkt, hold⟩
      · exact .inr ⟨bkt, hmem⟩
    · rintro (rfl | ⟨bkt, hmem⟩)
      · exact ⟨_, by rw [if_pos rfl]; exact List.mem_cons_self ..⟩
      · refine ⟨bkt, ?_⟩
        split
        · exact List.mem_cons_of_mem _ hmem
        · exact hmem

omit [DecidableEq K] in
/-- What an addition does to the table: the element goes to the front of its chain, and if the chain
has reached its limit and expansion is not inhibited, the table is expanded. -/
theorem hashAdd_cases {tbl : HashTable K V} (hpower : tbl.numBuckets = 2 ^ tbl.log2NumBuckets)
    (key : K) (value : V) :
    let bkt := hashToBkt (hashFcn key) tbl.numBuckets
    let pushed := pushElement { tbl with numItems := tbl.numItems + 1 } bkt
      ⟨key, hashFcn key, value⟩
    let limit := ((tbl.buckets bkt).expandMult + 1) * bktCapacityThresh
    (((tbl.buckets bkt).count + 1 < limit ∨ tbl.noexpand = 1) ∧
        hashAdd hashFcn (some tbl) key value = pushed) ∨
      (limit ≤ (tbl.buckets bkt).count + 1 ∧ tbl.noexpand ≠ 1 ∧
        Expanded pushed (hashAdd hashFcn (some tbl) key value)) := by
  intro bkt pushed limit
  have hhead : (pushed.buckets bkt).expandMult = (tbl.buckets bkt).expandMult ∧
      (pushed.buckets bkt).count = (tbl.buckets bkt).count + 1 := by
    simp [pushed, pushElement]
  have hadd : hashAdd hashFcn (some tbl) key value =
      if limit ≤ (tbl.buckets bkt).count + 1 ∧ tbl.noexpand ≠ 1 then hashExpandBuckets pushed
      else pushed := by
    rw [hashAdd, hashAddToBkt]
    simp only [Option.getD_some]
    rw [show (pushElement { tbl with numItems := tbl.numItems + 1 } (hashToBkt (hashFcn key)
      tbl.numBuckets) ⟨key, hashFcn key, value⟩) = pushed from rfl]
    simp only [bkt] at hhead
    rw [hhead.1, hhead.2]
    rfl
  by_cases hgrow : limit ≤ (tbl.buckets bkt).count + 1 ∧ tbl.noexpand ≠ 1
  · right
    rw [hadd, if_pos hgrow]
    exact ⟨hgrow.1, hgrow.2, hashExpandBuckets_expanded hpower⟩
  · left
    rw [hadd, if_neg hgrow]
    refine ⟨?_, rfl⟩
    omega

/-- An addition of a new key, in the table and in the map it stands for. -/
theorem hashAdd_spec {head : Option (HashTable K V)} (hvalid : ValidHead hashFcn head) {key : K}
    (habsent : hashFind hashFcn head key = none) (value : V) :
    Valid hashFcn (hashAdd hashFcn head key value) ∧
      contents hashFcn (some (hashAdd hashFcn head key value)) =
        Function.update (contents hashFcn head) key (some value) := by
  have htbl : Valid hashFcn (head.getD hashMakeTable) := by
    cases head with
    | none => exact hashMakeTable_valid
    | some tbl => exact hvalid tbl rfl
  have hfind : ∀ other, hashFind hashFcn (some (head.getD hashMakeTable)) other =
      hashFind hashFcn head other := hashFind_getD head
  have hsame : hashAdd hashFcn head key value =
      hashAdd hashFcn (some (head.getD hashMakeTable)) key value := by
    cases head with
    | none => rfl
    | some tbl => rfl
  rw [← hfind key] at habsent
  have hcontents : contents hashFcn head = contents hashFcn (some (head.getD hashMakeTable)) := by
    funext other
    rw [contents, contents, hfind]
  rw [hsame, hcontents]
  generalize head.getD hashMakeTable = tbl at htbl habsent
  obtain ⟨hpushed, hmem⟩ := htbl.push habsent value
  obtain ⟨hadded, hmem'⟩ : Valid hashFcn (hashAdd hashFcn (some tbl) key value) ∧
      ∀ element : Element K V,
        (∃ bkt, element ∈ ((hashAdd hashFcn (some tbl) key value).buckets bkt).chain) ↔
          element = ⟨key, hashFcn key, value⟩ ∨ ∃ bkt, element ∈ (tbl.buckets bkt).chain := by
    rcases @hashAdd_cases K V hashFcn tbl htbl.power key value with
      ⟨-, hkept⟩ | ⟨-, -, hgrown⟩
    · rw [hkept]
      exact ⟨hpushed, hmem⟩
    · obtain ⟨hvalid', hsameElements⟩ := hgrown.valid hpushed
      exact ⟨hvalid', fun element ↦ (hsameElements element).trans (hmem element)⟩
  refine ⟨hadded, ?_⟩
  funext other
  by_cases hother : other = key
  · subst hother
    rw [Function.update_self, contents, hadded.hashFind_eq_some.mpr
      ⟨(hmem' ⟨other, hashFcn other, value⟩).mpr (.inl rfl), rfl⟩]
    rfl
  · rw [Function.update_of_ne hother, contents, contents]
    congr 1
    apply Option.ext
    intro element
    rw [hadded.hashFind_eq_some, htbl.hashFind_eq_some, hmem']
    constructor
    · rintro ⟨rfl | hold, hkey⟩
      · exact absurd hkey.symm hother
      · exact ⟨hold, hkey⟩
    · rintro ⟨hold, hkey⟩
      exact ⟨.inr hold, hkey⟩

/-- A write changes the value of one key and nothing else. -/
theorem hashWrite_spec {tbl : HashTable K V} (hvalid : Valid hashFcn tbl) {key : K}
    (hpresent : hashFind hashFcn (some tbl) key ≠ none) (value : V) :
    Valid hashFcn (hashWrite hashFcn tbl key value) ∧
      contents hashFcn (some (hashWrite hashFcn tbl key value)) =
        Function.update (contents hashFcn (some tbl)) key (some value) := by
  have hchain : ∀ bkt, ((hashWrite hashFcn tbl key value).buckets bkt).chain =
      (tbl.buckets bkt).chain.map (overwrite key value) := by
    intro bkt
    by_cases hbkt : bkt = hashToBkt (hashFcn key) tbl.numBuckets
    · simp [hashWrite, hbkt]
    · have hother : ∀ element ∈ (tbl.buckets bkt).chain, overwrite key value element = element := by
        intro element hmem
        refine if_neg ?_
        rintro rfl
        obtain ⟨hhashv, hplace⟩ := hvalid.placed hmem
        exact hbkt (by rw [← hplace, hhashv])
      rw [List.map_congr_left hother, List.map_id']
      simp [hashWrite, hbkt]
  have hcount : ∀ bkt, ((hashWrite hashFcn tbl key value).buckets bkt).count =
      (tbl.buckets bkt).count := by
    intro bkt
    by_cases hbkt : bkt = hashToBkt (hashFcn key) tbl.numBuckets
    · simp [hashWrite, hbkt]
    · simp [hashWrite, hbkt]
  have hwritten : Valid hashFcn (hashWrite hashFcn tbl key value) := by
    refine ⟨hvalid.power, ?_, ?_, ?_, ?_⟩
    · intro bkt
      rw [hcount, hchain, List.length_map, hvalid.counted]
    · simp only [hcount]
      exact hvalid.total
    · intro bkt element hmem
      rw [hchain] at hmem
      obtain ⟨old, hold, rfl⟩ := List.mem_map.mp hmem
      rw [overwrite_hashv, overwrite_key]
      exact hvalid.placed hold
    · intro bkt
      rw [hchain, List.map_map, show Element.key ∘ overwrite key value = Element.key from
        funext (overwrite_key key value)]
      exact hvalid.distinct bkt
  refine ⟨hwritten, ?_⟩
  funext other
  by_cases hother : other = key
  · subst hother
    obtain ⟨element, hfound⟩ := Option.ne_none_iff_exists'.mp hpresent
    obtain ⟨⟨bkt, hmem⟩, hkey⟩ := hvalid.hashFind_eq_some.mp hfound
    have hnew : overwrite other value element ∈
        ((hashWrite hashFcn tbl other value).buckets bkt).chain := by
      rw [hchain]
      exact List.mem_map_of_mem hmem
    rw [Function.update_self, contents, hwritten.hashFind_eq_some.mpr
      ⟨⟨bkt, hnew⟩, (overwrite_key other value element).trans hkey⟩, overwrite, if_pos hkey]
    rfl
  · rw [Function.update_of_ne hother, contents, contents]
    congr 1
    apply Option.ext
    intro element
    rw [hwritten.hashFind_eq_some, hvalid.hashFind_eq_some]
    simp only [hchain, List.mem_map]
    constructor
    · rintro ⟨⟨bkt, old, hold, rfl⟩, hkey⟩
      rw [overwrite_key] at hkey
      rw [overwrite, if_neg (hkey ▸ hother)]
      exact ⟨⟨bkt, hold⟩, hkey⟩
    · rintro ⟨⟨bkt, hold⟩, hkey⟩
      refine ⟨⟨bkt, element, hold, ?_⟩, hkey⟩
      rw [overwrite, if_neg (hkey ▸ hother)]

end Operations

end Wispr.Daemon.Uthash
