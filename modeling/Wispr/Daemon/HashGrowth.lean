import Mathlib.Data.List.DropRight
import Wispr.Daemon.HashRequests

/-!
# Growth of a hash table

An expansion is ineffective if more than half of the elements are still beyond the ideal length of
their chains. `ineff_expands` counts the ineffective expansions since the last effective one, and
the second in a row is the last expansion of all. Until then no chain is longer than its limit.
-/

namespace Wispr.Daemon.Uthash

variable {K V : Type}

/-- The state of the growth policy. `expand_mult` remembers how many times the ideal length a chain
had at the last expansion; the next one is due when the chain has grown to its limit. -/
structure Balanced (tbl : HashTable K V) : Prop where
  noexpand : tbl.noexpand = if tbl.ineffExpands = 2 then 1 else 0
  ineffExpands : tbl.ineffExpands ≤ 2
  ideal : tbl.idealChainMaxlen ≤ idealLength tbl.numItems tbl.numBuckets
  unexpanded : tbl.idealChainMaxlen = 0 →
    tbl.numBuckets = initialNumBuckets ∧ ∀ bkt, (tbl.buckets bkt).expandMult = 0
  expandMult : ∀ bkt, tbl.idealChainMaxlen * (tbl.buckets bkt).expandMult ≤
    (tbl.buckets bkt).chain.length
  nonidealItems : tbl.nonidealItems ≤ tbl.numItems
  chains : tbl.noexpand ≠ 1 → ∀ bkt, (tbl.buckets bkt).chain.length ≤
    ((tbl.buckets bkt).expandMult + 1) * max bktCapacityThresh tbl.idealChainMaxlen

theorem hashMakeTable_balanced : Balanced (hashMakeTable : HashTable K V) where
  noexpand := rfl
  ineffExpands := Nat.zero_le _
  ideal := Nat.zero_le _
  unexpanded _ := ⟨rfl, fun _ ↦ rfl⟩
  expandMult _ := Nat.le_of_eq (Nat.zero_mul _)
  nonidealItems := Nat.le_refl _
  chains _ _ := Nat.zero_le _

theorem idealLength_mono {numItems numItems' : ℕ} (hitems : numItems ≤ numItems') (numBkts : ℕ) :
    idealLength numItems numBkts ≤ idealLength numItems' numBkts := by
  unfold idealLength
  exact Nat.div_le_div_right (by omega)

/-- An element added without expansion. -/
theorem Balanced.push {tbl : HashTable K V} (hbalanced : Balanced tbl)
    (hcounted : ∀ bkt, (tbl.buckets bkt).count = (tbl.buckets bkt).chain.length) {bkt : ℕ}
    (hroom : (tbl.buckets bkt).count + 1 < ((tbl.buckets bkt).expandMult + 1) * bktCapacityThresh ∨
      tbl.noexpand = 1) (element : Element K V) :
    Balanced (pushElement { tbl with numItems := tbl.numItems + 1 } bkt element) := by
  have hmult : ∀ other, ((pushElement { tbl with numItems := tbl.numItems + 1 } bkt
      element).buckets other).expandMult = (tbl.buckets other).expandMult := by
    intro other
    by_cases hother : other = bkt
    · subst hother
      simp only [pushElement, Function.update_self]
    · simp only [pushElement, Function.update_of_ne hother]
  refine ⟨hbalanced.noexpand, hbalanced.ineffExpands,
    hbalanced.ideal.trans (idealLength_mono (Nat.le_succ _) _), ?_, ?_,
    hbalanced.nonidealItems.trans (Nat.le_succ _), ?_⟩
  · intro hzero
    refine ⟨(hbalanced.unexpanded hzero).1, fun other ↦ ?_⟩
    rw [hmult]
    exact (hbalanced.unexpanded hzero).2 other
  · intro other
    rw [hmult]
    by_cases hother : other = bkt
    · subst hother
      simp only [pushElement, Function.update_self, List.length_cons]
      exact (hbalanced.expandMult other).trans (Nat.le_succ _)
    · simp only [pushElement, Function.update_of_ne hother]
      exact hbalanced.expandMult other
  · intro hgrows other
    by_cases hother : other = bkt
    · subst hother
      simp only [pushElement, Function.update_self, List.length_cons]
      have hlimit := hroom.resolve_right hgrows
      rw [hcounted] at hlimit
      exact hlimit.le.trans (Nat.mul_le_mul_left _ (Nat.le_max_left ..))
    · simp only [pushElement, Function.update_of_ne hother]
      exact hbalanced.chains hgrows other

/-- An expansion starts from an uninhibited table and decides anew. -/
theorem Balanced.expand {tbl expanded : HashTable K V} (hexpanded : Expanded tbl expanded)
    (hnoexpand : tbl.noexpand = 0) (hineff : tbl.ineffExpands ≤ 1) (hitems : 0 < tbl.numItems)
    (hbkts : 0 < tbl.numBuckets)
    (htotal : expanded.numItems =
      ∑ bkt ∈ Finset.range expanded.numBuckets, (expanded.buckets bkt).count) :
    Balanced expanded := by
  have hideal : 0 < expanded.idealChainMaxlen := by
    rw [hexpanded.ideal, hexpanded.numItems, hexpanded.doubled]
    exact idealLength_pos hitems (by omega)
  have hineff' : expanded.ineffExpands ≤ 2 := by
    rw [hexpanded.ineff]
    split
    · omega
    · omega
  have hcounted := hexpanded.moved.counted
  have hmult := hexpanded.moved.expandMult
  refine ⟨?_, hineff', hexpanded.ideal.le, fun hzero ↦ absurd hzero hideal.ne', ?_, ?_, ?_⟩
  · rw [hexpanded.noexpand, hnoexpand]
    split
    · rw [if_pos (by omega)]
    · rw [if_neg (by omega)]
  · intro bkt
    rw [← hcounted bkt, hmult bkt]
    split
    · exact Nat.mul_div_le ..
    · exact Nat.zero_le _
  · rw [htotal, show expanded.nonidealItems = _ from hexpanded.moved.nonideal]
    exact Finset.sum_le_sum fun bkt _ ↦ Nat.sub_le ..
  · intro _ bkt
    rw [← hcounted bkt, hmult bkt]
    split
    · -- the multiplier was rounded down, so one more ideal length covers the chain
      have hdiv := Nat.lt_mul_div_succ (expanded.buckets bkt).count hideal
      rw [Nat.mul_comm] at hdiv
      exact hdiv.le.trans (Nat.mul_le_mul_left _ (Nat.le_max_right ..))
    · rename_i hshort
      rw [Nat.zero_add, Nat.one_mul]
      exact (Nat.le_of_not_lt hshort).trans (Nat.le_max_right ..)

/-- The number of elements beyond the ideal length of their chains. -/
def beyondIdeal (tbl : HashTable K V) : ℕ :=
  ∑ bkt ∈ Finset.range tbl.numBuckets,
    ((tbl.buckets bkt).chain.length - idealLength tbl.numItems tbl.numBuckets)

/-- An expanded table in which more than half of the elements are beyond the ideal length. -/
def ineffective (tbl : HashTable K V) : Bool := tbl.numItems < 2 * beyondIdeal tbl

theorem Expanded.ineffExpands_eq {tbl expanded : HashTable K V} (h : Expanded tbl expanded) :
    expanded.ineffExpands = if ineffective expanded then tbl.ineffExpands + 1 else 0 := by
  have hbeyond : expanded.nonidealItems = beyondIdeal expanded := by
    refine h.moved.nonideal.trans (Finset.sum_congr rfl fun bkt _ ↦ ?_)
    rw [← h.ideal, ← h.moved.counted bkt]
  have hhalf : tbl.numItems / 2 < beyondIdeal expanded ↔ ineffective expanded = true := by
    rw [ineffective, decide_eq_true_eq, h.numItems]
    omega
  rw [h.ineff, hbeyond]
  simp only [hhalf]

/-- The table that a request leaves if it has expanded it. -/
def expansion (head next : Option (HashTable K V)) : Option (HashTable K V) :=
  match head, next with
  | some tbl, some tbl' => if tbl.numBuckets < tbl'.numBuckets then some tbl' else none
  | _, _ => none

theorem expansion_eq_none {tbl next : HashTable K V} (h : next.numBuckets = tbl.numBuckets) :
    expansion (some tbl) (some next) = none := by
  rw [expansion, if_neg (by omega)]

/-- A table is absent, and has never been expanded, or it is balanced, and its `ineff_expands` is
the number of ineffective expansions since the last effective one. -/
def Tracked (head : Option (HashTable K V)) (tables : List (HashTable K V)) : Prop :=
  match head with
  | none => tables = []
  | some tbl => Balanced tbl ∧ tbl.ineffExpands = (tables.rtakeWhile ineffective).length

/-- A table that is not expanded. -/
theorem Tracked.kept {tbl next : HashTable K V} {tables : List (HashTable K V)}
    (h : Tracked (some tbl) tables) (hbalanced : Balanced next)
    (hineff : next.ineffExpands = tbl.ineffExpands) (hbkts : next.numBuckets = tbl.numBuckets) :
    Tracked (some next) (tables ++ (expansion (some tbl) (some next)).toList) := by
  rw [expansion_eq_none hbkts, Option.toList_none, List.append_nil]
  exact ⟨hbalanced, hineff.trans h.2⟩

variable {hashFcn : K → UInt32}

theorem hashAdd_tracked {tbl : HashTable K V} {tables : List (HashTable K V)} {key : K} {value : V}
    (hvalid : Valid hashFcn tbl) (hadded : Valid hashFcn (hashAdd hashFcn (some tbl) key value))
    (h : Tracked (some tbl) tables) :
    Tracked (some (hashAdd hashFcn (some tbl) key value))
      (tables ++ (expansion (some tbl) (some (hashAdd hashFcn (some tbl) key value))).toList) := by
  obtain ⟨hbalanced, hcounted⟩ := id h
  rcases @hashAdd_cases K V hashFcn tbl hvalid.power key value with
    ⟨hroom, hkept⟩ | ⟨-, hgrows, hexpanded⟩
  · rw [hkept]
    exact h.kept (hbalanced.push hvalid.counted hroom _) rfl rfl
  · have hnoexpand := hbalanced.noexpand
    have hineff := hbalanced.ineffExpands
    have hfirst : tbl.ineffExpands ≠ 2 := by
      intro htwice
      rw [if_pos htwice] at hnoexpand
      exact hgrows hnoexpand
    rw [if_neg hfirst] at hnoexpand
    have hbkts : 0 < tbl.numBuckets := by
      rw [hvalid.power]
      exact Nat.two_pow_pos _
    have hmore : tbl.numBuckets < (hashAdd hashFcn (some tbl) key value).numBuckets := by
      have hdoubled : (hashAdd hashFcn (some tbl) key value).numBuckets = 2 * tbl.numBuckets :=
        hexpanded.doubled
      omega
    rw [expansion, if_pos hmore, Option.toList_some]
    refine ⟨Balanced.expand hexpanded hnoexpand (show tbl.ineffExpands ≤ 1 by omega)
      (Nat.succ_pos _) hbkts hadded.total, ?_⟩
    rw [hexpanded.ineffExpands_eq, List.rtakeWhile_concat]
    split
    · rw [List.length_append, List.length_singleton, ← hcounted]
      rfl
    · rfl

/-- The first element does not fill a chain. -/
theorem hashMakeTable_expansion (key : K) (value : V) :
    expansion (some hashMakeTable) (some (hashAdd hashFcn (some hashMakeTable) key value)) =
      none := by
  have hvalid : Valid hashFcn (hashMakeTable : HashTable K V) := hashMakeTable_valid
  rcases @hashAdd_cases K V hashFcn hashMakeTable hvalid.power key value with
    ⟨-, hkept⟩ | ⟨hlimit, -, -⟩
  · rw [hkept]
    exact expansion_eq_none rfl
  · have hthresh : bktCapacityThresh ≤ 1 := hlimit
    exact absurd hthresh (by decide)

variable [DecidableEq K]

/-- The tables that the expansions of a run have left, in order. -/
def expansionsFrom (hashFcn : K → UInt32) (head : Option (HashTable K V)) :
    List (Request K V) → List (HashTable K V)
  | [] => []
  | request :: rest =>
      let next := (serve hashFcn head request).1
      (expansion head next).toList ++ expansionsFrom hashFcn next rest

/-- The expansions of a run from a null head. -/
def expansions (hashFcn : K → UInt32) (requests : List (Request K V)) : List (HashTable K V) :=
  expansionsFrom hashFcn none requests

/-- A request that leaves the counters, the lengths and the multipliers alone. -/
theorem hashWrite_balanced {tbl : HashTable K V} (hbalanced : Balanced tbl) (key : K) (value : V) :
    Balanced (hashWrite hashFcn tbl key value) := by
  have hsame : ∀ bkt,
      ((hashWrite hashFcn tbl key value).buckets bkt).chain.length =
          (tbl.buckets bkt).chain.length ∧
        ((hashWrite hashFcn tbl key value).buckets bkt).expandMult =
          (tbl.buckets bkt).expandMult := by
    intro bkt
    by_cases hbkt : bkt = hashToBkt (hashFcn key) tbl.numBuckets
    · simp [hashWrite, hbkt]
    · simp [hashWrite, hbkt]
  refine ⟨hbalanced.noexpand, hbalanced.ineffExpands, hbalanced.ideal, ?_, ?_,
    hbalanced.nonidealItems, ?_⟩
  · intro hzero
    refine ⟨(hbalanced.unexpanded hzero).1, fun bkt ↦ ?_⟩
    rw [(hsame bkt).2]
    exact (hbalanced.unexpanded hzero).2 bkt
  · intro bkt
    rw [(hsame bkt).1, (hsame bkt).2]
    exact hbalanced.expandMult bkt
  · intro hgrows bkt
    rw [(hsame bkt).1, (hsame bkt).2]
    exact hbalanced.chains hgrows bkt

/-- What one request does. -/
theorem serve_tracked {head : Option (HashTable K V)} {tables : List (HashTable K V)}
    (hvalid : ValidHead hashFcn head) (h : Tracked head tables) (request : Request K V) :
    Tracked (serve hashFcn head request).1
      (tables ++ (expansion head (serve hashFcn head request).1).toList) := by
  have hnext := (serve_spec hvalid request).1
  cases head with
  | none =>
    obtain rfl : tables = [] := h
    cases request with
    | find key => rfl
    | getOrAdd key initial =>
      have hmade : Tracked (some (hashMakeTable : HashTable K V)) [] :=
        ⟨hashMakeTable_balanced, rfl⟩
      have hadded := hashAdd_tracked hashMakeTable_valid (hnext _ rfl) hmade
      rwa [hashMakeTable_expansion] at hadded
    | assign key value => rfl
  | some tbl =>
    have hkept := h.kept h.1 rfl rfl
    cases request with
    | find key => exact hkept
    | getOrAdd key initial =>
      simp only [serve, getOrAdd] at hnext ⊢
      split at hnext
      · exact hkept
      · exact hashAdd_tracked (hvalid tbl rfl) (hnext _ rfl) h
    | assign key value =>
      simp only [serve]
      split
      · exact h.kept (hashWrite_balanced h.1 key value) rfl rfl
      · exact hkept

theorem served_append (requests more : List (Request K V)) :
    served hashFcn (requests ++ more) =
      more.foldl (fun head request ↦ (serve hashFcn head request).1) (served hashFcn requests) :=
  List.foldl_append ..

theorem expansionsFrom_append (head : Option (HashTable K V)) (requests more : List (Request K V)) :
    expansionsFrom hashFcn head (requests ++ more) = expansionsFrom hashFcn head requests ++
      expansionsFrom hashFcn
        (requests.foldl (fun head request ↦ (serve hashFcn head request).1) head) more := by
  induction requests generalizing head with
  | nil => rfl
  | cons request rest ih =>
    rw [List.cons_append, expansionsFrom, ih, expansionsFrom, List.append_assoc, List.foldl_cons]

theorem served_tracked (requests : List (Request K V)) :
    Tracked (served hashFcn requests) (expansions hashFcn requests) := by
  induction requests using List.reverseRecOn with
  | nil => rfl
  | append_singleton requests request ih =>
    have hnext := serve_tracked (served_spec requests).1 ih request
    have hrun : requests.foldl (fun head request ↦ (serve hashFcn head request).1) none =
        served hashFcn requests := rfl
    rw [expansions, expansionsFrom_append, served_append, hrun]
    simpa only [expansions, expansionsFrom, List.append_nil, List.foldl_cons, List.foldl_nil]
      using hnext

/-- An inhibited table is not expanded, and stays inhibited. -/
theorem serve_inhibited {tbl : HashTable K V} (hvalid : Valid hashFcn tbl)
    (hnoexpand : tbl.noexpand = 1) (request : Request K V) :
    ∃ next, (serve hashFcn (some tbl) request).1 = some next ∧ next.noexpand = 1 ∧
      next.numBuckets = tbl.numBuckets := by
  cases request with
  | find key => exact ⟨tbl, rfl, hnoexpand, rfl⟩
  | getOrAdd key initial =>
    simp only [serve, getOrAdd]
    split
    · exact ⟨tbl, rfl, hnoexpand, rfl⟩
    · refine ⟨_, rfl, ?_⟩
      rcases @hashAdd_cases K V hashFcn tbl hvalid.power key initial with
        ⟨-, hkept⟩ | ⟨-, hgrows, -⟩
      · rw [hkept]
        exact ⟨hnoexpand, rfl⟩
      · exact absurd hnoexpand hgrows
  | assign key value =>
    simp only [serve]
    split
    · exact ⟨_, rfl, hnoexpand, rfl⟩
    · exact ⟨tbl, rfl, hnoexpand, rfl⟩

theorem expansionsFrom_inhibited {tbl : HashTable K V} (hvalid : Valid hashFcn tbl)
    (hnoexpand : tbl.noexpand = 1) (requests : List (Request K V)) :
    expansionsFrom hashFcn (some tbl) requests = [] := by
  induction requests generalizing tbl with
  | nil => rfl
  | cons request rest ih =>
    obtain ⟨next, hnext, hkept, hbkts⟩ := serve_inhibited hvalid hnoexpand request
    have hvalidHead : ValidHead hashFcn (some tbl) := by
      rintro _ ⟨⟩
      exact hvalid
    have hvalidNext := (serve_spec hvalidHead request).1 next hnext
    simp only [expansionsFrom, hnext, expansion_eq_none hbkts, ih hvalidNext hkept,
      Option.toList_none, List.append_nil]

theorem two_le_length_rtakeWhile {A : Type} {test : A → Bool} {items : List A} :
    2 ≤ (items.rtakeWhile test).length ↔
      ∃ earlier left right, items = earlier ++ [left, right] ∧ test left ∧ test right := by
  constructor
  · intro hlength
    rcases List.eq_nil_or_concat' items with rfl | ⟨items, right, rfl⟩
    · simp at hlength
    · rw [List.rtakeWhile_concat] at hlength
      split at hlength
      · rename_i hright
        rw [List.length_append, List.length_singleton] at hlength
        rcases List.eq_nil_or_concat' items with rfl | ⟨earlier, left, rfl⟩
        · simp at hlength
        · refine ⟨earlier, left, right, by simp, ?_, hright⟩
          by_contra hleft
          rw [List.rtakeWhile_concat_neg _ _ _ hleft] at hlength
          simp at hlength
      · simp at hlength
  · rintro ⟨earlier, left, right, rfl, hleft, hright⟩
    have hsplit : earlier ++ [left, right] = (earlier ++ [left]) ++ [right] := by simp
    rw [hsplit, List.rtakeWhile_concat_pos _ _ _ hright, List.rtakeWhile_concat_pos _ _ _ hleft]
    simp

/-- In every table that requests build, whatever the hash function, no chain is longer than its
limit unless expansion is inhibited. It is inhibited exactly when the last two expansions were
ineffective, and then there are no more. -/
theorem chains_within_limit (hashFcn : K → UInt32) (requests : List (Request K V))
    {tbl : HashTable K V} (h : served hashFcn requests = some tbl) :
    Balanced tbl ∧
      (tbl.noexpand = 1 ↔ ∃ earlier left right,
        expansions hashFcn requests = earlier ++ [left, right] ∧ ineffective left ∧
          ineffective right) ∧
      (tbl.noexpand = 1 → ∀ more,
        expansions hashFcn (requests ++ more) = expansions hashFcn requests) := by
  have htracked := @served_tracked K V hashFcn _ requests
  rw [h] at htracked
  obtain ⟨hbalanced, hcounted⟩ := htracked
  refine ⟨hbalanced, ?_, ?_⟩
  · have hineff := hbalanced.ineffExpands
    rw [← two_le_length_rtakeWhile, ← hcounted, hbalanced.noexpand]
    constructor
    · intro hinhibited
      split at hinhibited
      · omega
      · omega
    · intro htwice
      rw [if_pos (by omega)]
  · intro hinhibited more
    have hvalid := (served_spec requests).1 tbl h
    have hstart : requests.foldl (fun head request ↦ (serve hashFcn head request).1) none =
        some tbl := h
    rw [expansions, expansionsFrom_append, hstart, expansionsFrom_inhibited hvalid hinhibited,
      List.append_nil]
    rfl

/-- Equal hash values: the additions of the tenth and of the hundred and tenth key expand the table
in vain, and those after them do not. -/
theorem chains_within_limit_colliding : ∃ tbl : HashTable ℕ ℕ,
    served (fun _ ↦ 0) ((List.range 111).map fun key ↦ .getOrAdd key 0) = some tbl ∧
      tbl.numBuckets = 128 ∧ Balanced tbl ∧ ∃ earlier left right,
        expansions (fun _ ↦ 0) ((List.range 111).map fun key ↦ .getOrAdd key 0) =
          earlier ++ [left, right] ∧ ineffective left ∧ ineffective right := by
  have hcounters : ((served (fun _ ↦ 0) ((List.range 111).map fun key ↦ .getOrAdd key 0) :
      Option (HashTable ℕ ℕ)).map fun tbl ↦ (tbl.numBuckets, tbl.noexpand)) = some (128, 1) := by
    decide +kernel
  obtain ⟨tbl, htbl, hcounter⟩ := Option.map_eq_some_iff.mp hcounters
  obtain ⟨hbuckets, hnoexpand⟩ := Prod.mk.inj hcounter
  obtain ⟨hbalanced, hinhibited, -⟩ := chains_within_limit _ _ htbl
  exact ⟨tbl, htbl, hbuckets, hbalanced, hinhibited.mp hnoexpand⟩

/-- A table whose counters an `unsigned` holds, and with them the limit of every chain. -/
structure CountersFit (tbl : HashTable K V) : Prop where
  log2NumBuckets : tbl.log2NumBuckets < 32
  numItems : tbl.numItems < 2 ^ 32
  idealChainMaxlen : tbl.idealChainMaxlen < 2 ^ 32
  nonidealItems : tbl.nonidealItems < 2 ^ 32
  count : ∀ bkt, (tbl.buckets bkt).count < 2 ^ 32
  limit : ∀ bkt, ((tbl.buckets bkt).expandMult + 1) * bktCapacityThresh < 2 ^ 32

omit [DecidableEq K] in
theorem chain_length_le {tbl : HashTable K V} (hvalid : Valid hashFcn tbl) (bkt : ℕ) :
    (tbl.buckets bkt).chain.length ≤ tbl.numItems := by
  by_cases hbkt : bkt < tbl.numBuckets
  · rw [← hvalid.counted, hvalid.total]
    exact Finset.single_le_sum (f := fun bkt ↦ (tbl.buckets bkt).count) (fun _ _ ↦ Nat.zero_le _)
      (Finset.mem_range.mpr hbkt)
  · have hempty : (tbl.buckets bkt).chain = [] := by
      apply List.eq_nil_iff_forall_not_mem.mpr
      intro element hmem
      have hplaced := hashToBkt_lt element.hashv tbl.log2NumBuckets
      rw [← hvalid.power, (hvalid.placed hmem).2] at hplaced
      exact hbkt hplaced
    rw [hempty]
    exact Nat.zero_le _

theorem idealLength_le (numItems numBkts : ℕ) : idealLength numItems numBkts ≤ numItems + 1 := by
  rcases Nat.eq_zero_or_pos numBkts with rfl | hbkts
  · rw [idealLength, Nat.div_zero]
    exact Nat.zero_le _
  · calc idealLength numItems numBkts ≤ (numItems + numBkts) / numBkts :=
          Nat.div_le_div_right (Nat.sub_le ..)
      _ = numItems / numBkts + 1 := Nat.add_div_right _ hbkts
      _ ≤ numItems + 1 := Nat.succ_le_succ (Nat.div_le_self ..)

/-- The natural numbers of the model agree with the counters of `uthash.h` as long as the table has
no more than 429496728 elements and less than `2 ^ 32` buckets. -/
theorem counters_fit {requests : List (Request K V)} {tbl : HashTable K V}
    (h : served hashFcn requests = some tbl) (hitems : tbl.numItems ≤ 429496728)
    (hbkts : tbl.numBuckets < 2 ^ 32) : CountersFit tbl := by
  have hvalid := (served_spec requests).1 tbl h
  have htracked := @served_tracked K V hashFcn _ requests
  rw [h] at htracked
  have hbalanced := htracked.1
  have hideal := hbalanced.ideal.trans (idealLength_le ..)
  have hnonideal := hbalanced.nonidealItems
  refine ⟨?_, by omega, by omega, by omega, ?_, ?_⟩
  · rw [hvalid.power] at hbkts
    exact (Nat.pow_lt_pow_iff_right (by decide)).mp hbkts
  · intro bkt
    have hlength := chain_length_le hvalid bkt
    rw [hvalid.counted]
    omega
  · intro bkt
    have hmult : (tbl.buckets bkt).expandMult ≤ tbl.numItems := by
      rcases Nat.eq_zero_or_pos tbl.idealChainMaxlen with hzero | hpos
      · rw [(hbalanced.unexpanded hzero).2 bkt]
        exact Nat.zero_le _
      · calc (tbl.buckets bkt).expandMult
            ≤ tbl.idealChainMaxlen * (tbl.buckets bkt).expandMult := Nat.le_mul_of_pos_left _ hpos
          _ ≤ (tbl.buckets bkt).chain.length := hbalanced.expandMult bkt
          _ ≤ tbl.numItems := chain_length_le hvalid bkt
    rw [bktCapacityThresh]
    omega

end Wispr.Daemon.Uthash
