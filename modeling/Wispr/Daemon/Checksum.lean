import Wispr.Foundation.OnesComplement

/-!
# The internet checksum

`checksum` of `wispr_proto.c`, which `sendRawEth.c` repeats: the words of a buffer are added up in a
32-bit accumulator, the accumulator is folded twice and its complement cut to 16 bits. Words are in
the byte order of a little-endian host.
-/

open Wispr.Foundation

namespace Wispr.Daemon.Checksum

/-- A word in memory. -/
def word (low high : UInt8) : ℕ := low.toNat + 256 * high.toNat

/-- The loop over `*buf++` and the odd byte at the end. -/
def checksumLoop : List UInt8 → UInt32 → UInt32
  | low :: high :: rest, sum => checksumLoop rest (sum + UInt32.ofNat (word low high))
  | [byte], sum => sum + byte.toUInt32
  | [], sum => sum

/-- The two folds. The second one leaves the high part, which the conversion of the result cuts
off. -/
def checksumFold (sum : UInt32) : UInt32 :=
  let sum := (sum >>> 16) + (sum &&& 0xFFFF)
  sum + (sum >>> 16)

def checksum (b : List UInt8) : UInt16 := (~~~ checksumFold (checksumLoop b 0)).toUInt16

/-- The words of a buffer, the last odd byte padded with zero. -/
def words : List UInt8 → List ℕ
  | low :: high :: rest => word low high :: words rest
  | [byte] => [word byte 0]
  | [] => []

theorem word_lt (low high : UInt8) : word low high < 65536 := by
  have hlow := low.toNat_lt
  have hhigh := high.toNat_lt
  unfold word
  omega

theorem words_lt (b : List UInt8) : ∀ value ∈ words b, value < 65536 := by
  induction b using words.induct with
  | case1 low high rest ih =>
    intro value hvalue
    rcases List.mem_cons.mp hvalue with rfl | hrest
    · exact word_lt low high
    · exact ih value hrest
  | case2 byte =>
    intro value hvalue
    rw [List.mem_singleton.mp hvalue]
    exact word_lt byte 0
  | case3 =>
    intro value hvalue
    cases hvalue

theorem sum_words_le (b : List UInt8) : (words b).sum ≤ (b.length + 1) / 2 * 65535 := by
  induction b using words.induct with
  | case1 low high rest ih =>
    have hword := word_lt low high
    simp only [words, List.sum_cons, List.length_cons]
    omega
  | case2 byte =>
    have hbyte := byte.toNat_lt
    simp only [words, word, List.sum_singleton, List.length_singleton, UInt8.toNat_zero]
    omega
  | case3 => simp [words]

/-- The accumulator holds the sum of the words modulo `2 ^ 32`. -/
theorem toNat_checksumLoop (b : List UInt8) (sum : UInt32) :
    (checksumLoop b sum).toNat = (sum.toNat + (words b).sum) % 2 ^ 32 := by
  induction b, sum using checksumLoop.induct with
  | case1 low high rest sum ih =>
    have hword := word_lt low high
    rw [checksumLoop, ih, words, List.sum_cons, UInt32.toNat_add, UInt32.toNat_ofNat',
      Nat.mod_eq_of_lt (show word low high < 2 ^ 32 by omega), Nat.mod_add_mod, Nat.add_assoc]
  | case2 byte sum =>
    have hbyte : word byte 0 = byte.toNat := by simp [word]
    rw [checksumLoop, words, UInt32.toNat_add, UInt8.toNat_toUInt32, List.sum_singleton, hbyte]
  | case3 sum =>
    rw [checksumLoop, words, List.sum_nil, Nat.add_zero, Nat.mod_eq_of_lt sum.toNat_lt]

/-- The words of a buffer of at most 131074 bytes do not overflow the accumulator. -/
theorem sum_words_lt {b : List UInt8} (hlength : b.length ≤ 131074) : (words b).sum < 2 ^ 32 := by
  have hle := sum_words_le b
  omega

theorem toNat_high (sum : UInt32) : (sum >>> 16).toNat = sum.toNat / 65536 := by
  rw [UInt32.toNat_shiftRight]
  exact Nat.shiftRight_eq_div_pow ..

theorem toNat_low (sum : UInt32) : (sum &&& 0xFFFF).toNat = sum.toNat % 65536 := by
  rw [UInt32.toNat_and]
  exact Nat.and_two_pow_sub_one_eq_mod sum.toNat 16

/-- The low word after the two folds. -/
theorem toNat_checksumFold (sum : UInt32) :
    (checksumFold sum).toNat % 65536 = OnesComplement.residue 65536 sum.toNat := by
  have hsum : sum.toNat < 65536 * 65536 := sum.toNat_lt
  have hfirst : ((sum >>> 16) + (sum &&& 0xFFFF)).toNat = OnesComplement.fold 65536 sum.toNat := by
    rw [UInt32.toNat_add, toNat_high, toNat_low, OnesComplement.fold, Nat.mod_eq_of_lt (by omega),
      Nat.add_comm]
  have hbound := OnesComplement.fold_le (by decide) hsum
  rw [← OnesComplement.fold_fold (by decide) hsum, ← hfirst]
  rw [← hfirst] at hbound
  simp only [checksumFold]
  generalize (sum >>> 16) + (sum &&& 0xFFFF) = folded at hbound ⊢
  rw [UInt32.toNat_add, toNat_high, OnesComplement.fold]
  omega

theorem toNat_checksum (b : List UInt8) : (checksum b).toNat =
    65535 - OnesComplement.residue 65536 ((words b).sum % 2 ^ 32) := by
  have hfold := toNat_checksumFold (checksumLoop b 0)
  have hlt := (checksumFold (checksumLoop b 0)).toNat_lt
  have hsize : UInt32.size = 4294967296 := rfl
  rw [toNat_checksumLoop, UInt32.toNat_zero, Nat.zero_add] at hfold
  rw [checksum, UInt32.toNat_toUInt16, UInt32.toNat_not, ← hfold, hsize]
  omega

/-- A 16-bit field of the buffer, in host order. -/
def storeField (b : List UInt8) (field : ℕ) (value : UInt16) : List UInt8 :=
  (b.set (2 * field) (UInt8.ofNat (value.toNat % 256))).set (2 * field + 1)
    (UInt8.ofNat (value.toNat / 256))

theorem word_ofNat (value : UInt16) :
    word (UInt8.ofNat (value.toNat % 256)) (UInt8.ofNat (value.toNat / 256)) = value.toNat := by
  have hvalue := value.toNat_lt
  rw [word, UInt8.toNat_ofNat', UInt8.toNat_ofNat']
  omega

theorem storeField_zero (low high : UInt8) (rest : List UInt8) (value : UInt16) :
    storeField (low :: high :: rest) 0 value =
      UInt8.ofNat (value.toNat % 256) :: UInt8.ofNat (value.toNat / 256) :: rest := rfl

theorem storeField_succ (low high : UInt8) (rest : List UInt8) (field : ℕ) (value : UInt16) :
    storeField (low :: high :: rest) (field + 1) value =
      low :: high :: storeField rest field value := rfl

/-- A value stored in a zero field adds to the sum of the words. -/
theorem sum_words_storeField {b : List UInt8} {field : ℕ} (value : UInt16)
    (hlow : b[2 * field]? = some 0) (hhigh : b[2 * field + 1]? = some 0) :
    (words (storeField b field value)).sum = (words b).sum + value.toNat := by
  induction field generalizing b with
  | zero =>
    match b, hlow, hhigh with
    | low :: high :: rest, hlow, hhigh =>
      cases hlow
      cases hhigh
      have hzero : word 0 0 = 0 := rfl
      rw [storeField_zero, words, words, List.sum_cons, List.sum_cons, word_ofNat, hzero]
      omega
  | succ field ih =>
    match b, hlow, hhigh with
    | low :: high :: rest, hlow, hhigh =>
      rw [storeField_succ, words, words, List.sum_cons, List.sum_cons, ih hlow hhigh, Nat.add_assoc]

/-- A buffer with its checksum in a field that was zero has checksum zero: the words add up to a
nonzero multiple of 65535, also where the accumulator has lost carries before. -/
theorem checksum_storeField {b : List UInt8} {field : ℕ} (hlow : b[2 * field]? = some 0)
    (hhigh : b[2 * field + 1]? = some 0) : checksum (storeField b field (checksum b)) = 0 := by
  have hkept : (words b).sum % 2 ^ 32 < 65536 * 65536 := Nat.mod_lt _ (by decide)
  have hroom := OnesComplement.add_complement_lt (by decide) hkept
  have hones := @OnesComplement.residue_add_complement 65536 (by decide) ((words b).sum % 2 ^ 32)
  have hsum : (words (storeField b field (checksum b))).sum % 2 ^ 32 =
      (words b).sum % 2 ^ 32 +
        (65536 - 1 - OnesComplement.residue 65536 ((words b).sum % 2 ^ 32)) := by
    rw [sum_words_storeField _ hlow hhigh, toNat_checksum, ← Nat.mod_add_mod]
    exact Nat.mod_eq_of_lt hroom
  apply UInt16.toNat_inj.mp
  rw [toNat_checksum, hsum, hones]
  rfl

/-- **The internet checksum is exact.** For up to 65537 words the accumulator does not overflow, and
the result is the complement of the ones' complement sum of the words. A result stored in a field
that was zero makes the checksum of the buffer zero. -/
theorem checksum_exact :
    (∀ b : List UInt8, b.length ≤ 131074 →
      (checksumLoop b 0).toNat = (words b).sum ∧
        checksum b = ~~~ UInt16.ofNat (OnesComplement.sum 65536 (words b))) ∧
    ∀ (b : List UInt8) (field : ℕ), b[2 * field]? = some 0 → b[2 * field + 1]? = some 0 →
      checksum (storeField b field (checksum b)) = 0 := by
  constructor
  · intro b hlength
    have hlt := sum_words_lt hlength
    have hloop : (checksumLoop b 0).toNat = (words b).sum := by
      rw [toNat_checksumLoop, UInt32.toNat_zero, Nat.zero_add, Nat.mod_eq_of_lt hlt]
    refine ⟨hloop, ?_⟩
    have hresidue := @OnesComplement.residue_lt 65536 (by decide) (words b).sum
    apply UInt16.toNat_inj.mp
    rw [toNat_checksum, Nat.mod_eq_of_lt hlt,
      OnesComplement.sum_eq_residue (by decide) (words_lt b), UInt16.toNat_not,
      UInt16.toNat_ofNat_of_lt' hresidue]
    rfl
  · intro b field hlow hhigh
    exact checksum_storeField hlow hhigh

/-- An ICMP echo request with its checksum still zero. -/
def icmpHeader : List UInt8 := [8, 0, 0, 0, 0x12, 0x34, 0, 1, 0xff]

theorem checksum_exact_icmp :
    checksum icmpHeader = ~~~ UInt16.ofNat (OnesComplement.sum 65536 (words icmpHeader)) ∧
      checksum (storeField icmpHeader 1 (checksum icmpHeader)) = 0 :=
  ⟨(checksum_exact.1 icmpHeader (by decide)).2, checksum_exact.2 icmpHeader 1 rfl rfl⟩

end Wispr.Daemon.Checksum
