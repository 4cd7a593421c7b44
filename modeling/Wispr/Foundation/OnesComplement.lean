import Mathlib.Tactic

/-!
# Ones' complement sums

Addition of words below a base with the carry added back at the low end. A word and the word plus
`base - 1` stand for the same residue, so a sum is determined by the residue of the ordinary sum and
by whether that is zero. Folding the high part of a number onto its low part keeps both, which is
why a wide accumulator folded at the end gives the same sum as a carry at every step.
-/

namespace Wispr.Foundation.OnesComplement

/-- Adds the high part to the low part. -/
def fold (base n : ℕ) : ℕ := n % base + n / base

/-- Addition with an end-around carry. -/
def add (base a b : ℕ) : ℕ := fold base (a + b)

def sum (base : ℕ) (words : List ℕ) : ℕ := words.foldl (add base) 0

/-- The word that stands for a number: zero only for zero, else between one and `base - 1`. -/
def residue (base n : ℕ) : ℕ := if n = 0 then 0 else (n - 1) % (base - 1) + 1

variable {base : ℕ}

theorem residue_congr {n m : ℕ} (hzero : n = 0 ↔ m = 0) (hmod : n ≡ m [MOD base - 1]) :
    residue base n = residue base m := by
  by_cases hn : n = 0
  · rw [hn, hzero.mp hn]
  · have hm : m ≠ 0 := fun h ↦ hn (hzero.mpr h)
    rw [residue, residue, if_neg hn, if_neg hm]
    congr 1
    apply Nat.ModEq.add_right_cancel' 1
    rwa [Nat.sub_add_cancel (Nat.one_le_iff_ne_zero.mpr hn),
      Nat.sub_add_cancel (Nat.one_le_iff_ne_zero.mpr hm)]

theorem residue_of_lt {n : ℕ} (hlt : n < base) : residue base n = n := by
  unfold residue
  split
  · rename_i hzero
    exact hzero.symm
  · rw [Nat.mod_eq_of_lt (by omega)]
    omega

theorem residue_lt (hbase : 1 < base) (n : ℕ) : residue base n < base := by
  unfold residue
  split
  · omega
  · have hlt := Nat.mod_lt (n - 1) (show 0 < base - 1 by omega)
    omega

theorem fold_eq_zero {n : ℕ} : fold base n = 0 ↔ n = 0 := by
  have hdiv := Nat.div_add_mod n base
  constructor
  · intro h
    obtain ⟨hmod, hquotient⟩ := Nat.add_eq_zero_iff.mp h
    rw [hmod, hquotient] at hdiv
    simpa using hdiv.symm
  · rintro rfl
    simp [fold]

theorem fold_modEq (hbase : 1 < base) (n : ℕ) : fold base n ≡ n [MOD base - 1] := by
  have hone : base = (base - 1) + 1 := by omega
  have hsplit : n = (base - 1) * (n / base) + fold base n := by
    calc
      n = base * (n / base) + n % base := (Nat.div_add_mod n base).symm
      _ = ((base - 1) + 1) * (n / base) + n % base := by rw [← hone]
      _ = (base - 1) * (n / base) + fold base n := by
        rw [fold]
        ring
  have hmod : (base - 1) * (n / base) + fold base n ≡ fold base n [MOD base - 1] :=
    Nat.mul_add_mod ..
  rw [← hsplit] at hmod
  exact hmod.symm

/-- Folding keeps the word that stands for a number. -/
theorem residue_fold (hbase : 1 < base) (n : ℕ) : residue base (fold base n) = residue base n :=
  residue_congr fold_eq_zero (fold_modEq hbase n)

theorem fold_le {n : ℕ} (hbase : 1 < base) (hlt : n < base * base) :
    fold base n ≤ 2 * (base - 1) := by
  have hmod := Nat.mod_lt n (show 0 < base by omega)
  have hdiv : n / base < base := Nat.div_lt_of_lt_mul hlt
  unfold fold
  omega

theorem fold_lt {n : ℕ} (hbase : 1 < base) (hle : n ≤ 2 * (base - 1)) : fold base n < base := by
  unfold fold
  by_cases hsmall : n < base
  · rw [Nat.mod_eq_of_lt hsmall, Nat.div_eq_of_lt hsmall]
    omega
  · have hdiv : n / base = 1 := Nat.div_eq_of_lt_le (by omega) (by omega)
    have hmod := Nat.div_add_mod n base
    rw [hdiv] at hmod ⊢
    omega

/-- Two folds absorb every carry of a number of two words. -/
theorem fold_fold (hbase : 1 < base) {n : ℕ} (hlt : n < base * base) :
    fold base (fold base n) = residue base n := by
  have hword : fold base (fold base n) < base := fold_lt hbase (fold_le hbase hlt)
  calc
    _ = residue base (fold base (fold base n)) := (residue_of_lt hword).symm
    _ = residue base n := by rw [residue_fold hbase, residue_fold hbase]

theorem add_eq_residue (hbase : 1 < base) {a b : ℕ} (ha : a < base) (hb : b < base) :
    add base a b = residue base (a + b) := by
  have hword : add base a b < base := fold_lt hbase (by omega)
  calc
    _ = residue base (add base a b) := (residue_of_lt hword).symm
    _ = residue base (a + b) := residue_fold hbase (a + b)

theorem residue_modEq (n : ℕ) : residue base n ≡ n [MOD base - 1] := by
  unfold residue
  split
  · rename_i hzero
    rw [hzero]
  · rename_i hpos
    have hstep := (Nat.mod_modEq (n - 1) (base - 1)).add_right 1
    rwa [Nat.sub_add_cancel (Nat.one_le_iff_ne_zero.mpr hpos)] at hstep

theorem residue_eq_zero {n : ℕ} : residue base n = 0 ↔ n = 0 := by
  unfold residue
  split
  · simp [*]
  · simp [*]

theorem residue_add_residue (n m : ℕ) :
    residue base (residue base n + m) = residue base (n + m) := by
  apply residue_congr
  · simp [residue_eq_zero]
  · exact (residue_modEq n).add_right m

theorem foldl_add (hbase : 1 < base) {words : List ℕ} (hwords : ∀ word ∈ words, word < base)
    (n : ℕ) : words.foldl (add base) (residue base n) = residue base (n + words.sum) := by
  induction words generalizing n with
  | nil => simp
  | cons word rest ih =>
    have hword : word < base := hwords word (List.mem_cons_self ..)
    rw [List.foldl_cons, add_eq_residue hbase (residue_lt hbase n) hword,
      residue_add_residue, ih (fun other hother ↦ hwords other (List.mem_cons_of_mem _ hother)),
      List.sum_cons, Nat.add_assoc]

/-- A ones' complement sum is the word that stands for the ordinary sum. -/
theorem sum_eq_residue (hbase : 1 < base) {words : List ℕ} (hwords : ∀ word ∈ words, word < base) :
    sum base words = residue base words.sum := by
  have h := foldl_add hbase hwords 0
  rwa [Nat.zero_add] at h

/-- A word and its complement add up to all ones. -/
theorem residue_add_complement (hbase : 1 < base) (n : ℕ) :
    residue base (n + (base - 1 - residue base n)) = base - 1 := by
  have hlt := residue_lt hbase n
  calc
    _ = residue base (residue base n + (base - 1 - residue base n)) :=
      (residue_add_residue n _).symm
    _ = residue base (base - 1) := by congr 1; omega
    _ = base - 1 := residue_of_lt (by omega)

/-- Adding the complement does not carry out of two words: the sum is a multiple of `base - 1`, and
the first one beyond two words is too far away. -/
theorem add_complement_lt (hbase : 1 < base) {n : ℕ} (hlt : n < base * base) :
    n + (base - 1 - residue base n) < base * base := by
  by_contra hover
  have hmultiple : base - 1 ∣ n + (base - 1 - residue base n) := by
    apply (Nat.modEq_zero_iff_dvd).mp
    calc
      n + (base - 1 - residue base n) ≡ residue base (n + (base - 1 - residue base n))
          [MOD base - 1] := (residue_modEq _).symm
      _ = base - 1 := residue_add_complement hbase n
      _ ≡ 0 [MOD base - 1] := Nat.modEq_zero_iff_dvd.mpr dvd_rfl
  obtain ⟨count, hcount⟩ := hmultiple
  have hsquare : base * base = (base - 1) * (base + 1) + 1 := by
    obtain ⟨rest, rfl⟩ : ∃ rest, base = rest + 1 := ⟨base - 1, by omega⟩
    rw [Nat.add_sub_cancel]
    ring
  have hmany : base + 2 ≤ count := by
    by_contra hfew
    have hle : (base - 1) * count ≤ (base - 1) * (base + 1) :=
      Nat.mul_le_mul_left _ (by omega)
    omega
  have hfar : (base - 1) * (base + 1) + (base - 1) ≤ (base - 1) * count := by
    calc
      _ = (base - 1) * (base + 2) := by ring
      _ ≤ (base - 1) * count := Nat.mul_le_mul_left _ hmany
  have hnone : residue base n = 0 := by omega
  have hzero := residue_eq_zero.mp hnone
  have hlarge : base - 1 ≤ (base - 1) * (base + 1) := Nat.le_mul_of_pos_right _ (by omega)
  omega

end Wispr.Foundation.OnesComplement
