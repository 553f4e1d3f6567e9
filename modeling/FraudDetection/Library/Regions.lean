import Mathlib.Algebra.GroupWithZero.Nat
import Mathlib.Order.Interval.Finset.Nat
import Mathlib.Data.Finset.Union

/-!
# Regions of memory

Ranges of bytes and their alignment. A word is rounded up to a power of two with a mask, as
allocators do it; regions without a common byte together have no more bytes than the memory that
holds them.
-/

namespace FraudDetection.Library

section alignment

variable {w : Nat} {value alignment : BitVec w}

def roundUp (value alignment : BitVec w) : BitVec w := (value + alignment - 1) &&& ~~~(alignment - 1)

def IsAlignment (alignment : BitVec w) : Prop := alignment ≠ 0 ∧ alignment &&& (alignment - 1) = 0

instance : DecidablePred (IsAlignment (w := w)) := fun _ => inferInstanceAs (Decidable (_ ∧ _))

lemma toNat_pos_of_ne_zero (h : alignment ≠ 0) : 0 < alignment.toNat := by
  rw [Nat.pos_iff_ne_zero]
  intro hzero
  exact h (BitVec.eq_of_toNat_eq hzero)

lemma toNat_pred (h : alignment ≠ 0) : (alignment - 1).toNat = alignment.toNat - 1 := by
  have hpos := toNat_pos_of_ne_zero h
  have hlt := alignment.isLt
  have hone : (1 : BitVec w).toNat = 1 := by
    rw [BitVec.ofNat_eq_ofNat, BitVec.toNat_ofNat]
    exact Nat.mod_eq_of_lt (lt_of_le_of_lt hpos hlt)
  rw [BitVec.toNat_sub_of_le (BitVec.le_def.mpr (by omega)), hone]

lemma IsAlignment.exists_pow (h : IsAlignment alignment) : ∃ k, alignment.toNat = 2 ^ k := by
  have hzero : alignment.toNat &&& (alignment.toNat - 1) = 0 := by
    rw [← toNat_pred h.1, ← BitVec.toNat_and, h.2]
    exact BitVec.toNat_ofNat _ _
  exact (Nat.and_sub_one_eq_zero_iff_isPowerOfTwo (toNat_pos_of_ne_zero h.1).ne').mp hzero

lemma toNat_clear {mask : BitVec w} {k : Nat} (hmask : mask.toNat = 2 ^ k - 1) :
    (value &&& ~~~mask).toNat = value.toNat / 2 ^ k * 2 ^ k := by
  rw [← Nat.shiftRight_eq_div_pow, ← Nat.shiftLeft_eq]
  refine Nat.eq_of_testBit_eq fun i => ?_
  have hbit : mask.getLsbD i = decide (i < k) := by
    rw [← BitVec.testBit_toNat, hmask, Nat.testBit_two_pow_sub_one]
  rw [Nat.testBit_shiftLeft, Nat.testBit_shiftRight, BitVec.testBit_toNat, BitVec.getLsbD_and, BitVec.getLsbD_not,
    hbit, BitVec.testBit_toNat]
  by_cases hi : i < k
  · simp [hi]
  · have hadd : k + (i - k) = i := by omega
    rw [hadd]
    by_cases hw : i < w
    · have hle : k ≤ i := by omega
      simp [hi, hw, hle]
    · simp [BitVec.getLsbD_of_ge value i (by omega)]

/-- The guard of an allocator against a sum that does not fit into a word. -/
lemma add_pred_lt_of_guard (hne : alignment ≠ 0) (h : ¬ BitVec.allOnes w - (alignment - 1) < value) :
    value.toNat + (alignment.toNat - 1) < 2 ^ w := by
  have hpred := toNat_pred hne
  have hlt := alignment.isLt
  have hones : alignment - 1 ≤ BitVec.allOnes w := by
    rw [BitVec.le_def, BitVec.toNat_allOnes]
    omega
  rw [BitVec.not_lt, BitVec.le_def, BitVec.toNat_sub_of_le hones, BitVec.toNat_allOnes, hpred] at h
  omega

lemma toNat_add_pred (hne : alignment ≠ 0) (hfits : value.toNat + (alignment.toNat - 1) < 2 ^ w) :
    (value + alignment - 1).toNat = value.toNat + (alignment.toNat - 1) := by
  have hpred := toNat_pred hne
  have hassoc : value + alignment - 1 = value + (alignment - 1) := by
    rw [BitVec.sub_eq_add_neg, BitVec.sub_eq_add_neg, BitVec.add_assoc]
  rw [hassoc, BitVec.toNat_add_of_lt (by rw [hpred]; exact hfits), hpred]

lemma roundUp_spec (h : IsAlignment alignment) (hfits : value.toNat + (alignment.toNat - 1) < 2 ^ w) :
    alignment.toNat ∣ (roundUp value alignment).toNat ∧ value.toNat ≤ (roundUp value alignment).toNat ∧
      (roundUp value alignment).toNat < value.toNat + alignment.toNat := by
  have hpos := toNat_pos_of_ne_zero h.1
  obtain ⟨k, hk⟩ := h.exists_pow
  rw [roundUp, toNat_clear ((toNat_pred h.1).trans (by rw [hk])), toNat_add_pred h.1 hfits, ← hk]
  have hdiv := Nat.div_add_mod (value.toNat + (alignment.toNat - 1)) alignment.toNat
  have hlt := Nat.mod_lt (value.toNat + (alignment.toNat - 1)) hpos
  rw [Nat.mul_comm] at hdiv
  exact ⟨Nat.dvd_mul_left _ _, by omega, by omega⟩

lemma IsAlignment.dvd_iff_le {other : BitVec w} (h : IsAlignment alignment) (hother : IsAlignment other) :
    alignment.toNat ∣ other.toNat ↔ alignment.toNat ≤ other.toNat := by
  constructor
  · exact Nat.le_of_dvd (toNat_pos_of_ne_zero hother.1)
  · intro hle
    obtain ⟨j, hj⟩ := h.exists_pow
    obtain ⟨k, hk⟩ := hother.exists_pow
    rw [hj, hk] at hle ⊢
    exact Nat.pow_dvd_pow 2 ((Nat.pow_le_pow_iff_right Nat.one_lt_two).mp hle)

/-- An aligned offset leaves the alignment of an address as it is, also where the sum wraps. -/
lemma IsAlignment.dvd_add_iff {base offset : BitVec w} (h : IsAlignment alignment)
    (hoffset : alignment.toNat ∣ offset.toNat) :
    alignment.toNat ∣ (base + offset).toNat ↔ alignment.toNat ∣ base.toNat := by
  obtain ⟨k, hk⟩ := h.exists_pow
  have hword : alignment.toNat ∣ 2 ^ w := by
    have hlt := alignment.isLt
    rw [hk] at hlt ⊢
    exact Nat.pow_dvd_pow 2 ((Nat.pow_lt_pow_iff_right Nat.one_lt_two).mp hlt).le
  rw [BitVec.toNat_add, Nat.dvd_mod_iff hword]
  exact Nat.dvd_add_iff_left hoffset |>.symm

end alignment

section regions

structure Region where
  start : Nat
  size : Nat

namespace Region

def bytes (r : Region) : Finset Nat := Finset.Ico r.start (r.start + r.size)

lemma card_bytes (r : Region) : r.bytes.card = r.size := by
  rw [bytes, Nat.card_Ico, Nat.add_sub_cancel_left]

lemma disjoint_of_le {r r' : Region} (h : r.start + r.size ≤ r'.start) : Disjoint r.bytes r'.bytes := by
  rw [bytes, bytes, Finset.disjoint_left]
  intro byte hr hr'
  rw [Finset.mem_Ico] at hr hr'
  omega

def allBytes (regions : List Region) : Finset Nat := regions.foldr (fun r known => r.bytes ∪ known) ∅

lemma mem_allBytes {regions : List Region} {byte : Nat} : byte ∈ allBytes regions ↔ ∃ r ∈ regions, byte ∈ r.bytes := by
  induction regions with
  | nil => simp [allBytes]
  | cons r regions ih =>
    rw [allBytes, List.foldr_cons, Finset.mem_union, List.exists_mem_cons_iff]
    exact or_congr_right ih

/-- Regions with no common byte have as many bytes as their sizes add up to. -/
lemma card_allBytes {regions : List Region} (h : regions.Pairwise fun r r' => Disjoint r.bytes r'.bytes) :
    (allBytes regions).card = (regions.map size).sum := by
  induction regions with
  | nil => rfl
  | cons r regions ih =>
    obtain ⟨hr, hrest⟩ := List.pairwise_cons.mp h
    have hdisjoint : Disjoint r.bytes (allBytes regions) := by
      rw [Finset.disjoint_left]
      intro byte hbyte hall
      obtain ⟨r', hin, hbyte'⟩ := mem_allBytes.mp hall
      exact Finset.disjoint_left.mp (hr r' hin) hbyte hbyte'
    rw [List.map_cons, List.sum_cons, ← ih hrest, ← card_bytes r]
    exact Finset.card_union_of_disjoint hdisjoint

lemma sum_size_le {regions : List Region} {low high : Nat}
    (h : regions.Pairwise fun r r' => Disjoint r.bytes r'.bytes)
    (hinside : ∀ r ∈ regions, low ≤ r.start ∧ r.start + r.size ≤ high) :
    (regions.map size).sum ≤ high - low := by
  rw [← card_allBytes h, ← Nat.card_Ico]
  refine Finset.card_le_card fun byte hbyte => ?_
  obtain ⟨r, hin, hr⟩ := mem_allBytes.mp hbyte
  rw [bytes, Finset.mem_Ico] at hr
  have hbounds := hinside r hin
  rw [Finset.mem_Ico]
  omega

end Region

end regions

end FraudDetection.Library
