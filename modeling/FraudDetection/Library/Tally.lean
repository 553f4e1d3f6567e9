import Mathlib.Algebra.BigOperators.Group.Finset.Basic
import Mathlib.Data.Set.Card

/-!
# Counting threads by their places

Every thread of a system is at some place. `standing P places` are the threads whose place satisfies
`P`; a counter that a thread raises when it comes to such a place is their number. The lemmas compare
two counters, also of two moments, by the threads that make the difference. Where the threads are
numbered, `weigh` adds up what their places are worth.
-/

namespace FraudDetection.Library

section places

variable {ι κ : Type} {P : κ → Prop} {places : ι → κ}

/-- The threads at a place with the property. -/
def standing (P : κ → Prop) (places : ι → κ) : Set ι := {i | P (places i)}

lemma mem_standing {i : ι} : i ∈ standing P places ↔ P (places i) := Iff.rfl

variable [DecidableEq ι] {i : ι} {place : κ}

lemma standing_update_of_iff (h : P place ↔ P (places i)) :
    standing P (Function.update places i place) = standing P places := by
  ext j
  rw [mem_standing, mem_standing]
  by_cases hj : j = i
  · rw [hj, Function.update_self]
    exact h
  · rw [Function.update_of_ne hj]

lemma standing_update_enter (h : P place) :
    standing P (Function.update places i place) = insert i (standing P places) := by
  ext j
  rw [mem_standing, Set.mem_insert_iff, mem_standing]
  by_cases hj : j = i
  · rw [hj, Function.update_self]
    exact iff_of_true h (.inl rfl)
  · rw [Function.update_of_ne hj]
    exact (or_iff_right hj).symm

end places

section counting

variable {ι : Type} {s t : Set ι} {n m : ℕ}

lemma encard_eq_iff_of_subset (hs : s.encard = n) (ht : t.encard = m) (hsub : s ⊆ t) : n = m ↔ t ⊆ s := by
  constructor
  · rintro rfl
    have hfinite : t.Finite := Set.finite_of_encard_eq_coe ht
    exact (hfinite.eq_of_subset_of_encard_le' hsub (ht.trans hs.symm).le).ge
  · intro hle
    rw [Set.Subset.antisymm hsub hle] at hs
    exact Nat.cast_inj.mp (hs.symm.trans ht)

/-- One set has no more elements than another if this holds of what each has alone. -/
lemma encard_le_iff (hs : s.encard = n) (ht : t.encard = m) : n ≤ m ↔ (s \ t).encard ≤ (t \ s).encard := by
  have hfinite : (s ∩ t).encard ≠ ⊤ := by
    have hs' : s.Finite := Set.finite_of_encard_eq_coe hs
    exact (hs'.inter_of_left t).encard_lt_top.ne
  have hleft := Set.encard_sdiff_add_encard_inter s t
  have hright := Set.encard_sdiff_add_encard_inter t s
  rw [Set.inter_comm t s] at hright
  rw [← Nat.cast_le (α := ℕ∞), ← hs, ← ht, ← hleft, ← hright]
  exact ENat.add_le_add_iff_right hfinite

end counting

section weights

variable {κ : Type} {f : κ → ℕ} {n : ℕ} {places : ℕ → κ}

/-- What the places of the threads below `n` are worth together. -/
def weigh (f : κ → ℕ) (n : ℕ) (places : ℕ → κ) : ℕ := ∑ i ∈ Finset.range n, f (places i)

/-- One thread moves. -/
lemma weigh_update (f : κ → ℕ) (places : ℕ → κ) {i : ℕ} (hi : i < n) (place : κ) :
    weigh f n (Function.update places i place) + f (places i) = weigh f n places + f place := by
  have hmem := Finset.mem_range.mpr hi
  have hrest : ∑ j ∈ (Finset.range n).erase i, f (Function.update places i place j) =
      ∑ j ∈ (Finset.range n).erase i, f (places j) := by
    refine Finset.sum_congr rfl fun j hj => ?_
    rw [Function.update_of_ne (Finset.ne_of_mem_erase hj)]
  unfold weigh
  rw [← Finset.add_sum_erase _ _ hmem, ← Finset.add_sum_erase (Finset.range n) (fun j => f (places j)) hmem, hrest,
    Function.update_self]
  omega

lemma weigh_eq_zero_iff : weigh f n places = 0 ↔ ∀ i < n, f (places i) = 0 := by
  simp only [weigh, Finset.sum_eq_zero_iff, Finset.mem_range]

end weights

end FraudDetection.Library
