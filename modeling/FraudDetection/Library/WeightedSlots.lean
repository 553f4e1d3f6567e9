import Mathlib.Algebra.Order.BigOperators.Group.List
import Mathlib.Data.Nat.Periodic
import Mathlib.Tactic.Common

/-!
# Selection by cumulative weights

Each entry of a list of weights owns as many consecutive positions as its weight says. `slot` is the
entry that owns a position; in any block of as many positions as there are, taken round the list,
an entry is met as often as its weight says.
-/

namespace FraudDetection.Library

/-- The entry that owns a position, if there is one. -/
def slot : List Nat → Nat → Option Nat
  | [], _ => none
  | weight :: weights, position =>
    if position < weight then some 0 else (slot weights (position - weight)).map (· + 1)

variable {weights : List Nat} {position i : Nat}

lemma slot_isSome_iff : (slot weights position).isSome ↔ position < weights.sum := by
  induction weights generalizing position with
  | nil => simp [slot]
  | cons weight weights ih =>
    rw [slot, List.sum_cons]
    by_cases hfirst : position < weight
    · rw [if_pos hfirst]
      exact iff_of_true rfl (by omega)
    · rw [if_neg hfirst, Option.isSome_map, ih]
      omega

/-- An entry owns the positions from the sum of the weights before it. -/
lemma slot_eq_some_iff :
    slot weights position = some i ↔ (weights.take i).sum ≤ position ∧ position < (weights.take (i + 1)).sum := by
  induction weights generalizing position i with
  | nil => simp [slot]
  | cons weight weights ih =>
    rw [slot]
    by_cases hfirst : position < weight
    · rw [if_pos hfirst]
      cases i with
      | zero => simp [hfirst]
      | succ i =>
        simp only [List.take_succ_cons, List.sum_cons, Option.some.injEq]
        omega
    · rw [if_neg hfirst, Option.map_eq_some_iff]
      cases i with
      | zero => simp [hfirst]
      | succ i =>
        simp only [Nat.add_right_cancel_iff, exists_eq_right, ih, List.take_succ_cons, List.sum_cons]
        omega

lemma count_slot (weights : List Nat) {weight : Nat} (h : weights[i]? = some weight) :
    Nat.count (fun position => slot weights position = some i) weights.sum = weight := by
  have hlast : (weights.take (i + 1)).sum = (weights.take i).sum + weight := by
    rw [List.take_add_one, h, List.sum_append, Option.toList_some, List.sum_singleton]
  have hle : (weights.take (i + 1)).sum ≤ weights.sum := (List.take_sublist _ _).sum_le_sum fun _ _ => Nat.zero_le _
  have hset : {position ∈ Finset.range weights.sum | slot weights position = some i} =
      Finset.Ico (weights.take i).sum (weights.take (i + 1)).sum := by
    ext position
    rw [Finset.mem_filter, Finset.mem_range, Finset.mem_Ico, slot_eq_some_iff]
    exact ⟨And.right, fun h => ⟨h.2.trans_le hle, h⟩⟩
  rw [Nat.count_eq_card_filter_range, hset, Nat.card_Ico, hlast, Nat.add_sub_cancel_left]

/-- Round the list, from any start. -/
theorem card_slot_block (weights : List Nat) {weight : Nat} (h : weights[i]? = some weight) (start : Nat) :
    {index ∈ Finset.Ico start (start + weights.sum) | slot weights (index % weights.sum) = some i}.card = weight := by
  have hperiodic : Function.Periodic (fun index => slot weights (index % weights.sum) = some i) weights.sum := by
    intro index
    dsimp only
    rw [Nat.add_mod_right]
  rw [Nat.filter_Ico_card_eq_of_periodic _ _ _ hperiodic, ← count_slot weights h, Nat.count_eq_card_filter_range,
    Nat.count_eq_card_filter_range]
  congr 1
  refine Finset.filter_congr fun position hposition => ?_
  rw [Nat.mod_eq_of_lt (Finset.mem_range.mp hposition)]

end FraudDetection.Library
