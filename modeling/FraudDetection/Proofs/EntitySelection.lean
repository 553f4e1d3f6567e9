import FraudDetection.LoadTester
import FraudDetection.Library.Outcomes
import FraudDetection.Library.WeightedSlots

/-!
# Weighted entities of the load tester

The weights are added in 64 bits. Whatever the sum wraps to, a remainder by it stays below the true
sum, so the scan of the weights ends at an entity; it is the one that owns the remainder among the
cumulative weights. Only a sum that wraps to zero is different, and `Validate` does not exclude it.
-/

namespace FraudDetection.Proofs
open FraudDetection.Library
open FraudDetection.LoadTester
open FraudDetection.Ingestion (wrap64)

section validation

variable {K : Type} [LinearOrder K] [Zero K] {c : Config K}

structure ValidConfig (c : Config K) : Prop where
  concurrency_pos : 1 ≤ c.concurrency
  entities_pos : 0 < c.entities.length
  weights_match : c.entityWeights = [] ∨ c.entityWeights.length = c.entities.length
  weights_pos : ∀ weight ∈ c.entityWeights, 1 ≤ weight

lemma validConfig_of_validate (h : c.validate = .ok ()) : ValidConfig c := by
  unfold Config.validate at h
  simp only [throw_if_eq_ok_iff] at h
  obtain ⟨-, -, hpositive, hentities, -, hmatch, hweights, -⟩ := h
  refine ⟨by omega, Nat.pos_of_ne_zero hentities, ?_, ?_⟩
  · by_cases hempty : c.entityWeights.length = 0
    · exact .inl (List.length_eq_zero_iff.mp hempty)
    · exact .inr (not_not.mp fun hne => hmatch ⟨hempty, hne⟩)
  · intro weight hweight
    by_contra hlow
    exact hweights (List.any_eq_true.mpr ⟨weight, hweight, decide_eq_true (by omega)⟩)

end validation

section wrapping

lemma wrap64_eq_zero_iff {n : Int} : wrap64 n = 0 ↔ 2 ^ 64 ∣ n := Int.dvd_iff_bmod_eq_zero.symm

lemma wrap64_of_lt {n : Int} (hnonneg : 0 ≤ n) (hlt : n < 2 ^ 63) : wrap64 n = n := by
  unfold wrap64
  rw [Int.bmod_eq_of_le] <;> omega

lemma natAbs_wrap64_le (n : Int) : (wrap64 n).natAbs ≤ 2 ^ 63 := by
  have hge : -(2 ^ 64 / 2) ≤ wrap64 n := Int.le_bmod (by decide)
  have hlt : wrap64 n < (2 ^ 64 + 1) / 2 := Int.bmod_lt (by decide)
  omega

/-- The magnitude of a wrapped sum is that of the sum, up to the word where it wraps. -/
lemma natAbs_wrap64_eq {n : Int} (hnonneg : 0 ≤ n) (hle : n ≤ 2 ^ 63) : (wrap64 n).natAbs = n.toNat := by
  rcases hle.lt_or_eq with hlt | rfl
  · rw [wrap64_of_lt hnonneg hlt]
    omega
  · rfl

lemma natAbs_wrap64_le_toNat {n : Int} (hnonneg : 0 ≤ n) : (wrap64 n).natAbs ≤ n.toNat := by
  by_cases hle : n ≤ 2 ^ 63
  · exact (natAbs_wrap64_eq hnonneg hle).le
  · have hbound := natAbs_wrap64_le n
    omega

lemma totalWeight_eq (weights : List Int) : totalWeight weights = wrap64 weights.sum := by
  have hfold : ∀ start, weights.foldl (fun total weight => wrap64 (total + weight)) (wrap64 start) =
      wrap64 (start + weights.sum) := by
    induction weights with
    | nil =>
      intro start
      rw [List.foldl_nil, List.sum_nil, add_zero]
    | cons weight weights ih =>
      intro start
      have hstep : wrap64 (wrap64 start + weight) = wrap64 (start + weight) := Int.bmod_add_bmod
      rw [List.foldl_cons, hstep, ih, List.sum_cons, add_assoc]
  have hall := hfold 0
  rwa [zero_add] at hall

end wrapping

section scan

variable {weights : List Int}

lemma sum_toNat (h : ∀ weight ∈ weights, 1 ≤ weight) :
    0 ≤ weights.sum ∧ (weights.map Int.toNat).sum = weights.sum.toNat := by
  induction weights with
  | nil => exact ⟨le_rfl, rfl⟩
  | cons weight weights ih =>
    obtain ⟨hnonneg, hsum⟩ := ih fun w hw => h w (List.mem_cons_of_mem _ hw)
    have hfirst := h weight List.mem_cons_self
    rw [List.map_cons, List.sum_cons, List.sum_cons, hsum]
    omega

lemma scanWeights_eq_slot (h : ∀ weight ∈ weights, 1 ≤ weight) {position : Int} (hnonneg : 0 ≤ position)
    (hlt : position < 2 ^ 63) : scanWeights weights position = slot (weights.map Int.toNat) position.toNat := by
  induction weights generalizing position with
  | nil => rfl
  | cons weight weights ih =>
    have hfirst := h weight List.mem_cons_self
    rw [scanWeights, List.map_cons, slot]
    by_cases hin : position < weight
    · rw [if_pos hin, if_pos (by omega)]
    · have hrest : position.toNat - weight.toNat = (position - weight).toNat := by omega
      rw [if_neg hin, if_neg (by omega), wrap64_of_lt (by omega) (by omega), hrest,
        ih (fun w hw => h w (List.mem_cons_of_mem _ hw)) (by omega) (by omega)]

end scan

section selection

variable {K : Type} {c : Config K}

lemma selectedPosition_of_dvd (h : 2 ^ 64 ∣ c.entityWeights.sum) (index : Int) :
    c.selectedPosition index = .error .integerDivideByZero := by
  have hzero : totalWeight c.entityWeights = 0 := (totalWeight_eq _).trans (wrap64_eq_zero_iff.mpr h)
  unfold Config.selectedPosition remainder
  rw [if_pos hzero]
  rfl

/-- The selected entity owns the remainder of the index by the magnitude of the wrapped sum. -/
lemma selectedPosition_eq_slot (hpos : ∀ weight ∈ c.entityWeights, 1 ≤ weight)
    (h : ¬ 2 ^ 64 ∣ c.entityWeights.sum) (index : Nat) :
    c.selectedPosition index =
      .ok (slot (c.entityWeights.map Int.toNat) (index % (wrap64 c.entityWeights.sum).natAbs)) := by
  have hne : wrap64 c.entityWeights.sum ≠ 0 := fun hzero => h (wrap64_eq_zero_iff.mp hzero)
  have hrem : (index : Int).tmod (wrap64 c.entityWeights.sum) =
      (index % (wrap64 c.entityWeights.sum).natAbs : Nat) := by
    rw [Int.tmod_eq_emod_of_nonneg (Int.natCast_nonneg index), ← Int.emod_abs, Int.abs_eq_natAbs, Int.natCast_mod]
  have hlt : index % (wrap64 c.entityWeights.sum).natAbs < 2 ^ 63 :=
    (Nat.mod_lt _ (Int.natAbs_pos.mpr hne)).trans_le (natAbs_wrap64_le _)
  unfold Config.selectedPosition remainder
  rw [totalWeight_eq, if_neg hne, hrem]
  change Except.ok (scanWeights c.entityWeights _) = _
  rw [scanWeights_eq_slot hpos (Int.natCast_nonneg _) (by omega), Int.toNat_natCast]

/-- Weights that add up to more than `2 ^ 63` are shared out over the magnitude of the wrapped sum, which
is less: no index selects an entity before which the weights reach that far. -/
theorem selectedPosition_of_overflow (hpos : ∀ weight ∈ c.entityWeights, 1 ≤ weight)
    (h : ¬ 2 ^ 64 ∣ c.entityWeights.sum) (hlarge : 2 ^ 63 < c.entityWeights.sum) :
    (wrap64 c.entityWeights.sum).natAbs < c.entityWeights.sum.toNat ∧
      ∀ i, (wrap64 c.entityWeights.sum).natAbs ≤ ((c.entityWeights.map Int.toNat).take i).sum →
        ∀ index : Nat, c.selectedPosition index ≠ .ok (some i) := by
  have hne : wrap64 c.entityWeights.sum ≠ 0 := fun hzero => h (wrap64_eq_zero_iff.mp hzero)
  have hbound := natAbs_wrap64_le c.entityWeights.sum
  refine ⟨by omega, fun i hbehind index hselected => ?_⟩
  rw [selectedPosition_eq_slot hpos h, Except.ok.injEq] at hselected
  have hbefore := (slot_eq_some_iff.mp hselected).1
  have hrem := Nat.mod_lt index (Int.natAbs_pos.mpr hne)
  omega

lemma selectedPosition_of_not_dvd (hpos : ∀ weight ∈ c.entityWeights, 1 ≤ weight)
    (h : ¬ 2 ^ 64 ∣ c.entityWeights.sum) (index : Nat) :
    ∃ i, i < c.entityWeights.length ∧ c.selectedPosition index = .ok (some i) := by
  have hne : wrap64 c.entityWeights.sum ≠ 0 := fun hzero => h (wrap64_eq_zero_iff.mp hzero)
  obtain ⟨hnonneg, hsum⟩ := sum_toNat hpos
  have hbelow : index % (wrap64 c.entityWeights.sum).natAbs < (c.entityWeights.map Int.toNat).sum := by
    rw [hsum]
    exact (Nat.mod_lt _ (Int.natAbs_pos.mpr hne)).trans_le (natAbs_wrap64_le_toNat hnonneg)
  obtain ⟨i, hi⟩ := Option.isSome_iff_exists.mp (slot_isSome_iff.mpr hbelow)
  refine ⟨i, ?_, (selectedPosition_eq_slot hpos h index).trans (by rw [hi])⟩
  by_contra hge
  obtain ⟨hlow, hhigh⟩ := slot_eq_some_iff.mp hi
  rw [List.take_of_length_le (by rw [List.length_map]; omega)] at hlow
  omega

lemma entityForIndex_of_position {index : Int} {i : Nat} {entity : GoString} (hweights : c.entityWeights ≠ [])
    (hselected : c.selectedPosition index = .ok (some i)) (hentity : c.entities[i]? = some entity) :
    entityForIndex c index = .ok entity := by
  have hlength : ¬ c.entityWeights.length = 0 := fun h => hweights (List.length_eq_zero_iff.mp h)
  have hi : ¬ (i : Int) < 0 := by omega
  unfold entityForIndex
  rw [if_neg hlength, hselected]
  change c.entityAt i = _
  rw [Config.entityAt, if_neg hi, Int.toNat_natCast, hentity]

lemma entityForIndex_of_dvd (hweights : c.entityWeights ≠ []) (h : 2 ^ 64 ∣ c.entityWeights.sum) (index : Int) :
    entityForIndex c index = .error .integerDivideByZero := by
  have hlength : ¬ c.entityWeights.length = 0 := fun h => hweights (List.length_eq_zero_iff.mp h)
  unfold entityForIndex
  rw [if_neg hlength, selectedPosition_of_dvd h]
  rfl

lemma entityForIndex_of_no_weights (hentities : 0 < c.entities.length) (hweights : c.entityWeights = [])
    (index : Nat) :
    entityForIndex c index = .ok (c.entities.get ⟨index % c.entities.length, Nat.mod_lt _ hentities⟩) := by
  have hne : ¬ (c.entities.length : Int) = 0 := by omega
  have hi : ¬ ((index % c.entities.length : Nat) : Int) < 0 := by omega
  unfold entityForIndex remainder
  rw [if_pos (List.length_eq_zero_iff.mpr hweights), if_neg hne,
    Int.tmod_eq_emod_of_nonneg (Int.natCast_nonneg index), ← Int.natCast_mod, ok_bind, Config.entityAt, if_neg hi,
    Int.toNat_natCast, List.getElem?_eq_getElem (Nat.mod_lt _ hentities)]
  rfl

/-- A block of as many indices as the sum of the weights says lies in the range of `int` only where
the sum does not wrap, and meets every position as often as its weight says. -/
lemma card_selected_block (hpos : ∀ weight ∈ c.entityWeights, 1 ≤ weight) (h : ¬ 2 ^ 64 ∣ c.entityWeights.sum)
    {start i : Nat} {weight : Int} (hblock : start + c.entityWeights.sum.toNat ≤ 2 ^ 63)
    (hweight : c.entityWeights[i]? = some weight) :
    ({index ∈ Finset.Ico start (start + c.entityWeights.sum.toNat) |
      c.selectedPosition (index : Nat) = .ok (some i)}.card : Int) = weight := by
  obtain ⟨hnonneg, hsum⟩ := sum_toNat hpos
  have hperiod : (wrap64 c.entityWeights.sum).natAbs = (c.entityWeights.map Int.toNat).sum := by
    rw [hsum]
    exact natAbs_wrap64_eq hnonneg (by omega)
  have hget : (c.entityWeights.map Int.toNat)[i]? = some weight.toNat := by rw [List.getElem?_map, hweight]; rfl
  have hcard := card_slot_block (c.entityWeights.map Int.toNat) hget start
  have hone := hpos weight (List.mem_of_getElem? hweight)
  have hsame : {index ∈ Finset.Ico start (start + c.entityWeights.sum.toNat) |
      c.selectedPosition (index : Nat) = .ok (some i)} =
      {index ∈ Finset.Ico start (start + (c.entityWeights.map Int.toNat).sum) |
        slot (c.entityWeights.map Int.toNat) (index % (c.entityWeights.map Int.toNat).sum) = some i} := by
    rw [hsum]
    refine Finset.filter_congr fun index _ => ?_
    rw [selectedPosition_eq_slot hpos h, hperiod, hsum, Except.ok.injEq]
  rw [hsame, hcard]
  omega

end selection

/-- An accepted configuration panics for no index, unless its weights add up to a multiple of `2 ^ 64`. -/
lemma entityForIndex_ok {K : Type} [LinearOrder K] [Zero K] {c : Config K} (hconfig : ValidConfig c)
    (h : c.entityWeights = [] ∨ ¬ 2 ^ 64 ∣ c.entityWeights.sum) (index : Nat) :
    ∃ entity, entityForIndex c index = .ok entity := by
  by_cases hweights : c.entityWeights = []
  · exact ⟨_, entityForIndex_of_no_weights hconfig.entities_pos hweights index⟩
  · obtain ⟨i, hi, hselected⟩ :=
      selectedPosition_of_not_dvd hconfig.weights_pos (h.resolve_left hweights) index
    rw [hconfig.weights_match.resolve_left hweights] at hi
    exact ⟨_, entityForIndex_of_position hweights hselected (List.getElem?_eq_getElem hi)⟩

/-- Weighted selection is exact and safe for the accepted configurations whose weights do not add up
to a multiple of `2 ^ 64`: the loop returns for every index, with an entity of the list, and in every
block of as many indices as the weights add up to each position comes as often as its weight says. -/
theorem weighted_selection_exact_iff {K : Type} [LinearOrder K] [Zero K] {c : Config K}
    (hvalid : c.validate = .ok ()) (hweights : c.entityWeights ≠ []) :
    ((∀ index : Nat, index < 2 ^ 63 → ∃ i entity, c.selectedPosition index = .ok (some i) ∧
        c.entities[i]? = some entity ∧ entityForIndex c index = .ok entity) ∧
      ∀ start i : Nat, start + c.entityWeights.sum.toNat ≤ 2 ^ 63 → ∀ weight, c.entityWeights[i]? = some weight →
        ({index ∈ Finset.Ico start (start + c.entityWeights.sum.toNat) |
          c.selectedPosition (index : Nat) = .ok (some i)}.card : Int) = weight) ↔
    ¬ 2 ^ 64 ∣ c.entityWeights.sum := by
  have hconfig := validConfig_of_validate hvalid
  constructor
  · rintro ⟨hreturns, -⟩ hdvd
    obtain ⟨i, entity, hselected, -, -⟩ := hreturns 0 (by decide)
    rw [selectedPosition_of_dvd hdvd] at hselected
    cases hselected
  · intro hsum
    refine ⟨fun index _ => ?_, fun start i hblock weight hweight =>
      card_selected_block hconfig.weights_pos hsum hblock hweight⟩
    obtain ⟨i, hi, hselected⟩ := selectedPosition_of_not_dvd hconfig.weights_pos hsum index
    rw [hconfig.weights_match.resolve_left hweights] at hi
    have hentity := List.getElem?_eq_getElem hi
    exact ⟨i, _, hselected, hentity, entityForIndex_of_position hweights hselected hentity⟩

def localRun (entities : List GoString) (weights : List Int) : Config Int where
  url := ascii "http://127.0.0.1:8080/v1/score"
  token := []
  duration := 0
  requests := 1000
  concurrency := 100
  rate := .finite 1000
  timeout := 5000000000
  seed := 1
  entities := entities
  entityWeights := weights
  payloadMode := ascii "entity"

/-- Three weights that the command line takes and `Validate` accepts add up to `2 ^ 64`, and the
first request divides by zero. -/
theorem weighted_selection_divides_by_zero :
    parseEntities (ascii "a:9223372036854775807,b:9223372036854775807,c:2") =
      .ok ([ascii "a", ascii "b", ascii "c"], [9223372036854775807, 9223372036854775807, 2]) ∧
    (localRun [ascii "a", ascii "b", ascii "c"] [9223372036854775807, 9223372036854775807, 2]).validate = .ok () ∧
    entityForIndex (localRun [ascii "a", ascii "b", ascii "c"] [9223372036854775807, 9223372036854775807, 2]) 0 =
      .error .integerDivideByZero := by
  refine ⟨?_, ?_, ?_⟩ <;> decide +kernel

theorem weighted_selection_eight_of_ten :
    (localRun [ascii "vip", ascii "regular"] [8, 2]).validate = .ok () ∧
      ({index ∈ Finset.Ico 3 13 |
        (localRun [ascii "vip", ascii "regular"] [8, 2]).selectedPosition (index : Nat) = .ok (some 0)}.card : Int) =
          8 := by
  have hvalid : (localRun [ascii "vip", ascii "regular"] [8, 2]).validate = .ok () := by decide +kernel
  exact ⟨hvalid, ((weighted_selection_exact_iff hvalid (by decide)).mpr (by decide)).2 3 0 (by decide) 8 rfl⟩

section commandLine

lemma parseEntity_weight {part : GoString} {item : GoString × Int} (h : parseEntity part = .ok item) :
    item.1 ≠ [] ∧ 1 ≤ item.2 := by
  unfold parseEntity at h
  split at h
  · cases h
  · rename_i name hname _
    cases h
    exact ⟨hname, le_rfl⟩
  · rename_i name weight hname _
    split at h
    · split_ifs at h with hlow
      cases h
      exact ⟨hname, not_lt.mp hlow⟩
    · cases h
  · cases h

/-- What the command line gives to `Validate` passes its checks of the entities and their weights. -/
theorem parseEntities_well_formed {s : GoString} {names : List GoString} {weights : List Int}
    (h : parseEntities s = .ok (names, weights)) :
    names ≠ [] ∧ weights.length = names.length ∧ (∀ name ∈ names, name ≠ []) ∧ ∀ weight ∈ weights, 1 ≤ weight := by
  unfold parseEntities at h
  obtain ⟨items, hitems, h⟩ := bind_eq_ok_iff.mp h
  cases h
  have hmap := mapM_eq_ok_iff.mp hitems
  have hitem : ∀ item ∈ items, item.1 ≠ [] ∧ 1 ≤ item.2 := by
    intro item hin
    have hok : Except.ok item ∈ items.map (Except.ok (ε := GoError)) := List.mem_map_of_mem hin
    rw [← hmap] at hok
    obtain ⟨part, -, hpart⟩ := List.mem_map.mp hok
    exact parseEntity_weight hpart
  have hlength := congrArg List.length hmap
  rw [List.length_map, List.length_map] at hlength
  refine ⟨?_, by rw [List.length_map, List.length_map], ?_, ?_⟩
  · intro hempty
    rw [List.map_eq_nil_iff] at hempty
    rw [hempty, List.length_nil, List.length_eq_zero_iff] at hlength
    exact List.splitOn_ne_nil _ _ hlength
  · intro name hname
    obtain ⟨item, hin, rfl⟩ := List.mem_map.mp hname
    exact (hitem item hin).1
  · intro weight hweight
    obtain ⟨item, hin, rfl⟩ := List.mem_map.mp hweight
    exact (hitem item hin).2

end commandLine

end FraudDetection.Proofs
