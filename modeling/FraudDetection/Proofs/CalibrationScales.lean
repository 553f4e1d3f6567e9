import Mathlib.Algebra.Order.Floor.Ring
import Mathlib.Data.Rat.Floor
import Mathlib.Tactic.Linarith
import Mathlib.Tactic.NormNum
import Mathlib.Tactic.FieldSimp
import Mathlib.Tactic.Ring
import FraudDetection.Calibration
import FraudDetection.Library.Outcomes

/-!
# What calibration emits

The collected activations lie in the range of `float32`. If `torch.quantile` stays in that range, the
three scales computed from the percentile are positive, finite and mutually inverse.
-/

namespace FraudDetection.Proofs
open FraudDetection.Library FraudDetection.Engine FraudDetection.Calibration

section observed

def InFloatRange (values : List ℚ) : Prop := ∀ x ∈ values, 0 ≤ x ∧ x ≤ floatMax

lemma InFloatRange.append {xs ys : List ℚ} (hx : InFloatRange xs) (hy : InFloatRange ys) :
    InFloatRange (xs ++ ys) := by
  intro x h
  exact (List.mem_append.mp h).elim (hx x) (hy x)

lemma inFloatRange_map_magnitude {values : List (Ieee ℚ)} (h : values.all Calibration.isFinite) :
    InFloatRange (values.map magnitude) := by
  intro x hx
  obtain ⟨value, hmem, rfl⟩ := List.mem_map.mp hx
  have hfinite := List.all_eq_true.mp h value hmem
  cases value with
  | finite y => exact ⟨abs_nonneg y, of_decide_eq_true hfinite⟩
  | _ => exact nomatch hfinite

def Collected (observations : Observations) : Prop := ∀ entry ∈ observations, InFloatRange entry.2

lemma Collected.append {observations : Observations} {values : List ℚ} (h : Collected observations)
    (hvalues : InFloatRange values) (key : String) : Collected (observations.append key values) := by
  induction observations with
  | nil => exact List.forall_mem_singleton.mpr hvalues
  | cons entry rest ih =>
    obtain ⟨hentry, hrest⟩ := List.forall_mem_cons.mp h
    unfold Observations.append
    split
    · exact List.forall_mem_cons.mpr ⟨hentry.append hvalues, hrest⟩
    · exact List.forall_mem_cons.mpr ⟨hentry, ih hrest⟩

lemma capture_collected {observations next : Observations} {output : String × List (Ieee ℚ)}
    (h : Collected observations) (hcapture : capture observations output = .ok next) : Collected next := by
  unfold capture at hcapture
  split at hcapture
  · cases hcapture
  split at hcapture
  · cases hcapture
  · rename_i hfinite
    cases hcapture
    exact h.append (inFloatRange_map_magnitude (by simpa using hfinite)) output.1

lemma observe_collected {batches : List Batch} {observations : Observations}
    (h : observe batches = .ok observations) : Collected observations := by
  refine foldlM_induction (P := Collected) h (fun _ hentry => nomatch hentry) ?_
  intro s batch _ s' hs hstep
  split at hstep
  · cases hstep
  split at hstep
  · cases hstep
  · exact foldlM_induction hstep hs fun s output _ s' hs hcapture => capture_collected hs hcapture

end observed

section percentile

/-- What is used of `torch.quantile`: it does not leave the range of `float32`. -/
def QuantileInRange (quantile : List ℚ → ℚ → ℚ) : Prop :=
  ∀ values q, InFloatRange values → 0 ≤ quantile values q ∧ quantile values q ≤ floatMax

def linearQuantile (values : List ℚ) (q : ℚ) : ℚ :=
  let sorted := values.mergeSort (· ≤ ·)
  let position := q * ((values.length : ℚ) - 1)
  let lower := sorted.getD ⌊position⌋.toNat 0
  let upper := sorted.getD ⌈position⌉.toNat 0
  lower + (upper - lower) * (position - ⌊position⌋)

lemma InFloatRange.getD {values : List ℚ} (h : InFloatRange values) (i : Nat) :
    0 ≤ values.getD i 0 ∧ values.getD i 0 ≤ floatMax := by
  rw [List.getD_eq_getElem?_getD]
  cases hi : values[i]? with
  | none => exact ⟨Rat.le_refl, by norm_num [floatMax]⟩
  | some x => exact h x (List.mem_of_getElem? hi)

/-- Interpolation between two values of the range stays in it. -/
lemma linearQuantile_inRange : QuantileInRange linearQuantile := by
  intro values q h
  have hsorted : InFloatRange (values.mergeSort (· ≤ ·)) := fun x hx => h x (List.mem_mergeSort.mp hx)
  unfold linearQuantile
  simp only
  set position := q * ((values.length : ℚ) - 1)
  obtain ⟨hl, hl'⟩ := hsorted.getD ⌊position⌋.toNat
  obtain ⟨hu, hu'⟩ := hsorted.getD ⌈position⌉.toNat
  set lower := (values.mergeSort (· ≤ ·)).getD ⌊position⌋.toNat 0
  set upper := (values.mergeSort (· ≤ ·)).getD ⌈position⌉.toNat 0
  have hfrac : 0 ≤ position - ⌊position⌋ := sub_nonneg.mpr (Int.floor_le position)
  have hfrac' : position - ⌊position⌋ ≤ 1 := by linarith [Int.lt_floor_add_one position]
  constructor <;> nlinarith

end percentile

section scales

def Representable (x : ℚ) : Prop := 0 < x ∧ x ≤ floatMax

structure ScaleContract (maxFinite clip quant dequant : ℚ) : Prop where
  clip_representable : Representable clip
  quant_representable : Representable quant
  dequant_representable : Representable dequant
  inverse : quant * dequant = 1
  represented : dequant * maxFinite = clip

lemma maxFinite_bounds (format : FP8Format) : 1 ≤ format.maxFinite ∧ format.maxFinite * format.maxFinite ≤ floatMax := by
  cases format <;> norm_num [FP8Format.maxFinite, floatMax]

lemma scaleContract_one (format : FP8Format) : ScaleContract format.maxFinite format.maxFinite 1 1 := by
  obtain ⟨hone, hsquare⟩ := maxFinite_bounds format
  exact ⟨⟨by linarith, by nlinarith⟩, ⟨by norm_num, by nlinarith⟩, ⟨by norm_num, by nlinarith⟩, one_mul 1,
    one_mul _⟩

/-- The lower bound `max_finite / FLT_MAX` is what keeps the quantization scale finite. -/
lemma scaleContract_of_clip {maxFinite clip : ℚ} (hone : 1 ≤ maxFinite) (hclip : maxFinite / floatMax ≤ clip)
    (hclip' : clip ≤ floatMax) : ScaleContract maxFinite clip (maxFinite / clip) (clip / maxFinite) := by
  have hmax : 0 < maxFinite := by linarith
  have hfloat : 0 < floatMax := by norm_num [floatMax]
  have hpos : 0 < clip := (div_pos hmax hfloat).trans_le hclip
  have hquant : maxFinite / clip ≤ floatMax := by
    rw [div_le_iff₀ hpos, mul_comm]
    exact (div_le_iff₀ hfloat).mp hclip
  refine ⟨⟨hpos, hclip'⟩, ⟨div_pos hmax hpos, hquant⟩, ⟨div_pos hpos hmax, ?_⟩, ?_, ?_⟩
  · exact (div_le_self hpos.le hone).trans hclip'
  · field_simp
  · field_simp

lemma scalesOf_contract (format : FP8Format) {threshold : ℚ} (h : 0 ≤ threshold ∧ threshold ≤ floatMax) :
    ScaleContract format.maxFinite (scalesOf format threshold).1 (scalesOf format threshold).2.1
      (scalesOf format threshold).2.2 := by
  obtain ⟨hone, hsquare⟩ := maxFinite_bounds format
  unfold scalesOf
  split
  · exact scaleContract_one format
  · refine scaleContract_of_clip hone (le_max_right _ _) (max_le h.2 ?_)
    exact (div_le_self (by linarith) (by norm_num [floatMax])).trans (by nlinarith)

lemma calibrateTensor_contract {quantile : List ℚ → ℚ → ℚ} (hquantile : QuantileInRange quantile)
    (format : FP8Format) (percentile : ℚ) (policy : OutlierPolicy) {values : List ℚ} (h : InFloatRange values) :
    ScaleContract format.maxFinite (calibrateTensor quantile format percentile policy values).clipThreshold
      (calibrateTensor quantile format percentile policy values).quantScale
      (calibrateTensor quantile format percentile policy values).dequantScale :=
  scalesOf_contract format (hquantile values percentile h)

end scales

section verdict

variable (sqrt exp : ℚ → ℚ) {metadata : E4M3TensorMetadata ℚ} {maxFinite : ℚ}

lemma positive_of_representable {x : ℚ} (h : Representable x) : positive (exactOps sqrt exp) x = true := by
  have hfinite : |x| ≤ floatMax := (abs_of_pos h.1).trans_le h.2
  simp [positive, exactOps, hfinite, h.1]

def ActionDefined (metadata : E4M3TensorMetadata ℚ) : Prop :=
  metadata.recommendedAction = .clip ∨ metadata.recommendedAction = .fallbackFp16

/-- Under the contract, the engine's check comes down to its comparison with the E4M3 maximum. -/
lemma validateTensorMetadata_eq_ok_iff (haction : ActionDefined metadata)
    (h : ScaleContract maxFinite metadata.clipThreshold metadata.quantScale metadata.dequantScale) :
    validateTensorMetadata (exactOps sqrt exp) metadata = .ok () ↔
      |metadata.dequantScale * fp8E4M3Max - metadata.clipThreshold| ≤
        max (1 / 100000) (metadata.clipThreshold * (1 / 10000)) := by
  have haction' : ¬ (metadata.recommendedAction ≠ .clip ∧ metadata.recommendedAction ≠ .fallbackFp16) :=
    fun hne => haction.elim hne.1 hne.2
  have hpositive := fun x hx => positive_of_representable sqrt exp (x := x) hx
  have hinverse : ¬ (1 / 10000 : ℚ) < |metadata.quantScale * metadata.dequantScale - 1| := by
    rw [h.inverse]
    norm_num
  unfold validateTensorMetadata
  rw [if_neg haction', hpositive _ h.quant_representable, hpositive _ h.dequant_representable,
    hpositive _ h.clip_representable, if_neg nofun]
  have hmax (a b : ℚ) : (exactOps sqrt exp).max a b = max a b := by
    simp only [FloatOps.max, exactOps, decide_eq_true_eq, max_def_lt]
  simp only [hmax]
  simp only [exactOps, Rat.cast_id, abs_of_pos h.clip_representable.1, hinverse, decide_false, Bool.false_or]
  split
  · rename_i hlt
    exact iff_of_false nofun (not_le.mpr (of_decide_eq_true hlt))
  · rename_i hlt
    exact iff_of_true rfl (not_lt.mp fun h => hlt (decide_eq_true h))

lemma validateTensorMetadata_e4m3 (haction : ActionDefined metadata)
    (h : ScaleContract FP8Format.e4m3.maxFinite metadata.clipThreshold metadata.quantScale metadata.dequantScale) :
    validateTensorMetadata (exactOps sqrt exp) metadata = .ok () := by
  have hrepresented : metadata.dequantScale * fp8E4M3Max = metadata.clipThreshold := h.represented
  rw [validateTensorMetadata_eq_ok_iff sqrt exp haction h, hrepresented, sub_self, abs_zero]
  exact (by norm_num : (0 : ℚ) ≤ 1 / 100000).trans (le_max_left _ _)

/-- Up to this threshold the absolute tolerance of the check hides the difference of the two formats. -/
def e5m2ClipLimit : ℚ := 128 / 12700000

/-- The scales of an E5M2 tensor represent the 128th part of its clip threshold in E4M3. -/
lemma validateTensorMetadata_e5m2 (haction : ActionDefined metadata)
    (h : ScaleContract FP8Format.e5m2.maxFinite metadata.clipThreshold metadata.quantScale metadata.dequantScale) :
    validateTensorMetadata (exactOps sqrt exp) metadata = .ok () ↔ metadata.clipThreshold ≤ e5m2ClipLimit := by
  have hrepresented : metadata.dequantScale * 57344 = metadata.clipThreshold := h.represented
  have hpos := h.clip_representable.1
  have hdiff : metadata.dequantScale * fp8E4M3Max - metadata.clipThreshold = -(metadata.clipThreshold * (127 / 128)) := by
    rw [← hrepresented, fp8E4M3Max]
    ring
  rw [validateTensorMetadata_eq_ok_iff sqrt exp haction h, hdiff, abs_neg, abs_of_pos (by linarith), le_max_iff,
    e5m2ClipLimit]
  constructor
  · rintro (hle | hle) <;> linarith
  · intro hle
    exact .inl (by linarith)

/-- The clip threshold of an E5M2 tensor is below the limit if the percentile is, a tensor of zeros
apart. -/
lemma scalesOf_e5m2_le_iff {threshold : ℚ} (h : 0 ≤ threshold) :
    (scalesOf .e5m2 threshold).1 ≤ e5m2ClipLimit ↔ 0 < threshold ∧ threshold ≤ e5m2ClipLimit := by
  unfold scalesOf
  split
  · rename_i hzero
    exact iff_of_false (by norm_num [FP8Format.maxFinite, e5m2ClipLimit]) fun hpos => hpos.1.ne' hzero
  · rename_i hne
    have hminimum : FP8Format.e5m2.maxFinite / floatMax ≤ e5m2ClipLimit := by
      norm_num [FP8Format.maxFinite, floatMax, e5m2ClipLimit]
    exact ⟨fun hle => ⟨lt_of_le_of_ne h (Ne.symm hne), (le_max_left _ _).trans hle⟩,
      fun hle => max_le hle.2 hminimum⟩

end verdict

end FraudDetection.Proofs
