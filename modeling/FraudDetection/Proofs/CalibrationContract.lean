import FraudDetection.Library.ListMap
import FraudDetection.Proofs.CalibrationScales
import FraudDetection.Proofs.MicrokernelRun

/-!
# Calibrated models in the native engine

The reference kernels keep their outputs in range and such outputs have a score, so a calibrated
model whose metadata passes is served. E4M3 metadata always passes; E5M2 metadata is measured with
the E4M3 maximum before its label is read.
-/

namespace FraudDetection.Proofs
open FraudDetection.Library FraudDetection.Engine FraudDetection.Calibration

section range

variable (sqrt exp : ℚ → ℚ)

lemma bounded_iff {x limit : ℚ} :
    bounded (exactOps sqrt exp) x limit = true ↔ |x| ≤ floatMax ∧ |x| ≤ limit := by
  simp [bounded, exactOps]

lemma bounded_zero : bounded (exactOps sqrt exp) 0 maxMicrokernelIntermediateMagnitude = true := by
  rw [bounded_iff]
  norm_num [floatMax, maxMicrokernelIntermediateMagnitude]

lemma projectRow_bounded {model : MicrokernelWeights ℚ} {input : Nat → ℚ} {row : Nat} {value : ℚ}
    (h : projectRow (exactOps sqrt exp) model input row = .ok value) :
    bounded (exactOps sqrt exp) value maxMicrokernelIntermediateMagnitude = true := by
  unfold projectRow at h
  dsimp only at h
  rw [throw_if_eq_ok_iff] at h
  obtain ⟨hbias, h⟩ := h
  refine foldlM_induction (P := fun x => bounded (exactOps sqrt exp) x maxMicrokernelIntermediateMagnitude = true) h
    ?_ fun s column _ s' _ hstep => ?_
  · obtain ⟨hfinite, hle⟩ := (bounded_iff sqrt exp).mp (by simpa using hbias)
    refine (bounded_iff sqrt exp).mpr ⟨hfinite, hle.trans ?_⟩
    norm_num [maxMicrokernelTensorMagnitude, maxMicrokernelIntermediateMagnitude]
  · rw [throw_if_eq_ok_iff, throw_if_eq_ok_iff] at hstep
    obtain ⟨_, hnext, hs'⟩ := hstep
    cases hs'
    simpa using hnext

lemma projectionGemmFp32_inRange {model : MicrokernelWeights ℚ} {input : Nat → ℚ} {projection : List ℚ}
    (h : projectionGemmFp32 (exactOps sqrt exp) model input = .ok projection) :
    OutputInRange (exactOps sqrt exp) projection :=
  mapM_forall h fun _ _ hrow => projectRow_bounded sqrt exp hrow

lemma shortContextAttentionFp32_inRange {query : List ℚ} {context : Nat → ℚ} {contextLength : Nat}
    {attended : List ℚ}
    (h : shortContextAttentionFp32 (exactOps sqrt exp) query context contextLength = .ok attended) :
    OutputInRange (exactOps sqrt exp) attended := by
  have hzeros : OutputInRange (exactOps sqrt exp) (List.replicate embeddingWidth ((exactOps sqrt exp).literal 0)) := by
    intro x hx
    rw [List.eq_of_mem_replicate hx]
    exact bounded_zero sqrt exp
  unfold shortContextAttentionFp32 at h
  dsimp only at h
  rw [throw_if_eq_ok_iff, throw_if_eq_ok_iff] at h
  obtain ⟨_, _, h⟩ := h
  split at h
  · cases h
    exact hzeros
  · obtain ⟨logits, _, h⟩ := bind_eq_ok_iff.mp h
    rw [throw_if_eq_ok_iff] at h
    refine foldlM_induction (P := OutputInRange (exactOps sqrt exp)) h.2 hzeros fun _ token _ _ _ hstep => ?_
    refine mapM_forall hstep fun channel value hvalue => ?_
    rw [throw_if_eq_ok_iff] at hvalue
    obtain ⟨hbounded, hvalue⟩ := hvalue
    cases hvalue
    simpa using hbounded

def SqrtInRange : Prop := ∀ x, 0 ≤ x → x ≤ floatMax → |sqrt x| ≤ floatMax

lemma OutputInRange.abs_getD_le {values : List ℚ} (h : OutputInRange (exactOps sqrt exp) values) (i : Nat) :
    |values.getD i 0| ≤ maxMicrokernelIntermediateMagnitude := by
  rw [List.getD_eq_getElem?_getD]
  cases hi : values[i]? with
  | none => exact ((bounded_iff sqrt exp).mp (bounded_zero sqrt exp)).2
  | some x => exact ((bounded_iff sqrt exp).mp (h x (List.mem_of_getElem? hi))).2

/-- The square of a difference of two outputs, added up at most 64 times, stays far below the range of
`float`. -/
def squareBound : ℚ := 4 * maxMicrokernelIntermediateMagnitude ^ 2

lemma sub_mul_self_le_squareBound {a b : ℚ} (ha : |a| ≤ maxMicrokernelIntermediateMagnitude)
    (hb : |b| ≤ maxMicrokernelIntermediateMagnitude) : (a - b) * (a - b) ≤ squareBound := by
  obtain ⟨ha, ha'⟩ := abs_le.mp ha
  obtain ⟨hb, hb'⟩ := abs_le.mp hb
  unfold squareBound
  nlinarith

lemma mul_squareBound_le {i : Nat} (h : i ≤ embeddingWidth) : (i : ℚ) * squareBound ≤ floatMax := by
  have hi : (i : ℚ) ≤ embeddingWidth := by exact_mod_cast h
  calc (i : ℚ) * squareBound ≤ embeddingWidth * squareBound :=
        mul_le_mul_of_nonneg_right hi (by norm_num [squareBound, maxMicrokernelIntermediateMagnitude])
    _ ≤ floatMax := by norm_num [squareBound, maxMicrokernelIntermediateMagnitude, embeddingWidth, floatMax]

/-- One channel of the score: after `i` of them the sum is at most `i` times the bound of a square. -/
lemma add_square_inRange {i : Nat} {m a b : ℚ} (hi : i < embeddingWidth) (hm : 0 ≤ m ∧ m ≤ i * squareBound)
    (ha : |a| ≤ maxMicrokernelIntermediateMagnitude) (hb : |b| ≤ maxMicrokernelIntermediateMagnitude) :
    (0 ≤ (a - b) * (a - b) + m ∧ (a - b) * (a - b) + m ≤ (i + 1 : Nat) * squareBound) ∧
      |(a - b) * (a - b) + m| ≤ floatMax := by
  have hpos := add_nonneg (mul_self_nonneg (a - b)) hm.1
  have hle : (a - b) * (a - b) + m ≤ (i + 1 : Nat) * squareBound := by
    push_cast
    linarith [hm.2, sub_mul_self_le_squareBound ha hb]
  exact ⟨⟨hpos, hle⟩, (abs_of_nonneg hpos).trans_le (hle.trans (mul_squareBound_le hi))⟩

lemma finalizeScore_inRange (hsqrt : SqrtInRange sqrt) : ScoresInRange (exactOps sqrt exp) := by
  intro result hprojection hattended
  have hlimit : maxMicrokernelIntermediateMagnitude ≤ floatMax := by
    norm_num [maxMicrokernelIntermediateMagnitude, floatMax]
  suffices h : SucceedsWith (fun finished => ∃ score, finished = { result with anomalyScore := score })
      (finalizeScore (exactOps sqrt exp) result) by
    obtain ⟨finished, hfinal, score, hfinished⟩ := h
    exact ⟨score, hfinal.trans (congrArg Except.ok hfinished)⟩
  unfold finalizeScore
  simp only [exactOps, Rat.cast_id]
  refine (SucceedsWith.foldlM (Q := fun i (m : ℚ) => 0 ≤ m ∧ m ≤ i * squareBound) (n := 0) ?_ ?_).bind ?_
  · exact ⟨Rat.le_refl, by simp⟩
  · intro i m channel hi hm
    have hp := hprojection.abs_getD_le sqrt exp channel
    have ha := hattended.abs_getD_le sqrt exp channel
    have hchannel : i < embeddingWidth := by simpa only [Nat.zero_add, List.length_range] using hi
    have hstep := add_square_inRange hchannel hm hp ha
    refine .throw_if ?_ (.throw_if (by simpa using hstep.2) (.pure hstep.1))
    simpa using And.intro ⟨⟨hp.trans hlimit, ha.trans hlimit⟩, hp⟩ ha
  · intro m hm
    have hmean : m / (embeddingWidth : ℚ) ≤ floatMax := by
      exact (div_le_self hm.1 (by norm_num [embeddingWidth])).trans (hm.2.trans (mul_squareBound_le (by simp)))
    have hscore := hsqrt (m / (embeddingWidth : ℚ)) (div_nonneg hm.1 (by norm_num [embeddingWidth])) hmean
    exact .throw_if (by simpa using hscore) (.pure ⟨_, rfl⟩)

end range

section contract

def nativeFormat : FP8Format → Fp8Format
  | .e4m3 => .e4m3
  | .e5m2 => .e5m2Unsupported

/-- Native metadata with the scales of a calibrated tensor. Eligibility and action stay open, as no
code of the repository fills them in. -/
structure Carries (metadata : E4M3TensorMetadata ℚ) (scale : TensorScaleMetadata) : Prop where
  quantScale : metadata.quantScale = scale.quantScale
  dequantScale : metadata.dequantScale = scale.dequantScale
  clipThreshold : metadata.clipThreshold = scale.clipThreshold
  action : ActionDefined metadata

/-- A model and a request whose four tensors were calibrated. -/
structure CalibratedModel where
  quantile : List ℚ → ℚ → ℚ
  quantile_inRange : QuantileInRange quantile
  batches : List Batch
  format : FP8Format
  percentile : ℚ
  policy : OutlierPolicy
  result : FP8CalibrationResult
  calibrated : calibrateFp8 quantile batches format percentile policy = .ok result
  observations : Observations
  observed : observe batches = .ok observations
  name : CalibratedTensor → String
  activations : CalibratedTensor → List ℚ
  collected : ∀ tensor, observations.lookup (name tensor) = some (activations tensor)
  scale : CalibratedTensor → TensorScaleMetadata
  emitted : ∀ tensor, result.tensors.lookup (name tensor) = some (scale tensor)
  weights : MicrokernelWeights ℚ
  request : MicrokernelRequest ℚ
  carries : ∀ tensor, Carries (tensor.metadata weights request) (scale tensor)
  labelled : weights.fp8Format = nativeFormat format
  contextLength_le : request.contextLength ≤ maxContextLength

def CalibratedModel.threshold (model : CalibratedModel) (tensor : CalibratedTensor) : ℚ :=
  model.quantile (model.activations tensor) model.percentile

variable (model : CalibratedModel)

lemma calibrateFp8_tensors {quantile : List ℚ → ℚ → ℚ} {batches : List Batch} {format : FP8Format} {percentile : ℚ}
    {policy : OutlierPolicy} {result : FP8CalibrationResult} {observations : Observations}
    (h : calibrateFp8 quantile batches format percentile policy = .ok result)
    (hobserve : observe batches = .ok observations) :
    result.tensors = observations.map fun o => (o.1, calibrateTensor quantile format percentile policy o.2) := by
  unfold calibrateFp8 at h
  dsimp only at h
  rw [throw_if_eq_ok_iff, throw_if_eq_ok_iff, hobserve, ok_bind, throw_if_eq_ok_iff, throw_if_eq_ok_iff] at h
  obtain ⟨_, _, _, _, h⟩ := h
  cases h
  rfl

lemma CalibratedModel.scale_eq (tensor : CalibratedTensor) :
    model.scale tensor =
      calibrateTensor model.quantile model.format model.percentile model.policy (model.activations tensor) := by
  have h := model.emitted tensor
  rw [calibrateFp8_tensors model.calibrated model.observed, lookup_map_snd, model.collected tensor] at h
  exact (Option.some.inj h).symm

lemma CalibratedModel.activations_inRange (tensor : CalibratedTensor) : InFloatRange (model.activations tensor) := by
  have hcollected := observe_collected model.observed
  obtain ⟨before, after, hobservations, _⟩ := List.lookup_eq_some_iff.mp (model.collected tensor)
  rw [hobservations] at hcollected
  exact hcollected _ (List.mem_append_right before List.mem_cons_self)

lemma CalibratedModel.contract (tensor : CalibratedTensor) :
    ScaleContract model.format.maxFinite (tensor.metadata model.weights model.request).clipThreshold
      (tensor.metadata model.weights model.request).quantScale
      (tensor.metadata model.weights model.request).dequantScale := by
  have h := model.carries tensor
  rw [h.quantScale, h.dequantScale, h.clipThreshold, model.scale_eq]
  exact calibrateTensor_contract model.quantile_inRange _ _ _ (model.activations_inRange tensor)

/-- The native engine can serve the model: its scales are never an invalid argument, E4M3 metadata
passes, and an E5M2 model is unsupported, which takes it to half precision or the CPU. -/
structure Usable (model : CalibratedModel) : Prop where
  eligibility : ∀ sqrt exp,
    (statusOf (validateFp8Eligibility (exactOps sqrt exp) model.weights model.request)).code ≠ .invalidArgument
  e4m3 : model.format = .e4m3 → ∀ sqrt exp, MetadataValid (exactOps sqrt exp) model.weights model.request
  e5m2 : model.format = .e5m2 → ∀ sqrt exp,
    (statusOf (validateFp8Eligibility (exactOps sqrt exp) model.weights model.request)).code = .unsupported
  run : ∀ sqrt exp cuda preferred projection attended result last,
    ReferenceComputed (exactOps sqrt exp) model.weights model.request projection attended →
    (∀ runner ∈ cuda, ∀ w r b out, CodeIsNot .invalidArgument (runner w r b out).1) →
    CodeIsNot .invalidArgument
      (Engine.run (exactOps sqrt exp) cuda preferred model.weights model.request (some result) last).1
  lowered : model.format = .e5m2 → ∀ sqrt exp cuda preferred projection attended result last,
    SqrtInRange sqrt →
    ReferenceComputed (exactOps sqrt exp) model.weights model.request projection attended →
    (∀ runner ∈ cuda, RunnerSound (exactOps sqrt exp) runner) →
    ∃ next, Engine.run (exactOps sqrt exp) cuda preferred model.weights model.request (some result) last =
        (.Ok, some next, next.backend) ∧ Lowered preferred next

lemma CalibratedModel.metadataValid_e4m3 (hformat : model.format = .e4m3) (sqrt exp : ℚ → ℚ) :
    MetadataValid (exactOps sqrt exp) model.weights model.request := by
  intro tensor
  have h := model.contract tensor
  rw [hformat] at h
  exact validateTensorMetadata_e4m3 sqrt exp (model.carries tensor).action h

lemma CalibratedModel.metadataValid_e5m2_iff (hformat : model.format = .e5m2) (sqrt exp : ℚ → ℚ) :
    MetadataValid (exactOps sqrt exp) model.weights model.request ↔
      ∀ tensor, 0 < model.threshold tensor ∧ model.threshold tensor ≤ e5m2ClipLimit := by
  refine forall_congr' fun tensor => ?_
  have h := model.contract tensor
  rw [hformat] at h
  rw [validateTensorMetadata_e5m2 sqrt exp (model.carries tensor).action h, (model.carries tensor).clipThreshold,
    model.scale_eq, hformat]
  exact scalesOf_e5m2_le_iff (model.quantile_inRange _ _ (model.activations_inRange tensor)).1

lemma run_failsWith {ops : FloatOps ℚ} {cuda : Option (CudaRunner ℚ)} {preferred : Backend}
    {weights : MicrokernelWeights ℚ} {request : MicrokernelRequest ℚ}
    (h : FailsWith (CodeIsNot .invalidArgument) (runPipeline ops cuda preferred weights request))
    (result : MicrokernelResult ℚ) (last : Backend) :
    CodeIsNot .invalidArgument (Engine.run ops cuda preferred weights request (some result) last).1 := by
  unfold Engine.run
  cases hrun : runPipeline ops cuda preferred weights request with
  | error status => exact h status hrun
  | ok next => exact nofun

/-- Metadata that passes leaves only the label to decide. -/
lemma CalibratedModel.usable_of_metadataValid
    (hvalid : ∀ sqrt exp, MetadataValid (exactOps sqrt exp) model.weights model.request) : Usable model := by
  have he5m2 (hformat : model.format = .e5m2) (sqrt exp : ℚ → ℚ) :=
    validateFp8Eligibility_e5m2 model.contextLength_le (hvalid sqrt exp)
      (model.labelled.trans (congrArg nativeFormat hformat))
  have heligibility (sqrt exp : ℚ → ℚ) :
      (statusOf (validateFp8Eligibility (exactOps sqrt exp) model.weights model.request)).code ≠ .invalidArgument := by
    cases hformat : model.format with
    | e4m3 =>
      have h := validateFp8Eligibility_e4m3 model.contextLength_le (hvalid sqrt exp)
        (model.labelled.trans (congrArg nativeFormat hformat))
      cases hstatus : validateFp8Eligibility (exactOps sqrt exp) model.weights model.request with
      | error status => exact h status hstatus
      | ok u => nofun
    | e5m2 =>
      rw [he5m2 hformat]
      nofun
  refine ⟨heligibility, fun _ => hvalid, fun hformat sqrt exp => ?_, ?_, ?_⟩
  · rw [he5m2 hformat]
    rfl
  · intro sqrt exp cuda preferred projection attended result last hcomputed hcuda
    exact run_failsWith (runPipeline_failsWith _ model.contextLength_le hcomputed (heligibility sqrt exp) hcuda
      preferred) result last
  · intro hformat sqrt exp cuda preferred projection attended result last hsqrt hcomputed hsound
    have hprojection := projectionGemmFp32_inRange sqrt exp hcomputed.projection_eq
    have hattended := shortContextAttentionFp32_inRange sqrt exp hcomputed.attended_eq
    have hlabelled : model.weights.fp8Format = .e5m2Unsupported :=
      model.labelled.trans (congrArg nativeFormat hformat)
    obtain ⟨next, hrun, hlowered⟩ := runPipeline_lowered (finalizeScore_inRange sqrt exp hsqrt) hsound
      model.contextLength_le hcomputed hprojection hattended (he5m2 hformat sqrt exp) rfl hlabelled preferred
    exact ⟨next, by rw [Engine.run, hrun], hlowered⟩

/-- A calibrated model is usable if it is an E4M3 model; an E5M2 model is if its activations are so
small that the tolerance of the metadata check hides the other maximum. -/
theorem calibrated_model_usable_iff (model : CalibratedModel) :
    Usable model ↔ model.format = .e4m3 ∨
      ∀ tensor, 0 < model.threshold tensor ∧ model.threshold tensor ≤ e5m2ClipLimit := by
  constructor
  · intro h
    cases hformat : model.format with
    | e4m3 => exact .inl rfl
    | e5m2 => exact .inr ((model.metadataValid_e5m2_iff hformat id id).mp (metadataValid_of_code (h.eligibility id id)))
  · intro h
    refine model.usable_of_metadataValid fun sqrt exp => ?_
    cases hformat : model.format with
    | e4m3 => exact model.metadataValid_e4m3 hformat sqrt exp
    | e5m2 =>
      rw [hformat] at h
      exact (model.metadataValid_e5m2_iff hformat sqrt exp).mpr (h.resolve_left nofun)

end contract

section divergence

lemma linearQuantile_singleton (x q : ℚ) : linearQuantile [x] q = x := by
  simp [linearQuantile]

def unitBatches : List Batch :=
  [⟨[.finite 1], [("feature", [.finite 1]), ("context", [.finite 1]), ("weight", [.finite 1]),
    ("projection", [.finite 1])]⟩]

def unitScale (format : FP8Format) : TensorScaleMetadata :=
  ⟨format, format.maxFinite, 1, 1, format.maxFinite, 1 / format.maxFinite, 0, 1, 0, .clip, true, .quantizeWithScale⟩

lemma calibrateTensor_unit (format : FP8Format) :
    calibrateTensor linearQuantile format 1 .clip [1] = unitScale format := by
  have hminimum : format.maxFinite / floatMax ≤ 1 := by cases format <;> norm_num [FP8Format.maxFinite, floatMax]
  simp [calibrateTensor, unitScale, linearQuantile_singleton, scalesOf, hminimum]

def CalibratedTensor.name : CalibratedTensor → String
  | .feature => "feature"
  | .context => "context"
  | .weight => "weight"
  | .projection => "projection"

def unitMetadata (format : FP8Format) : E4M3TensorMetadata ℚ := ⟨format.maxFinite, 1 / format.maxFinite, 1, true, .clip⟩

def unitModel (format : FP8Format) : CalibratedModel where
  quantile := linearQuantile
  quantile_inRange := linearQuantile_inRange
  batches := unitBatches
  format := format
  percentile := 1
  policy := .clip
  result := ⟨1, format, 1, .clip, [("feature", unitScale format), ("context", unitScale format),
    ("weight", unitScale format), ("projection", unitScale format)]⟩
  calibrated := by
    rw [← calibrateTensor_unit]
    rfl
  observations := [("feature", [1]), ("context", [1]), ("weight", [1]), ("projection", [1])]
  observed := rfl
  name := CalibratedTensor.name
  activations _ := [1]
  collected tensor := by cases tensor <;> rfl
  scale _ := unitScale format
  emitted tensor := by cases tensor <;> rfl
  weights := ⟨fun _ => 0, fun _ => 0, unitMetadata format, unitMetadata format, nativeFormat format⟩
  request := ⟨fun _ => 0, fun _ => 0, 0, unitMetadata format, unitMetadata format⟩
  carries tensor := by cases tensor <;> exact ⟨rfl, rfl, rfl, .inl rfl⟩
  labelled := rfl
  contextLength_le := Nat.zero_le _

theorem calibrated_model_usable_e4m3 : (unitModel .e4m3).format = .e4m3 ∧ Usable (unitModel .e4m3) :=
  ⟨rfl, (calibrated_model_usable_iff _).mpr (.inl rfl)⟩

/-- The engine rejects the model in E5M2, for which it has a fallback, as an invalid argument. -/
theorem calibrated_e5m2_rejected :
    (statusOf (validateFp8Eligibility (exactOps id id) (unitModel .e5m2).weights (unitModel .e5m2).request) =
      ⟨.invalidArgument, "E4M3 quant/dequant scales and clip threshold are inconsistent"⟩) ∧
    ¬ Usable (unitModel .e5m2) := by
  have h : statusOf (validateFp8Eligibility (exactOps id id) (unitModel .e5m2).weights (unitModel .e5m2).request) =
      ⟨.invalidArgument, "E4M3 quant/dequant scales and clip threshold are inconsistent"⟩ := by
    decide +kernel
  exact ⟨h, fun husable => husable.eligibility id id (by rw [h])⟩

end divergence

end FraudDetection.Proofs
