import FraudDetection.Library.Outcomes
import FraudDetection.Microkernel

/-!
# The padding of a context

A context shorter than its array is left-padded. The attention and the eligibility scan start at the
first row that is not padding, so that requests which differ in the padding alone run alike.
-/

namespace FraudDetection.Proofs
open FraudDetection.Library FraudDetection.Engine

variable {α : Type} {ops : FloatOps α}

def firstActive (contextLength : Nat) : Nat := (maxContextLength - contextLength) * embeddingWidth

structure AgreeUpToPadding (request request' : MicrokernelRequest α) : Prop where
  features : ∀ i < featureWidth, request.transactionFeatures i = request'.transactionFeatures i
  contextLength : request.contextLength = request'.contextLength
  context : ∀ i, firstActive request.contextLength ≤ i → i < maxContextLength * embeddingWidth →
    request.context i = request'.context i
  featureFp8 : request.featureFp8 = request'.featureFp8
  contextFp8 : request.contextFp8 = request'.contextFp8

section reads

lemma any_congr_of_mem {β : Type} {p q : β → Bool} {xs : List β} (h : ∀ x ∈ xs, p x = q x) : xs.any p = xs.any q := by
  rw [Bool.eq_iff_iff, List.any_eq_true, List.any_eq_true]
  exact exists_congr fun x => and_congr_right fun hx => by rw [h x hx]

lemma projectionGemmFp32_congr (model : MicrokernelWeights α) {input input' : Nat → α}
    (h : ∀ i < featureWidth, input i = input' i) :
    projectionGemmFp32 ops model input = projectionGemmFp32 ops model input' := by
  have hrow : ∀ row, projectRow ops model input row = projectRow ops model input' row := by
    intro row
    unfold projectRow
    dsimp only
    rw [foldlM_congr fun column hcolumn accumulator => ?_]
    rw [h column (List.mem_range.mp hcolumn)]
  unfold projectionGemmFp32
  exact mapM_congr fun row _ => hrow row

lemma attentionLogit_congr (query : List α) {context context' : Nat → α} {row : Nat}
    (h : ∀ channel < embeddingWidth,
      context (row * embeddingWidth + channel) = context' (row * embeddingWidth + channel)) :
    attentionLogit ops query context row = attentionLogit ops query context' row := by
  unfold attentionLogit
  dsimp only
  rw [foldlM_congr fun channel hchannel dot => ?_]
  rw [h channel (List.mem_range.mp hchannel)]

lemma active_index {contextLength token channel : Nat} (hlength : contextLength ≤ maxContextLength)
    (htoken : token < contextLength) (hchannel : channel < embeddingWidth) :
    firstActive contextLength ≤ (maxContextLength - contextLength + token) * embeddingWidth + channel ∧
      (maxContextLength - contextLength + token) * embeddingWidth + channel < maxContextLength * embeddingWidth := by
  simp only [firstActive, maxContextLength, embeddingWidth] at *
  omega

lemma shortContextAttentionFp32_congr (query : List α) {context context' : Nat → α} {contextLength : Nat}
    (h : ∀ i, firstActive contextLength ≤ i → i < maxContextLength * embeddingWidth → context i = context' i) :
    shortContextAttentionFp32 ops query context contextLength =
      shortContextAttentionFp32 ops query context' contextLength := by
  by_cases hlength : maxContextLength < contextLength
  · unfold shortContextAttentionFp32
    rw [if_pos hlength, if_pos hlength, throw_bind, throw_bind]
  have hrow : ∀ token < contextLength, ∀ channel < embeddingWidth,
      context ((maxContextLength - contextLength + token) * embeddingWidth + channel) =
        context' ((maxContextLength - contextLength + token) * embeddingWidth + channel) := by
    intro token htoken channel hchannel
    obtain ⟨hlow, hhigh⟩ := active_index (Nat.le_of_not_lt hlength) htoken hchannel
    exact h _ hlow hhigh
  have hlogits : (List.range contextLength).mapM
        (fun token => attentionLogit ops query context (maxContextLength - contextLength + token)) =
      (List.range contextLength).mapM
        (fun token => attentionLogit ops query context' (maxContextLength - contextLength + token)) :=
    mapM_congr fun token htoken => attentionLogit_congr query (hrow token (List.mem_range.mp htoken))
  unfold shortContextAttentionFp32
  dsimp only
  rw [hlogits]
  simp only [throw_bind]
  refine if_congr Iff.rfl rfl (if_congr Iff.rfl rfl (if_congr Iff.rfl rfl (bind_congr fun logits => ?_)))
  refine if_congr Iff.rfl rfl (foldlM_congr (fun token htoken output => mapM_congr fun channel hchannel => ?_) _)
  rw [hrow token (List.mem_range.mp htoken) channel (List.mem_range.mp hchannel)]

lemma validateFp8Eligibility_congr (weights : MicrokernelWeights α) {request request' : MicrokernelRequest α}
    (h : AgreeUpToPadding request request') :
    validateFp8Eligibility ops weights request = validateFp8Eligibility ops weights request' := by
  have hfeatures : ((List.range featureWidth).any fun i =>
        tensorOutlier ops (request.transactionFeatures i) request.featureFp8) =
      (List.range featureWidth).any fun i =>
        tensorOutlier ops (request'.transactionFeatures i) request.featureFp8 :=
    any_congr_of_mem fun i hi => by rw [h.features i (List.mem_range.mp hi)]
  have hcontext : ((List.range (maxContextLength * embeddingWidth - firstActive request.contextLength)).any fun i =>
        tensorOutlier ops (request.context (firstActive request.contextLength + i)) request.contextFp8) =
      (List.range (maxContextLength * embeddingWidth - firstActive request.contextLength)).any fun i =>
        tensorOutlier ops (request'.context (firstActive request.contextLength + i)) request.contextFp8 := by
    refine any_congr_of_mem fun i hi => ?_
    have hlt := List.mem_range.mp hi
    rw [h.context _ (Nat.le_add_right _ _) (by omega)]
  unfold firstActive at hcontext
  unfold validateFp8Eligibility
  dsimp only
  rw [hfeatures, hcontext, projectionGemmFp32_congr weights h.features, h.contextLength, h.featureFp8, h.contextFp8]

end reads

lemma runCuda_congr {cuda : CudaRunner α} {weights : MicrokernelWeights α} {request request' : MicrokernelRequest α}
    (h : ∀ backend out, cuda weights request backend out = cuda weights request' backend out) (candidate : Backend)
    (next : MicrokernelResult α) :
    runCuda ops cuda weights request candidate next = runCuda ops cuda weights request' candidate next := by
  unfold runCuda attempt
  simp only [h]

/-- The runner is asked for a preferred CUDA backend only. -/
def RunnerBlind (cuda : Option (CudaRunner α)) (preferred : Backend) (weights : MicrokernelWeights α)
    (request request' : MicrokernelRequest α) : Prop :=
  preferred = .cudaFp8 ∨ preferred = .cudaFp16 → ∀ runner ∈ cuda, ∀ backend out,
    runner weights request backend out = runner weights request' backend out

lemma runPipeline_congr {cuda : Option (CudaRunner α)} {preferred : Backend} {weights : MicrokernelWeights α}
    {request request' : MicrokernelRequest α} (h : AgreeUpToPadding request request')
    (hblind : RunnerBlind cuda preferred weights request request') :
    runPipeline ops cuda preferred weights request = runPipeline ops cuda preferred weights request' := by
  have hattention (query : List α) :
      shortContextAttentionFp32 ops query request.context request'.contextLength =
        shortContextAttentionFp32 ops query request'.context request'.contextLength :=
    shortContextAttentionFp32_congr query (h.contextLength ▸ h.context)
  unfold runPipeline
  dsimp only
  simp only [validateFp8Eligibility_congr weights h, projectionGemmFp32_congr weights h.features, hattention,
    h.contextLength]
  cases cuda with
  | none => rfl
  | some runner =>
    by_cases hcuda : preferred = .cudaFp8 ∨ preferred = .cudaFp16
    · simp only [runCuda_congr (hblind hcuda runner rfl)]
    · simp only [if_neg hcuda]

/-- Requests that differ in the padding alone get one status and one result on the CPU: without a
CUDA build, with the CPU preferred, or where the runner answers both alike. -/
theorem padding_invisible (ops : FloatOps α) (cuda : Option (CudaRunner α)) (preferred : Backend)
    (weights : MicrokernelWeights α) (request request' : MicrokernelRequest α)
    (h : AgreeUpToPadding request request') (hblind : RunnerBlind cuda preferred weights request request')
    (result : Option (MicrokernelResult α)) (last : Backend) :
    run ops cuda preferred weights request result last = run ops cuda preferred weights request' result last ∧
      validateFp8Eligibility ops weights request = validateFp8Eligibility ops weights request' := by
  refine ⟨?_, validateFp8Eligibility_congr weights h⟩
  unfold run
  rw [runPipeline_congr h hblind]

def fullScaleMetadata : E4M3TensorMetadata ℚ := ⟨1, 1, 448, true, .clip⟩

/-- One token of zeros behind padding of one value. -/
def paddedRequest (padding : ℚ) : MicrokernelRequest ℚ where
  transactionFeatures _ := 0
  context i := if i < 960 then padding else 0
  contextLength := 1
  featureFp8 := fullScaleMetadata
  contextFp8 := fullScaleMetadata

def blankResult : MicrokernelResult ℚ :=
  ⟨.cpuReference, .notExecuted, false, false, .none, .Ok, .none, .Ok, List.replicate embeddingWidth 0,
    List.replicate embeddingWidth 0, 0⟩

theorem padding_invisible_one_token :
    let weights : MicrokernelWeights ℚ := ⟨fun _ => 0, fun _ => 0, fullScaleMetadata, fullScaleMetadata, .e4m3⟩
    paddedRequest 0 ≠ paddedRequest 1000000 ∧
    run (exactOps id fun _ => 1) none .cudaFp8 weights (paddedRequest 0) (some blankResult) .notExecuted =
      run (exactOps id fun _ => 1) none .cudaFp8 weights (paddedRequest 1000000) (some blankResult) .notExecuted := by
  intro weights
  have hagree : AgreeUpToPadding (paddedRequest 0) (paddedRequest 1000000) := by
    refine ⟨fun i _ => rfl, rfl, fun i hlow _ => ?_, rfl, rfl⟩
    have hactive : ¬ i < 960 := Nat.not_lt.mpr hlow
    simp only [paddedRequest, if_neg hactive]
  have hblind : RunnerBlind none .cudaFp8 weights (paddedRequest 0) (paddedRequest 1000000) := fun _ _ h => nomatch h
  refine ⟨?_, (padding_invisible _ none .cudaFp8 weights _ _ hagree hblind (some blankResult) .notExecuted).1⟩
  intro heq
  have hpadding := congrFun (congrArg MicrokernelRequest.context heq) 0
  simp [paddedRequest] at hpadding

end FraudDetection.Proofs
