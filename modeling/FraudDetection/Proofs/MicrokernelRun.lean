import FraudDetection.Library.Outcomes
import FraudDetection.Microkernel

/-!
# Outcomes of the microkernel pipeline

Which statuses the kernels, the eligibility check and `run` can fail with, and the branches that
`run` takes for a model of an unsupported format.
-/

namespace FraudDetection.Proofs
open FraudDetection.Library FraudDetection.Engine

variable {α : Type} (ops : FloatOps α)

section errors

def CodeIs (code : StatusCode) (status : Status) : Prop := status.code = code
def CodeIsNot (code : StatusCode) (status : Status) : Prop := status.code ≠ code

lemma CodeIs.codeIsNot {code other : StatusCode} (hne : code ≠ other) {status : Status} (h : CodeIs code status) :
    CodeIsNot other status := fun h' => hne (h.symm.trans h')

lemma projectRow_failsWith (model : MicrokernelWeights α) (input : Nat → α) (row : Nat) :
    FailsWith (CodeIs .outOfRange) (projectRow ops model input row) := by
  unfold projectRow
  dsimp only
  refine .throw_if (fun _ => rfl) fun _ => .foldlM fun accumulator column => ?_
  exact .throw_if (fun _ => rfl) fun _ => .throw_if (fun _ => rfl) fun _ => .pure _

lemma projectionGemmFp32_failsWith (model : MicrokernelWeights α) (input : Nat → α) :
    FailsWith (CodeIs .outOfRange) (projectionGemmFp32 ops model input) :=
  .mapM (projectRow_failsWith ops model input)

lemma validateTensorMetadata_failsWith (metadata : E4M3TensorMetadata α) :
    FailsWith (CodeIs .invalidArgument) (validateTensorMetadata ops metadata) := by
  unfold validateTensorMetadata
  dsimp only
  refine .throw_if (fun _ => rfl) fun _ => .throw_if (fun _ => rfl) fun _ => ?_
  exact .ite (fun _ => .throw rfl) fun _ => .pure _

lemma finalizeScore_failsWith (result : MicrokernelResult α) :
    FailsWith (CodeIs .internal) (finalizeScore ops result) := by
  unfold finalizeScore
  dsimp only
  refine .bind (.foldlM fun magnitudeSquared i => ?_) fun _ _ => .throw_if (fun _ => rfl) fun _ => .pure _
  exact .throw_if (fun _ => rfl) fun _ => .throw_if (fun _ => rfl) fun _ => .pure _

end errors

section eligibility

inductive CalibratedTensor where
  | feature
  | context
  | weight
  | projection

def CalibratedTensor.metadata (weights : MicrokernelWeights α) (request : MicrokernelRequest α) :
    CalibratedTensor → E4M3TensorMetadata α
  | .feature => request.featureFp8
  | .context => request.contextFp8
  | .weight => weights.weightFp8
  | .projection => weights.projectionFp8

variable (weights : MicrokernelWeights α) (request : MicrokernelRequest α)

def MetadataValid : Prop :=
  ∀ tensor : CalibratedTensor, validateTensorMetadata ops (tensor.metadata weights request) = .ok ()

variable {ops weights request}

lemma check_ok_of_code {code : StatusCode} {check : Except Status Unit} {next : Unit → Except Status Unit}
    (hcheck : FailsWith (CodeIs code) check) (h : (statusOf (check >>= next)).code ≠ code) :
    check = .ok () ∧ (statusOf (next ())).code ≠ code := by
  cases check with
  | error status => exact absurd (hcheck status rfl) h
  | ok u => exact ⟨rfl, h⟩

/-- The checks of the metadata come before that of the format, so that a failure of theirs decides. -/
lemma metadataValid_of_code
    (h : (statusOf (validateFp8Eligibility ops weights request)).code ≠ .invalidArgument) :
    MetadataValid ops weights request := by
  have hmetadata := validateTensorMetadata_failsWith ops
  unfold validateFp8Eligibility at h
  dsimp only at h
  by_cases hlength : maxContextLength < request.contextLength
  · rw [if_pos hlength] at h
    exact absurd rfl h
  rw [if_neg hlength] at h
  obtain ⟨hfeature, h⟩ := check_ok_of_code (hmetadata _) h
  obtain ⟨hcontext, h⟩ := check_ok_of_code (hmetadata _) h
  obtain ⟨hweight, h⟩ := check_ok_of_code (hmetadata _) h
  obtain ⟨hprojection, h⟩ := check_ok_of_code (hmetadata _) h
  intro tensor
  cases tensor with
  | feature => exact hfeature
  | context => exact hcontext
  | weight => exact hweight
  | projection => exact hprojection

lemma validateFp8Eligibility_e5m2 (hlength : request.contextLength ≤ maxContextLength)
    (hvalid : MetadataValid ops weights request) (hformat : weights.fp8Format = .e5m2Unsupported) :
    validateFp8Eligibility ops weights request =
      .error ⟨.unsupported, "E5M2 is not supported by this microkernel"⟩ := by
  have hfeature : validateTensorMetadata ops request.featureFp8 = .ok () := hvalid .feature
  have hcontext : validateTensorMetadata ops request.contextFp8 = .ok () := hvalid .context
  have hweight : validateTensorMetadata ops weights.weightFp8 = .ok () := hvalid .weight
  have hprojection : validateTensorMetadata ops weights.projectionFp8 = .ok () := hvalid .projection
  unfold validateFp8Eligibility
  rw [if_neg (Nat.not_lt.mpr hlength), hfeature, hcontext, hweight, hprojection]
  exact if_pos hformat

lemma validateFp8Eligibility_e4m3 (hlength : request.contextLength ≤ maxContextLength)
    (hvalid : MetadataValid ops weights request) (hformat : weights.fp8Format = .e4m3) :
    FailsWith (CodeIsNot .invalidArgument) (validateFp8Eligibility ops weights request) := by
  have hmetadata (tensor : CalibratedTensor) :
      FailsWith (CodeIsNot .invalidArgument) (validateTensorMetadata ops (tensor.metadata weights request)) := by
    rw [hvalid tensor]
    exact .pure ()
  have hunsupported (message : String) : CodeIsNot .invalidArgument ⟨.unsupported, message⟩ := nofun
  unfold validateFp8Eligibility
  dsimp only
  refine .throw_if (fun h => absurd hlength (Nat.not_le.mpr h)) fun _ => ?_
  refine (hmetadata .feature).bind fun _ _ => (hmetadata .context).bind fun _ _ => ?_
  refine (hmetadata .weight).bind fun _ _ => (hmetadata .projection).bind fun _ _ => ?_
  refine .throw_if (fun _ => hunsupported _) fun _ => .throw_if (fun h => absurd hformat h) fun _ => ?_
  refine .throw_if (fun _ => hunsupported _) fun _ => .throw_if (fun _ => hunsupported _) fun _ => ?_
  refine .throw_if (fun _ => hunsupported _) fun _ => .throw_if (fun _ => hunsupported _) fun _ => ?_
  refine .bind (fun status h => ?_) fun _ _ => .ite (fun _ => .throw (hunsupported _)) fun _ => .pure _
  exact (projectionGemmFp32_failsWith ops weights _ status h).codeIsNot (by decide)

end eligibility

section dispatch

variable (weights : MicrokernelWeights α) (request : MicrokernelRequest α)

/-- The tensors are in range: the reference kernels compute the projection and the attention. -/
structure ReferenceComputed (projection attended : List α) : Prop where
  projection_eq : projectionGemmFp32 ops weights request.transactionFeatures = .ok projection
  attended_eq : shortContextAttentionFp32 ops projection request.context request.contextLength = .ok attended

variable {weights request}

lemma runCuda_failsWith {cuda : CudaRunner α} {code : StatusCode} (hinternal : StatusCode.internal ≠ code)
    (hcuda : ∀ w r b out, CodeIsNot code (cuda w r b out).1) (candidate : Backend) (next : MicrokernelResult α) :
    FailsWith (CodeIsNot code) (runCuda ops cuda weights request candidate next) := by
  have hfinal (result : MicrokernelResult α) : FailsWith (CodeIsNot code) (finalizeScore ops result) :=
    fun status h => (finalizeScore_failsWith ops result status h).codeIsNot hinternal
  have hattempt (backend : Backend) (next : MicrokernelResult α) :
      CodeIsNot code (attempt cuda weights request backend next).1 := hcuda _ _ _ _
  unfold runCuda
  dsimp only
  refine .ite (fun _ => .bind (hfinal _) fun _ _ => .pure _) fun _ => .throw_if (fun _ => hattempt _ _) fun _ => ?_
  refine .ite (fun _ => .ite (fun _ => .bind (hfinal _) fun _ _ => .pure _) fun _ => ?_) fun _ => .pure _
  exact .throw_if (fun _ => hattempt _ _) fun _ => .pure _

/-- On tensors in range `run` reports an invalid argument only if the eligibility check or the CUDA
runner does. -/
lemma runPipeline_failsWith {cuda : Option (CudaRunner α)} {projection attended : List α}
    (hlength : request.contextLength ≤ maxContextLength)
    (hcomputed : ReferenceComputed ops weights request projection attended)
    (heligibility : (statusOf (validateFp8Eligibility ops weights request)).code ≠ .invalidArgument)
    (hcuda : ∀ runner ∈ cuda, ∀ w r b out, CodeIsNot .invalidArgument (runner w r b out).1) (preferred : Backend) :
    FailsWith (CodeIsNot .invalidArgument) (runPipeline ops cuda preferred weights request) := by
  have hfinal (result : MicrokernelResult α) : FailsWith (CodeIsNot .invalidArgument) (finalizeScore ops result) :=
    fun status h => (finalizeScore_failsWith ops result status h).codeIsNot (by decide)
  unfold runPipeline
  dsimp only
  rw [hcomputed.projection_eq]
  refine .throw_if (fun h => absurd hlength (Nat.not_le.mpr h)) fun _ => .bind (.pure _) fun _ h => ?_
  cases h
  rw [hcomputed.attended_eq]
  refine .bind (.pure _) fun _ _ => .throw_if (fun h => absurd h heligibility) fun _ => ?_
  refine .throw_if (fun _ => heligibility) fun _ => ?_
  cases cuda with
  | none => exact .ite (fun _ => hfinal _) fun _ => hfinal _
  | some runner =>
    refine .ite (fun _ => .bind (runCuda_failsWith ops (by decide) (hcuda runner rfl) _ _) fun executed _ => ?_)
      fun _ => hfinal _
    cases executed with
    | inl finished => exact .pure _
    | inr rest => exact hfinal _

end dispatch

section lowering

def OutputInRange (values : List α) : Prop :=
  ∀ x ∈ values, bounded ops x maxMicrokernelIntermediateMagnitude = true

def ScoresInRange : Prop :=
  ∀ result : MicrokernelResult α, OutputInRange ops result.projection → OutputInRange ops result.attendedContext →
    ∃ score, finalizeScore ops result = .ok { result with anomalyScore := score }

/-- A call of the runner writes outputs in range or fails in a way that `run` recovers from. -/
def RunnerSound (cuda : CudaRunner α) : Prop :=
  ∀ weights request backend out,
    ((cuda weights request backend out).1.ok = true →
      OutputInRange ops (cuda weights request backend out).2.1 ∧
        OutputInRange ops (cuda weights request backend out).2.2) ∧
    ((cuda weights request backend out).1.ok = false →
      recoverableCudaFailure (cuda weights request backend out).1 = true)

def KeepsFallback (result next : MicrokernelResult α) : Prop :=
  result.fallbackUsed = true →
    next.fallbackUsed = true ∧ next.fallbackReason = result.fallbackReason ∧
      next.fallbackStatus = result.fallbackStatus

lemma keepsFallback_recordFallback (result : MicrokernelResult α) (status : Status) (reason : FallbackReason) :
    KeepsFallback result (recordFallback result status reason) := by
  intro h
  simp [recordFallback, h]

variable {ops} {cuda : CudaRunner α} {weights : MicrokernelWeights α} {request : MicrokernelRequest α}

/-- The half-precision candidate finishes, or leaves the work to the CPU. -/
lemma runCuda_cudaFp16 (hscore : ScoresInRange ops) (hsound : RunnerSound ops cuda) (next : MicrokernelResult α) :
    (∃ finished, runCuda ops cuda weights request .cudaFp16 next = .ok (.inl finished) ∧
      finished.backend = .cudaFp16 ∧ KeepsFallback next finished) ∨
    ∃ rest, runCuda ops cuda weights request .cudaFp16 next = .ok (.inr rest) ∧ KeepsFallback next rest := by
  obtain ⟨hok, hfailed⟩ := hsound weights request .cudaFp16 (next.projection, next.attendedContext)
  unfold runCuda attempt
  generalize cuda weights request .cudaFp16 (next.projection, next.attendedContext) = answer at hok hfailed ⊢
  obtain ⟨status, projection, attended⟩ := answer
  dsimp only at hok hfailed ⊢
  by_cases hstatus : status.ok = true
  · left
    obtain ⟨score, hfinal⟩ := hscore
      { next with
        projection, attendedContext := attended, backend := .cudaFp16
        fallbackUsed := next.fallbackUsed || decide (Backend.cudaFp16 ≠ next.preferredBackend) }
      (hok hstatus).1 (hok hstatus).2
    rw [if_pos hstatus, hfinal]
    exact ⟨_, rfl, rfl, fun h => ⟨Bool.or_eq_true _ _ |>.mpr (.inl h), rfl, rfl⟩⟩
  · right
    rw [if_neg hstatus, hfailed (Bool.eq_false_iff.mpr hstatus), if_neg nofun, if_neg (fun h => nomatch h.1)]
    exact ⟨_, rfl, keepsFallback_recordFallback _ _ _⟩

/-- A request for FP8 is recorded as a fallback for the format. -/
def FormatFallback (preferred : Backend) (result : MicrokernelResult α) : Prop :=
  preferred = .cudaFp8 →
    result.fallbackUsed = true ∧ result.fallbackReason = .unsupportedFp8Format ∧
      result.fallbackStatus.code = .unsupported

lemma FormatFallback.keeps {preferred : Backend} {result next : MicrokernelResult α}
    (h : FormatFallback preferred result) (hkeeps : KeepsFallback result next) : FormatFallback preferred next := by
  intro hpreferred
  obtain ⟨hused, hreason, hstatus⟩ := h hpreferred
  obtain ⟨hused', hreason', hstatus'⟩ := hkeeps hused
  exact ⟨hused', hreason'.trans hreason, hstatus' ▸ hstatus⟩

/-- The run of a model of an unsupported format: half precision or the CPU. -/
structure Lowered (preferred : Backend) (result : MicrokernelResult α) : Prop where
  backend : result.backend = .cudaFp16 ∨ result.backend = .cpuReference
  fallback : FormatFallback preferred result

lemma runPipeline_lowered {cuda : Option (CudaRunner α)} {projection attended : List α} {status : Status}
    (hscore : ScoresInRange ops) (hsound : ∀ runner ∈ cuda, RunnerSound ops runner)
    (hlength : request.contextLength ≤ maxContextLength)
    (hcomputed : ReferenceComputed ops weights request projection attended)
    (hprojection : OutputInRange ops projection) (hattended : OutputInRange ops attended)
    (heligibility : validateFp8Eligibility ops weights request = .error status) (hcode : status.code = .unsupported)
    (hformat : weights.fp8Format = .e5m2Unsupported) (preferred : Backend) :
    ∃ result, runPipeline ops cuda preferred weights request = .ok result ∧ Lowered preferred result := by
  have hinvalid : ¬ status.code = .invalidArgument := by
    rw [hcode]
    nofun
  have hrecoverable : recoverableCudaFailure status = true := by
    simp [recoverableCudaFailure, hcode]
  have hnotOk : status.ok = false := by
    simp [Status.ok, hcode]
  -- what is left to the CPU is finished there
  have hcpu (next : MicrokernelResult α) (hnext : FormatFallback preferred next) :
      ∃ result, finalizeScore ops { next with
          projection, attendedContext := attended, backend := .cpuReference } = .ok result ∧
        Lowered preferred result := by
    obtain ⟨score, hfinal⟩ := hscore
      { next with projection, attendedContext := attended, backend := .cpuReference } hprojection hattended
    exact ⟨_, hfinal, .inr rfl, hnext⟩
  unfold runPipeline
  dsimp only
  simp only [if_neg (Nat.not_lt.mpr hlength), hcomputed.projection_eq, hcomputed.attended_eq, ok_bind,
    heligibility, statusOf, if_neg hinvalid, hnotOk, hrecoverable, Bool.not_true, Bool.not_false, and_true,
    and_false, if_false, hformat, if_true, Bool.false_eq_true]
  generalize hnext : (if preferred = Backend.cudaFp8 then
    recordFallback _ status FallbackReason.unsupportedFp8Format else _) = next
  have hfallback : FormatFallback preferred next := by
    intro hpreferred
    rw [if_pos hpreferred] at hnext
    subst hnext
    exact ⟨rfl, rfl, hcode⟩
  cases cuda with
  | none =>
    dsimp only
    split
    · exact hcpu _ (hfallback.keeps (keepsFallback_recordFallback _ _ _))
    · exact hcpu _ hfallback
  | some runner =>
    dsimp only
    split
    · rename_i hcuda
      have hcandidate : (if preferred = Backend.cudaFp8 then Backend.cudaFp16 else preferred) = .cudaFp16 := by
        rcases hcuda with rfl | rfl <;> rfl
      rw [hcandidate]
      obtain ⟨finished, hrun, hbackend, hkeeps⟩ | ⟨rest, hrun, hkeeps⟩ :=
        runCuda_cudaFp16 hscore (hsound runner rfl) next
      · rw [hrun]
        exact ⟨finished, rfl, .inl hbackend, hfallback.keeps hkeeps⟩
      · rw [hrun]
        exact hcpu _ (hfallback.keeps hkeeps)
    · exact hcpu _ hfallback

end lowering

end FraudDetection.Proofs
