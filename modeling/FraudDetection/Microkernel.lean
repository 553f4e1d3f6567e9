import Mathlib.Algebra.Order.Ring.Rat
import Mathlib.Data.Rat.Cast.Defs
import Mathlib.Algebra.Order.Field.Basic

/-!
# The microkernel pipeline

The reference kernels and the dispatch of `execution_engine`: `projection_gemm_fp32`,
`short_context_attention_fp32`, `validate_fp8_eligibility` and `MicrokernelPipeline::run`. The
operations on `float` are the fields of `FloatOps` and the CUDA runner is a parameter. An input
array is a function of the index, of which the loops read the indices below its size; an output
array is a list. The null checks of the kernels have no counterpart: their callers pass locals.
-/

namespace FraudDetection.Engine

structure FloatOps (α : Type) where
  literal : ℚ → α
  negInf : α
  add : α → α → α
  sub : α → α → α
  mul : α → α → α
  div : α → α → α
  fma : α → α → α → α
  abs : α → α
  sqrt : α → α
  exp : α → α
  lt : α → α → Bool
  le : α → α → Bool
  isFinite : α → Bool

variable {α : Type}

def FloatOps.max (ops : FloatOps α) (a b : α) : α := if ops.lt a b then b else a

def floatMax : ℚ := 340282346638528859811704183484516925440

/-- Exact arithmetic with the range of `float`; the square root and the exponential are left open. -/
def exactOps {K : Type} [Field K] [LinearOrder K] (sqrt exp : K → K) : FloatOps K where
  literal q := q
  negInf := -(floatMax : K) - 1
  add := (· + ·)
  sub := (· - ·)
  mul := (· * ·)
  div := (· / ·)
  fma a b c := a * b + c
  abs a := |a|
  sqrt := sqrt
  exp := exp
  lt a b := decide (a < b)
  le a b := decide (a ≤ b)
  isFinite a := decide (|a| ≤ (floatMax : K))

def featureWidth : Nat := 32
def embeddingWidth : Nat := 64
def maxContextLength : Nat := 16
def maxMicrokernelTensorMagnitude : ℚ := 32
def maxMicrokernelIntermediateMagnitude : ℚ := 100000000
def fp8E4M3Max : ℚ := 448

inductive StatusCode where
  | ok
  | invalidArgument
  | outOfRange
  | outOfMemory
  | unsupported
  | unavailable
  | internal
  deriving DecidableEq, Repr

structure Status where
  code : StatusCode
  message : String
  deriving DecidableEq, Repr

def Status.Ok : Status := ⟨.ok, "ok"⟩
def Status.ok (status : Status) : Bool := status.code = .ok

def statusOf {β : Type} : Except Status β → Status
  | .ok _ => .Ok
  | .error status => status

inductive Backend where
  | notExecuted
  | cpuReference
  | cudaFp16
  | cudaFp8
  deriving DecidableEq, Repr

structure DeviceCapabilities where
  cudaCompiled : Bool
  cudaAvailable : Bool
  computeCapabilityMajor : Int
  computeCapabilityMinor : Int
  deriving DecidableEq, Repr

/-- The preferred precision; the two bounds on the compute capability are set at compile time. -/
def selectBackend (minCudaCC fp8MinCudaCC : Int) (capabilities : DeviceCapabilities) : Backend :=
  if !capabilities.cudaCompiled || !capabilities.cudaAvailable then .cpuReference
  else
    let computeCapability := capabilities.computeCapabilityMajor * 10 + capabilities.computeCapabilityMinor
    if computeCapability < minCudaCC then .cpuReference
    else if fp8MinCudaCC ≤ computeCapability then .cudaFp8
    else .cudaFp16

inductive FallbackReason where
  | none
  | unsupportedDevice
  | fp8Ineligible
  | unsupportedFp8Format
  | cudaUnavailable
  | cudaOutOfMemory
  deriving DecidableEq, Repr

/-- The enumerators, and the other values of the underlying type. -/
inductive Fp8Format where
  | e4m3
  | e5m2Unsupported
  | other (value : UInt8)
  deriving DecidableEq, Repr

inductive Fp8RecommendedAction where
  | clip
  | fallbackFp16
  | other (value : UInt8)
  deriving DecidableEq, Repr

structure E4M3TensorMetadata (α : Type) where
  quantScale : α
  dequantScale : α
  clipThreshold : α
  eligibleForFp8 : Bool
  recommendedAction : Fp8RecommendedAction

structure MicrokernelRequest (α : Type) where
  transactionFeatures : Nat → α
  context : Nat → α
  contextLength : Nat
  featureFp8 : E4M3TensorMetadata α
  contextFp8 : E4M3TensorMetadata α

structure MicrokernelWeights (α : Type) where
  projectionWeights : Nat → α
  projectionBias : Nat → α
  weightFp8 : E4M3TensorMetadata α
  projectionFp8 : E4M3TensorMetadata α
  fp8Format : Fp8Format

section kernels

variable (ops : FloatOps α)

def bounded (value : α) (limit : ℚ) : Bool := ops.isFinite value && ops.le (ops.abs value) (ops.literal limit)

def projectRow (model : MicrokernelWeights α) (input : Nat → α) (row : Nat) : Except Status α := do
  if !bounded ops (model.projectionBias row) maxMicrokernelTensorMagnitude then
    throw ⟨.outOfRange, "projection bias exceeds the microkernel range"⟩
  (List.range featureWidth).foldlM (fun accumulator column => do
    let weight := model.projectionWeights (row * featureWidth + column)
    if !bounded ops weight maxMicrokernelTensorMagnitude ||
        !bounded ops (input column) maxMicrokernelTensorMagnitude then
      throw ⟨.outOfRange, "projection tensor exceeds the microkernel range"⟩
    let accumulator := ops.fma weight (input column) accumulator
    if !bounded ops accumulator maxMicrokernelIntermediateMagnitude then
      throw ⟨.outOfRange, "projection intermediate exceeds the microkernel range"⟩
    return accumulator) (model.projectionBias row)

def projectionGemmFp32 (model : MicrokernelWeights α) (input : Nat → α) : Except Status (List α) :=
  (List.range embeddingWidth).mapM (projectRow ops model input)

def attentionLogit (query : List α) (context : Nat → α) (row : Nat) : Except Status α := do
  let zero := ops.literal 0
  let inverseScale := ops.div (ops.literal 1) (ops.sqrt (ops.literal embeddingWidth))
  let dot ← (List.range embeddingWidth).foldlM (fun dot channel => do
    let key := context (row * embeddingWidth + channel)
    if !bounded ops key maxMicrokernelTensorMagnitude then
      throw ⟨.outOfRange, "active attention context exceeds the microkernel range"⟩
    let dot := ops.fma (query.getD channel zero) key dot
    if !bounded ops dot maxMicrokernelIntermediateMagnitude then
      throw ⟨.outOfRange, "attention dot product exceeds the microkernel range"⟩
    return dot) zero
  let logit := ops.mul dot inverseScale
  if !bounded ops logit maxMicrokernelIntermediateMagnitude then
    throw ⟨.outOfRange, "attention logit exceeds the microkernel range"⟩
  return logit

def shortContextAttentionFp32 (query : List α) (context : Nat → α) (contextLength : Nat) :
    Except Status (List α) := do
  let zero := ops.literal 0
  if maxContextLength < contextLength then throw ⟨.invalidArgument, "context exceeds fixed limit"⟩
  if query.any fun value => !bounded ops value maxMicrokernelIntermediateMagnitude then
    throw ⟨.outOfRange, "attention query exceeds the microkernel range"⟩
  if contextLength = 0 then return List.replicate embeddingWidth zero
  let firstToken := maxContextLength - contextLength
  let logits ← (List.range contextLength).mapM fun token =>
    attentionLogit ops query context (firstToken + token)
  let maxLogit := logits.foldl ops.max ops.negInf
  let exponentials := logits.map fun logit => ops.exp (ops.sub logit maxLogit)
  let denominator := exponentials.foldl ops.add zero
  if !ops.isFinite denominator || ops.le denominator zero then
    throw ⟨.outOfRange, "attention softmax is non-finite"⟩
  (List.range contextLength).foldlM (fun output token =>
    let weight := ops.div (exponentials.getD token zero) denominator
    (List.range embeddingWidth).mapM fun channel => do
      let value := ops.fma weight (context ((firstToken + token) * embeddingWidth + channel))
        (output.getD channel zero)
      if !bounded ops value maxMicrokernelIntermediateMagnitude then
        throw ⟨.outOfRange, "attention output exceeds the microkernel range"⟩
      return value) (List.replicate embeddingWidth zero)

end kernels

section eligibility

variable (ops : FloatOps α)

def positive (value : α) : Bool := ops.isFinite value && !ops.le value (ops.literal 0)

def validateTensorMetadata (metadata : E4M3TensorMetadata α) : Except Status Unit := do
  if metadata.recommendedAction ≠ .clip ∧ metadata.recommendedAction ≠ .fallbackFp16 then
    throw ⟨.invalidArgument, "E4M3 recommended action is invalid"⟩
  if !positive ops metadata.quantScale || !positive ops metadata.dequantScale ||
      !positive ops metadata.clipThreshold then
    throw ⟨.invalidArgument, "E4M3 quant/dequant scales and clip threshold must be finite and positive"⟩
  let inverseProduct := ops.mul metadata.quantScale metadata.dequantScale
  let representedThreshold := ops.mul metadata.dequantScale (ops.literal fp8E4M3Max)
  let thresholdTolerance := ops.max (ops.literal (1 / 100000))
    (ops.mul (ops.abs metadata.clipThreshold) (ops.literal (1 / 10000)))
  if ops.lt (ops.literal (1 / 10000)) (ops.abs (ops.sub inverseProduct (ops.literal 1))) ||
      ops.lt thresholdTolerance (ops.abs (ops.sub representedThreshold metadata.clipThreshold)) then
    throw ⟨.invalidArgument, "E4M3 quant/dequant scales and clip threshold are inconsistent"⟩

def tensorOutlier (value : α) (metadata : E4M3TensorMetadata α) : Bool :=
  ops.lt metadata.clipThreshold (ops.abs value) && metadata.recommendedAction = .fallbackFp16

def validateFp8Eligibility (weights : MicrokernelWeights α) (request : MicrokernelRequest α) :
    Except Status Unit := do
  if maxContextLength < request.contextLength then throw ⟨.invalidArgument, "context exceeds fixed limit"⟩
  validateTensorMetadata ops request.featureFp8
  validateTensorMetadata ops request.contextFp8
  validateTensorMetadata ops weights.weightFp8
  validateTensorMetadata ops weights.projectionFp8
  if weights.fp8Format = .e5m2Unsupported then
    throw ⟨.unsupported, "E5M2 is not supported by this microkernel"⟩
  if weights.fp8Format ≠ .e4m3 then throw ⟨.invalidArgument, "FP8 format metadata is invalid"⟩
  if !weights.weightFp8.eligibleForFp8 || !weights.projectionFp8.eligibleForFp8 ||
      !request.featureFp8.eligibleForFp8 || !request.contextFp8.eligibleForFp8 then
    throw ⟨.unsupported, "FP8 calibration did not mark every tensor eligible"⟩
  if (List.range featureWidth).any fun i => tensorOutlier ops (request.transactionFeatures i) request.featureFp8 then
    throw ⟨.unsupported, "feature outlier exceeds calibrated E4M3 range"⟩
  if (List.range (embeddingWidth * featureWidth)).any fun i =>
      tensorOutlier ops (weights.projectionWeights i) weights.weightFp8 then
    throw ⟨.unsupported, "weight outlier exceeds calibrated E4M3 range"⟩
  let firstValue := (maxContextLength - request.contextLength) * embeddingWidth
  if (List.range (maxContextLength * embeddingWidth - firstValue)).any fun i =>
      tensorOutlier ops (request.context (firstValue + i)) request.contextFp8 then
    throw ⟨.unsupported, "context outlier exceeds calibrated E4M3 range"⟩
  let projection ← projectionGemmFp32 ops weights request.transactionFeatures
  if projection.any fun value => tensorOutlier ops value weights.projectionFp8 then
    throw ⟨.unsupported, "projection outlier exceeds calibrated E4M3 range"⟩

end eligibility

section dispatch

structure MicrokernelResult (α : Type) where
  preferredBackend : Backend
  backend : Backend
  fallbackUsed : Bool
  eligibleForFp8 : Bool
  fallbackReason : FallbackReason
  fallbackStatus : Status
  terminalFallbackReason : FallbackReason
  terminalFallbackStatus : Status
  projection : List α
  attendedContext : List α
  anomalyScore : α

def recoverableCudaFailure (status : Status) : Bool :=
  status.code = .unsupported || status.code = .unavailable || status.code = .outOfMemory

def fallbackReasonFor (status : Status) : FallbackReason :=
  match status.code with
  | .unsupported => .unsupportedDevice
  | .unavailable => .cudaUnavailable
  | .outOfMemory => .cudaOutOfMemory
  | _ => .none

def recordFallback (result : MicrokernelResult α) (status : Status) (reason : FallbackReason) :
    MicrokernelResult α :=
  { result with
    fallbackStatus := if !result.fallbackUsed then status else result.fallbackStatus
    fallbackReason := if !result.fallbackUsed then reason else result.fallbackReason
    fallbackUsed := true
    terminalFallbackStatus := status
    terminalFallbackReason := reason }

/-- What the CUDA runner returns, and what it leaves in the projection and the attended context. -/
abbrev CudaRunner (α : Type) :=
  MicrokernelWeights α → MicrokernelRequest α → Backend → List α × List α → Status × List α × List α

variable (ops : FloatOps α)

def finalizeScore (result : MicrokernelResult α) : Except Status (MicrokernelResult α) := do
  let zero := ops.literal 0
  let limit := ops.literal maxMicrokernelIntermediateMagnitude
  let magnitudeSquared ← (List.range embeddingWidth).foldlM (fun magnitudeSquared i => do
    let projected := result.projection.getD i zero
    let attended := result.attendedContext.getD i zero
    if !ops.isFinite projected || !ops.isFinite attended || ops.lt limit (ops.abs projected) ||
        ops.lt limit (ops.abs attended) then
      throw ⟨.internal, "executed backend produced an invalid output"⟩
    let difference := ops.sub projected attended
    let magnitudeSquared := ops.fma difference difference magnitudeSquared
    if !ops.isFinite magnitudeSquared then
      throw ⟨.internal, "executed backend produced an invalid score intermediate"⟩
    return magnitudeSquared) zero
  let anomalyScore := ops.sqrt (ops.div magnitudeSquared (ops.literal embeddingWidth))
  if !ops.isFinite anomalyScore then
    throw ⟨.internal, "executed backend produced a non-finite score"⟩
  return { result with anomalyScore }

def attempt (cuda : CudaRunner α) (weights : MicrokernelWeights α) (request : MicrokernelRequest α)
    (backend : Backend) (next : MicrokernelResult α) : Status × MicrokernelResult α :=
  let (status, projection, attendedContext) := cuda weights request backend (next.projection, next.attendedContext)
  (status, { next with projection, attendedContext })

def runCuda (cuda : CudaRunner α) (weights : MicrokernelWeights α) (request : MicrokernelRequest α)
    (candidate : Backend) (next : MicrokernelResult α) :
    Except Status (MicrokernelResult α ⊕ MicrokernelResult α) := do
  let (status, next) := attempt cuda weights request candidate next
  if status.ok then
    let next := { next with
      backend := candidate, fallbackUsed := next.fallbackUsed || candidate ≠ next.preferredBackend }
    return .inl (← finalizeScore ops next)
  if !recoverableCudaFailure status then throw status
  if candidate = .cudaFp8 ∧ status.code = .unsupported then
    let next := recordFallback next status .unsupportedDevice
    let (status, next) := attempt cuda weights request .cudaFp16 next
    if status.ok then return .inl (← finalizeScore ops { next with backend := .cudaFp16 })
    if !recoverableCudaFailure status then throw status
    return .inr (recordFallback next status (fallbackReasonFor status))
  return .inr (recordFallback next status (fallbackReasonFor status))

/-- `run` up to the store of its result; `cuda` is `none` in a build without CUDA. -/
def runPipeline (cuda : Option (CudaRunner α)) (preferred : Backend) (weights : MicrokernelWeights α)
    (request : MicrokernelRequest α) : Except Status (MicrokernelResult α) := do
  if maxContextLength < request.contextLength then throw ⟨.invalidArgument, "context exceeds fixed limit"⟩
  let referenceProjection ← projectionGemmFp32 ops weights request.transactionFeatures
  let referenceAttention ←
    shortContextAttentionFp32 ops referenceProjection request.context request.contextLength
  let zeros := List.replicate embeddingWidth (ops.literal 0)
  let eligibility := statusOf (validateFp8Eligibility ops weights request)
  if eligibility.code = .invalidArgument then throw eligibility
  let next : MicrokernelResult α :=
    ⟨preferred, .notExecuted, false, eligibility.ok, .none, .Ok, .none, .Ok, zeros, zeros, ops.literal 0⟩
  let ineligible := preferred = .cudaFp8 ∧ !eligibility.ok
  if ineligible ∧ !recoverableCudaFailure eligibility then throw eligibility
  let reason : FallbackReason :=
    if weights.fp8Format = .e5m2Unsupported then .unsupportedFp8Format else .fp8Ineligible
  let candidate : Backend := if ineligible then .cudaFp16 else preferred
  let next := if ineligible then recordFallback next eligibility reason else next
  let executed ← match cuda with
    | some cuda =>
      if preferred = .cudaFp8 ∨ preferred = .cudaFp16 then runCuda ops cuda weights request candidate next
      else pure (.inr next)
    | none =>
      if preferred ≠ .cpuReference then
        pure (.inr (recordFallback next
          ⟨.unavailable, "CUDA support was not compiled into this microkernel"⟩ .cudaUnavailable))
      else pure (.inr next)
  match executed with
  | .inl finished => return finished
  | .inr next => finalizeScore ops { next with
      projection := referenceProjection, attendedContext := referenceAttention, backend := .cpuReference }

/-- `MicrokernelPipeline::run`: the status, `*result` and the last executed backend. A null result is
`none`. -/
def run (cuda : Option (CudaRunner α)) (preferred : Backend) (weights : MicrokernelWeights α)
    (request : MicrokernelRequest α) (result : Option (MicrokernelResult α)) (last : Backend) :
    Status × Option (MicrokernelResult α) × Backend :=
  match result with
  | none => (⟨.invalidArgument, "microkernel result is null"⟩, none, last)
  | some result =>
    match runPipeline ops cuda preferred weights request with
    | .error status => (status, some result, last)
    | .ok next => (.Ok, some next, next.backend)

end dispatch

end FraudDetection.Engine
