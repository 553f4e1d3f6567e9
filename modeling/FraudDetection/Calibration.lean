import FraudDetection.Library.Ieee
import FraudDetection.Microkernel

/-!
# FP8 calibration

`calibrate_fp8` of `training/calibration/fp8.py` in exact arithmetic. A batch stands for its values
and for what the forward hooks see when the model runs on it, in order; the type checks of the
batches have no counterpart. A value is finite if it lies in the range of `float32`.
-/

namespace FraudDetection.Calibration
open FraudDetection.Library
open FraudDetection.Engine (floatMax)

inductive FP8Format where
  | e4m3
  | e5m2
  deriving DecidableEq, Repr

def FP8Format.maxFinite : FP8Format → ℚ
  | .e4m3 => 448
  | .e5m2 => 57344

inductive OutlierPolicy where
  | clip
  | fallback
  | other (text : String)
  deriving DecidableEq, Repr

inductive RecommendedAction where
  | useFp16OrFp32
  | clipToThresholdThenQuantize
  | quantizeWithScale
  deriving DecidableEq, Repr

structure TensorScaleMetadata where
  fp8Format : FP8Format
  fp8Max : ℚ
  amax : ℚ
  clipThreshold : ℚ
  quantScale : ℚ
  dequantScale : ℚ
  outlierCount : Nat
  observationCount : Nat
  outlierRatio : ℚ
  outlierPolicy : OutlierPolicy
  eligibleForFp8 : Bool
  recommendedAction : RecommendedAction
  deriving DecidableEq, Repr

structure FP8CalibrationResult where
  schemaVersion : Nat
  format : FP8Format
  percentile : ℚ
  outlierPolicy : OutlierPolicy
  tensors : List (String × TensorScaleMetadata)

structure ValueError where
  message : String
  deriving DecidableEq, Repr

section observation

structure Batch where
  values : List (Ieee ℚ)
  outputs : List (String × List (Ieee ℚ))

def isFinite : Ieee ℚ → Bool
  | .finite x => |x| ≤ floatMax
  | _ => false

def magnitude : Ieee ℚ → ℚ
  | .finite x => |x|
  | _ => 0

abbrev Observations := List (String × List ℚ)

/-- `observations.setdefault(key, []).append(..)`, with the tensors of a key already joined. -/
def Observations.append (key : String) (values : List ℚ) : Observations → Observations
  | [] => [(key, values)]
  | (name, old) :: rest =>
    if name = key then (name, old ++ values) :: rest else (name, old) :: Observations.append key values rest

def capture (observations : Observations) (output : String × List (Ieee ℚ)) : Except ValueError Observations :=
  if output.2.length = 0 then .error ⟨"module '" ++ output.1 ++ "' produced an empty activation tensor"⟩
  else if !output.2.all isFinite then .error ⟨"module '" ++ output.1 ++ "' produced non-finite activations"⟩
  else .ok (observations.append output.1 (output.2.map magnitude))

def observe (batches : List Batch) : Except ValueError Observations :=
  batches.foldlM (fun observations batch =>
    if batch.values.length = 0 then .error ⟨"calibration batches must not be empty"⟩
    else if !batch.values.all isFinite then .error ⟨"calibration batches must contain only finite values"⟩
    else batch.outputs.foldlM capture observations) []

end observation

section scales

/-- Clip threshold, quantization scale and dequantization scale of a threshold. Unit scales stand
for a tensor of zeros. -/
def scalesOf (format : FP8Format) (threshold : ℚ) : ℚ × ℚ × ℚ :=
  if threshold = 0 then (format.maxFinite, 1, 1)
  else
    let minimumThreshold := format.maxFinite / floatMax
    let clipThreshold := max threshold minimumThreshold
    (clipThreshold, format.maxFinite / clipThreshold, clipThreshold / format.maxFinite)

/-- `quantile` is `torch.quantile`. -/
def calibrateTensor (quantile : List ℚ → ℚ → ℚ) (format : FP8Format) (percentile : ℚ) (policy : OutlierPolicy)
    (values : List ℚ) : TensorScaleMetadata :=
  let threshold := quantile values percentile
  let outlierCount := values.countP fun x => threshold < x
  let scales := scalesOf format threshold
  let eligible := !(policy = .fallback && 0 < outlierCount)
  { fp8Format := format
    fp8Max := format.maxFinite
    amax := values.foldl max 0
    clipThreshold := scales.1
    quantScale := scales.2.1
    dequantScale := scales.2.2
    outlierCount
    observationCount := values.length
    outlierRatio := outlierCount / max 1 values.length
    outlierPolicy := policy
    eligibleForFp8 := eligible
    recommendedAction :=
      if !eligible then .useFp16OrFp32
      else if 0 < outlierCount then .clipToThresholdThenQuantize
      else .quantizeWithScale }

def fp8CalibrationSchemaVersion : Nat := 1

def calibrateFp8 (quantile : List ℚ → ℚ → ℚ) (batches : List Batch) (format : FP8Format) (percentile : ℚ)
    (policy : OutlierPolicy) : Except ValueError FP8CalibrationResult := do
  if ¬ (0 < percentile ∧ percentile ≤ 1) then throw ⟨"percentile must be in (0, 1]"⟩
  if policy ≠ .clip ∧ policy ≠ .fallback then throw ⟨"outlier_policy must be 'clip' or 'fallback'"⟩
  let observations ← observe batches
  if batches.length = 0 then throw ⟨"at least one calibration batch is required"⟩
  if observations.length = 0 then
    throw ⟨"no activations collected; provide at least one non-empty batch"⟩
  return {
    schemaVersion := fp8CalibrationSchemaVersion, format, percentile, outlierPolicy := policy
    tensors := observations.map fun o => (o.1, calibrateTensor quantile format percentile policy o.2) }

end scales

end FraudDetection.Calibration
