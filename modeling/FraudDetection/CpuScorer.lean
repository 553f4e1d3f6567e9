import Mathlib.Data.Rat.Defs
import FraudDetection.Worker

/-!
# The CPU scorer

`CPUScorer` of `serving_plane/worker/worker.go`, the deterministic worker of local and fail-closed
operation. The rounded operations on `float64` and `sort.Slice` are parameters; comparisons,
magnitudes and the functions `math.Max` and `math.Min` are exact.
-/

namespace FraudDetection.Worker
open FraudDetection.Library

/-- The operations on `float64` that round. -/
structure Rounding (K : Type) where
  literal : ℚ → Ieee K
  neg : Ieee K → Ieee K
  add : Ieee K → Ieee K → Ieee K
  sub : Ieee K → Ieee K → Ieee K
  mul : Ieee K → Ieee K → Ieee K
  div : Ieee K → Ieee K → Ieee K
  exp : Ieee K → Ieee K

/-- `sort.Slice`: the comparison of two elements, and the slice. -/
abbrev SliceSort (K : Type) :=
  (Explanation K → Explanation K → Bool) → List (Explanation K) → List (Explanation K)

structure CPUScorer (K : Type) where
  weights : List (Ieee K)
  bias : Ieee K
  modelName : GoString
  calibrationVersion : GoString
  policyVersion : GoString
  featureVersion : GoString

def orDefault (value default : GoString) : GoString := if value ≠ [] then value else default

variable {K : Type} [LinearOrder K] [Zero K] [One K] [Neg K]

def explanationLess (a b : Explanation K) : Bool :=
  let left := a.impact.abs
  let right := b.impact.abs
  if left.eq right then decide (a.featureIndex < b.featureIndex) else right.lt left

def clipImpact (value : Explanation K) : Explanation K :=
  { value with impact := (Ieee.finite (-1)).max ((Ieee.finite 1).min value.impact) }

def boundedExplanations (sort : SliceSort K) (values : List (Explanation K)) : List (Explanation K) :=
  ((sort explanationLess values).take maxExplanations).map clipImpact

variable (ops : Rounding K)

def CPUScorer.products (s : CPUScorer K) (r : Request K) : List (Ieee K) :=
  List.zipWith ops.mul r.features s.weights

def CPUScorer.contributions (s : CPUScorer K) (r : Request K) : List (Explanation K) :=
  (s.products ops r).zipIdx.map fun (contribution, j) => ⟨j, contribution⟩

def CPUScorer.score (s : CPUScorer K) (r : Request K) : Ieee K :=
  let z := (s.products ops r).foldl ops.add s.bias
  let z := ops.add z (ops.mul (ops.literal (1 / 10000)) r.transactionAmount)
  ops.div (ops.literal 1) (ops.add (ops.literal 1) (ops.exp (ops.neg z)))

def CPUScorer.result (sort : SliceSort K) (s : CPUScorer K) (r : Request K) : Result K :=
  let score := s.score ops r
  { score
    confidence := ops.mul (ops.sub score (ops.literal (1 / 2))).abs (ops.literal 2)
    explanation := boundedExplanations sort (s.contributions ops r)
    model := orDefault s.modelName (ascii "deterministic-cpu-v1")
    calibrationVersion := orDefault s.calibrationVersion (ascii "sigmoid-v1")
    policyVersion := orDefault s.policyVersion (ascii "fraud-threshold-v1")
    featureVersion := orDefault s.featureVersion (ascii "rolling-features-v1-32")
    fallback := false
    fallbackReason := [] }

/-- `Infer`; `ctxErr i` is the error of the context when request `i` is reached. -/
def CPUScorer.infer (sort : SliceSort K) (s : CPUScorer K) (ctxErr : Nat → Option GoError)
    (requests : List (Request K)) : Except GoError (List (Result K)) := do
  if s.weights.length = 0 then throw ⟨"scorer has no weights"⟩
  match validateRequests requests true with
  | some err => throw err
  | none =>
    requests.zipIdx.mapM fun (r, i) => do
      match ctxErr i with
      | some err => throw err
      | none =>
        if r.features.length ≠ s.weights.length then throw ⟨"feature width mismatch"⟩
        return s.result ops sort r

def defaultCPUScorer : CPUScorer K where
  weights := [ops.literal (12 / 10), ops.literal (8 / 10), ops.literal (11 / 10)] ++ List.replicate 29 (.finite 0)
  bias := ops.literal (-1)
  modelName := []
  calibrationVersion := []
  policyVersion := []
  featureVersion := []

end FraudDetection.Worker
