import FraudDetection.GoStrings
import FraudDetection.Library.Ieee

/-!
# The inference workers

The request and result types of `serving_plane/worker/worker.go` with their validators, and the
client of `grpc.go` up to the remote call and from its response. The remote worker is a function
of the outgoing call; `WorkerTransport` has the protobuf messages and the other end of the wire.
-/

namespace FraudDetection.Worker
open FraudDetection.Library

structure Request (K : Type) where
  features : List (Ieee K)
  transactionAmount : Ieee K
  deriving DecidableEq, Repr

structure Explanation (K : Type) where
  featureIndex : Int
  impact : Ieee K
  deriving DecidableEq, Repr

structure Result (K : Type) where
  score : Ieee K
  confidence : Ieee K
  explanation : List (Explanation K)
  model : GoString
  calibrationVersion : GoString
  policyVersion : GoString
  featureVersion : GoString
  fallback : Bool
  fallbackReason : GoString
  deriving DecidableEq, Repr

def maxBatchSize : Nat := 64
def maxFeatureWidth : Nat := 256
def maxExplanations : Nat := 3

def fallbackFeatureUnavailable : GoString := ascii "feature_unavailable"
def fallbackQueueDeadline : GoString := ascii "queue_deadline"
def fallbackWorkerUnavailable : GoString := ascii "worker_unavailable"

variable {K : Type} [LinearOrder K] [Zero K] [One K] [Neg K]

def nonFinite (value : Ieee K) : Bool := value.isNaN || value.isInf

def validateRequest (i : Nat) (request : Request K) : Option GoError :=
  if request.features.length = 0 ∨ maxFeatureWidth < request.features.length then
    some ⟨s!"request {i} feature width must be between 1 and {maxFeatureWidth}"⟩
  else if request.transactionAmount.lt (.finite 0) || nonFinite request.transactionAmount then
    some ⟨s!"request {i} has invalid transaction amount"⟩
  else if request.features.any nonFinite then some ⟨s!"request {i} contains a non-finite feature"⟩
  else none

def validateRequests (requests : List (Request K)) (allowEmpty : Bool) : Option GoError :=
  if (!allowEmpty && requests.length == 0) || decide (maxBatchSize < requests.length) then
    some ⟨s!"batch size must be between 1 and {maxBatchSize}"⟩
  else requests.zipIdx.findSome? fun (request, i) => validateRequest i request

def validVersion (value : GoString) : Bool :=
  value ≠ [] && value.length ≤ 64 && validString value && noControl value

def validFallbackReason (value : GoString) : Bool :=
  value = [] || value = fallbackFeatureUnavailable || value = fallbackQueueDeadline ||
    value = fallbackWorkerUnavailable

def inRange (lo hi : K) (value : Ieee K) : Bool :=
  !(value.lt (.finite lo) || (Ieee.finite hi).lt value || nonFinite value)

def validExplanation (detail : Explanation K) : Bool :=
  0 ≤ detail.featureIndex && detail.featureIndex < maxFeatureWidth && inRange (-1) 1 detail.impact

def validateResult (i : Nat) (result : Result K) : Option GoError :=
  if !inRange 0 1 result.score then some ⟨s!"result {i} has invalid score"⟩
  else if !inRange 0 1 result.confidence then some ⟨s!"result {i} has invalid confidence"⟩
  else if maxExplanations < result.explanation.length then some ⟨s!"result {i} has too many explanations"⟩
  else if !result.explanation.all validExplanation then some ⟨s!"result {i} has invalid explanation"⟩
  else if !(validVersion result.model && validVersion result.calibrationVersion &&
      validVersion result.policyVersion && validVersion result.featureVersion) then
    some ⟨s!"result {i} has invalid version metadata"⟩
  else if result.fallback ≠ decide (result.fallbackReason ≠ []) ∨
      !validFallbackReason result.fallbackReason then
    some ⟨s!"result {i} has invalid fallback reason"⟩
  else none

def validateResults (results : List (Result K)) (expected : Nat) : Option GoError :=
  if results.length ≠ expected then some ⟨"inference result count mismatch"⟩
  else results.zipIdx.findSome? fun (result, i) => validateResult i result

structure RequestMetadata where
  requestID : GoString
  authorization : GoString
  deriving DecidableEq, Repr

/-- The parts of a `context.Context` that reach the remote call. -/
structure Context where
  requestMetadata : Option RequestMetadata
  outgoing : List (GoString × GoString)
  deadline : Option Int
  deriving DecidableEq, Repr

def Context.background : Context := ⟨none, [], none⟩

def Context.withoutCancel (ctx : Context) : Context := { ctx with deadline := none }

/-- `context.WithDeadline` never extends the deadline of its parent. -/
def Context.withDeadline (ctx : Context) (t : Int) : Context :=
  { ctx with deadline := some (match ctx.deadline with
      | some cur => if cur < t then cur else t
      | none => t) }

def Context.withRequestMetadata (ctx : Context) (requestID authorization : GoString) : Context :=
  { ctx with requestMetadata := some ⟨requestID, authorization⟩ }

def Context.appendToOutgoing (ctx : Context) (key value : GoString) : Context :=
  { ctx with outgoing := ctx.outgoing ++ [(key, value)] }

/-- A `GRPCClient`; `connected` is false for a client that is nil or has no connection. -/
structure GRPCClient where
  connected : Bool
  authToken : GoString

structure ScoreCall (K : Type) where
  context : Context
  requests : List (Request K)

def headerRequestID : GoString := ascii "x-request-id"
def headerAuthorization : GoString := ascii "authorization"
def bearer : GoString := ascii "Bearer "

/-- The context of the remote call, with the identity of the caller in its outgoing metadata. -/
def GRPCClient.outgoingContext (c : GRPCClient) (ctx : Context) : Context :=
  let ctx := match ctx.requestMetadata with
    | none => ctx
    | some value =>
      let ctx := if value.requestID ≠ [] then ctx.appendToOutgoing headerRequestID value.requestID else ctx
      if c.authToken = [] ∧ value.authorization ≠ [] then
        ctx.appendToOutgoing headerAuthorization value.authorization
      else ctx
  if c.authToken ≠ [] then ctx.appendToOutgoing headerAuthorization (bearer ++ c.authToken) else ctx

def GRPCClient.prepare (c : GRPCClient) (ctx : Context) (requests : List (Request K)) :
    Except GoError (ScoreCall K) :=
  if !c.connected then .error ⟨"worker client is closed"⟩
  else match validateRequests requests false with
    | some err => .error err
    | none => .ok ⟨c.outgoingContext ctx, requests⟩

def GRPCClient.infer (c : GRPCClient) (remote : ScoreCall K → Except GoError (List (Result K)))
    (ctx : Context) (requests : List (Request K)) : Except GoError (List (Result K)) := do
  let call ← c.prepare ctx requests
  let results ← remote call
  match validateResults results requests.length with
  | some err => throw err
  | none => return results

def ScoreCall.header (call : ScoreCall K) (key : GoString) : GoString :=
  (call.context.outgoing.lookup key).getD []

end FraudDetection.Worker
