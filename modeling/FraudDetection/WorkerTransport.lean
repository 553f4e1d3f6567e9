import Mathlib.Algebra.Group.Int.Defs
import FraudDetection.Worker

/-!
# The transport between gateway and worker

The messages of `serving_plane/worker/proto`, the four conversions of `grpc.go`, `Service.Score` on
the side of the worker and `GRPCClient.Infer` over a wire. A pointer that may be nil is an `Option`;
a nil slice is the empty list. The wire takes the context of the call and the message.
-/

namespace FraudDetection.Worker
open FraudDetection.Library

namespace Proto

structure FeatureRequest (K : Type) where
  features : List (Ieee K)
  transactionAmount : Ieee K
  deriving DecidableEq

structure ScoreRequest (K : Type) where
  requests : List (Option (FeatureRequest K))
  deriving DecidableEq

structure Explanation (K : Type) where
  featureIndex : UInt32
  impact : Ieee K
  deriving DecidableEq

structure Score (K : Type) where
  score : Ieee K
  confidence : Ieee K
  explanation : List (Option (Explanation K))
  model : GoString
  calibrationVersion : GoString
  policyVersion : GoString
  featureVersion : GoString
  fallback : Bool
  fallbackReason : GoString
  deriving DecidableEq

structure ScoreResponse (K : Type) where
  results : List (Option (Score K))
  deriving DecidableEq

end Proto

def modelFeatureWidth : Nat := 32

section conversions

variable {K : Type}

def requestToProto (item : Request K) : Proto.FeatureRequest K := ⟨item.features, item.transactionAmount⟩

def requestsToProto (requests : List (Request K)) : Proto.ScoreRequest K :=
  ⟨requests.map fun item => some (requestToProto item)⟩

def toUint32 (value : Int) : UInt32 := UInt32.ofNat (value % 2 ^ 32).toNat

def explanationToProto (item : Explanation K) : Proto.Explanation K := ⟨toUint32 item.featureIndex, item.impact⟩

def resultToProto (result : Result K) : Proto.Score K where
  score := result.score
  confidence := result.confidence
  explanation := result.explanation.map fun item => some (explanationToProto item)
  model := result.model
  calibrationVersion := result.calibrationVersion
  policyVersion := result.policyVersion
  featureVersion := result.featureVersion
  fallback := result.fallback
  fallbackReason := result.fallbackReason

def resultsToProto (results : List (Result K)) : Proto.ScoreResponse K :=
  ⟨results.map fun result => some (resultToProto result)⟩

def explanationFromProto (detail : Proto.Explanation K) : Explanation K :=
  ⟨detail.featureIndex.toNat, detail.impact⟩

def keepExplanation (explanation : List (Explanation K)) (detail : Option (Proto.Explanation K)) :
    List (Explanation K) :=
  match detail with
  | some detail =>
    if explanation.length < maxExplanations then explanation ++ [explanationFromProto detail] else explanation
  | none => explanation

variable [Zero K]

/-- `Result{}`, which stands for a nil entry. -/
def Result.zero : Result K := ⟨.finite 0, .finite 0, [], [], [], [], [], false, []⟩

def resultFromProto (item : Option (Proto.Score K)) : Result K :=
  match item with
  | none => Result.zero
  | some item => {
      score := item.score
      confidence := item.confidence
      explanation := item.explanation.foldl keepExplanation []
      model := item.model
      calibrationVersion := item.calibrationVersion
      policyVersion := item.policyVersion
      featureVersion := item.featureVersion
      fallback := item.fallback
      fallbackReason := item.fallbackReason }

def resultsFromProto (response : Option (Proto.ScoreResponse K)) : List (Result K) :=
  match response with
  | none => []
  | some response => response.results.map resultFromProto

end conversions

section service

variable {K : Type} [LinearOrder K] [Zero K] [One K] [Neg K]

def validateRPCRequests (requests : List (Request K)) : Option GoError :=
  match validateRequests requests false with
  | some err => some err
  | none => requests.zipIdx.findSome? fun (request, i) =>
    if request.features.length ≠ modelFeatureWidth then
      some ⟨s!"request {i} feature width must be exactly {modelFeatureWidth}"⟩
    else none

def requestFromProto (item : Option (Proto.FeatureRequest K)) : Except GoError (Request K) :=
  match item with
  | none => .error ⟨"batch contains an empty request"⟩
  | some item => .ok ⟨item.features, item.transactionAmount⟩

def requestsFromProto (request : Option (Proto.ScoreRequest K)) : Except GoError (List (Request K)) :=
  match request with
  | none => .error ⟨"request is required"⟩
  | some request => do
    let requests ← request.requests.mapM requestFromProto
    match validateRPCRequests requests with
    | some err => throw err
    | none => return requests

inductive Code where
  | canceled
  | invalidArgument
  | deadlineExceeded
  | unauthenticated
  | unavailable
  | internal
  deriving DecidableEq, Repr

def Code.text : Code → String
  | .canceled => "Canceled"
  | .invalidArgument => "InvalidArgument"
  | .deadlineExceeded => "DeadlineExceeded"
  | .unauthenticated => "Unauthenticated"
  | .unavailable => "Unavailable"
  | .internal => "Internal"

structure Status where
  code : Code
  message : String
  deriving DecidableEq, Repr

def Status.error (status : Status) : GoError := ⟨s!"rpc error: code = {status.code.text} desc = {status.message}"⟩

/-- An error of an engine, with what `errors.Is` says about it. -/
structure EngineError where
  canceled : Bool
  deadlineExceeded : Bool
  deriving DecidableEq, Repr

def contextStatus (err : EngineError) (fallback : String) : Status :=
  if err.canceled then ⟨.canceled, "inference canceled"⟩
  else if err.deadlineExceeded then ⟨.deadlineExceeded, "inference deadline exceeded"⟩
  else ⟨.internal, fallback⟩

structure ServerContext where
  incoming : List (GoString × GoString)
  deadline : Option Int
  deriving DecidableEq, Repr

def metadataValues (pairs : List (GoString × GoString)) (key : GoString) : List GoString :=
  (pairs.filter fun pair => pair.1 = key).map Prod.snd

abbrev Engine (K : Type) := ServerContext → List (Request K) → Except EngineError (List (Result K))

structure Service (K : Type) where
  engine : Option (Engine K)
  authToken : GoString

/-- `Score` up to the call of the engine: the engine and the requests it is handed. -/
def Service.accept (s : Service K) (ctx : ServerContext) (request : Option (Proto.ScoreRequest K)) :
    Except Status (Engine K × List (Request K)) :=
  match s.engine with
  | none => .error ⟨.unavailable, "worker unavailable"⟩
  | some engine =>
    if s.authToken ≠ [] ∧ metadataValues ctx.incoming headerAuthorization ≠ [bearer ++ s.authToken] then
      .error ⟨.unauthenticated, "unauthorized"⟩
    else match requestsFromProto request with
      | .error err => .error ⟨.invalidArgument, err.text⟩
      | .ok requests => .ok (engine, requests)

def Service.score (s : Service K) (ctx : ServerContext) (request : Option (Proto.ScoreRequest K)) :
    Except Status (Proto.ScoreResponse K) :=
  match s.accept ctx request with
  | .error status => .error status
  | .ok (engine, requests) => match engine ctx requests with
    | .error err => .error (contextStatus err "inference failed")
    | .ok results => match validateResults results requests.length with
      | some _ => .error ⟨.internal, "invalid inference result"⟩
      | none => .ok (resultsToProto results)

abbrev Wire (K : Type) := Context → Proto.ScoreRequest K → Except GoError (Option (Proto.ScoreResponse K))

def GRPCClient.inferOver (c : GRPCClient) (wire : Wire K) (ctx : Context) (requests : List (Request K)) :
    Except GoError (List (Result K)) :=
  c.infer (fun call => (wire call.context (requestsToProto call.requests)).map resultsFromProto) ctx requests

def Context.arrived (ctx : Context) : ServerContext := ⟨ctx.outgoing, ctx.deadline⟩

/-- A wire that loses nothing between the client and a service. -/
def Service.wire (s : Service K) : Wire K := fun ctx message =>
  match s.score ctx.arrived (some message) with
  | .error status => .error status.error
  | .ok response => .ok (some response)

end service

end FraudDetection.Worker
