import Mathlib.Algebra.Order.Field.Basic
import FraudDetection.Scheduler
import FraudDetection.Worker

/-!
# The HTTP gateway

`serving_plane/gateway/gateway.go`: the request path of `POST /v1/score` and the handler that
`New` gives to the scheduler. The feature store, the scheduler and the inference engine enter as
the outcomes of their calls. JSON decoding is an input; counters and logging are left out.
-/

namespace FraudDetection.HttpGateway
open FraudDetection.Library
open FraudDetection.Worker

/-- The configuration after the defaults of `New`. The threshold is a number. -/
structure Config (K : Type) where
  authToken : GoString
  timeout : Int
  featureTimeout : Int
  queueDelay : Int
  inferenceTimeout : Int
  denyScore : K
  queueDelay_pos : 0 < queueDelay

variable {K : Type} [Field K] [LinearOrder K]

def Config.new (authToken : GoString) (timeout featureTimeout queueDelay inferenceTimeout : Int)
    (denyScore : K) : Config K where
  authToken := authToken
  timeout := if timeout ≤ 0 then 40000000 else timeout
  featureTimeout := if featureTimeout ≤ 0 then 10000000 else featureTimeout
  queueDelay := if queueDelay ≤ 0 then 2000000 else queueDelay
  inferenceTimeout := if inferenceTimeout ≤ 0 then 20000000 else inferenceTimeout
  denyScore := if denyScore ≤ 0 then 1 / 2 else denyScore
  queueDelay_pos := by split <;> omega

def Config.scheduler (cfg : Config K) : Scheduler.Config :=
  ⟨256, 32, cfg.queueDelay, by decide, by decide, cfg.queueDelay_pos⟩

structure ScoreRequest (K : Type) where
  entityID : GoString
  amount : Ieee K
  deriving DecidableEq, Repr

/-- A request after the request-id middleware: its `Authorization` header, its id, and its body if
that is one JSON object of the expected shape. -/
structure HttpRequest (K : Type) where
  authorization : GoString
  requestID : GoString
  body : Option (ScoreRequest K)

inductive Decision where
  | allow
  | deny
  deriving DecidableEq, Repr

structure ScoreResponse (K : Type) where
  requestID : GoString
  score : Ieee K
  confidence : Ieee K
  decision : Decision
  explanation : List (Explanation K)
  model : GoString
  calibrationVersion : GoString
  policyVersion : GoString
  featureVersion : GoString
  fallback : Bool
  fallbackReason : GoString
  deriving DecidableEq, Repr

inductive Body (K : Type) where
  | error (text : String)
  | score (response : ScoreResponse K)
  deriving DecidableEq, Repr

structure HttpResponse (K : Type) where
  status : Nat
  body : Body K
  deriving DecidableEq, Repr

/-- `authorized`, with the constant-time comparison as equality. -/
def authorized (cfg : Config K) (r : HttpRequest K) : Bool :=
  cfg.authToken = [] || r.authorization = bearer ++ cfg.authToken

def validRequestID (value : GoString) : Bool :=
  value.length ≠ 0 && value.length ≤ 128 && value.all fun b => 0x21 ≤ b && b ≤ 0x7E

def requestID (header fresh : GoString) : GoString :=
  if validRequestID header then header else fresh

def validEntityID (value : GoString) : Bool :=
  value ≠ [] && value.length ≤ 256 && validString value && trimmed value && noControl value

def scoreContext (cfg : Config K) (r : HttpRequest K) (now : Int) (base : Context) : Context :=
  (base.withDeadline (now + cfg.timeout)).withRequestMetadata r.requestID r.authorization

def checkRequest (cfg : Config K) (r : HttpRequest K) : Except (HttpResponse K) (ScoreRequest K) :=
  if !authorized cfg r then .error ⟨401, .error "unauthorized"⟩
  else match r.body with
    | none => .error ⟨400, .error "invalid request"⟩
    | some input =>
      if !validEntityID input.entityID || input.amount.lt (.finite 0) then
        .error ⟨400, .error "invalid request"⟩
      else .ok input

def respondFallback (r : HttpRequest K) (reason : GoString) : HttpResponse K where
  status := 503
  body := .score {
    requestID := r.requestID
    score := .finite 1
    confidence := .finite 1
    decision := .deny
    explanation := []
    model := ascii "fail-closed"
    calibrationVersion := ascii "unavailable"
    policyVersion := ascii "fail-closed-v1"
    featureVersion := ascii "rolling-features-v1-32"
    fallback := true
    fallbackReason := reason }

variable {ε : Type}

/-- `errors.Is(err, scheduler.ErrQueueDelay) || errors.Is(err, scheduler.ErrFull)`; an error of the
engine may wrap one of the two. -/
def isQueueError (wraps : ε → Bool) : Scheduler.Error ε → Bool
  | .queueDelay | .full => true
  | .handler err => wraps err
  | .closed | .context _ | .resultCount => false

def respondError (wraps : ε → Bool) (r : HttpRequest K) (err : Scheduler.Error ε) : HttpResponse K :=
  respondFallback r (if isQueueError wraps err then fallbackQueueDeadline else fallbackWorkerUnavailable)

def respondResult (cfg : Config K) (r : HttpRequest K) (result : Result K) : HttpResponse K where
  status := 200
  body := .score {
    requestID := r.requestID
    score := result.score
    confidence := result.confidence
    decision := if (Ieee.finite cfg.denyScore).le result.score then .deny else .allow
    explanation := result.explanation
    model := result.model
    calibrationVersion := result.calibrationVersion
    policyVersion := result.policyVersion
    featureVersion := result.featureVersion
    fallback := result.fallback
    fallbackReason := result.fallbackReason }

/-- `score` over any feature store and any `Submit`. In the identity monad they answer at once. -/
def score {m : Type → Type} [Monad m] {δ : Type} (cfg : Config K) (wraps : ε → Bool)
    (get : GoString → m (Except δ (List (Ieee K)))) (submit : Request K → m (Except (Scheduler.Error ε) (Result K)))
    (r : HttpRequest K) : m (HttpResponse K) :=
  match checkRequest cfg r with
  | .error response => pure response
  | .ok input => do
    match ← get input.entityID with
    | .error _ => pure (respondFallback r fallbackFeatureUnavailable)
    | .ok features =>
      match ← submit ⟨features, input.amount⟩ with
      | .error err => pure (respondError wraps r err)
      | .ok result => pure (respondResult cfg r result)

/-- The context of a handler invocation: the values of the first caller's context, with the
deadline that `dispatch` computed. -/
def batchContext {T : Type} (contexts : Scheduler.CallId → Context) (invocation : Scheduler.Invocation T) :
    Context :=
  let ctx := match invocation.active with
    | it :: _ => (contexts it).withoutCancel
    | [] => Context.background
  match invocation.deadline with
  | some t => ctx.withDeadline t
  | none => ctx

def handlerContext (cfg : Config K) (now : Int) (ctx : Context) : Context :=
  ctx.withDeadline (now + cfg.inferenceTimeout)

end FraudDetection.HttpGateway
