import FraudDetection.HttpGateway
import FraudDetection.Library.Threads

/-!
# The metrics of the HTTP gateway

The counters of `gateway.go`: where `score` raises them, and the loads of `GET /metrics`. Every atomic
operation is a step, so that any number of requests and scrapes interleave. What a request's checks
and its dependencies decide is a choice of its steps. The counters of requests are natural numbers:
they wrap after 2^64 requests only. The metrics of the scheduler, which a scrape shows after these,
are left out.
-/

namespace FraudDetection.HttpGateway
open FraudDetection.Library
open FraudDetection.Worker

section fallbacks

inductive FallbackReason where
  | featureUnavailable
  | queueDeadline
  | workerUnavailable
  deriving DecidableEq, Repr

def FallbackReason.name : FallbackReason → GoString
  | .featureUnavailable => fallbackFeatureUnavailable
  | .queueDeadline => fallbackQueueDeadline
  | .workerUnavailable => fallbackWorkerUnavailable

variable {K : Type} [Field K] [LinearOrder K] {ε δ : Type}

/-- The fallback that `score` takes after its checks, if it takes one. -/
def servedFallback (cfg : Config K) (wraps : ε → Bool) (get : GoString → Except δ (List (Ieee K)))
    (submit : Request K → Except (Scheduler.Error ε) (Result K)) (r : HttpRequest K) : Option FallbackReason :=
  match checkRequest cfg r with
  | .error _ => none
  | .ok input =>
    match get input.entityID with
    | .error _ => some .featureUnavailable
    | .ok features =>
      match submit ⟨features, input.amount⟩ with
      | .error err => some (if isQueueError wraps err then .queueDeadline else .workerUnavailable)
      | .ok _ => none

end fallbacks

section counters

inductive Counter where
  | requests
  | denied
  | failures
  | fallback (reason : FallbackReason)
  | requestNanos
  | requestBucket (i : Fin 7)
  deriving DecidableEq, Repr

abbrev Counters := Counter → Nat

def Counters.bump (counters : Counters) (c : Counter) : Counters := Function.update counters c (counters c + 1)

/-- `requestNanos.Add(uint64(duration))`. -/
def Counters.addNanos (counters : Counters) (duration : Int) : Counters :=
  Function.update counters .requestNanos
    ((counters .requestNanos + (BitVec.ofInt 64 duration).toNat) % 18446744073709551616)

def requestDurationBounds : List Int := [100000, 500000, 1000000, 5000000, 10000000, 40000000]

def inBucket (duration : Int) (i : Fin 7) : Bool :=
  match requestDurationBounds[i.val]? with
  | some bound => duration ≤ bound
  | none => true

end counters

section requests

/-- Where a request is in `score`. In `observing` it has dealt with a number of the buckets, and is over
when it has dealt with all. -/
inductive RequestPC where
  | waiting
  | denied
  | serving
  | failing (reason : FallbackReason)
  | leaving (fallback : Option FallbackReason)
  | observing (fallback : Option FallbackReason) (duration : Int) (dealt : Nat)
  deriving DecidableEq, Repr

inductive RequestChoice where
  | arrive (authorized : Bool)
  | serve (fallback : Option FallbackReason)
  | proceed
  | elapse (duration : Int)

/-- A step of `score` up to and including one operation on a counter. -/
def scoreStep (pc : RequestPC) (counters : Counters) (choice : RequestChoice) : Option (RequestPC × Counters × Unit) :=
  match pc, choice with
  | .waiting, .arrive false => some (.denied, counters.bump .denied, ())
  | .waiting, .arrive true => some (.serving, counters.bump .requests, ())
  | .serving, .serve none => some (.leaving none, counters, ())
  | .serving, .serve (some reason) => some (.failing reason, counters.bump .failures, ())
  | .failing reason, .proceed => some (.leaving (some reason), counters.bump (.fallback reason), ())
  | .leaving fallback, .elapse duration => some (.observing fallback duration 0, counters.addNanos duration, ())
  | .observing fallback duration dealt, .proceed =>
    if h : dealt < 7 then
      some (.observing fallback duration (dealt + 1),
        if inBucket duration ⟨dealt, h⟩ then counters.bump (.requestBucket ⟨dealt, h⟩) else counters, ())
    else none
  | _, _ => none

end requests

section scrapes

structure MetricLine where
  name : String
  label : Option (String × GoString)
  counter : Counter

def fallbackLine (reason : FallbackReason) : MetricLine :=
  ⟨"fraud_gateway_fallback_total", some ("reason", reason.name), .fallback reason⟩

def bucketLine (le : String) (i : Fin 7) : MetricLine :=
  ⟨"fraud_gateway_request_duration_seconds_bucket", some ("le", ascii le), .requestBucket i⟩

/-- The lines of `metrics` about the gateway, in the order of their loads. The sum is shown in
seconds. -/
def metricLines : List MetricLine :=
  [⟨"fraud_gateway_requests_total", none, .requests⟩,
    ⟨"fraud_gateway_auth_denied_total", none, .denied⟩,
    fallbackLine .featureUnavailable,
    fallbackLine .queueDeadline,
    fallbackLine .workerUnavailable,
    ⟨"fraud_gateway_fail_closed_total", none, .failures⟩,
    bucketLine "0.0001" 0,
    bucketLine "0.0005" 1,
    bucketLine "0.001" 2,
    bucketLine "0.005" 3,
    bucketLine "0.01" 4,
    bucketLine "0.04" 5,
    bucketLine "+Inf" 6,
    ⟨"fraud_gateway_request_duration_seconds_sum", none, .requestNanos⟩,
    ⟨"fraud_gateway_request_duration_seconds_count", none, .requests⟩]

def metricsStep (reads : List Nat) (counters : Counters) : Option (List Nat × Counters × Unit) :=
  metricLines[reads.length]?.map fun line => (reads ++ [counters line.counter], counters, ())

structure Scrape where
  requests : Nat
  denied : Nat
  fallbacks : FallbackReason → Nat
  failClosed : Nat
  buckets : Fin 7 → Nat
  nanos : Nat
  count : Nat

def FallbackReason.line : FallbackReason → Nat
  | .featureUnavailable => 2
  | .queueDeadline => 3
  | .workerUnavailable => 4

def Scrape.ofReads (reads : List Nat) : Scrape where
  requests := reads.getD 0 0
  denied := reads.getD 1 0
  fallbacks reason := reads.getD reason.line 0
  failClosed := reads.getD 5 0
  buckets i := reads.getD (6 + i.val) 0
  nanos := reads.getD 13 0
  count := reads.getD 14 0

end scrapes

section system

inductive Party where
  | score (request : Nat)
  | metrics (scrape : Nat)
  deriving DecidableEq

abbrev Local : Party → Type
  | .score _ => RequestPC
  | .metrics _ => List Nat

abbrev Choice : Party → Type
  | .score _ => RequestChoice
  | .metrics _ => Unit

def gatewayProgram : Program Local Choice Counters Unit
  | .score _, pc, counters, choice => scoreStep pc counters choice
  | .metrics _, reads, counters, () => metricsStep reads counters

abbrev GatewaySystem := Threads Local Counters

def GatewaySystem.initial : GatewaySystem where
  shared _ := 0
  locals
    | .score _ => RequestPC.waiting
    | .metrics _ => []

def GatewaySystem.places (s : GatewaySystem) (request : Nat) : RequestPC := s.locals (.score request)

def GatewaySystem.reads (s : GatewaySystem) (scrape : Nat) : List Nat := s.locals (.metrics scrape)

/-- The choices that `score` makes on request `r i` when its dependencies answer `get i` and `submit i`. -/
def Settles {K : Type} [Field K] [LinearOrder K] {ε δ : Type} (cfg : Config K) (wraps : ε → Bool)
    (get : Nat → GoString → Except δ (List (Ieee K)))
    (submit : Nat → Request K → Except (Scheduler.Error ε) (Result K)) (r : Nat → HttpRequest K) :
    (t : Party) × Choice t → Prop
  | ⟨.score i, .arrive allowed⟩ => allowed = authorized cfg (r i)
  | ⟨.score i, .serve fallback⟩ => fallback = servedFallback cfg wraps (get i) (submit i) (r i)
  | _ => True

end system

end FraudDetection.HttpGateway
