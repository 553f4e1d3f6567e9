import FraudDetection.CpuScorer
import FraudDetection.HttpGateway
import FraudDetection.Library.Interaction
import FraudDetection.WorkerPool
import FraudDetection.WorkerTransport

/-!
# The serving plane

The processes of `serving_plane/cmd/gateway` and `serving_plane/cmd/worker` put together: `score` runs
for each HTTP request and makes its calls of the feature store and of `Submit`, the handler that
`gateway.New` gives to the scheduler calls `Infer` of the worker pool, and the pool calls the workers
over gRPC. Every worker process runs `DefaultCPUScorer`; `measuredEngine` around it counts and changes
nothing. The feature store, the clock, the network and the ends of contexts belong to the environment.
-/

namespace FraudDetection.ServingPlane
open FraudDetection.Library
open FraudDetection.Worker
open FraudDetection.Scheduler (CallId ContextError)
open FraudDetection.WorkerPool (Pool AttemptContext CallPC)

/-- A gateway with its workers and the requests that come to it. `get` is what the feature store, as it
stands at a lookup, answers for an entity. Request `c` arrives at `arrival c`; `value c` is what it
submits in the runs that are looked at, if it comes to that. `wraps` is what `errors.Is` says of an error
of the engine against the sentinels of the scheduler. -/
structure Plane (K ς δ : Type) where
  cfg : HttpGateway.Config K
  pool : Pool
  client : Nat → GRPCClient
  authToken : Nat → GoString
  ops : Rounding K
  sort : SliceSort K
  wraps : GoError → Bool
  requests : CallId → HttpGateway.HttpRequest K
  arrival : CallId → Int
  value : CallId → Request K
  get : ς → GoString → Except δ (List (Ieee K))
  probeDeadline : CallId → Option Int

variable {K ς δ : Type} [Field K] [LinearOrder K]

section requests

inductive ScoreCall (K : Type) where
  | get (entityID : GoString)
  | submit (request : Request K)

abbrev ScoreAnswer (K δ : Type) : ScoreCall K → Type
  | .get _ => Except δ (List (Ieee K))
  | .submit _ => Except (Scheduler.Error GoError) (Result K)

abbrev ScoreProgram (K δ : Type) := Prog (ScoreCall K) (ScoreAnswer K δ) (HttpGateway.HttpResponse K)

variable (p : Plane K ς δ)

def Plane.score (c : CallId) : ScoreProgram K δ :=
  HttpGateway.score (m := Prog (ScoreCall K) (ScoreAnswer K δ)) p.cfg p.wraps
    (fun entityID => Prog.request (ScoreCall.get entityID)) (fun request => Prog.request (ScoreCall.submit request))
    (p.requests c)

def Plane.callerContext (c : CallId) : Context :=
  HttpGateway.scoreContext p.cfg (p.requests c) (p.arrival c) Context.background

def Plane.workload : Scheduler.Workload (Request K) where
  ctx c := c
  value := p.value
  deadline c := (p.callerContext c).deadline

end requests

section workers

def engineError (err : GoError) : EngineError :=
  ⟨err = ⟨"context canceled"⟩, err = ⟨"context deadline exceeded"⟩⟩

/-- How a remote call ends: without an answer, or with one. `ctxErr i` is the error of the worker's
context at request `i` of the batch, and `startedAt` the clock when the attempt's context was made. -/
inductive Delivery where
  | lost (err : GoError)
  | served (startedAt : Int) (ctxErr : Nat → Option GoError)

variable (p : Plane K ς δ)

def Plane.service (i : Nat) (ctxErr : Nat → Option GoError) : Service K where
  engine := some fun _ requests =>
    ((defaultCPUScorer p.ops).infer p.ops p.sort ctxErr requests).mapError engineError
  authToken := p.authToken i

def Plane.answer (i : Nat) (ctx : Context) (attempt : AttemptContext) (requests : List (Request K)) :
    Delivery → Except GoError (List (Result K))
  | .lost err => .error err
  | .served startedAt ctxErr =>
    (p.client i).inferOver (p.service i ctxErr).wire (attempt.context ctx startedAt) requests

end workers

/-- Where `score` is on a request; `submitted` waits for `Submit` to return. -/
inductive ScorePC (K δ : Type) where
  | absent
  | running (program : ScoreProgram K δ)
  | submitted (resume : Except (Scheduler.Error GoError) (Result K) → ScoreProgram K δ)

structure State (K δ : Type) where
  scores : CallId → ScorePC K δ
  scheduler : Scheduler.State (Request K) (Result K) GoError
  pool : WorkerPool.State K
  contexts : Nat → Context

def State.initial (now : Int) : State K δ :=
  ⟨fun _ => .absent, .initial now, .initial now, fun _ => Context.background⟩

def State.goto (s : State K δ) (c : CallId) (pc : ScorePC K δ) : State K δ :=
  { s with scores := Function.update s.scores c pc }

/-- The call of the pool that the `k`-th invocation of the handler makes. The odd calls are those of
`Healthy`, which `readyz` makes. -/
def poolCall (k : Nat) : CallId := 2 * k

/-- A lookup meets the feature store in the state `store`. -/
inductive Action (K ς : Type) where
  | tick (elapsed : Nat)
  | arrive (c : CallId)
  | lookup (c : CallId) (store : ς)
  | submit (c : CallId)
  | finish (c : CallId)
  | scheduler (a : Scheduler.Action (Result K) GoError)
  | infer
  | reachDeadline (k : Nat)
  | pool (a : WorkerPool.Action K)
  | answer (k : Nat) (delivery : Delivery)
  | handlerReturns

section steps

variable (p : Plane K ς δ)

def schedulerOwn : Scheduler.Action (Result K) GoError → Bool
  | .tick _ | .submit _ | .handlerReturns _ _ => false
  | .cancel _ | .reachDeadline _ | .submitStep _ _ | .runStep _ | .close | .closeStep => true

/-- The clock, the calls of `Infer` and the answers to them are not the pool's own, nor are the ends of
the contexts of those calls. -/
def poolOwn : WorkerPool.Action K → Bool
  | .tick _ | .infer _ _ | .inferReturns _ _ => false
  | .healthy c | .endContext c _ => c % 2 = 1
  | .callStep _ | .probeReturns _ _ => true

def Plane.poolDeadline (s : State K δ) (c : CallId) : Option Int :=
  if c % 2 = 0 then (s.contexts (c / 2)).deadline else p.probeDeadline c

def Plane.stepScheduler (s : State K δ) (a : Scheduler.Action (Result K) GoError) : Option (State K δ) :=
  (Scheduler.step p.cfg.scheduler p.workload s.scheduler a).map fun scheduler => { s with scheduler := scheduler }

def Plane.stepPool (s : State K δ) (a : WorkerPool.Action K) : Option (State K δ) :=
  (WorkerPool.step p.pool (p.poolDeadline s) s.pool a).map fun pool => { s with pool := pool }

def State.current (s : State K δ) : Nat := s.scheduler.invocations.length - 1

def Plane.infer (s : State K δ) : Option (State K δ) :=
  match s.scheduler.run, s.scheduler.invocations.getLast? with
  | .handling _ _, some invocation =>
    let ctx := HttpGateway.handlerContext p.cfg s.pool.now (HttpGateway.batchContext p.callerContext invocation)
    p.stepPool { s with contexts := Function.update s.contexts s.current ctx }
      (.infer (poolCall s.current) invocation.values)
  | _, _ => none

def Plane.handlerReturns (s : State K δ) : Option (State K δ) :=
  match s.pool.calls (poolCall s.current) with
  | .inferred (.ok results) => p.stepScheduler s (.handlerReturns results none)
  | .inferred (.error err) => p.stepScheduler s (.handlerReturns [] (some err))
  | _ => none

def Plane.arrive (s : State K δ) (c : CallId) : Option (State K δ) :=
  match s.scores c with
  | .absent => if s.pool.now = p.arrival c then some (s.goto c (.running (p.score c))) else none
  | _ => none

def Plane.lookup (s : State K δ) (c : CallId) (store : ς) : Option (State K δ) :=
  match s.scores c with
  | .running (.call (.get entityID) resume) => some (s.goto c (.running (resume (p.get store entityID))))
  | _ => none

/-- `score` calls `Submit`, which takes its steps as call `c` of the scheduler. -/
def Plane.submit (s : State K δ) (c : CallId) : Option (State K δ) :=
  match s.scores c with
  | .running (.call (.submit request) resume) =>
    if request = p.value c then p.stepScheduler (s.goto c (.submitted resume)) (.submit c) else none
  | _ => none

def finish (s : State K δ) (c : CallId) : Option (State K δ) :=
  match s.scores c, s.scheduler.calls c with
  | .submitted resume, .returned reply _ => some (s.goto c (.running (resume reply)))
  | _, _ => none

def Plane.step (s : State K δ) : Action K ς → Option (State K δ)
  | .tick elapsed => (p.stepScheduler s (.tick elapsed)).bind fun s => p.stepPool s (.tick elapsed)
  | .arrive c => p.arrive s c
  | .lookup c store => p.lookup s c store
  | .submit c => p.submit s c
  | .finish c => finish s c
  | .scheduler a => if schedulerOwn a then p.stepScheduler s a else none
  | .infer => p.infer s
  | .reachDeadline k =>
    match (s.contexts k).deadline with
    | some t => if t ≤ s.pool.now then p.stepPool s (.endContext (poolCall k) .deadlineExceeded) else none
    | none => none
  | .pool a => if poolOwn a then p.stepPool s a else none
  | .answer k delivery =>
    match s.pool.calls (poolCall k) with
    | .inferring a attempt =>
      p.stepPool s (.inferReturns (poolCall k)
        (p.answer (a.worker p.pool) (s.contexts k) attempt a.requests delivery))
    | _ => none
  | .handlerReturns => p.handlerReturns s

def State.response (s : State K δ) (c : CallId) : Option (HttpGateway.HttpResponse K) :=
  match s.scores c with
  | .running (.pure response) => some response
  | _ => none

end steps

end FraudDetection.ServingPlane
