import Mathlib.Algebra.Group.Int.Defs
import Mathlib.Algebra.Group.Nat.Defs
import FraudDetection.Scheduler
import FraudDetection.Worker

/-!
# The worker pool

`Pool` of `serving_plane/worker/worker.go` with any number of calls of `Infer` and `Healthy` in
flight. A step of a call is one section under the mutex, one reading of the clock or one of the
caller's context. What a worker answers and when, the clock and the ends of the contexts belong to
the environment.
-/

namespace FraudDetection.WorkerPool
open FraudDetection.Scheduler (CallId ContextError)
open FraudDetection.Worker

variable {K : Type}

structure Pool where
  workers : Nat
  probeEvery : Int
  workers_pos : 0 < workers
  probeEvery_pos : 0 < probeEvery

def second : Int := 1000000000
def millisecond : Int := 1000000

def newPool (workers : Nat) (probeEvery : Int) : Except GoError Pool :=
  if h : workers = 0 then .error ⟨"empty worker pool"⟩
  else if hp : probeEvery ≤ 0 then .ok ⟨workers, second, Nat.pos_of_ne_zero h, by decide⟩
  else .ok ⟨workers, probeEvery, Nat.pos_of_ne_zero h, not_le.mp hp⟩

/-- Every pool is one that `NewPool` returns. -/
lemma newPool_eq_ok (pool : Pool) : newPool pool.workers pool.probeEvery = .ok pool := by
  unfold newPool
  rw [dif_neg pool.workers_pos.ne', dif_neg pool.probeEvery_pos.not_ge]

/-- The context of one attempt: the caller's context, with a timeout of its own unless no time is
left. -/
inductive AttemptContext where
  | withCancel
  | withTimeout (budget : Int)
  deriving DecidableEq, Repr

/-- `time.Until`, which saturates at the ends of a `time.Duration`. -/
def timeUntil (deadline now : Int) : Int := max (-2 ^ 63) (min (2 ^ 63 - 1) (deadline - now))

def attemptContext (deadline : Option Int) (now remaining : Int) : AttemptContext :=
  let remaining := if remaining < 1 then 1 else remaining
  match deadline with
  | some t =>
    let budget := (timeUntil t now).tdiv remaining
    if budget ≤ 0 then .withCancel else .withTimeout budget
  | none => .withTimeout (100 * millisecond)

/-- The context under which a worker is called: `context.WithTimeout` reads the clock once more. -/
def AttemptContext.context (ctx : Context) (now : Int) : AttemptContext → Context
  | .withCancel => ctx
  | .withTimeout budget => ctx.withDeadline (now + budget)

structure Attempts (K : Type) where
  requests : List (Request K)
  start : Nat
  offset : Nat
  last : Option GoError

/-- Where a call stands: before an operation, or waiting for a worker. -/
inductive CallPC (K : Type) where
  | idle
  | takeNext (requests : List (Request K))
  | attempt (a : Attempts K)
  | lookup (a : Attempts K) (ctx : AttemptContext)
  | cooldown (a : Attempts K) (ctx : AttemptContext) (until_ : Int)
  | probing (a : Attempts K) (ctx : AttemptContext)
  | probePassed (a : Attempts K) (ctx : AttemptContext)
  | probeFailed (a : Attempts K)
  | inferring (a : Attempts K) (ctx : AttemptContext)
  | inferFailed (a : Attempts K)
  | markDown (a : Attempts K)
  | sweep (i : Nat)
  | sweeping (i : Nat) (ctx : AttemptContext)
  | sweepPassed (i : Nat)
  | sweepFailed (i : Nat)
  | inferred (result : Except GoError (List (Result K)))
  | swept (err : Option GoError)

structure State (K : Type) where
  now : Int
  next : Nat
  unhealthy : Nat → Option Int
  contexts : CallId → Option ContextError
  calls : CallId → CallPC K

def State.initial (now : Int) : State K := ⟨now, 0, fun _ => none, fun _ => none, fun _ => .idle⟩

def State.goto (s : State K) (c : CallId) (pc : CallPC K) : State K :=
  { s with calls := Function.update s.calls c pc }

def State.markDown (s : State K) (pool : Pool) (i : Nat) : State K :=
  { s with unhealthy := Function.update s.unhealthy i (some (s.now + pool.probeEvery)) }

def State.recover (s : State K) (i : Nat) : State K :=
  { s with unhealthy := Function.update s.unhealthy i none }

def Attempts.worker (a : Attempts K) (pool : Pool) : Nat := (a.start + a.offset) % pool.workers

def noHealthyWorker : GoError := ⟨"no healthy inference worker"⟩

def inferLoop (pool : Pool) (a : Attempts K) : CallPC K :=
  if a.offset < pool.workers then .attempt a else .inferred (.error (a.last.getD noHealthyWorker))

def nextAttempt (pool : Pool) (a : Attempts K) : CallPC K := inferLoop pool { a with offset := a.offset + 1 }

/-- A step of a call that is not waiting for a worker. -/
def callStep (pool : Pool) (deadline : CallId → Option Int) (s : State K) (c : CallId) : Option (State K) :=
  match s.calls c with
  | .takeNext requests =>
    let start := s.next % pool.workers
    some ({ s with next := (s.next + 1) % 2 ^ 64 }.goto c (inferLoop pool ⟨requests, start, 0, none⟩))
  | .attempt a => some (s.goto c (.lookup a (attemptContext (deadline c) s.now (pool.workers - a.offset))))
  -- `available`
  | .lookup a ctx => match s.unhealthy (a.worker pool) with
    | none => some (s.goto c (.inferring a ctx))
    | some until_ => some (s.goto c (.cooldown a ctx until_))
  | .cooldown a ctx until_ =>
    if s.now < until_ then some (s.goto c (nextAttempt pool a)) else some (s.goto c (.probing a ctx))
  | .probeFailed a => some ((s.markDown pool (a.worker pool)).goto c (nextAttempt pool a))
  | .probePassed a ctx => some ((s.recover (a.worker pool)).goto c (.inferring a ctx))
  -- `if ctx.Err() == nil`
  | .inferFailed a => match s.contexts c with
    | none => some (s.goto c (.markDown a))
    | some _ => some (s.goto c (nextAttempt pool a))
  | .markDown a => some ((s.markDown pool (a.worker pool)).goto c (nextAttempt pool a))
  -- `Healthy`
  | .sweep i =>
    if i < pool.workers then
      some (s.goto c (.sweeping i (attemptContext (deadline c) s.now (pool.workers - i))))
    else some (s.goto c (.swept (some noHealthyWorker)))
  | .sweepPassed i => some ((s.recover i).goto c (.swept none))
  | .sweepFailed i => some ((s.markDown pool i).goto c (.sweep (i + 1)))
  | .idle | .probing _ _ | .inferring _ _ | .sweeping _ _ | .inferred _ | .swept _ => none

def inferReturns (s : State K) (c : CallId) (outcome : Except GoError (List (Result K))) : Option (State K) :=
  match s.calls c with
  | .inferring a _ => match outcome with
    | .ok results => some (s.goto c (.inferred (.ok results)))
    | .error err => some (s.goto c (.inferFailed { a with last := some err }))
  | _ => none

def probeReturns (s : State K) (c : CallId) (err : Option GoError) : Option (State K) :=
  match s.calls c with
  | .probing a ctx => match err with
    | none => some (s.goto c (.probePassed a ctx))
    | some _ => some (s.goto c (.probeFailed a))
  | .sweeping i _ => match err with
    | none => some (s.goto c (.sweepPassed i))
    | some _ => some (s.goto c (.sweepFailed i))
  | _ => none

inductive Action (K : Type) where
  | tick (elapsed : Nat)
  | endContext (c : CallId) (err : ContextError)
  | infer (c : CallId) (requests : List (Request K))
  | healthy (c : CallId)
  | callStep (c : CallId)
  | inferReturns (c : CallId) (outcome : Except GoError (List (Result K)))
  | probeReturns (c : CallId) (err : Option GoError)

/-- One step; the first error of a context stays. -/
def step (pool : Pool) (deadline : CallId → Option Int) (s : State K) : Action K → Option (State K)
  | .tick elapsed => some { s with now := s.now + elapsed }
  | .endContext c err => match s.contexts c with
    | none => some { s with contexts := Function.update s.contexts c (some err) }
    | some _ => none
  | .infer c requests => match s.calls c with
    | .idle => some (s.goto c (.takeNext requests))
    | _ => none
  | .healthy c => match s.calls c with
    | .idle => some (s.goto c (.sweep 0))
    | _ => none
  | .callStep c => callStep pool deadline s c
  | .inferReturns c outcome => inferReturns s c outcome
  | .probeReturns c err => probeReturns s c err

end FraudDetection.WorkerPool
