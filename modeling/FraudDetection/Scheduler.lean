import Mathlib.Data.Finset.Basic
import Mathlib.Logic.Function.Basic
import FraudDetection.GoStrings

/-!
# The continuous batcher

`serving_plane/scheduler/scheduler.go` as a step function. Every channel operation, lock
operation, load, compare-and-swap and clock reading of `Submit`, of the run loop and of `Close`
is a step of its own; the actions choose which goroutine moves and which ready case a `select`
takes. A call of `Submit` and the item it allocates share one id. The handler returns what the
action says; a handler that panics ends the process and has no further steps.
-/

namespace FraudDetection.Scheduler

abbrev CallId := Nat
abbrev ContextId := Nat

inductive ContextError where
  | canceled
  | deadlineExceeded
  deriving DecidableEq, Repr

/-- An error with its origin: the scheduler's own sentinels, a context error, the result count
check, or whatever the handler returned (which may be one of the sentinels again). -/
inductive Error (ε : Type) where
  | closed
  | full
  | queueDelay
  | context (err : ContextError)
  | resultCount
  | handler (err : ε)
  deriving DecidableEq, Repr

abbrev Reply (R ε : Type) := Except (Error ε) R

inductive ItemState where
  | queued
  | dispatched
  | expired
  deriving DecidableEq, Repr

/-- The shared part of an item; `reply` is a channel of capacity one, `dispatched` a channel
that is only ever closed. -/
structure Item (R ε : Type) where
  queueExpiry : Int
  state : ItemState
  reply : Option (Reply R ε)
  dispatched : Bool

structure Workload (T : Type) where
  ctx : CallId → ContextId
  value : CallId → T
  deadline : ContextId → Option Int

structure Config where
  maxQueue : Nat
  maxBatch : Nat
  maxDelay : Int
  queue_pos : 1 ≤ maxQueue
  batch_pos : 1 ≤ maxBatch
  delay_pos : 0 < maxDelay

def errConfiguration : GoError := ⟨"invalid scheduler configuration"⟩

def Config.new (maxQueue maxBatch maxDelay : Int) : Except GoError Config :=
  if h : maxQueue < 1 ∨ maxBatch < 1 ∨ maxDelay ≤ 0 then .error errConfiguration
  else .ok ⟨maxQueue.toNat, maxBatch.toNat, maxDelay, by omega, by omega, by omega⟩

/-- Where a call of `Submit` stands. `unlock` still holds the read lock; `returned` remembers
whether this call won the compare-and-swap from queued to expired. -/
inductive SubmitPC (R ε : Type) where
  | idle
  | entered
  | creating
  | locking
  | checkClosed
  | enqueue
  | unlock (failure : Option (Error ε))
  | selecting
  | timerFired
  | contextDone
  | schedulerDone
  | waiting
  | returned (result : Reply R ε) (won : Bool)

structure Collecting where
  batch : List CallId
  deadline : Int
  fireAt : Int

/-- The local variables of `dispatch` in its first loop; `rest` is the batch still to come. -/
structure Dispatching (T : Type) where
  now : Int
  rest : List CallId
  active : List CallId
  values : List T
  queueOpen : Bool

structure Replying (R ε : Type) where
  active : List CallId
  next : Nat
  outcome : Except (Error ε) (List R)
  queueOpen : Bool

inductive RunPC (T R ε : Type) where
  | nextQueued
  | loadFirst (it : CallId)
  | collect (b : Collecting)
  | loadNext (b : Collecting) (it : CallId)
  | dispatch (batch : List CallId) (queueOpen : Bool)
  | examine (d : Dispatching T)
  | expire (d : Dispatching T) (it : CallId) (err : Error ε)
  | sendError (d : Dispatching T) (it : CallId) (err : Error ε)
  | claim (d : Dispatching T) (it : CallId)
  | closeDispatched (d : Dispatching T) (it : CallId)
  | handling (active : List CallId) (queueOpen : Bool)
  | replyNext (r : Replying R ε)
  | replySend (r : Replying R ε) (it : CallId) (result : Reply R ε)
  | stopping
  | stopped

inductive ClosePC where
  | idle
  | locking
  | acquiring
  | locked
  | marked
  | queueClosed
  | finished
  deriving DecidableEq, Repr

structure Invocation (T : Type) where
  active : List CallId
  values : List T
  deadline : Option Int

/-- The scheduler with its callers. `writer` is set while `Close` waits for or holds the write
lock. The last four fields only record: items in the order they entered and left the queue,
handler invocations, replies sent. -/
structure State (T R ε : Type) where
  now : Int
  contexts : ContextId → Option ContextError
  items : CallId → Item R ε
  calls : CallId → SubmitPC R ε
  queue : List CallId
  queueClosed : Bool
  closed : Bool
  readers : Finset CallId
  writer : Bool
  closer : ClosePC
  done : Bool
  run : RunPC T R ε
  panicked : Bool
  admitted : List CallId
  received : List CallId
  invocations : List (Invocation T)
  replies : List (CallId × Reply R ε)

variable {T R ε : Type}

def State.initial (now : Int) : State T R ε where
  now := now
  contexts _ := none
  items _ := ⟨0, .queued, none, false⟩
  calls _ := .idle
  queue := []
  queueClosed := false
  closed := false
  readers := ∅
  writer := false
  closer := .idle
  done := false
  run := .nextQueued
  panicked := false
  admitted := []
  received := []
  invocations := []
  replies := []

def State.contextErr (w : Workload T) (s : State T R ε) (c : CallId) : Option ContextError :=
  s.contexts (w.ctx c)

def State.goto (s : State T R ε) (c : CallId) (pc : SubmitPC R ε) : State T R ε :=
  { s with calls := Function.update s.calls c pc }

def State.jump (s : State T R ε) (pc : RunPC T R ε) : State T R ε :=
  { s with run := pc }

def State.setItem (s : State T R ε) (c : CallId) (item : Item R ε) : State T R ε :=
  { s with items := Function.update s.items c item }

def State.setWord (s : State T R ε) (c : CallId) (word : ItemState) : State T R ε :=
  s.setItem c { s.items c with state := word }

def State.panic (s : State T R ε) : State T R ε :=
  { s with panicked := true }

def State.receiveReply (s : State T R ε) (c : CallId) : Option (State T R ε) :=
  match (s.items c).reply with
  | none => none
  | some result =>
    some ((s.setItem c { s.items c with reply := none }).goto c (.returned result false))

/-- Sends on the reply channel; blocked while the channel is full. -/
def State.sendReply (s : State T R ε) (c : CallId) (result : Reply R ε) (pc : RunPC T R ε) :
    Option (State T R ε) :=
  match (s.items c).reply with
  | some _ => none
  | none => some { s.setItem c { s.items c with reply := some result } with
      replies := s.replies ++ [(c, result)]
      run := pc }

inductive SelectCase where
  | reply
  | dispatched
  | timer
  | contextDone
  | schedulerDone
  deriving DecidableEq, Repr

def submitStep (cfg : Config) (w : Workload T) (s : State T R ε) (c : CallId) (branch : SelectCase) :
    Option (State T R ε) :=
  match s.calls c with
  | .idle => none
  | .entered =>
    match s.contextErr w c with
    | some err => some (s.goto c (.returned (.error (.context err)) false))
    | none => some (s.goto c .creating)
  | .creating => some ((s.setItem c ⟨s.now + cfg.maxDelay, .queued, none, false⟩).goto c .locking)
  | .locking =>
    if s.writer then none
    else some ({ s with readers := insert c s.readers }.goto c .checkClosed)
  | .checkClosed => some (s.goto c (if s.closed then .unlock (some .closed) else .enqueue))
  | .enqueue =>
    if s.queueClosed then some s.panic
    else if s.queue.length < cfg.maxQueue then
      some ({ s with queue := s.queue ++ [c], admitted := s.admitted ++ [c] }.goto c (.unlock none))
    else some (s.goto c (.unlock (some .full)))
  | .unlock failure =>
    some ({ s with readers := s.readers.erase c }.goto c (match failure with
      | some err => .returned (.error err) false
      | none => .selecting))
  | .selecting =>
    match branch with
    | .reply => s.receiveReply c
    | .dispatched => if (s.items c).dispatched then some (s.goto c .waiting) else none
    | .timer => if (s.items c).queueExpiry ≤ s.now then some (s.goto c .timerFired) else none
    | .contextDone => if (s.contextErr w c).isSome then some (s.goto c .contextDone) else none
    | .schedulerDone => if s.done then some (s.goto c .schedulerDone) else none
  | .timerFired =>
    if (s.items c).state = .queued then
      some ((s.setWord c .expired).goto c (.returned (.error .queueDelay) true))
    else some (s.goto c .waiting)
  | .contextDone =>
    match s.contextErr w c with
    | none => none
    | some err =>
      if (s.items c).state = .queued then
        some ((s.setWord c .expired).goto c (.returned (.error (.context err)) true))
      else some (s.goto c (.returned (.error (.context err)) false))
  | .schedulerDone =>
    match (s.items c).reply with
    | some _ => s.receiveReply c
    | none => some (s.goto c (.returned (.error .closed) false))
  | .waiting =>
    match branch with
    | .reply => s.receiveReply c
    | .contextDone =>
      match s.contextErr w c with
      | some err => some (s.goto c (.returned (.error (.context err)) false))
      | none => none
    | _ => none
  | .returned _ _ => none

/-- Wakes before the deadline by half of the delay, at least by 50 µs. -/
def collectionWait (cfg : Config) (now deadline : Int) : Int :=
  let wait := deadline - now
  let guard := if cfg.maxDelay / 2 < 50000 then 50000 else cfg.maxDelay / 2
  let wait := if guard < wait then wait - guard else wait
  if wait < 0 then 0 else wait

def latestStep (acc : Int × Bool) (deadline : Option Int) : Int × Bool :=
  match deadline with
  | none => (acc.1, true)
  | some t => (if acc.1 < t then t else acc.1, acc.2)

def batchDeadline (deadlines : List (Option Int)) : Option Int :=
  let acc := deadlines.foldl latestStep (0, false)
  if !acc.2 && acc.1 != 0 then some acc.1 else none

inductive DerivedContext where
  | caller (ctx : ContextId)
  | withoutCancel (parent : DerivedContext)
  | withDeadline (parent : DerivedContext) (deadline : Int)

/-- `ctx.Deadline()`; a derived deadline never extends the one of its parent. -/
def DerivedContext.deadline (w : Workload T) : DerivedContext → Option Int
  | .caller ctx => w.deadline ctx
  | .withoutCancel _ => none
  | .withDeadline parent t => match parent.deadline w with
    | some cur => some (if cur < t then cur else t)
    | none => some t

/-- `ctx.Err()` at a time, with the errors of the callers' contexts; nothing ends a context through
`WithoutCancel`. -/
def DerivedContext.err (contexts : ContextId → Option ContextError) (now : Int) :
    DerivedContext → Option ContextError
  | .caller ctx => contexts ctx
  | .withoutCancel _ => none
  | .withDeadline parent t => match parent.err contexts now with
    | some err => some err
    | none => if t ≤ now then some .deadlineExceeded else none

/-- The context that `dispatch` passes to the handler; its cancel function runs after the replies. -/
def batchCtx (w : Workload T) (active : List CallId) : Option DerivedContext :=
  match active with
  | [] => none
  | it :: _ =>
    let ctx := DerivedContext.withoutCancel (.caller (w.ctx it))
    match batchDeadline (active.map fun c => w.deadline (w.ctx c)) with
    | some t => some (.withDeadline ctx t)
    | none => some ctx

inductive CollectCase where
  | receive
  | timer
  deriving DecidableEq, Repr

def afterDispatch (queueOpen : Bool) : RunPC T R ε :=
  if queueOpen then .nextQueued else .stopping

def runStep (cfg : Config) (w : Workload T) (s : State T R ε) (branch : CollectCase) :
    Option (State T R ε) :=
  match s.run with
  | .nextQueued =>
    match s.queue with
    | it :: rest => some ({ s with queue := rest, received := s.received ++ [it] }.jump (.loadFirst it))
    | [] => if s.queueClosed then some (s.jump .stopping) else none
  | .loadFirst it =>
    if (s.items it).state = .queued then
      let deadline := (s.items it).queueExpiry
      some (s.jump (.collect ⟨[it], deadline, s.now + collectionWait cfg s.now deadline⟩))
    else some (s.jump .nextQueued)
  | .collect b =>
    if b.batch.length < cfg.maxBatch then
      match branch with
      | .receive =>
        match s.queue with
        | it :: rest =>
          some ({ s with queue := rest, received := s.received ++ [it] }.jump (.loadNext b it))
        | [] => if s.queueClosed then some (s.jump (.dispatch b.batch false)) else none
      | .timer => if b.fireAt ≤ s.now then some (s.jump (.dispatch b.batch true)) else none
    else some (s.jump (.dispatch b.batch true))
  | .loadNext b it =>
    if (s.items it).state = .queued then
      let expiry := (s.items it).queueExpiry
      if expiry < b.deadline then
        some (s.jump (.collect ⟨b.batch ++ [it], expiry, s.now + collectionWait cfg s.now expiry⟩))
      else some (s.jump (.collect { b with batch := b.batch ++ [it] }))
    else some (s.jump (.collect b))
  | .dispatch batch queueOpen => some (s.jump (.examine ⟨s.now, batch, [], [], queueOpen⟩))
  | .examine d =>
    match d.rest with
    | it :: rest =>
      match s.contextErr w it with
      | some err => some (s.jump (.expire { d with rest := rest } it (.context err)))
      | none =>
        if (s.items it).queueExpiry ≤ d.now then
          some (s.jump (.expire { d with rest := rest } it .queueDelay))
        else some (s.jump (.claim { d with rest := rest } it))
    | [] =>
      match d.active with
      | [] => some (s.jump (afterDispatch d.queueOpen))
      | _ :: _ =>
        let deadlines := d.active.map (fun c => w.deadline (w.ctx c))
        let invocation : Invocation T := ⟨d.active, d.values, batchDeadline deadlines⟩
        some ({ s with invocations := s.invocations ++ [invocation] }.jump
          (.handling d.active d.queueOpen))
  | .expire d it err =>
    if (s.items it).state = .queued then some ((s.setWord it .expired).jump (.sendError d it err))
    else some (s.jump (.examine d))
  | .sendError d it err => s.sendReply it (.error err) (.examine d)
  | .claim d it =>
    if (s.items it).state = .queued then some ((s.setWord it .dispatched).jump (.closeDispatched d it))
    else some (s.jump (.examine d))
  | .closeDispatched d it =>
    if (s.items it).dispatched then some s.panic
    else some ((s.setItem it { s.items it with dispatched := true }).jump
      (.examine { d with active := d.active ++ [it], values := d.values ++ [w.value it] }))
  | .handling _ _ => none
  | .replyNext r =>
    match r.active[r.next]? with
    | none => some (s.jump (afterDispatch r.queueOpen))
    | some it =>
      match s.contextErr w it, r.outcome with
      | some err, _ => some (s.jump (.replySend r it (.error (.context err))))
      | none, .error err => some (s.jump (.replySend r it (.error err)))
      | none, .ok results =>
        match results[r.next]? with
        | some value => some (s.jump (.replySend r it (.ok value)))
        | none => some s.panic
  | .replySend r it result => s.sendReply it result (.replyNext { r with next := r.next + 1 })
  | .stopping => some ({ s with done := true }.jump .stopped)
  | .stopped => none

def RunPC.sending : RunPC T R ε → Option CallId
  | .sendError _ it _ => some it
  | .replySend _ it _ => some it
  | _ => none

def handlerReturns (s : State T R ε) (results : List R) (err : Option ε) : Option (State T R ε) :=
  match s.run with
  | .handling active queueOpen =>
    let outcome : Except (Error ε) (List R) := match err with
      | some err => .error (.handler err)
      | none => if results.length ≠ active.length then .error .resultCount else .ok results
    some (s.jump (.replyNext ⟨active, 0, outcome, queueOpen⟩))
  | _ => none

/-- The next step of the one `Close` that runs inside `once.Do`. -/
def closeStep (s : State T R ε) : Option (State T R ε) :=
  match s.closer with
  | .idle => none
  | .locking => some { s with writer := true, closer := .acquiring }
  | .acquiring => if s.readers = ∅ then some { s with closer := .locked } else none
  | .locked => some { s with closed := true, closer := .marked }
  | .marked =>
    if s.queueClosed then some s.panic else some { s with queueClosed := true, closer := .queueClosed }
  | .queueClosed => some { s with writer := false, closer := .finished }
  | .finished => none

inductive Action (R ε : Type) where
  | tick (elapsed : Nat)
  | cancel (ctx : ContextId)
  | reachDeadline (ctx : ContextId)
  | submit (c : CallId)
  | submitStep (c : CallId) (branch : SelectCase)
  | runStep (branch : CollectCase)
  | handlerReturns (results : List R) (err : Option ε)
  | close
  | closeStep

/-- A context keeps its first error. -/
def State.endContext (s : State T R ε) (ctx : ContextId) (err : ContextError) : State T R ε :=
  { s with contexts := Function.update s.contexts ctx (some ((s.contexts ctx).getD err)) }

def step (cfg : Config) (w : Workload T) (s : State T R ε) (a : Action R ε) : Option (State T R ε) :=
  if s.panicked then none
  else match a with
  | .tick elapsed => some { s with now := s.now + elapsed }
  | .cancel ctx => some (s.endContext ctx .canceled)
  | .reachDeadline ctx =>
    match w.deadline ctx with
    | some t => if t ≤ s.now then some (s.endContext ctx .deadlineExceeded) else none
    | none => none
  | .submit c =>
    match s.calls c with
    | .idle => some (s.goto c .entered)
    | _ => none
  | .submitStep c branch => submitStep cfg w s c branch
  | .runStep branch => runStep cfg w s branch
  | .handlerReturns results err => handlerReturns s results err
  | .close =>
    -- later calls of `Close` wait in `once.Do` and change nothing
    match s.closer with
    | .idle => some { s with closer := .locking }
    | _ => some s
  | .closeStep => closeStep s

end FraudDetection.Scheduler
