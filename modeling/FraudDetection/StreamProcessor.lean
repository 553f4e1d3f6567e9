import FraudDetection.FeatureVector
import FraudDetection.Ingestion
import FraudDetection.Library.Transition

/-!
# The stream processor

The handler that `main` of `stream_processor/cmd/stream-processor` gives its consumer, and the processes
of a deployment: each runs `KafkaConsumer.Consume` as a member of one consumer group, and all of them
write to one Redis. A process may stop anywhere and start again. What the broker and Redis do are choices
of the step: the broker hands out the records of a partition in order, from the offset that the group has
committed when a partition is assigned, and a commit that fails may have been carried out. Redis is any
state with any client at each call, and may change between the calls, as by a write that arrives late.
-/

namespace FraudDetection.StreamProcessor
open FraudDetection.Library FraudDetection.Ingestion FraudDetection.FeatureVector

variable {α σ : Type}

/-- `operationalState`; the lag is in nanoseconds, before its conversion to seconds. The counters wrap
after 2^64 calls only. -/
structure OperationalState where
  ready : Bool
  attempts : Nat
  events : Nat
  materialized : Nat
  failures : Nat
  eventLag : Int
  deriving DecidableEq, Repr

def OperationalState.started : OperationalState := ⟨true, 0, 0, 0, 0, 0⟩

structure Processor (α : Type) where
  window : Window α
  state : OperationalState

def eventLag (now occurredAt : Int) : Int :=
  let lag := now - occurredAt
  if lag < 0 then 0 else lag

def handle (ar : Arithmetic α) (sink : Materializer σ α) (now : Int) (p : Processor α) (stored : σ)
    (event : Event α) : Option GoError × Processor α × σ :=
  let state := { p.state with
    attempts := p.state.attempts + 1
    eventLag := eventLag now event.occurredAt }
  match applyAndMaterialize ar p.window event (some sink) stored with
  | (.error err, window, stored) =>
    (some err, ⟨window, { state with ready := false, failures := state.failures + 1 }⟩, stored)
  | (.ok (_, changed), window, stored) =>
    let state := { state with events := state.events + 1, ready := true }
    (none, ⟨window, if changed then { state with materialized := state.materialized + 1 } else state⟩, stored)

structure Topic where
  record : Int → Nat → Option Message
  placed : ∀ partition offset message, record partition offset = some message →
    message.partition = partition ∧ message.offset = offset

/-- What the processes of a deployment share; `canceled` is `errors.Is(err, context.Canceled)`. -/
structure Deployment (α : Type) where
  fmts : Formats α
  consumer : KafkaConsumer
  canceled : ConsumeError → Bool
  ar : Arithmetic α
  sc : Strconv α
  topic : Topic
  windowDuration : Int
  maxEntities : Int
  maxEvents : Int

/-- `main` has left its select, after a number of exchanges; `failed` if it has counted a failure of the
consumer. -/
structure Departure where
  exchanges : Nat
  failed : Bool
  deriving DecidableEq, Repr

/-- A process: what is left of `Consume`, which may go on after `main` has left its select, the offsets
that its reader has reached, the state of its handler, and its exchanges since it was started. -/
structure Member (α : Type) where
  program : Program α (Option ConsumeError)
  position : Int → Nat
  processor : Processor α
  session : List (Exchange (Call α) Answer)
  departure : Option Departure

structure ConsumerGroup (α σ : Type) where
  committed : Int → Nat
  members : Nat → Member α
  store : σ
  ended : List (List (Exchange (Call α) Answer))

section system

variable (d : Deployment α)

def Deployment.start (rounds : Nat) (committed : Int → Nat) : Member α where
  program := consume d.fmts d.consumer true rounds
  position := committed
  processor := ⟨newWithLimits d.windowDuration d.maxEntities d.maxEvents, .started⟩
  session := []
  departure := none

def Deployment.initial (store : σ) : ConsumerGroup α σ where
  committed _ := 0
  members _ := d.start 0 fun _ => 0
  store
  ended := []

inductive Reply (σ : Type) where
  | fetched (partition : Int) (offset : Nat)
  | fetchFailed (err : GoError)
  | committed
  | commitFailed (err : GoError) (carriedOut : Bool)
  | handled (now : Int) (client : RedisClient σ)
  | answered (err : Option GoError)

inductive Exit where
  | signalled
  | consumed
  | httpFailed

inductive Occurrence (σ : Type) where
  | start (member rounds : Nat)
  | assign (member : Nat) (partition : Int)
  | call (member : Nat) (reply : Reply σ)
  | leave (member : Nat) (exit : Exit)
  | change (store : σ)

def Topic.next (topic : Topic) (partition : Int) (position offset : Nat) : Bool :=
  position ≤ offset && (List.range offset).all fun o => o < position || (topic.record partition o).isNone

def ConsumerGroup.modify (g : ConsumerGroup α σ) (i : Nat) (f : Member α → Member α) : ConsumerGroup α σ :=
  { g with members := Function.update g.members i (f (g.members i)) }

def ConsumerGroup.commits (g : ConsumerGroup α σ) (message : Message) : ConsumerGroup α σ :=
  { g with committed := Function.update g.committed message.partition (message.offset.toNat + 1) }

def Member.reaches (m : Member α) (partition : Int) (position : Nat) : Member α :=
  { m with position := Function.update m.position partition position }

def Member.leaves (m : Member α) (failed : Bool) : Member α :=
  let state := m.processor.state
  { m with
    processor := { m.processor with
      state := { state with ready := false, failures := if failed then state.failures + 1 else state.failures } }
    departure := some ⟨m.session.length, failed⟩ }

def reply (g : ConsumerGroup α σ) (i : Nat) : (c : Call α) → Reply σ → Option (Answer c × ConsumerGroup α σ)
  | .fetchMessage, .fetched partition offset =>
    match d.topic.record partition offset with
    | some message =>
      if d.topic.next partition ((g.members i).position partition) offset then
        some (.ok message, g.modify i fun m => m.reaches partition (offset + 1))
      else none
    | none => none
  | .fetchMessage, .fetchFailed err => some (.error err, g)
  | .commitMessages message, .committed => some (none, g.commits message)
  | .commitMessages message, .commitFailed err carriedOut =>
    some (some err, if carriedOut then g.commits message else g)
  | .handle event, .handled now client =>
    let (err, processor, store) := handle d.ar (put d.ar d.sc (some client)) now (g.members i).processor g.store event
    let written : ConsumerGroup α σ := { g with store }
    some (err, written.modify i fun m => { m with processor })
  | .poisonHandler _ _, .answered err | .writeMessages _, .answered err | .ctxErr, .answered err
  | .wait _, .answered err => some (err, g)
  | _, _ => none

/-- What `Consume` returns ends the select only once there is something: `none` stands for a run that has
not come to its end. -/
def leave (g : ConsumerGroup α σ) (i : Nat) (exit : Exit) : Option (ConsumerGroup α σ) :=
  match (g.members i).departure, exit, (g.members i).program with
  | none, .consumed, .pure (some err) => some (g.modify i fun m => m.leaves (!d.canceled err))
  | none, .signalled, _ | none, .httpFailed, _ => some (g.modify i fun m => m.leaves false)
  | _, _, _ => none

def step (g : ConsumerGroup α σ) : Occurrence σ → Option (ConsumerGroup α σ)
  | .start i rounds =>
    let archived : ConsumerGroup α σ := { g with ended := g.ended ++ [(g.members i).session] }
    some (archived.modify i fun _ => d.start rounds g.committed)
  | .assign i partition => some (g.modify i fun m => m.reaches partition (g.committed partition))
  | .call i r =>
    match (g.members i).program with
    | .pure _ => none
    | .call c rest =>
      (reply d g i c r).map fun (answer, g) =>
        g.modify i fun m => { m with program := rest answer, session := m.session ++ [⟨c, answer⟩] }
  | .leave i exit => leave d g i exit
  | .change store => some { g with store }

end system

end FraudDetection.StreamProcessor
