import FraudDetection.Window
import FraudDetection.Library.Interaction

/-!
# The Kafka consumer

`stream_processor/ingestion/ingestion.go`: `KafkaConsumer.Consume` as a program that calls the
message reader, the event handler, the poison handler, the DLQ writer, its context and the timer.
The context keeps its first error, so the second `ctx.Err()` of a branch is the value of the first.
Building the dialer, the reader and the writer is left out.
-/

namespace FraudDetection.Ingestion
open FraudDetection.Library

structure Header where
  key : GoString
  value : GoString
  deriving DecidableEq, Repr

structure Message where
  topic : GoString
  partition : Int
  offset : Int
  key : GoString
  value : GoString
  headers : List Header
  time : Int
  deriving DecidableEq, Repr

inductive PoisonPolicy where
  | halt
  | dlq
  deriving DecidableEq, Repr

/-- A consumer as `NewKafka` builds it. -/
structure KafkaConsumer where
  maxAttempts : Nat
  retryBackoff : Int
  poisonPolicy : PoisonPolicy
  poisonHandler : Bool
  dlqWriter : Bool
  sourceTopic : GoString
  attempts_pos : 1 ≤ maxAttempts

structure PoisonError where
  partition : Int
  offset : Int
  err : Option GoError
  deriving DecidableEq, Repr

def PoisonError.error (e : PoisonError) : String :=
  s!"poison Kafka record at partition {e.partition} offset {e.offset}"

inductive ConsumeError where
  | plain (err : GoError)
  | poison (err : PoisonError)
  deriving DecidableEq, Repr

structure Formats (α : Type) where
  unmarshal : GoString → Except GoError (Event α)
  rfc3339Nano : Int → GoString

inductive Call (α : Type) where
  | fetchMessage
  | commitMessages (message : Message)
  | handle (event : Event α)
  | poisonHandler (value : GoString) (err : Option GoError)
  | writeMessages (message : Message)
  | ctxErr
  | wait (backoff : Int)

variable {α : Type}

/-- An error or nil; `FetchMessage` returns a message. The timer of `waitBackoff` fires, or the
context is done first. -/
abbrev Answer : Call α → Type
  | .fetchMessage => Except GoError Message
  | _ => Option GoError

abbrev Program (α : Type) := Prog (Call α) Answer

def fetchMessage : Program α (Except GoError Message) := Prog.request Call.fetchMessage
def commitMessages (message : Message) : Program α (Option GoError) := Prog.request (Call.commitMessages message)
def handleEvent (event : Event α) : Program α (Option GoError) := Prog.request (Call.handle event)
def callPoisonHandler (value : GoString) (err : Option GoError) : Program α (Option GoError) :=
  Prog.request (Call.poisonHandler value err)
def writeMessages (message : Message) : Program α (Option GoError) := Prog.request (Call.writeMessages message)
def ctxErr : Program α (Option GoError) := Prog.request Call.ctxErr

def wrapped : Option GoError → String
  | some err => err.text
  | none => "%!w(<nil>)"

def wrap64 (n : Int) : Int := n.bmod (2 ^ 64)

/-- The doubling loop of `waitBackoff`, in nanoseconds. -/
def backoffLoop : Nat → Int → Int
  | 0, backoff => backoff
  | n + 1, backoff => if 500000000 ≤ backoff then 1000000000 else backoffLoop n (wrap64 (backoff * 2))

/-- The delay for which `waitBackoff` sets its timer. -/
def waitDelay (base : Int) (attempt : Nat) : Int := backoffLoop (attempt - 1) base

def waitBackoff (base : Int) (attempt : Nat) : Program α (Option GoError) :=
  Prog.request (Call.wait (waitDelay base attempt))

def fetchLoop (k : KafkaConsumer) : Nat → Option GoError → Program α (Except GoError Message)
  | 0, last => return .error ⟨s!"fetch Kafka message after {k.maxAttempts} attempts: {wrapped last}"⟩
  | left + 1, _ => do
    match ← fetchMessage with
    | .ok message => return .ok message
    | .error err =>
      match ← ctxErr with
      | some done => return .error done
      | none =>
        if k.maxAttempts - left < k.maxAttempts then
          match ← waitBackoff k.retryBackoff (k.maxAttempts - left) with
          | some done => return .error done
          | none => fetchLoop k left (some err)
        else fetchLoop k left (some err)

def fetch (k : KafkaConsumer) : Program α (Except GoError Message) :=
  fetchLoop k k.maxAttempts none

def commitLoop (k : KafkaConsumer) (message : Message) : Nat → Option GoError → Program α (Option GoError)
  | 0, last => return some ⟨s!"commit Kafka message after {k.maxAttempts} attempts: {wrapped last}"⟩
  | left + 1, _ => do
    match ← commitMessages message with
    | none => return none
    | some err =>
      match ← ctxErr with
      | some done => return some done
      | none =>
        if k.maxAttempts - left < k.maxAttempts then
          match ← waitBackoff k.retryBackoff (k.maxAttempts - left) with
          | some done => return some done
          | none => commitLoop k message left (some err)
        else commitLoop k message left (some err)

def commit (k : KafkaConsumer) (message : Message) : Program α (Option GoError) :=
  commitLoop k message k.maxAttempts none

/-- Drops control characters and keeps at most `max` bytes. -/
def safeMetadata (value : GoString) (max : Nat) : GoString :=
  (mapDropping (fun b => b < 0x20 || b = 0x7F) 0 value).take max

def dlqMessage (fmts : Formats α) (k : KafkaConsumer) (source : Message) : Message :=
  let topic := if source.topic = [] then k.sourceTopic else source.topic
  let timestamp := if source.time = 0 then [] else fmts.rfc3339Nano source.time
  { topic := []
    partition := 0
    offset := 0
    key := source.key
    value := source.value
    headers := [
      ⟨ascii "x-dfd-source-topic", safeMetadata topic 249⟩,
      ⟨ascii "x-dfd-source-partition", itoa source.partition⟩,
      ⟨ascii "x-dfd-source-offset", itoa source.offset⟩,
      ⟨ascii "x-dfd-source-timestamp", timestamp⟩,
      ⟨ascii "x-dfd-dlq-reason", ascii "retry-exhausted"⟩]
    time := 0 }

def writeDLQ (fmts : Formats α) (k : KafkaConsumer) (source : Message) : Program α (Option GoError) :=
  if k.dlqWriter then do
    match ← writeMessages (dlqMessage fmts k source) with
    | some err => return some ⟨s!"write Kafka DLQ record: {err.text}"⟩
    | none => return none
  else return some ⟨"Kafka DLQ writer is not configured"⟩

def poisoned (fmts : Formats α) (k : KafkaConsumer) (message : Message) (last : Option GoError) :
    Program α (Option ConsumeError) :=
  match k.poisonPolicy with
  | .dlq => do
    let err ← if k.poisonHandler then callPoisonHandler message.value last
      else writeDLQ fmts k message
    return err.map .plain
  | .halt => return some (.poison ⟨message.partition, message.offset, last⟩)

/-- The event of a message: its JSON, at the message's own position. -/
def decodeEvent (fmts : Formats α) (message : Message) : Except GoError (Event α) :=
  match fmts.unmarshal message.value with
  | .error err => .error err
  | .ok event => .ok { event with partition := message.partition, offset := message.offset }

def attemptEvent (fmts : Formats α) (message : Message) : Program α (Option GoError) :=
  match decodeEvent fmts message with
  | .error err => return some err
  | .ok event => handleEvent event

def processLoop (fmts : Formats α) (k : KafkaConsumer) (message : Message) :
    Nat → Option GoError → Program α (Option ConsumeError)
  | 0, last => poisoned fmts k message last
  | left + 1, _ => do
    match ← attemptEvent fmts message with
    | none => return none
    | some err =>
      if k.maxAttempts - left < k.maxAttempts then
        match ← waitBackoff k.retryBackoff (k.maxAttempts - left) with
        | some done => return some (.plain done)
        | none => processLoop fmts k message left (some err)
      else processLoop fmts k message left (some err)

def process (fmts : Formats α) (k : KafkaConsumer) (message : Message) : Program α (Option ConsumeError) :=
  processLoop fmts k message k.maxAttempts none

/-- The loop of `Consume` for a number of rounds; `none` where it would go on. -/
def consumeLoop (fmts : Formats α) (k : KafkaConsumer) : Nat → Program α (Option ConsumeError)
  | 0 => return none
  | rounds + 1 => do
    match ← fetch k with
    | .error err => return some (.plain err)
    | .ok message =>
      match ← process fmts k message with
      | some err => return some err
      | none =>
        match ← commit k message with
        | some err => return some (.plain err)
        | none => consumeLoop fmts k rounds

/-- `Consume`; `handler` is false for a nil handler. -/
def consume (fmts : Formats α) (k : KafkaConsumer) (handler : Bool) (rounds : Nat) :
    Program α (Option ConsumeError) :=
  if handler then consumeLoop fmts k rounds
  else return some (.plain ⟨"event handler is required"⟩)

end FraudDetection.Ingestion
