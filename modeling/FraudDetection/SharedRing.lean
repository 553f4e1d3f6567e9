import Mathlib.Algebra.Group.Nat.Defs
import Mathlib.Logic.Function.Basic

/-!
# The shared-memory ring

The segment of `shared_abi.hpp` and the operations of `SharedRing` in `ring.hpp`, one step for
each atomic operation and each plain write. Positions and sequence words are 64-bit words that
stay below 2^63, so they are natural numbers and the signed differences are exact; the ready
counter is kept modulo 2^64. A step names the slot and the value of what it stores.
-/

namespace FraudDetection.Ring

/-- Dimensions that `checked_size` accepts: a power of two of at least four slots, and a stride
that holds the metadata and keeps it aligned. -/
structure Config where
  exponent : Nat
  slotSize : Nat
  two_le : 2 ≤ exponent
  prefix_le : 64 ≤ slotSize
  aligned : slotSize % 8 = 0

def Config.slotCount (cfg : Config) : Nat := 2 ^ cfg.exponent

def slotMetadataBytes : Nat := 64

/-- `SlotMetadata` without the sequence word, and the payload bytes behind it. The score is kept
as its bits. -/
structure SlotData where
  payloadOffset : UInt32
  payloadSize : UInt32
  responseStatus : UInt32
  decision : UInt32
  score : UInt32
  requestId : UInt64
  enqueueNs : UInt64
  completeNs : UInt64
  payload : List UInt8
  deriving DecidableEq

structure Slot where
  sequence : Nat
  data : SlotData

structure Shared where
  enqueue : Nat
  dequeue : Nat
  readyCount : Nat
  shutdown : Bool
  slots : Nat → Slot
  pending : List Nat

def Shared.initial (cfg : Config) : Shared where
  enqueue := 0
  dequeue := 0
  readyCount := 0
  shutdown := false
  slots i := ⟨i, 64, 0, 0, 0, 0, 0, 0, 0, List.replicate (cfg.slotSize - slotMetadataBytes) 0⟩
  pending := []

def Shared.sequence (m : Shared) (i : Nat) : Nat := (m.slots i).sequence

def Shared.data (m : Shared) (i : Nat) : SlotData := (m.slots i).data

def Shared.setSequence (m : Shared) (i value : Nat) : Shared :=
  { m with slots := Function.update m.slots i { m.slots i with sequence := value } }

def Shared.setData (m : Shared) (i : Nat) (data : SlotData) : Shared :=
  { m with slots := Function.update m.slots i { m.slots i with data := data } }

def Shared.addReady (m : Shared) (delta : Nat) : Shared :=
  { m with readyCount := (m.readyCount + delta) % 2 ^ 64 }

def slotAt (cfg : Config) (position : Nat) : Nat := position % cfg.slotCount

inductive FieldWrite where
  | payloadOffset (value : UInt32)
  | payloadSize (value : UInt32)
  | responseStatus (value : UInt32)
  | decision (value : UInt32)
  | score (value : UInt32)
  | requestId (value : UInt64)
  | enqueueNs (value : UInt64)
  | completeNs (value : UInt64)
  | bytes (start : Nat) (content : List UInt8)

def FieldWrite.apply (data : SlotData) : FieldWrite → SlotData
  | .payloadOffset value => { data with payloadOffset := value }
  | .payloadSize value => { data with payloadSize := value }
  | .responseStatus value => { data with responseStatus := value }
  | .decision value => { data with decision := value }
  | .score value => { data with score := value }
  | .requestId value => { data with requestId := value }
  | .enqueueNs value => { data with enqueueNs := value }
  | .completeNs value => { data with completeNs := value }
  | .bytes start content => { data with
      payload := data.payload.take start ++ content ++ data.payload.drop (start + content.length) }

structure Response where
  status : UInt32
  decision : UInt32
  score : UInt32
  completeNs : UInt64
  deriving DecidableEq, Repr

def SlotData.response (data : SlotData) : Response :=
  ⟨data.responseStatus, data.decision, data.score, data.completeNs⟩

/-- The threads: calls of `Gateway::submit`, the gateway's reclaimer, the daemon, and other
producers and consumers that use `SharedRing` directly. -/
inductive Party where
  | submit (call : Nat)
  | reclaimer
  | daemon
  | producer (k : Nat)
  | consumer (k : Nat)
  deriving DecidableEq, Repr

/-- What a step does to the ring. `publish`, `complete` and `release` are the stores of sequence
words, with their slot and value. -/
inductive Label where
  | quiet
  | claim (position : Nat)
  | write (slot : Nat)
  | publish (slot value : Nat) (data : SlotData)
  | consume (position : Nat)
  | complete (slot value : Nat) (response : Response)
  | release (slot value : Nat)
  | handoff (position : Nat)

def Label.stored : Label → Option (Nat × Nat)
  | .publish slot value _ => some (slot, value)
  | .complete slot value _ => some (slot, value)
  | .release slot value => some (slot, value)
  | _ => none

def Label.claimed : Label → Option Nat
  | .claim position => some position
  | _ => none

def Label.consumed : Label → Option Nat
  | .consume position => some position
  | _ => none

def publicationWrites (offset size status : UInt32) (requestId enqueueNs : UInt64) : List FieldWrite :=
  [.payloadOffset offset, .payloadSize size, .responseStatus status, .decision 0, .score 0,
    .requestId requestId, .enqueueNs enqueueNs, .completeNs 0]

section produce

structure Produce where
  payload : List UInt8
  requestId : UInt64
  enqueueNs : UInt64

inductive ProducePC where
  | loadEnqueue
  | loadSequence (position : Nat)
  | compareExchange (position : Nat)
  | writing (position : Nat) (todo : List FieldWrite)
  | storeSequence (position : Nat)
  | addReady (position : Nat)

/-- A step of `try_produce`: its next program counter, or `position_out` if it returns. -/
def produceStep (cfg : Config) (args : Produce) (m : Shared) (pc : ProducePC) :
    (ProducePC ⊕ Option Nat) × Shared × Label :=
  match pc with
  | .loadEnqueue =>
    if cfg.slotSize - slotMetadataBytes < args.payload.length then (.inr none, m, .quiet)
    else (.inl (.loadSequence m.enqueue), m, .quiet)
  | .loadSequence position =>
    let difference : Int := m.sequence (slotAt cfg position) - position
    if difference = 0 then (.inl (.compareExchange position), m, .quiet)
    else if difference < 0 then (.inr none, m, .quiet)
    else (.inl .loadEnqueue, m, .quiet)
  | .compareExchange position =>
    if m.enqueue = position then
      let writes := publicationWrites 64 args.payload.length.toUInt32 0 args.requestId args.enqueueNs
      (.inl (.writing position (writes ++ [.bytes 0 args.payload])),
        { m with enqueue := position + 1 }, .claim position)
    else (.inl (.loadSequence m.enqueue), m, .quiet)
  | .writing position todo =>
    let slot := slotAt cfg position
    match todo with
    | write :: rest => (.inl (.writing position rest), m.setData slot (write.apply (m.data slot)), .write slot)
    | [] => (.inl (.storeSequence position), m, .quiet)
  | .storeSequence position =>
    let slot := slotAt cfg position
    (.inl (.addReady position), m.setSequence slot (position + 1), .publish slot (position + 1) (m.data slot))
  | .addReady position => (.inr (some position), m.addReady 1, .quiet)

end produce

section consume

inductive ConsumePC where
  | loadDequeue
  | loadSequence (position : Nat)
  | compareExchange (position : Nat)
  | takeReady (position : Nat)

/-- A step of `try_consume`: its next program counter, or the slot it returns. -/
def consumeStep (cfg : Config) (m : Shared) (pc : ConsumePC) :
    (ConsumePC ⊕ Option Nat) × Shared × Label :=
  match pc with
  | .loadDequeue => (.inl (.loadSequence m.dequeue), m, .quiet)
  | .loadSequence position =>
    let difference : Int := m.sequence (slotAt cfg position) - (position + 1)
    if difference = 0 then (.inl (.compareExchange position), m, .quiet)
    else if difference < 0 then (.inr none, m, .quiet)
    else (.inl .loadDequeue, m, .quiet)
  | .compareExchange position =>
    if m.dequeue = position then
      (.inl (.takeReady position), { m with dequeue := position + 1 }, .consume position)
    else (.inl (.loadSequence m.dequeue), m, .quiet)
  | .takeReady position => (.inr (some (slotAt cfg position)), m.addReady (2 ^ 64 - 1), .quiet)

end consume

structure Completing where
  slot : Nat
  position : Nat
  response : Response
  todo : List FieldWrite

def Completing.start (slot position : Nat) (response : Response) : Completing where
  slot := slot
  position := position
  response := response
  todo := [.responseStatus response.status, .decision response.decision, .score response.score,
    .completeNs response.completeNs]

/-- A step of `complete`; `none` after the store. -/
def completeStep (m : Shared) (c : Completing) : Option Completing × Shared × Label :=
  match c.todo with
  | write :: rest =>
    (some { c with todo := rest }, m.setData c.slot (write.apply (m.data c.slot)), .write c.slot)
  | [] => (none, m.setSequence c.slot (c.position + 2), .complete c.slot (c.position + 2) c.response)

/-- A party that produces through `SharedRing` and releases the positions it produced. -/
inductive ProducerPC where
  | idle (held : List Nat)
  | producing (held : List Nat) (args : Produce) (pc : ProducePC)
  | checking (held : List Nat) (position : Nat)
  | releasing (held : List Nat) (position : Nat)

inductive ProducerChoice where
  | produce (args : Produce)
  | release (position : Nat)
  | next

def producerStep (cfg : Config) (pc : ProducerPC) (m : Shared) (choice : ProducerChoice) :
    Option (ProducerPC × Shared × Label) :=
  match pc with
  | .idle held =>
    match choice with
    | .produce args => some (.producing held args .loadEnqueue, m, .quiet)
    | .release position => if position ∈ held then some (.checking held position, m, .quiet) else none
    | .next => none
  | .producing held args pc =>
    let (next, m, label) := produceStep cfg args m pc
    match next with
    | .inl pc => some (.producing held args pc, m, label)
    | .inr none => some (.idle held, m, label)
    | .inr (some position) => some (.idle (position :: held), m, label)
  | .checking held position =>
    if m.sequence (slotAt cfg position) = position + 2 then some (.releasing held position, m, .quiet)
    else some (.idle held, m, .quiet)
  | .releasing held position =>
    let slot := slotAt cfg position
    let value := position + cfg.slotCount
    some (.idle held, m.setSequence slot value, .release slot value)

inductive ConsumerPC where
  | idle (held : List Nat)
  | consuming (held : List Nat) (pc : ConsumePC)
  | locating (held : List Nat) (slot : Nat) (response : Response)
  | completing (held : List Nat) (c : Completing)

inductive ConsumerChoice where
  | consume
  | complete (slot : Nat) (response : Response)
  | next

def consumerStep (cfg : Config) (pc : ConsumerPC) (m : Shared) (choice : ConsumerChoice) :
    Option (ConsumerPC × Shared × Label) :=
  match pc with
  | .idle held =>
    match choice with
    | .consume => some (.consuming held .loadDequeue, m, .quiet)
    | .complete slot response =>
      if slot ∈ held then some (.locating (held.erase slot) slot response, m, .quiet) else none
    | .next => none
  | .consuming held pc =>
    let (next, m, label) := consumeStep cfg m pc
    match next with
    | .inl pc => some (.consuming held pc, m, label)
    | .inr none => some (.idle held, m, label)
    | .inr (some slot) => some (.idle (slot :: held), m, label)
  | .locating held slot response =>
    some (.completing held (Completing.start slot (m.sequence slot - 1) response), m, .quiet)
  | .completing held c =>
    match completeStep m c with
    | (some c, m, label) => some (.completing held c, m, label)
    | (none, m, label) => some (.idle held, m, label)

end FraudDetection.Ring
