import FraudDetection.SharedRing

/-!
# The inference daemon

`ContinuousBatcher::poll_once` and `flush` of `batcher.hpp` with `process_batch` of `main.cpp` as
handler, inside the daemon's main loop. The staged slots, views, positions and completions stand
for the fixed arrays up to their counts. Clock readings, the stop signal and the outcomes of
launching and synchronizing the CUDA graph are choices of the step.
-/

namespace FraudDetection.Ring

structure TransactionView where
  requestId : UInt64
  amountMicros : Int
  deriving DecidableEq, Repr

/-- `parse` stands for the FlatBuffers verifier with the access to the root table; it fails where
the verifier does or where a required string is absent. -/
structure DaemonConfig where
  maxBatchSize : Nat
  slaDeadlineNs : UInt64
  cudaGraphsReady : Bool
  parse : List UInt8 → Option TransactionView

def maxBatch : Nat := 256

def decodeTransaction (cfg : Config) (dc : DaemonConfig) (slot : SlotData) : Option TransactionView :=
  let offset := slot.payloadOffset.toNat
  let size := slot.payloadSize.toNat
  if size = 0 ∨ offset < slotMetadataBytes ∨ cfg.slotSize < offset ∨ cfg.slotSize - offset < size then none
  else match dc.parse ((slot.payload.drop (offset - slotMetadataBytes)).take size) with
    | none => none
    | some view => if view.requestId = slot.requestId then some view else none

def referenceDecision (view : TransactionView) : UInt32 :=
  if 10000000 ≤ view.amountMicros then 1 else 0

/-- Bits of `0.1F` and `0.9F`. -/
def referenceScore (view : TransactionView) : UInt32 :=
  if referenceDecision view = 0 then 0x3DCCCCCD else 0x3F666666

/-- What `process_batch` answers a slot: `view` is `none` for an invalid transaction, `status` is
the status after the launch. -/
def respond (view : Option TransactionView) (status : UInt32) (syncFailed : Bool) (now : UInt64) :
    Response :=
  match view with
  | none => ⟨422, 0, 0, now⟩
  | some view =>
    if syncFailed then ⟨503, 0, 0, now⟩
    else if status = 200 then ⟨status, referenceDecision view, referenceScore view, now⟩
    else ⟨status, 0, 0, now⟩

structure Batcher where
  staged : List Nat
  oldestEnqueueNs : UInt64
  requests : Nat
  fullBatches : Nat
  deadlineBatches : Nat

def Batcher.initial : Batcher := ⟨[], 0, 0, 0, 0⟩

structure Handling where
  batcher : Batcher
  now : UInt64
  full : Bool
  flushing : Bool

def Handling.finish (h : Handling) : Batcher where
  staged := []
  oldestEnqueueNs := 0
  requests := h.batcher.requests + h.batcher.staged.length
  fullBatches := if h.full then h.batcher.fullBatches + 1 else h.batcher.fullBatches
  deadlineBatches := if h.full then h.batcher.deadlineBatches else h.batcher.deadlineBatches + 1

/-- Where the daemon stands: in its main loop, in `poll_once`, in `process_batch`, or shutting
down. -/
inductive DaemonPC where
  | loop (b : Batcher)
  | poll (b : Batcher)
  | consuming (b : Batcher) (pc : ConsumePC)
  | stage (b : Batcher) (slot : Nat)
  | decide (b : Batcher)
  | decoding (h : Handling) (views : List (Option TransactionView))
  | launching (h : Handling) (views : List (Option TransactionView))
  | preparing (h : Handling) (views : List (Option TransactionView)) (status : UInt32)
      (launched : Bool) (positions : List Nat)
  | synchronizing (h : Handling) (views : List (Option TransactionView)) (status : UInt32)
      (launched : Bool) (positions : List Nat)
  | completing (h : Handling) (todo : List Completing)
  | stopping (b : Batcher)
  | flushing (b : Batcher)
  | finished (b : Batcher)

inductive DaemonChoice where
  | next
  | stop
  | clock (now : UInt64)
  | cuda (ready : Bool)

def completions (h : Handling) (views : List (Option TransactionView)) (status : UInt32)
    (syncFailed : Bool) (positions : List Nat) : List Completing :=
  ((h.batcher.staged.zip positions).zip views).map fun ((slot, position), view) =>
    Completing.start slot position (respond view status syncFailed h.now)

/-- Steps of the main loop, of `poll_once` before the handler, and of the shutdown. -/
def pollStep (cfg : Config) (dc : DaemonConfig) (pc : DaemonPC) (m : Shared) (choice : DaemonChoice) :
    Option (DaemonPC × Shared × Label) :=
  match pc, choice with
  | .loop b, .stop => some (.stopping b, m, .quiet)
  | .loop b, .next =>
    if m.shutdown then some (.stopping b, m, .quiet)
    else if dc.maxBatchSize = 0 ∨ maxBatch < dc.maxBatchSize then some (.loop b, m, .quiet)
    else some (.poll b, m, .quiet)
  | .poll b, .next =>
    if b.staged.length < dc.maxBatchSize then some (.consuming b .loadDequeue, m, .quiet)
    else some (.decide b, m, .quiet)
  | .consuming b pc, .next =>
    let (next, m, label) := consumeStep cfg m pc
    match next with
    | .inl pc => some (.consuming b pc, m, label)
    | .inr none => some (if b.staged.length = 0 then .loop b else .decide b, m, label)
    | .inr (some slot) => some (.stage b slot, m, label)
  | .stage b slot, .next =>
    let oldest := if b.staged.length = 0 then (m.data slot).enqueueNs else b.oldestEnqueueNs
    some (.poll { b with staged := b.staged ++ [slot], oldestEnqueueNs := oldest }, m, .quiet)
  | .decide b, .clock now =>
    let full := b.staged.length == dc.maxBatchSize
    let overdue := b.oldestEnqueueNs ≤ now && dc.slaDeadlineNs ≤ now - b.oldestEnqueueNs
    if !full && !overdue then some (.loop b, m, .quiet)
    else some (.decoding ⟨b, now, full, false⟩ [], m, .quiet)
  | .stopping b, .next => some (.flushing b, { m with shutdown := true }, .quiet)
  | .flushing b, .clock now =>
    if b.staged.length = 0 then some (.finished b, m, .quiet)
    else some (.decoding ⟨b, now, false, true⟩ [], m, .quiet)
  | _, _ => none

def handleStep (cfg : Config) (dc : DaemonConfig) (pc : DaemonPC) (m : Shared) (choice : DaemonChoice) :
    Option (DaemonPC × Shared × Label) :=
  match pc, choice with
  | .decoding h views, .next =>
    match h.batcher.staged[views.length]? with
    | some slot => some (.decoding h (views ++ [decodeTransaction cfg dc (m.data slot)]), m, .quiet)
    | none => some (.launching h views, m, .quiet)
  | .launching h views, .cuda ready =>
    if dc.cudaGraphsReady && views.countP Option.isSome != 0 then
      some (.preparing h views (if ready then 200 else 503) ready [], m, .quiet)
    else some (.preparing h views 200 false [], m, .quiet)
  | .preparing h views status launched positions, .next =>
    match h.batcher.staged[positions.length]? with
    | some slot =>
      some (.preparing h views status launched (positions ++ [m.sequence slot - 1]), m, .quiet)
    | none => some (.synchronizing h views status launched positions, m, .quiet)
  | .synchronizing h views status launched positions, .cuda ready =>
    some (.completing h (completions h views status (launched && !ready) positions), m, .quiet)
  | .completing h todo, .next =>
    match todo with
    | c :: rest =>
      match completeStep m c with
      | (some c, m, label) => some (.completing h (c :: rest), m, label)
      | (none, m, label) => some (.completing h rest, m, label)
    | [] => some (if h.flushing then .finished h.finish else .loop h.finish, m, .quiet)
  | _, _ => none

def daemonStep (cfg : Config) (dc : DaemonConfig) (pc : DaemonPC) (m : Shared) (choice : DaemonChoice) :
    Option (DaemonPC × Shared × Label) :=
  (pollStep cfg dc pc m choice).or (handleStep cfg dc pc m choice)

end FraudDetection.Ring
