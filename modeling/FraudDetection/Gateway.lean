import FraudDetection.SharedRing

/-!
# The gateway side of the ring

`Gateway::submit` of `api_gateway/src/lib.rs` from its checks to its return, with the reservation
guard and its `Drop`, and the reclaimer thread. Every load, compare-and-swap, plain write,
sequence store and plain read of the slot is a step; pushing to the intake list and swapping it
are steps because both hold its mutex. Clock readings, the outcome of parsing and of serialization,
random ids and spurious failures of the weak exchange are choices of the step.
-/

namespace FraudDetection.Ring

inductive GatewayError where
  | invalid (message : String)
  | full
  | timeout
  | daemonStopped
  | internal (message : String)
  deriving DecidableEq, Repr

inductive DaemonResponseStatus where
  | scored
  | invalidInput
  | unavailable
  deriving DecidableEq, Repr

def daemonStatusIncomplete : UInt32 := 0xFFFFFFFF
def daemonStatusCancelled : UInt32 := 0xFFFFFFFE

def DaemonResponseStatus.asU32 : DaemonResponseStatus → UInt32
  | .scored => 200
  | .invalidInput => 422
  | .unavailable => 503

def DaemonResponseStatus.tryFrom (value : UInt32) : Except GatewayError DaemonResponseStatus :=
  if value = 200 then .ok .scored
  else if value = 422 then .ok .invalidInput
  else if value = 503 then .ok .unavailable
  else if value = daemonStatusIncomplete then .error (.internal "daemon completed slot without response")
  else .error (.internal "daemon returned unknown response status")

def isFinite (score : UInt32) : Bool := score &&& 0x7F800000 != 0x7F800000

structure InferenceResponse where
  requestId : UInt64
  status : DaemonResponseStatus
  decision : UInt32
  score : UInt32
  completedNs : UInt64
  deriving DecidableEq, Repr

def slotIndex (cfg : Config) (position : Nat) : Nat := position &&& (cfg.slotCount - 1)

def payloadCapacity (cfg : Config) : Nat := cfg.slotSize - slotMetadataBytes

structure Request where
  requestId : UInt64
  enqueueNs : UInt64

structure Reservation extends Request where
  position : Nat

/-- Where a call of `submit` stands. A failure carried through the publication is the error of a
reservation that is being cancelled. -/
inductive SubmitPC where
  | idle
  | checkBody
  | checkReady
  | prepare
  | reserveReady (r : Request)
  | loadEnqueue (r : Request)
  | loadSequence (r : Request) (position : Nat)
  | compareExchange (r : Request) (position : Nat)
  | reserveDeadline (r : Request)
  | serializing (v : Reservation)
  | publishDeadline (v : Reservation) (offset size : Nat)
  | publishing (v : Reservation) (todo : List FieldWrite) (failure : Option GatewayError)
  | publishStore (v : Reservation) (failure : Option GatewayError)
  | publishReady (v : Reservation) (failure : Option GatewayError)
  | waitLoad (v : Reservation)
  | waitDeadline (v : Reservation)
  | handoffLoad (v : Reservation) (err : GatewayError)
  | handoffPush (v : Reservation) (err : GatewayError)
  | readRequestId (v : Reservation)
  | readStatus (v : Reservation)
  | readScore (v : Reservation) (status : DaemonResponseStatus)
  | readDecision (v : Reservation) (status : DaemonResponseStatus) (score : UInt32)
  | readCompleteNs (v : Reservation) (status : DaemonResponseStatus) (score decision : UInt32)
  | releaseStore (v : Reservation) (result : Except GatewayError InferenceResponse)
  | returned (result : Except GatewayError InferenceResponse)

inductive SubmitChoice where
  | next
  | refuse (err : GatewayError)
  | prepared (requestId enqueueNs : UInt64)
  | clock (late : Bool)
  | exchange (spurious : Bool)
  | builderWrite (start : Nat) (content : List UInt8)
  | serialized (start size : Nat)
  | serializationError (err : GatewayError)
  | panicked

def publishSuccess (v : Reservation) (offset size : Nat) : SubmitPC :=
  .publishing v (publicationWrites offset.toUInt32 size.toUInt32 daemonStatusIncomplete v.requestId
    v.enqueueNs) none

/-- The `Drop` of a reservation that is still held: `publish_cancel`, then `handoff`. -/
def publishCancel (v : Reservation) (err : GatewayError) : SubmitPC :=
  .publishing v (publicationWrites 64 0 daemonStatusCancelled v.requestId v.enqueueNs) (some err)

/-- Sequence store of `release`, then the return. -/
def releaseSlot (cfg : Config) (m : Shared) (position : Nat) : Shared × Label :=
  let slot := slotIndex cfg position
  let value := position + cfg.slotCount
  (m.setSequence slot value, .release slot value)

def reserveStep (cfg : Config) (pc : SubmitPC) (m : Shared) (choice : SubmitChoice) :
    Option (SubmitPC × Shared × Label) :=
  match pc, choice with
  | .idle, .next => some (.checkBody, m, .quiet)
  | .checkBody, .refuse err => some (.returned (.error err), m, .quiet)
  | .checkBody, .next => some (.checkReady, m, .quiet)
  | .checkReady, .next =>
    if m.shutdown then some (.returned (.error .daemonStopped), m, .quiet) else some (.prepare, m, .quiet)
  | .prepare, .refuse err => some (.returned (.error err), m, .quiet)
  | .prepare, .prepared requestId enqueueNs => some (.reserveReady ⟨requestId, enqueueNs⟩, m, .quiet)
  | .reserveReady r, .next =>
    if m.shutdown then some (.returned (.error .daemonStopped), m, .quiet)
    else some (.loadEnqueue r, m, .quiet)
  | .loadEnqueue r, .next => some (.loadSequence r m.enqueue, m, .quiet)
  | .loadSequence r position, .next =>
    let difference : Int := m.sequence (slotIndex cfg position) - position
    if difference = 0 then some (.compareExchange r position, m, .quiet)
    else if difference < 0 then some (.returned (.error .full), m, .quiet)
    else some (.reserveDeadline r, m, .quiet)
  | .compareExchange r position, .exchange spurious =>
    if !spurious && m.enqueue = position then
      some (.serializing ⟨r, position⟩, { m with enqueue := position + 1 }, .claim position)
    else some (.reserveDeadline r, m, .quiet)
  | .reserveDeadline r, .clock late =>
    if late then some (.returned (.error .full), m, .quiet) else some (.reserveReady r, m, .quiet)
  | _, _ => none

def publishStep (cfg : Config) (pc : SubmitPC) (m : Shared) (choice : SubmitChoice) :
    Option (SubmitPC × Shared × Label) :=
  match pc, choice with
  | .serializing v, .builderWrite start content =>
    let slot := slotIndex cfg v.position
    if start + content.length ≤ payloadCapacity cfg then
      some (.serializing v, m.setData slot ((FieldWrite.bytes start content).apply (m.data slot)), .write slot)
    else none
  | .serializing v, .serialized start size =>
    if start + size ≤ payloadCapacity cfg then
      some (.publishDeadline v (slotMetadataBytes + start) size, m, .quiet)
    else some (publishCancel v (.internal "invalid FlatBuffer slot bounds"), m, .quiet)
  | .serializing v, .serializationError err => some (publishCancel v err, m, .quiet)
  | .serializing v, .panicked =>
    some (publishCancel v (.internal "FlatBuffer serialization panicked"), m, .quiet)
  | .publishDeadline v offset size, .clock late =>
    if late then some (publishCancel v .timeout, m, .quiet) else some (publishSuccess v offset size, m, .quiet)
  | .publishing v todo failure, .next =>
    let slot := slotIndex cfg v.position
    match todo with
    | write :: rest =>
      some (.publishing v rest failure, m.setData slot (write.apply (m.data slot)), .write slot)
    | [] => some (.publishStore v failure, m, .quiet)
  | .publishStore v failure, .next =>
    let slot := slotIndex cfg v.position
    some (.publishReady v failure, m.setSequence slot (v.position + 1),
      .publish slot (v.position + 1) (m.data slot))
  | .publishReady v failure, .next =>
    match failure with
    | none => some (.waitLoad v, m.addReady 1, .quiet)
    | some err => some (.handoffLoad v err, m.addReady 1, .quiet)
  | _, _ => none

/-- `wait_or_reclaim`, `handoff`, `push` and `read_response`. -/
def finishStep (cfg : Config) (pc : SubmitPC) (m : Shared) (choice : SubmitChoice) :
    Option (SubmitPC × Shared × Label) :=
  match pc, choice with
  | .waitLoad v, .next =>
    if m.sequence (slotIndex cfg v.position) = v.position + 2 then some (.readRequestId v, m, .quiet)
    else some (.waitDeadline v, m, .quiet)
  | .waitDeadline v, .clock late =>
    if late then some (.handoffLoad v .timeout, m, .quiet) else some (.waitLoad v, m, .quiet)
  | .handoffLoad v err, .next =>
    if m.sequence (slotIndex cfg v.position) = v.position + 2 then some (.releaseStore v (.error err), m, .quiet)
    else some (.handoffPush v err, m, .quiet)
  | .handoffPush v err, .next =>
    if v.position ∈ m.pending then some (.returned (.error err), m, .quiet)
    else if m.pending.length < cfg.slotCount then
      some (.returned (.error err), { m with pending := m.pending ++ [v.position] }, .handoff v.position)
    else some (.handoffPush v err, m, .quiet)
  | .readRequestId v, .next =>
    if (m.data (slotIndex cfg v.position)).requestId ≠ v.requestId then
      some (.releaseStore v (.error (.internal "daemon response request_id mismatch")), m, .quiet)
    else some (.readStatus v, m, .quiet)
  | .readStatus v, .next =>
    match DaemonResponseStatus.tryFrom (m.data (slotIndex cfg v.position)).responseStatus with
    | .error err => some (.releaseStore v (.error err), m, .quiet)
    | .ok status => some (.readScore v status, m, .quiet)
  | .readScore v status, .next =>
    let score := (m.data (slotIndex cfg v.position)).score
    if isFinite score then some (.readDecision v status score, m, .quiet)
    else some (.releaseStore v (.error (.internal "daemon returned non-finite score")), m, .quiet)
  | .readDecision v status score, .next =>
    some (.readCompleteNs v status score (m.data (slotIndex cfg v.position)).decision, m, .quiet)
  | .readCompleteNs v status score decision, .next =>
    let completedNs := (m.data (slotIndex cfg v.position)).completeNs
    some (.releaseStore v (.ok ⟨v.requestId, status, decision, score, completedNs⟩), m, .quiet)
  | .releaseStore v result, .next =>
    let (m, label) := releaseSlot cfg m v.position
    some (.returned result, m, label)
  | _, _ => none

def submitStep (cfg : Config) (pc : SubmitPC) (m : Shared) (choice : SubmitChoice) :
    Option (SubmitPC × Shared × Label) :=
  (reserveStep cfg pc m choice).or ((publishStep cfg pc m choice).or (finishStep cfg pc m choice))

inductive ReclaimerPC where
  | swap (outstanding : List Nat)
  | scan (outstanding : List Nat) (index : Nat)
  | store (outstanding : List Nat) (index position : Nat)
  | remove (outstanding : List Nat) (index : Nat)

def swapRemove (xs : List Nat) (index : Nat) : List Nat :=
  match xs.getLast? with
  | none => []
  | some last => (xs.set index last).dropLast

def reclaimerStep (cfg : Config) (pc : ReclaimerPC) (m : Shared) : ReclaimerPC × Shared × Label :=
  match pc with
  | .swap outstanding => (.scan m.pending 0, { m with pending := outstanding }, .quiet)
  | .scan outstanding index =>
    match outstanding[index]? with
    | none => (.swap outstanding, m, .quiet)
    | some position =>
      if m.sequence (slotIndex cfg position) = position + 2 then (.store outstanding index position, m, .quiet)
      else (.scan outstanding (index + 1), m, .quiet)
  | .store outstanding index position =>
    let (m, label) := releaseSlot cfg m position
    (.remove outstanding index, m, label)
  | .remove outstanding index => (.scan (swapRemove outstanding index) index, m, .quiet)

end FraudDetection.Ring
