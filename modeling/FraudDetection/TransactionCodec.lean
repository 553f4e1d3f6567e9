import FraudDetection.Library.FlatBuffers
import FraudDetection.SegmentLayout
import FraudDetection.Gateway

/-!
# The transaction codec

How a transaction travels through a slot: the gateway's checks, `serialize_transaction` over the
generated FlatBuffers bindings and `publish_success` on the bytes of the segment, and the daemon's
`decode_transaction`. A string is its bytes. `TransactionReader` stands for the generated verifier
and accessors on the daemon's side.
-/

namespace FraudDetection.Codec
open FraudDetection.Library
open FraudDetection.Library.FlatBuffers
open FraudDetection.Segment
open FraudDetection.Ring (GatewayError daemonStatusIncomplete)

section gateway

structure IncomingTransaction where
  transactionId : List UInt8
  accountId : List UInt8
  amountMicros : Int64
  currency : List UInt8
  occurredAtNs : UInt64
  merchantCategory : Option (List UInt8)
  deriving DecidableEq

def maxStringBytes : Nat := 128
def maxAbsAmountMicros : Nat := 9000000000000000000

def isAsciiAlphanumeric (byte : UInt8) : Bool :=
  (0x30 ≤ byte && byte ≤ 0x39) || (0x41 ≤ byte && byte ≤ 0x5A) || (0x61 ≤ byte && byte ≤ 0x7A)

def safeIdentifier (value : List UInt8) : Bool :=
  !value.isEmpty && value.length ≤ maxStringBytes &&
    value.all fun byte => isAsciiAlphanumeric byte || byte = 0x2D || byte = 0x5F || byte = 0x2E

def safeText (value : List UInt8) : Bool :=
  !value.isEmpty && value.length ≤ maxStringBytes && !value.any fun byte => byte < 0x20

def IncomingTransaction.validate (input : IncomingTransaction) : Except GatewayError Int64 :=
  if !safeIdentifier input.transactionId || !safeIdentifier input.accountId || !safeIdentifier input.currency then
    .error (.invalid "invalid transaction identifier")
  else if input.merchantCategory.any fun category => !safeText category then
    .error (.invalid "invalid merchant category")
  else if maxAbsAmountMicros < input.amountMicros.toInt.natAbs then .error (.invalid "amount is out of range")
  else .ok input.amountMicros

def IncomingTransaction.worstCaseBytes (input : IncomingTransaction) : Nat :=
  128 + input.transactionId.length + input.accountId.length + input.currency.length +
    (input.merchantCategory.map List.length).getD 0

end gateway

section bindings

def vtRequestId : Nat := 4
def vtTransactionId : Nat := 6
def vtAccountId : Nat := 8
def vtAmountMicros : Nat := 10
def vtCurrency : Nat := 12
def vtOccurredAtNs : Nat := 14
def vtMerchantCategory : Nat := 16

/-- The strings are offsets of what was created before. -/
structure TransactionArgs where
  requestId : UInt64
  transactionId : Option Nat
  accountId : Option Nat
  amountMicros : Int64
  currency : Option Nat
  occurredAtNs : UInt64
  merchantCategory : Option Nat

def addOffset (slot : Nat) : Option Nat → BuildM Unit
  | some target => pushSlotAlways slot target
  | none => pure ()

/-- The fields in the order of the generated `create`. -/
def addFields (args : TransactionArgs) : BuildM Unit := do
  pushSlot vtOccurredAtNs 8 args.occurredAtNs.toNat
  pushSlot vtAmountMicros 8 args.amountMicros.toUInt64.toNat
  pushSlot vtRequestId 8 args.requestId.toNat
  addOffset vtMerchantCategory args.merchantCategory
  addOffset vtCurrency args.currency
  addOffset vtAccountId args.accountId
  addOffset vtTransactionId args.transactionId

def finishTransaction (start : Nat) : BuildM Nat := do
  let table ← endTable start
  required table vtTransactionId
  required table vtAccountId
  required table vtCurrency
  return table.offset

def createTransaction (args : TransactionArgs) : BuildM Nat := do
  let start := (← get).used
  addFields args
  finishTransaction start

def transactionIdentifier : List UInt8 := [0x46, 0x52, 0x54, 0x58]

def finishTransactionBuffer (root : Nat) : BuildM Unit := finish root transactionIdentifier

def createOptionalString : Option (List UInt8) → BuildM (Option Nat)
  | some value => some <$> createString value
  | none => pure none

def buildTransaction (requestId : UInt64) (input : IncomingTransaction) (amountMicros : Int64) : BuildM Unit := do
  let transactionId ← createString input.transactionId
  let accountId ← createString input.accountId
  let currency ← createString input.currency
  let merchantCategory ← createOptionalString input.merchantCategory
  let root ← createTransaction {
    requestId, transactionId := some transactionId, accountId := some accountId, amountMicros
    currency := some currency, occurredAtNs := input.occurredAtNs, merchantCategory }
  finishTransactionBuffer root

end bindings

section publication

structure PayloadRange where
  offset : Nat
  size : Nat
  deriving DecidableEq, Repr

/-- The builder over the payload area of a slot, which `SharedSlotAllocator` hands out as it is. -/
def slotBuilder (mem : Memory) (slot payloadCapacity : Nat) : Builder :=
  .newIn payloadCapacity fun i => mem (slot + slotMetadataBytes + (payloadCapacity - 1 - i))

/-- The result with the memory behind it; `none` where the builder unwinds. The finished buffer
ends where the slot ends. -/
def serializeTransaction (mem : Memory) (slot payloadCapacity : Nat) (requestId : UInt64)
    (input : IncomingTransaction) (amountMicros : Int64) : Option (Except GatewayError PayloadRange × Memory) :=
  if slot + slotMetadataBytes = 0 then some (.error (.internal "null slot payload"), mem)
  else match buildTransaction requestId input amountMicros (slotBuilder mem slot payloadCapacity) with
    | none => none
    | some ((), builder) =>
      let size := builder.used
      let start := payloadCapacity - size
      let mem := writeBytes mem (slot + slotMetadataBytes + start) builder.bytes
      if start + size ≤ payloadCapacity then some (.ok ⟨slotMetadataBytes + start, size⟩, mem)
      else some (.error (.internal "invalid FlatBuffer slot bounds"), mem)

/-- The builder as `serialize_transaction` meets it, over a payload area of some size: `finishes` says
of the area as it stands that the finished buffer may be `size` bytes from `start`. -/
structure TransactionBuilder where
  finishes : (capacity : Nat) → (requestId : UInt64) → IncomingTransaction → (amountMicros : Int64) →
    (start size : Nat) → (payload : List UInt8) → Bool
  unwinds : (capacity : Nat) → (requestId : UInt64) → IncomingTransaction → (amountMicros : Int64) → Bool

/-- The check of `submit` before it reserves a slot; it goes on with the capacity of the slot. -/
def preflight (layout : Layout) (input : IncomingTransaction) : Except GatewayError Nat :=
  let payloadCapacity := layout.slotBytes.toNat - slotMetadataBytes
  if payloadCapacity < input.worstCaseBytes then
    .error (.invalid "transaction exceeds fixed shared-memory slot")
  else .ok payloadCapacity

def publishSuccess (mem : Memory) (base slot : Nat) (position requestId enqueueNs : UInt64)
    (range : PayloadRange) : Memory :=
  let mem := writeU32 mem (slot + 8) range.offset.toUInt32
  let mem := writeU32 mem (slot + 12) range.size.toUInt32
  let mem := writeU32 mem (slot + 16) daemonStatusIncomplete
  let mem := writeU32 mem (slot + 20) 0
  let mem := writeU32 mem (slot + 24) 0
  let mem := writeU64 mem (slot + 32) requestId.toNat
  let mem := writeU64 mem (slot + 40) enqueueNs.toNat
  let mem := writeU64 mem (slot + 48) 0
  let mem := writeU64 mem slot (position.toNat + 1)
  writeU64 mem (base + 192) (readLE mem (base + 192) 8 + 1)

end publication

section daemon

/-- A root table as the accessors show it; a string is `none` for a null pointer. -/
structure Transaction where
  requestId : UInt64
  transactionId : Option (List UInt8)
  accountId : Option (List UInt8)
  amountMicros : Int64
  currency : Option (List UInt8)
  occurredAtNs : UInt64
  merchantCategory : Option (List UInt8)
  deriving DecidableEq

/-- `VerifyTransactionBuffer` and `GetTransaction`. -/
structure TransactionReader where
  verify : List UInt8 → Bool
  getTransaction : List UInt8 → Option Transaction

structure TransactionView where
  requestId : UInt64
  transactionId : List UInt8
  accountId : List UInt8
  amountMicros : Int64
  currency : List UInt8
  occurredAtNs : UInt64
  merchantCategory : List UInt8
  deriving DecidableEq

def readU64 (mem : Memory) (addr : Nat) : UInt64 := UInt64.ofNat (readLE mem addr 8)

def viewOf (value : Option (List UInt8)) : List UInt8 := value.getD []

def Transaction.view (transaction : Transaction) : Option TransactionView :=
  match transaction.transactionId, transaction.accountId, transaction.currency with
  | some transactionId, some accountId, some currency => some {
      requestId := transaction.requestId, transactionId, accountId, currency
      amountMicros := transaction.amountMicros, occurredAtNs := transaction.occurredAtNs
      merchantCategory := viewOf transaction.merchantCategory }
  | _, _, _ => none

def decodeTransaction (reader : TransactionReader) (mem : Memory) (base slot : Nat) : Option TransactionView :=
  let slotSize := (readU32 mem (base + 16)).toNat
  let payloadOffset := (readU32 mem (slot + 8)).toNat
  let payloadSize := (readU32 mem (slot + 12)).toNat
  if !validHeader mem base || payloadSize = 0 || payloadOffset < slotMetadataBytes || slotSize < payloadOffset ||
      slotSize - payloadOffset < payloadSize then none
  else
    let bytes := readBytes mem (slot + payloadOffset) payloadSize
    if !reader.verify bytes then none
    else match (reader.getTransaction bytes).bind Transaction.view with
      | none => none
      | some view => if view.requestId = readU64 mem (slot + 32) then some view else none

end daemon

end FraudDetection.Codec
