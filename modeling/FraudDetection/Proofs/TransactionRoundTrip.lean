import FraudDetection.TransactionCodec
import FraudDetection.SharedRing
import FraudDetection.Proofs.LayoutAgreement

/-!
# The transaction codec round trip

The space that the builder needs is bounded from the effects of its operations, so a transaction
that passes the gateway's estimate is serialized at the end of its slot, and the daemon reads the
same bytes back from the offsets in the metadata.
-/

namespace FraudDetection.Proofs
open FraudDetection.Library
open FraudDetection.Library.FlatBuffers
open FraudDetection.Segment
open FraudDetection.Codec

section space

variable {requestId : UInt64} {input : IncomingTransaction} {amountMicros : Int64} {capacity : Nat}
  {old : Nat → UInt8}

lemma addOffset_allocates {slot : Nat} (target : Option Nat) (hslot : slot ≤ vtMerchantCategory) :
    Allocates vtMerchantCategory ⟨4, 0, []⟩ (addOffset slot target) := by
  cases target with
  | none => exact (Allocates.pure ()).mono (Nat.zero_le _) Nat.le.refl nofun
  | some target => exact (pushSlotAlways_allocates target hslot).mono Nat.le.refl (Nat.zero_le _) nofun

/-- A request id makes the alignment that of a 64-bit word. -/
lemma addFields_allocates {args : TransactionArgs} {transactionId accountId currency : Nat}
    (htransaction : args.transactionId = some transactionId) (haccount : args.accountId = some accountId)
    (hcurrency : args.currency = some currency) :
    Allocates vtMerchantCategory ⟨52, if args.requestId.toNat = 0 then 0 else 8,
      [vtTransactionId, vtAccountId, vtCurrency]⟩ (addFields args) := by
  unfold addFields
  rw [htransaction, haccount, hcurrency]
  refine ((pushSlot_allocates _ (by decide)).bind fun _ => (pushSlot_allocates _ (by decide)).bind fun _ =>
    (pushSlot_allocates _ (by decide)).bind fun _ => (addOffset_allocates _ (by decide)).bind fun _ =>
    (pushSlotAlways_allocates currency (by decide)).bind fun _ =>
    (pushSlotAlways_allocates accountId (by decide)).bind fun _ =>
    pushSlotAlways_allocates transactionId (by decide)).mono ?_ ?_ ?_
  · exact Nat.le.refl
  · dsimp only [Effect.andThen]
    omega
  · dsimp only [Effect.andThen]
    decide

lemma createOptionalString_allocates (value : Option (List UInt8)) :
    Allocates vtMerchantCategory ⟨(value.map List.length).getD 0 + 8, 0, []⟩ (createOptionalString value) := by
  cases value with
  | none => exact (Allocates.pure none).mono (Nat.zero_le _) Nat.le.refl nofun
  | some value =>
    exact ((createString_allocates value).bind fun offset => Allocates.pure (some offset)).mono Nat.le.refl
      (Nat.zero_le _) nofun

lemma required_eq_some {table : FinishedTable} {slot : Nat} (h : table.entry slot ≠ 0) (b : Builder) :
    required table slot b = some ((), b) := if_neg h

lemma finishTransaction_eq_some {b : Builder} (start : Nat) (hready : Ready vtMerchantCategory b)
    (hslots : ∀ slot ∈ [vtTransactionId, vtAccountId, vtCurrency], ∃ offset, (slot, offset) ∈ b.fieldLocs)
    (hroom : b.used + 22 ≤ b.capacity) :
    ∃ root b', finishTransaction start b = some (root, b') ∧ b'.capacity = b.capacity ∧ b'.used ≤ b.used + 22 ∧
      b'.minAlign = max b.minAlign 4 := by
  obtain ⟨table, b', hend, hcapacity, hused, halign, hentry⟩ :=
    endTable_eq_some start hready (by decide) hroom
  have hrequired : ∀ slot ∈ [vtTransactionId, vtAccountId, vtCurrency], required table slot b' = some ((), b') := by
    intro slot hslot
    obtain ⟨offset, hmem⟩ := hslots slot hslot
    exact required_eq_some (hentry slot offset hmem) b'
  have hfinish : finishTransaction start b = some (table.offset, b') :=
    (bind_of_eq_some hend).trans ((bind_of_eq_some (hrequired _ (by decide))).trans
      ((bind_of_eq_some (hrequired _ (by decide))).trans (bind_of_eq_some (hrequired _ (by decide)))))
  exact ⟨table.offset, b', hfinish, hcapacity, hused, halign⟩

/-- In a buffer with room for the estimate the builder finishes, within the estimate. -/
lemma buildTransaction_eq_some (hcapacity : input.worstCaseBytes ≤ capacity) :
    ∃ b, buildTransaction requestId input amountMicros (.newIn capacity old) = some ((), b) ∧ 0 < b.used ∧
      b.used ≤ input.worstCaseBytes ∧ (requestId ≠ 0 → b.used % 8 = 0) := by
  unfold IncomingTransaction.worstCaseBytes at hcapacity ⊢
  have hready : Ready vtMerchantCategory (.newIn capacity old) := .newIn capacity old
  have hc : (Builder.newIn capacity old).capacity = capacity := rfl
  have hused : (Builder.newIn capacity old).used ≤ 0 := Nat.le.refl
  -- the strings, then the fields behind them
  obtain ⟨transactionId, b₁, hrun₁, -, hready₁, hc₁, hused₁⟩ :=
    (createString_allocates input.transactionId).run hready hc hused (by dsimp only; omega)
  obtain ⟨accountId, b₂, hrun₂, -, hready₂, hc₂, hused₂⟩ :=
    (createString_allocates input.accountId).run hready₁ hc₁ hused₁ (by dsimp only; omega)
  obtain ⟨currency, b₃, hrun₃, -, hready₃, hc₃, hused₃⟩ :=
    (createString_allocates input.currency).run hready₂ hc₂ hused₂ (by dsimp only; omega)
  obtain ⟨merchantCategory, b₄, hrun₄, -, hready₄, hc₄, hused₄⟩ :=
    (createOptionalString_allocates input.merchantCategory).run hready₃ hc₃ hused₃ (by dsimp only; omega)
  let args : TransactionArgs := {
    requestId, transactionId := some transactionId, accountId := some accountId, amountMicros
    currency := some currency, occurredAtNs := input.occurredAtNs, merchantCategory }
  have hfields : Allocates _ _ (addFields args) := addFields_allocates rfl rfl rfl
  obtain ⟨_, b₅, hrun₅, hstep, hready₅, hc₅, hused₅⟩ := hfields.run hready₄ hc₄ hused₄ (by dsimp only; omega)
  dsimp only at hused₅
  obtain ⟨root, b₆, htable, hc₆, hused₆, halign⟩ :=
    finishTransaction_eq_some b₄.used hready₅ hstep.slots (by omega)
  have hle := hready₅.minAlign_le
  obtain ⟨b₇, hfinish, hlt, hused₇, hmod⟩ :=
    finish_eq_some (b := b₆) root (rfl : transactionIdentifier.length = 4) (by omega) (by omega) (by omega)
  -- a request id has raised the alignment to eight
  have height : requestId ≠ 0 → b₆.minAlign = 8 := by
    intro hrequest
    have hid : ¬ requestId.toNat = 0 := fun h => hrequest (UInt64.toNat_inj.mp h)
    have hge := hstep.alignment_le
    rw [if_neg hid] at hge
    dsimp only at hge
    omega
  refine ⟨b₇, ?_, by omega, by omega, fun hrequest => hmod (height hrequest)⟩
  unfold buildTransaction
  rw [hrun₁, hrun₂, hrun₃, hrun₄]
  have hcreate : createTransaction args b₄ = some (root, b₆) := by
    unfold createTransaction
    rw [bind_of_eq_some (get_eq_some b₄), hrun₅]
    exact htable
  exact (bind_of_eq_some hcreate).trans hfinish

end space

section memory

variable {mem : Memory} {base slot addr n : Nat} {position requestId enqueueNs : UInt64} {range : PayloadRange}

lemma header_le_slot (layout : Layout) (base : Nat) (position : UInt64) : base + 320 ≤ layout.slot base position := by
  unfold Layout.slot sharedHeaderBytes
  omega

/-- The slot of the ring that the bytes of a slot stand for. -/
def slotData (mem : Memory) (slot slotSize : Nat) : Ring.SlotData where
  payloadOffset := readU32 mem (slot + 8)
  payloadSize := readU32 mem (slot + 12)
  responseStatus := readU32 mem (slot + 16)
  decision := readU32 mem (slot + 20)
  score := readU32 mem (slot + 24)
  requestId := readU64 mem (slot + 32)
  enqueueNs := readU64 mem (slot + 40)
  completeNs := readU64 mem (slot + 48)
  payload := readBytes mem (slot + slotMetadataBytes) (slotSize - slotMetadataBytes)

lemma readLE_publishSuccess_of_disjoint (hslot : addr + n ≤ slot ∨ slot + 56 ≤ addr)
    (hready : addr + n ≤ base + 192 ∨ base + 200 ≤ addr) :
    readLE (publishSuccess mem base slot position requestId enqueueNs range) addr n = readLE mem addr n := by
  unfold publishSuccess writeU32 writeU64
  simp (disch := omega) only [readLE_writeLE_of_disjoint]

lemma readBytes_publishSuccess_of_disjoint (hslot : addr + n ≤ slot ∨ slot + 56 ≤ addr)
    (hready : addr + n ≤ base + 192 ∨ base + 200 ≤ addr) :
    readBytes (publishSuccess mem base slot position requestId enqueueNs range) addr n = readBytes mem addr n := by
  unfold publishSuccess writeU32 writeU64
  simp (disch := omega) only [readBytes_writeLE_of_disjoint]

lemma readU64_writeU64_self (value : Nat) : readU64 (writeU64 mem addr value) addr = UInt64.ofNat value := by
  rw [readU64, writeU64, readLE_writeLE_self]
  exact UInt64.toNat_inj.mp (Nat.mod_mod value (2 ^ 64))

lemma readU64_writeU64_of_disjoint {addr' : Nat} (value : Nat) (h : addr + 8 ≤ addr' ∨ addr' + 8 ≤ addr) :
    readU64 (writeU64 mem addr' value) addr = readU64 mem addr := by
  rw [readU64, writeU64, readLE_writeLE_of_disjoint h, readU64]

lemma slotData_publishSuccess (slotSize : Nat) (hslot : base + 320 ≤ slot) :
    slotData (publishSuccess mem base slot position requestId enqueueNs range) slot slotSize =
      ⟨range.offset.toUInt32, range.size.toUInt32, Ring.daemonStatusIncomplete, 0, 0, requestId, enqueueNs, 0,
        readBytes mem (slot + slotMetadataBytes) (slotSize - slotMetadataBytes)⟩ := by
  unfold slotData slotMetadataBytes
  rw [readBytes_publishSuccess_of_disjoint (by omega) (by omega)]
  unfold publishSuccess
  simp (disch := omega) only [readU32_writeU32_self, readU32_writeU32_of_disjoint, readU32_writeU64_of_disjoint,
    readU64_writeU64_self, readU64_writeU64_of_disjoint, UInt64.ofNat_toNat]
  rfl

end memory

section decode

variable {reader : TransactionReader} {mem : Memory} {base slot : Nat} {view : TransactionView}

structure PayloadChecked (reader : TransactionReader) (mem : Memory) (base slot : Nat) (view : TransactionView) :
    Prop where
  header : validHeader mem base = true
  offset_ge : slotMetadataBytes ≤ (readU32 mem (slot + 8)).toNat
  nonempty : 0 < (readU32 mem (slot + 12)).toNat
  inside : (readU32 mem (slot + 8)).toNat + (readU32 mem (slot + 12)).toNat ≤ (readU32 mem (base + 16)).toNat
  verified : reader.verify (readBytes mem (slot + (readU32 mem (slot + 8)).toNat) (readU32 mem (slot + 12)).toNat) = true
  read : (reader.getTransaction (readBytes mem (slot + (readU32 mem (slot + 8)).toNat)
    (readU32 mem (slot + 12)).toNat)).bind Transaction.view = some view
  requestId : view.requestId = readU64 mem (slot + 32)

lemma decodeTransaction_eq_some_iff :
    decodeTransaction reader mem base slot = some view ↔ PayloadChecked reader mem base slot view := by
  unfold decodeTransaction
  dsimp only
  constructor
  · intro h
    split at h
    · cases h
    · rename_i hrange
      simp only [Bool.or_eq_true, Bool.not_eq_true', decide_eq_true_eq, not_or, Bool.not_eq_false] at hrange
      obtain ⟨⟨⟨⟨hheader, hsize⟩, hoffset⟩, hle⟩, hfits⟩ := hrange
      split at h
      · cases h
      · rename_i hverify
        split at h
        · cases h
        · rename_i hread
          split at h
          · rename_i hid
            cases h
            exact ⟨hheader, by omega, by omega, by omega, by simpa only [Bool.not_eq_true', Bool.not_eq_false] using
              hverify, hread, hid⟩
          · cases h
  · intro h
    have hoffset := h.offset_ge
    have hsize := h.nonempty
    have hinside := h.inside
    rw [if_neg ?_, if_neg ?_, h.read]
    · exact if_pos h.requestId
    · rw [h.verified]
      exact nofun
    · simp only [Bool.or_eq_true, Bool.not_eq_true', decide_eq_true_eq, not_or, Bool.not_eq_false]
      exact ⟨⟨⟨⟨h.header, by omega⟩, by omega⟩, by omega⟩, by omega⟩

end decode

section roundTrip

variable {reader : TransactionReader} {mem : Memory} {base bytes slot capacity : Nat} {layout : Layout}
  {input : IncomingTransaction} {amountMicros : Int64} {requestId enqueueNs position : UInt64} {b : Builder}

/-- The fields of a serialized transaction, as the accessors show them. -/
def writtenTransaction (requestId : UInt64) (input : IncomingTransaction) (amountMicros : Int64) : Transaction where
  requestId := requestId
  transactionId := some input.transactionId
  accountId := some input.accountId
  amountMicros := amountMicros
  currency := some input.currency
  occurredAtNs := input.occurredAtNs
  merchantCategory := input.merchantCategory

def ReadsAs (reader : TransactionReader) (buffer : List UInt8) (transaction : Transaction) : Prop :=
  reader.verify buffer = true ∧ reader.getTransaction buffer = some transaction

/-- The contract of the library for one buffer, from the builder over what the slot holds. -/
def ReadsBack (reader : TransactionReader) (start : Builder) (requestId : UInt64) (input : IncomingTransaction)
    (amountMicros : Int64) : Prop :=
  ∀ b, buildTransaction requestId input amountMicros start = some ((), b) →
    ReadsAs reader b.bytes (writtenTransaction requestId input amountMicros)

structure Delivered (reader : TransactionReader) (mem : Memory) (base slot : Nat) (requestId : UInt64)
    (input : IncomingTransaction) : Prop where
  offset_ge : slotMetadataBytes ≤ (readU32 mem (slot + 8)).toNat
  aligned : (readU32 mem (slot + 8)).toNat % 8 = 0
  inside : (readU32 mem (slot + 8)).toNat + (readU32 mem (slot + 12)).toNat ≤ (readU32 mem (base + 16)).toNat
  decoded : decodeTransaction reader mem base slot = some {
    requestId, transactionId := input.transactionId, accountId := input.accountId
    amountMicros := input.amountMicros, currency := input.currency, occurredAtNs := input.occurredAtNs
    merchantCategory := input.merchantCategory.getD [] }
  absent : input.merchantCategory.getD [] = [] ↔ input.merchantCategory = none

lemma serializeTransaction_eq_some (hbuild : buildTransaction requestId input amountMicros
    (slotBuilder mem slot capacity) = some ((), b)) (hused : b.used ≤ capacity) :
    serializeTransaction mem slot capacity requestId input amountMicros =
      some (.ok ⟨slotMetadataBytes + (capacity - b.used), b.used⟩,
        writeBytes mem (slot + slotMetadataBytes + (capacity - b.used)) b.bytes) := by
  have hbounds : capacity - b.used + b.used ≤ capacity := by omega
  have hnull : ¬ slot + slotMetadataBytes = 0 := by
    unfold slotMetadataBytes
    omega
  unfold serializeTransaction
  rw [if_neg hnull, hbuild]
  exact if_pos hbounds

lemma validate_category (h : input.validate = .ok amountMicros) :
    amountMicros = input.amountMicros ∧
      (input.merchantCategory.getD [] = [] ↔ input.merchantCategory = none) := by
  unfold IncomingTransaction.validate at h
  split at h
  · cases h
  · split at h
    · cases h
    · rename_i hcategory
      split at h
      · cases h
      · cases h
        refine ⟨rfl, ?_⟩
        cases hinput : input.merchantCategory with
        | none => exact iff_of_true rfl rfl
        | some category =>
          refine iff_of_false (fun hempty => hcategory ?_) nofun
          rw [Option.getD_some] at hempty
          rw [hinput, hempty]
          rfl

def writtenView (requestId : UInt64) (input : IncomingTransaction) (amountMicros : Int64) : TransactionView where
  requestId := requestId
  transactionId := input.transactionId
  accountId := input.accountId
  amountMicros := amountMicros
  currency := input.currency
  occurredAtNs := input.occurredAtNs
  merchantCategory := input.merchantCategory.getD []

/-- The slot behind the publication of a buffer that stands in its payload area. -/
structure Published (reader : TransactionReader) (mem : Memory) (base slot start size slotBytes : Nat)
    (view : TransactionView) : Prop where
  offset : (readU32 mem (slot + 8)).toNat = slotMetadataBytes + start
  size : (readU32 mem (slot + 12)).toNat = size
  stride : (readU32 mem (base + 16)).toNat = slotBytes
  decoded : decodeTransaction reader mem base slot = some view

lemma published_of_reads {start size : Nat} (hlayout : Accepted mem base bytes layout) (hslot : base + 320 ≤ slot)
    (hpos : 0 < size) (hinside : slotMetadataBytes + start + size ≤ layout.slotBytes.toNat)
    (hreads : ReadsAs reader (readBytes mem (slot + slotMetadataBytes + start) size)
      (writtenTransaction requestId input amountMicros)) :
    Published reader (publishSuccess mem base slot position requestId enqueueNs ⟨slotMetadataBytes + start, size⟩) base
      slot start size layout.slotBytes.toNat (writtenView requestId input amountMicros) := by
  obtain ⟨hverify, hget⟩ := hreads
  have hlt : layout.slotBytes.toNat < 2 ^ 32 := layout.slotBytes.toNat_lt
  unfold slotMetadataBytes at *
  generalize hmem : publishSuccess mem base slot position requestId enqueueNs _ = mem'
  have hheader : HeaderIs mem' base layout.slotCount layout.slotBytes := by
    refine hlayout.header.congr fun addr haddr => ?_
    rw [← hmem, readU32, readLE_publishSuccess_of_disjoint (by omega) (by omega), readU32]
  have hdata := hmem ▸ slotData_publishSuccess 0 hslot
  have hoffset : (readU32 mem' (slot + 8)).toNat = 64 + start := by
    rw [show readU32 mem' (slot + 8) = _ from congrArg Ring.SlotData.payloadOffset hdata]
    exact Nat.mod_eq_of_lt (by dsimp only; omega)
  have hsize : (readU32 mem' (slot + 12)).toNat = size := by
    rw [show readU32 mem' (slot + 12) = _ from congrArg Ring.SlotData.payloadSize hdata]
    exact Nat.mod_eq_of_lt (by dsimp only; omega)
  have hid : readU64 mem' (slot + 32) = requestId := congrArg Ring.SlotData.requestId hdata
  have hbytes : readBytes mem' (slot + (64 + start)) size = readBytes mem (slot + 64 + start) size := by
    rw [← hmem, readBytes_publishSuccess_of_disjoint (by omega) (by omega), ← Nat.add_assoc]
  have hstride : (readU32 mem' (base + 16)).toNat = layout.slotBytes.toNat := by rw [hheader.slotSize]
  refine ⟨hoffset, hsize, hstride,
    decodeTransaction_eq_some_iff.mpr ⟨hheader.validHeader hlayout.admitted, ?_, ?_, ?_, ?_, ?_, hid.symm⟩⟩
  · rw [hoffset]
    exact Nat.le_add_right 64 start
  · omega
  · omega
  · rw [hoffset, hsize, hbytes, hverify]
  · rw [hoffset, hsize, hbytes, hget]
    rfl

lemma delivered_of_build (hlayout : Accepted mem base bytes layout)
    (hcapacity : capacity = layout.slotBytes.toNat - slotMetadataBytes)
    (hslot : base + 320 ≤ slot) (hvalid : input.validate = .ok amountMicros)
    (hbuild : buildTransaction requestId input amountMicros (slotBuilder mem slot capacity) = some ((), b))
    (hpos : 0 < b.used) (hused : b.used ≤ capacity) (hmod : b.used % 8 = 0)
    (hread : ReadsBack reader (slotBuilder mem slot capacity) requestId input amountMicros) :
    Delivered reader (publishSuccess (writeBytes mem (slot + slotMetadataBytes + (capacity - b.used)) b.bytes) base
      slot position requestId enqueueNs ⟨slotMetadataBytes + (capacity - b.used), b.used⟩) base slot requestId
      input := by
  obtain ⟨rfl, habsent⟩ := validate_category hvalid
  have hmetadata := hlayout.metadata_lt
  have haligned := hlayout.admitted.aligned
  unfold slotMetadataBytes at hcapacity
  have hwritten : Accepted (writeBytes mem (slot + slotMetadataBytes + (capacity - b.used)) b.bytes) base bytes layout := by
    refine { hlayout with header := hlayout.header.congr fun addr haddr => ?_ }
    rw [readU32, readLE_writeBytes_of_disjoint (by unfold slotMetadataBytes; omega), readU32]
  have hreads : ReadsAs reader (readBytes (writeBytes mem (slot + slotMetadataBytes + (capacity - b.used)) b.bytes)
      (slot + slotMetadataBytes + (capacity - b.used)) b.used) (writtenTransaction requestId input input.amountMicros) := by
    rw [readBytes_writeBytes_self]
    exact hread b hbuild
  have hinside : slotMetadataBytes + (capacity - b.used) + b.used ≤ layout.slotBytes.toNat := by
    unfold slotMetadataBytes
    omega
  have hpublished : Published reader (publishSuccess _ base slot position requestId enqueueNs _) base slot _ _ _ _ :=
    published_of_reads hwritten hslot hpos hinside hreads
  have hoffset := hpublished.offset
  have hsize := hpublished.size
  have hstride := hpublished.stride
  unfold slotMetadataBytes at *
  exact ⟨by unfold slotMetadataBytes; omega, by omega, by omega, hpublished.decoded, habsent⟩

/-- A transaction that passed the gateway's checks is what the daemon decodes, wherever its slot
is; and whatever the metadata, the daemon only accepts a payload inside the slot that carries the
slot's request id. -/
theorem transaction_round_trip (reader : TransactionReader) :
    (∀ (mem : Memory) (base bytes : Nat) (layout : Layout) (position requestId enqueueNs : UInt64)
        (input : IncomingTransaction) (amountMicros : Int64),
      validateLayout mem base bytes = .ok layout → input.validate = .ok amountMicros →
      input.worstCaseBytes ≤ layout.slotBytes.toNat - slotMetadataBytes → requestId ≠ 0 →
      ReadsBack reader (slotBuilder mem (layout.slot base position) (layout.slotBytes.toNat - slotMetadataBytes))
        requestId input amountMicros →
      ∃ range mem', serializeTransaction mem (layout.slot base position)
          (layout.slotBytes.toNat - slotMetadataBytes) requestId input amountMicros = some (.ok range, mem') ∧
        Delivered reader (publishSuccess mem' base (layout.slot base position) position requestId enqueueNs range)
          base (layout.slot base position) requestId input) ∧
    ∀ (mem : Memory) (base slot : Nat) (view : TransactionView),
      decodeTransaction reader mem base slot = some view → PayloadChecked reader mem base slot view := by
  refine ⟨?_, fun mem base slot view => decodeTransaction_eq_some_iff.mp⟩
  intro mem base bytes layout position requestId enqueueNs input amountMicros hlayout hvalid hfits hrequest hread
  have hacc := validateLayout_eq_ok_iff.mp hlayout
  have hslot := header_le_slot layout base position
  obtain ⟨b, hbuild, hpos, hbound, hmod⟩ := buildTransaction_eq_some hfits
  have hused := Nat.le_trans hbound hfits
  exact ⟨_, _, serializeTransaction_eq_some hbuild hused,
    delivered_of_build hacc rfl hslot hvalid hbuild hpos hused (hmod hrequest) hread⟩

def refund : IncomingTransaction :=
  ⟨[0x74, 0x2D, 0x31], [0x61, 0x63, 0x63, 0x74, 0x2E, 0x37], -5, [0x55, 0x53, 0x44], 0, some [0x62, 0x61, 0x72]⟩

def bufferReader (buffer : List UInt8) (transaction : Transaction) : TransactionReader where
  verify bytes := bytes = buffer
  getTransaction bytes := if bytes = buffer then some transaction else none

lemma bufferReader_readsAs (buffer : List UInt8) (transaction : Transaction) :
    ReadsAs (bufferReader buffer transaction) buffer transaction :=
  ⟨decide_eq_true rfl, if_pos rfl⟩

/-- A refund in a segment of the default dimensions, with a reader of its buffer. -/
theorem transaction_round_trip_refund : ∃ (mem : Memory) (reader : TransactionReader) (range : PayloadRange)
      (mem' : Memory),
    validateLayout mem 4096 4194624 = .ok ⟨1024, 4096, 4194624⟩ ∧
    serializeTransaction mem (Layout.slot ⟨1024, 4096, 4194624⟩ 4096 5) 4032 77 refund (-5) =
      some (.ok range, mem') ∧
    Delivered reader (publishSuccess mem' 4096 (Layout.slot ⟨1024, 4096, 4194624⟩ 4096 5) 5 77 1000 range)
      4096 (Layout.slot ⟨1024, 4096, 4194624⟩ 4096 5) 77 refund := by
  have hsize : checkedSize 1024 4096 = some 4194624 := by decide
  obtain ⟨mem, -, hheader⟩ :=
    initializeSegment_headerIs (fun _ => 0) (by decide : 4096 ≠ 0) (Nat.le_refl 4194624) hsize
  have hlayout : validateLayout mem 4096 4194624 = .ok ⟨1024, 4096, 4194624⟩ :=
    validateLayout_eq_ok_iff.mpr ((accepted_iff hheader (checkedSize_eq hsize).1 (by decide) (by decide)
      (by decide)).mpr (by decide))
  have hfits : refund.worstCaseBytes ≤ 4032 := by decide
  have hbuilds : ∃ b, buildTransaction 77 refund (-5)
      (slotBuilder mem (Layout.slot ⟨1024, 4096, 4194624⟩ 4096 5) 4032) = some ((), b) := by
    obtain ⟨b, hbuild, -⟩ := buildTransaction_eq_some hfits
    exact ⟨b, hbuild⟩
  obtain ⟨b, hbuild⟩ := hbuilds
  obtain ⟨range, mem', hserialize, hdelivered⟩ :=
    (transaction_round_trip (bufferReader b.bytes (writtenTransaction 77 refund (-5)))).1 mem 4096 4194624
      ⟨1024, 4096, 4194624⟩ 5 77 1000 refund (-5) hlayout (by decide +kernel) hfits (by decide) fun b' hbuild' => by
        cases hbuild.symm.trans hbuild'
        exact bufferReader_readsAs _ _
  exact ⟨mem, _, range, mem', hlayout, hserialize, hdelivered⟩

end roundTrip

lemma preflight_eq_ok {input : IncomingTransaction} {layout : Layout} {payloadCapacity : Nat}
    (h : preflight layout input = .ok payloadCapacity) :
    payloadCapacity = layout.slotBytes.toNat - slotMetadataBytes ∧ input.worstCaseBytes ≤ payloadCapacity := by
  unfold preflight at h
  dsimp only at h
  by_cases hlarge : layout.slotBytes.toNat - slotMetadataBytes < input.worstCaseBytes
  · rw [if_pos hlarge] at h
    cases h
  · rw [if_neg hlarge] at h
    cases h
    exact ⟨rfl, Nat.le_of_not_lt hlarge⟩

/-- The estimate bounds the finished size, whatever the strings, the scalars and the buffer are. So behind the
preflight the builder never unwinds, and its range lies in the payload area of the slot. -/
theorem preflight_bounds_serialization (requestId : UInt64) (input : IncomingTransaction) (amountMicros : Int64) :
    (∀ capacity old, input.worstCaseBytes ≤ capacity →
      ∃ b, buildTransaction requestId input amountMicros (.newIn capacity old) = some ((), b) ∧
        b.used ≤ input.worstCaseBytes) ∧
    ∀ (layout : Layout) (payloadCapacity : Nat), preflight layout input = .ok payloadCapacity →
      ∀ (mem : Memory) (slot : Nat), ∃ range mem',
        serializeTransaction mem slot payloadCapacity requestId input amountMicros = some (.ok range, mem') ∧
          range.size ≤ input.worstCaseBytes ∧ slotMetadataBytes ≤ range.offset ∧
          range.offset + range.size ≤ layout.slotBytes.toNat := by
  constructor
  · intro capacity old hcapacity
    obtain ⟨b, hbuild, -, hbound, -⟩ := buildTransaction_eq_some hcapacity
    exact ⟨b, hbuild, hbound⟩
  · intro layout payloadCapacity hpreflight mem slot
    obtain ⟨rfl, hfits⟩ := preflight_eq_ok hpreflight
    obtain ⟨b, hbuild, hpos, hbound, -⟩ := buildTransaction_eq_some hfits
    have hused := Nat.le_trans hbound hfits
    refine ⟨_, _, serializeTransaction_eq_some hbuild hused, hbound, Nat.le_add_right _ _, ?_⟩
    dsimp only
    omega

/-- Identifiers of one byte, a category of seven, and all scalars zero. -/
def zeroTransaction : IncomingTransaction :=
  ⟨[0x61], [0x62], 0, [0x63], 0, some [0x67, 0x72, 0x6F, 0x63, 0x65, 0x72, 0x79]⟩

theorem preflight_bounds_zero_transaction :
    preflight ⟨2, 256, 832⟩ zeroTransaction = .ok 192 ∧
      ∃ range mem', serializeTransaction (fun _ => 0) 4096 192 0 zeroTransaction 0 = some (.ok range, mem') ∧
        range.size ≤ zeroTransaction.worstCaseBytes ∧ slotMetadataBytes ≤ range.offset ∧
        range.offset + range.size ≤ 256 := by
  have hpreflight : preflight ⟨2, 256, 832⟩ zeroTransaction = .ok 192 := by decide
  exact ⟨hpreflight,
    (preflight_bounds_serialization 0 zeroTransaction 0).2 ⟨2, 256, 832⟩ 192 hpreflight (fun _ => 0) 4096⟩

end FraudDetection.Proofs
