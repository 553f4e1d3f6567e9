import FraudDetection.Daemon
import FraudDetection.Proofs.TransactionRoundTrip

/-!
# The slots of the ring and their bytes

The bytes of a segment stand for the slots of the ring: what the gateway writes to them, the writes
of the builder and the publications, are the writes of the ring, and the daemon decodes the bytes of
a slot as the ring's daemon decodes the slot. Builder and reader are any that keep the contract of
the library.
-/

namespace FraudDetection.Proofs
open FraudDetection.Library
open FraudDetection.Segment
open FraudDetection.Codec

section contract

variable {builder : TransactionBuilder} {reader : TransactionReader} {capacity : Nat}

/-- The contract of the FlatBuffers library over payload areas of a size, for transactions within the
gateway's estimate: the builder does not unwind, its buffer lies in the area, and the other side reads
from it what was written, whatever else the area holds. -/
structure LibraryContract (builder : TransactionBuilder) (reader : TransactionReader) (capacity : Nat) : Prop where
  completes : ∀ requestId input amountMicros, IncomingTransaction.worstCaseBytes input ≤ capacity →
    builder.unwinds capacity requestId input amountMicros = false
  inside : ∀ requestId input amountMicros start size payload, IncomingTransaction.worstCaseBytes input ≤ capacity →
    builder.finishes capacity requestId input amountMicros start size payload = true →
    0 < size ∧ start + size ≤ capacity
  readsBack : ∀ requestId input amountMicros start size payload, IncomingTransaction.worstCaseBytes input ≤ capacity →
    builder.finishes capacity requestId input amountMicros start size payload = true →
    ReadsAs reader ((payload.drop start).take size) (writtenTransaction requestId input amountMicros)

def bufferBuilder (requestId : UInt64) (input : IncomingTransaction) (amountMicros : Int64) (buffer : List UInt8) :
    TransactionBuilder where
  finishes capacity requestId' input' amountMicros' start size payload :=
    requestId' = requestId && input' = input && amountMicros' = amountMicros && size = buffer.length &&
      start + size ≤ capacity && (payload.drop start).take size = buffer
  unwinds _ _ _ _ := false

lemma bufferBuilder_contract (requestId : UInt64) (input : IncomingTransaction) (amountMicros : Int64)
    {buffer : List UInt8} (hpos : 0 < buffer.length) (capacity : Nat) :
    LibraryContract (bufferBuilder requestId input amountMicros buffer)
      (bufferReader buffer (writtenTransaction requestId input amountMicros)) capacity where
  completes _ _ _ _ := rfl
  inside _ _ _ _ _ _ _ h := by
    simp only [bufferBuilder, Bool.and_eq_true, decide_eq_true_eq] at h
    omega
  readsBack _ _ _ _ _ _ _ h := by
    simp only [bufferBuilder, Bool.and_eq_true, decide_eq_true_eq] at h
    obtain ⟨⟨⟨⟨⟨rfl, rfl⟩, rfl⟩, -⟩, -⟩, hbytes⟩ := h
    rw [hbytes]
    exact bufferReader_readsAs _ _

end contract

section decoding

variable {mem : Memory} {base slot : Nat}

def ringView (view : TransactionView) : Ring.TransactionView := ⟨view.requestId, view.amountMicros.toInt⟩

/-- The parser of the ring's daemon, from a reader of the bytes. -/
def ringParse (reader : TransactionReader) (bytes : List UInt8) : Option Ring.TransactionView :=
  if reader.verify bytes then ((reader.getTransaction bytes).bind Transaction.view).map ringView else none

/-- The daemon of the ring decodes a slot as the bytes of the slot are decoded. -/
theorem decodeTransaction_refines {cfg : Ring.Config} {dc : Ring.DaemonConfig} {reader : TransactionReader}
    (hparse : dc.parse = ringParse reader) (hheader : validHeader mem base = true)
    (hsize : (readU32 mem (base + 16)).toNat = cfg.slotSize) :
    Ring.decodeTransaction cfg dc (slotData mem slot cfg.slotSize) =
      (decodeTransaction reader mem base slot).map ringView := by
  unfold Ring.decodeTransaction decodeTransaction
  simp only [slotData, hheader, hsize, hparse, Bool.not_true, Bool.false_or, Bool.or_eq_true, decide_eq_true_eq,
    or_assoc]
  unfold Ring.slotMetadataBytes slotMetadataBytes
  generalize (readU32 mem (slot + 12)).toNat = size
  generalize (readU32 mem (slot + 8)).toNat = offset
  by_cases hrange : size = 0 ∨ offset < 64 ∨ cfg.slotSize < offset ∨ cfg.slotSize - offset < size
  · rw [if_pos hrange, if_pos hrange, Option.map_none]
  · have haddr : slot + 64 + (offset - 64) = slot + offset := by omega
    rw [if_neg hrange, if_neg hrange, readBytes_drop_take (by omega), haddr]
    generalize readBytes mem (slot + offset) size = bytes
    unfold ringParse
    cases hverify : reader.verify bytes with
    | false => rfl
    | true =>
      cases hview : (reader.getTransaction bytes).bind Transaction.view with
      | none => rfl
      | some view =>
        change (if view.requestId = _ then _ else _) = Option.map ringView (if view.requestId = _ then _ else _)
        split <;> rfl

end decoding

section writes

variable {mem mem' : Memory} {base bytes slot slotSize addr : Nat} {layout : Layout}

inductive SlotWrite where
  | store (position : UInt64) (start : Nat) (content : List UInt8)
  | publish (position requestId enqueueNs : UInt64) (range : PayloadRange)

def SlotWrite.position : SlotWrite → UInt64
  | .store position _ _ | .publish position _ _ _ => position

def SlotWrite.Fits (layout : Layout) : SlotWrite → Prop
  | .store _ start content => start + content.length ≤ layout.slotBytes.toNat - slotMetadataBytes
  | .publish _ _ _ _ => True

def SlotWrite.onBytes (layout : Layout) (base : Nat) (mem : Memory) : SlotWrite → Memory
  | .store position start content => writeBytes mem (layout.slot base position + slotMetadataBytes + start) content
  | .publish position requestId enqueueNs range =>
    publishSuccess mem base (layout.slot base position) position requestId enqueueNs range

def SlotWrite.fields : SlotWrite → List Ring.FieldWrite
  | .store _ start content => [.bytes start content]
  | .publish _ requestId enqueueNs range =>
    Ring.publicationWrites range.offset.toUInt32 range.size.toUInt32 Ring.daemonStatusIncomplete requestId enqueueNs

def SlotWrite.onSlot (slotCount i : Nat) (data : Ring.SlotData) (write : SlotWrite) : Ring.SlotData :=
  if write.position.toNat % slotCount = i then write.fields.foldl Ring.FieldWrite.apply data else data

/-- Slot `i` of the ring that a segment stands for. -/
def segmentSlot (layout : Layout) (base : Nat) (mem : Memory) (i : Nat) : Ring.SlotData :=
  slotData mem (base + sharedHeaderBytes + i * layout.slotBytes.toNat) layout.slotBytes.toNat

lemma slotData_congr (hsize : slotMetadataBytes ≤ slotSize)
    (h : ∀ addr, slot + 8 ≤ addr → addr < slot + slotSize → mem' addr = mem addr) :
    slotData mem' slot slotSize = slotData mem slot slotSize := by
  unfold slotMetadataBytes at hsize
  have hword : ∀ offset n, 8 ≤ offset → offset + n ≤ 64 → readLE mem' (slot + offset) n = readLE mem (slot + offset) n :=
    fun offset n hfrom hto => readLE_congr fun i hi => h _ (by omega) (by omega)
  have hpayload : readBytes mem' (slot + 64) (slotSize - 64) = readBytes mem (slot + 64) (slotSize - 64) :=
    readBytes_congr fun i hi => h _ (by omega) (by omega)
  unfold slotData slotMetadataBytes
  rw [hpayload]
  simp (disch := omega) only [readU32, readU64, hword]

lemma publishSuccess_of_disjoint {position requestId enqueueNs : UInt64} {range : PayloadRange}
    (hslot : addr < slot ∨ slot + 56 ≤ addr) (hready : addr < base + 192 ∨ base + 200 ≤ addr) :
    publishSuccess mem base slot position requestId enqueueNs range addr = mem addr := by
  unfold publishSuccess writeU32 writeU64
  simp (disch := omega) only [writeLE_of_disjoint]

lemma slotData_store {start : Nat} {content : List UInt8} (hfits : start + content.length ≤ slotSize - slotMetadataBytes) :
    slotData (writeBytes mem (slot + slotMetadataBytes + start) content) slot slotSize =
      (Ring.FieldWrite.bytes start content).apply (slotData mem slot slotSize) := by
  have hword : ∀ offset n, offset + n ≤ 64 →
      readLE (writeBytes mem (slot + slotMetadataBytes + start) content) (slot + offset) n = readLE mem (slot + offset) n :=
    fun offset n hto => readLE_writeBytes_of_disjoint (by unfold slotMetadataBytes; omega)
  unfold slotData Ring.FieldWrite.apply
  dsimp only
  rw [readBytes_writeBytes hfits]
  simp (disch := omega) only [readU32, readU64, hword]

theorem publishSuccess_refines {position requestId enqueueNs : UInt64} {range : PayloadRange} (hslot : base + 320 ≤ slot) :
    slotData (publishSuccess mem base slot position requestId enqueueNs range) slot slotSize =
      (Ring.publicationWrites range.offset.toUInt32 range.size.toUInt32 Ring.daemonStatusIncomplete requestId
        enqueueNs).foldl Ring.FieldWrite.apply (slotData mem slot slotSize) := by
  rw [slotData_publishSuccess slotSize hslot]
  rfl

lemma slot_eq (h : Accepted mem base bytes layout) (position : UInt64) :
    layout.slot base position =
      base + sharedHeaderBytes + position.toNat % layout.slotCount.toNat * layout.slotBytes.toNat :=
  h.admitted.slot_eq position

/-- A write leaves the header and the other slots alone. -/
lemma onBytes_of_disjoint (h : Accepted mem base bytes layout) {write : SlotWrite} (hfits : write.Fits layout)
    (hslot : addr < layout.slot base write.position ∨ layout.slot base write.position + layout.slotBytes.toNat ≤ addr)
    (hready : addr < base + 192 ∨ base + 200 ≤ addr) : write.onBytes layout base mem addr = mem addr := by
  have hmetadata := h.metadata_lt
  cases write with
  | store position start content =>
    unfold SlotWrite.Fits at hfits
    simp only [SlotWrite.position] at hslot
    unfold slotMetadataBytes at hfits
    refine if_neg ?_
    unfold slotMetadataBytes
    omega
  | publish position requestId enqueueNs range =>
    exact publishSuccess_of_disjoint (by simp only [SlotWrite.position] at hslot; omega) hready

lemma Accepted.onBytes (h : Accepted mem base bytes layout) {write : SlotWrite} (hfits : write.Fits layout) :
    Accepted (write.onBytes layout base mem) base bytes layout := by
  refine { h with header := h.header.congr fun addr haddr => ?_ }
  have hslot := header_le_slot layout base write.position
  rw [readU32, readU32, readLE_congr fun i hi => onBytes_of_disjoint h hfits (by omega) (by omega)]

lemma segmentSlot_onBytes (h : Accepted mem base bytes layout) {write : SlotWrite} (hfits : write.Fits layout)
    (i : Nat) :
    segmentSlot layout base (write.onBytes layout base mem) i =
      write.onSlot layout.slotCount.toNat i (segmentSlot layout base mem i) := by
  have hmetadata := h.metadata_lt
  have hslot := slot_eq h write.position
  unfold SlotWrite.onSlot
  split_ifs with hindex
  · rw [hindex] at hslot
    unfold segmentSlot
    rw [← hslot]
    cases write with
    | store position start content => exact slotData_store hfits
    | publish position requestId enqueueNs range => exact publishSuccess_refines (header_le_slot _ _ _)
  · refine slotData_congr (by unfold slotMetadataBytes; omega) fun addr hfrom hto => ?_
    refine onBytes_of_disjoint h hfits ?_ (by unfold sharedHeaderBytes at hfrom; omega)
    rw [hslot]
    rcases Nat.lt_or_gt_of_ne hindex with hlt | hlt
    · have hend := stride_le_of_lt (n := layout.slotBytes.toNat) hlt
      omega
    · have hend := stride_le_of_lt (n := layout.slotBytes.toNat) hlt
      omega

end writes

section run

variable {mem : Memory} {base bytes : Nat} {layout : Layout}

lemma segmentSlot_run (h : Accepted mem base bytes layout) {writes : List SlotWrite}
    (hfits : ∀ write ∈ writes, write.Fits layout) :
    Accepted (writes.foldl (SlotWrite.onBytes layout base) mem) base bytes layout ∧
      ∀ i, segmentSlot layout base (writes.foldl (SlotWrite.onBytes layout base) mem) i =
        writes.foldl (SlotWrite.onSlot layout.slotCount.toNat i) (segmentSlot layout base mem i) := by
  induction writes generalizing mem with
  | nil => exact ⟨h, fun _ => rfl⟩
  | cons write writes ih =>
    have hwrite := hfits write List.mem_cons_self
    obtain ⟨haccepted, hslots⟩ := ih (Accepted.onBytes h hwrite) fun w hw => hfits w (List.mem_cons_of_mem _ hw)
    refine ⟨haccepted, fun i => ?_⟩
    rw [List.foldl_cons, List.foldl_cons, hslots i, segmentSlot_onBytes h hwrite]

end run

end FraudDetection.Proofs
