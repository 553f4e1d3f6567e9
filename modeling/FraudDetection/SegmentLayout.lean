import Mathlib.Algebra.Group.Nat.Defs
import FraudDetection.Library.ByteMemory

/-!
# The layout of the shared segment

The dimensions and the header of the segment as the two processes check them: `checked_size`,
`initialize_segment`, `slot_at` and `valid_header` of the daemon, `validate_layout` and
`SharedSegment::slot` of the gateway. The segment is the bytes from `base` on; addresses and sizes
are 64-bit words that do not wrap, except where the code checks for it.
-/

namespace FraudDetection.Segment
open FraudDetection.Library

def sharedMagic : UInt32 := 0x46444950
def sharedVersion : UInt32 := 1
def sharedHeaderBytes : Nat := 320
def slotMetadataBytes : Nat := 64
def slotAlignment : Nat := 8

def readU32 (mem : Memory) (addr : Nat) : UInt32 := UInt32.ofNat (readLE mem addr 4)
def writeU32 (mem : Memory) (addr : Nat) (value : UInt32) : Memory := writeLE mem addr 4 value.toNat
def writeU64 (mem : Memory) (addr : Nat) (value : Nat) : Memory := writeLE mem addr 8 value

section daemon

/-- The size of a segment, if the daemon accepts its dimensions. -/
def checkedSize (slots stride : UInt32) : Option Nat :=
  if slots < 4 ∨ slots &&& (slots - 1) ≠ 0 ∨ stride.toNat < slotMetadataBytes ∨
      stride.toNat % slotAlignment ≠ 0 then none
  else if (2 ^ 64 - 1 - sharedHeaderBytes) / stride.toNat < slots.toNat then none
  else some (sharedHeaderBytes + slots.toNat * stride.toNat)

def slotAt (mem : Memory) (base : Nat) (position : UInt64) : Nat :=
  base + (readU32 mem (base + 8)).toNat +
    position.toNat % (readU32 mem (base + 12)).toNat * (readU32 mem (base + 16)).toNat

def writeHeader (mem : Memory) (base : Nat) (slotCount slotSize : UInt32) : Memory :=
  let mem := writeU32 mem base sharedMagic
  let mem := writeU32 mem (base + 4) sharedVersion
  let mem := writeU32 mem (base + 8) (UInt32.ofNat sharedHeaderBytes)
  let mem := writeU32 mem (base + 12) slotCount
  let mem := writeU32 mem (base + 16) slotSize
  let mem := writeU64 mem (base + 64) 0
  let mem := writeU64 mem (base + 128) 0
  let mem := writeU64 mem (base + 192) 0
  writeU32 mem (base + 256) 0

def initializeSlot (base : Nat) (mem : Memory) (i : Nat) : Memory :=
  let slot := slotAt mem base (UInt64.ofNat i)
  writeU32 (writeU64 mem slot i) (slot + 8) (UInt32.ofNat slotMetadataBytes)

/-- The memory after a successful initialization; `none` where it returns false. -/
def initializeSegment (mem : Memory) (base bytes : Nat) (slotCount slotSize : UInt32) : Option Memory :=
  match checkedSize slotCount slotSize with
  | none => none
  | some required =>
    if base = 0 ∨ bytes < required then none
    else
      let mem := writeHeader (fillBytes mem base required 0) base slotCount slotSize
      some ((List.range slotCount.toNat).foldl (initializeSlot base) mem)

def validHeader (mem : Memory) (base : Nat) : Bool :=
  let slotCount := readU32 mem (base + 12)
  let slotSize := readU32 mem (base + 16)
  readU32 mem base = sharedMagic && readU32 mem (base + 4) = sharedVersion &&
    (readU32 mem (base + 8)).toNat = sharedHeaderBytes && 4 ≤ slotCount &&
    slotCount &&& (slotCount - 1) = 0 && slotMetadataBytes ≤ slotSize.toNat &&
    slotSize.toNat % slotAlignment = 0

end daemon

section gateway

structure Layout where
  slotCount : UInt32
  slotBytes : UInt32
  segmentBytes : Nat
  deriving DecidableEq, Repr

structure AbiError where
  message : String
  deriving DecidableEq, Repr

def isPowerOfTwo (n : UInt32) : Bool := 2 ^ n.toNat.log2 = n.toNat

/-- The alignment check of `atomic_u64`. -/
def atomicU64 (base offset : Nat) : Except AbiError Unit :=
  if (base + offset) % 8 ≠ 0 then .error ⟨"unaligned shared AtomicU64"⟩ else .ok ()

def atomicU32 (base offset : Nat) : Except AbiError Unit :=
  if (base + offset) % 4 ≠ 0 then .error ⟨"unaligned shared AtomicU32"⟩ else .ok ()

def segmentSize (slotCount slotBytes : UInt32) : Except AbiError Nat :=
  let slots := slotCount.toNat * slotBytes.toNat
  if 2 ^ 64 ≤ slots then .error ⟨"slot dimensions overflow"⟩
  else if 2 ^ 64 ≤ sharedHeaderBytes + slots then .error ⟨"segment dimensions overflow"⟩
  else .ok (sharedHeaderBytes + slots)

def validateLayout (mem : Memory) (base bytes : Nat) : Except AbiError Layout := do
  if base = 0 ∨ bytes < sharedHeaderBytes then throw ⟨"shared segment is smaller than its header"⟩
  if readU32 mem base ≠ sharedMagic ∨ readU32 mem (base + 4) ≠ sharedVersion then
    throw ⟨"shared segment magic/version mismatch"⟩
  if (readU32 mem (base + 8)).toNat ≠ sharedHeaderBytes then throw ⟨"shared segment header size mismatch"⟩
  let slotCount := readU32 mem (base + 12)
  let slotBytes := readU32 mem (base + 16)
  if slotCount < 4 ∨ !isPowerOfTwo slotCount ∨ slotBytes.toNat ≤ slotMetadataBytes then
    throw ⟨"invalid slot dimensions"⟩
  let segmentBytes ← segmentSize slotCount slotBytes
  if bytes < segmentBytes then throw ⟨"shared segment is truncated"⟩
  [64, 128, 192].forM (atomicU64 base)
  atomicU32 base 256
  (List.range slotCount.toNat).forM fun index =>
    atomicU64 (base + (sharedHeaderBytes + index * slotBytes.toNat)) 0
  return ⟨slotCount, slotBytes, segmentBytes⟩

/-- `SharedSegment::slot` at the index of a position. -/
def Layout.slot (layout : Layout) (base : Nat) (position : UInt64) : Nat :=
  base + (sharedHeaderBytes + (position.toNat &&& (layout.slotCount.toNat - 1)) * layout.slotBytes.toNat)

end gateway

end FraudDetection.Segment
