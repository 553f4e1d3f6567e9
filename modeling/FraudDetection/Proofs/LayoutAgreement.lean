import FraudDetection.Library.Outcomes
import FraudDetection.SegmentLayout

/-!
# Agreement on the segment layout

What the daemon writes into the header is what the gateway reads, so the two validators and the two
address computations can be compared on the dimensions alone. They differ in one case: the daemon
accepts slots that hold nothing but their metadata.
-/

namespace FraudDetection.Proofs
open FraudDetection.Library
open FraudDetection.Segment

section words

variable {mem : Memory} {addr addr' : Nat}

@[simp]
lemma readU32_writeU32_self (value : UInt32) : readU32 (writeU32 mem addr value) addr = value := by
  have hlt : value.toNat < 256 ^ 4 := value.toNat_lt
  rw [readU32, writeU32, readLE_writeLE_self, Nat.mod_eq_of_lt hlt, UInt32.ofNat_toNat]

lemma readU32_writeU32_of_disjoint (value : UInt32) (h : addr + 4 ≤ addr' ∨ addr' + 4 ≤ addr) :
    readU32 (writeU32 mem addr' value) addr = readU32 mem addr := by
  rw [readU32, writeU32, readLE_writeLE_of_disjoint h, readU32]

lemma readU32_writeU64_of_disjoint (value : Nat) (h : addr + 4 ≤ addr' ∨ addr' + 8 ≤ addr) :
    readU32 (writeU64 mem addr' value) addr = readU32 mem addr := by
  rw [readU32, writeU64, readLE_writeLE_of_disjoint h, readU32]

end words

structure HeaderIs (mem : Memory) (base : Nat) (slots stride : UInt32) : Prop where
  magic : readU32 mem base = sharedMagic
  version : readU32 mem (base + 4) = sharedVersion
  headerBytes : readU32 mem (base + 8) = UInt32.ofNat sharedHeaderBytes
  slotCount : readU32 mem (base + 12) = slots
  slotSize : readU32 mem (base + 16) = stride

section header

variable {mem : Memory} {base bytes required : Nat} {slots stride : UInt32}

lemma writeHeader_headerIs : HeaderIs (writeHeader mem base slots stride) base slots stride := by
  unfold writeHeader
  constructor <;> simp (disch := omega) only [readU32_writeU32_self, readU32_writeU32_of_disjoint,
    readU32_writeU64_of_disjoint]

lemma sharedHeaderBytes_toNat : (UInt32.ofNat sharedHeaderBytes).toNat = 320 := by
  decide

lemma HeaderIs.slotAt (h : HeaderIs mem base slots stride) (position : UInt64) :
    slotAt mem base position = base + 320 + position.toNat % slots.toNat * stride.toNat := by
  rw [Segment.slotAt, h.headerBytes, h.slotCount, h.slotSize, sharedHeaderBytes_toNat]

lemma HeaderIs.congr {mem' : Memory} (h : HeaderIs mem base slots stride)
    (hmem : ∀ addr, addr + 4 ≤ base + 20 → readU32 mem' addr = readU32 mem addr) :
    HeaderIs mem' base slots stride :=
  ⟨(hmem _ (by omega)).trans h.magic, (hmem _ (by omega)).trans h.version, (hmem _ (by omega)).trans h.headerBytes,
    (hmem _ (by omega)).trans h.slotCount, (hmem _ (by omega)).trans h.slotSize⟩

lemma HeaderIs.initializeSlot (h : HeaderIs mem base slots stride) (i : Nat) :
    HeaderIs (initializeSlot base mem i) base slots stride := by
  have hslot := h.slotAt (UInt64.ofNat i)
  refine h.congr fun addr haddr => ?_
  unfold Segment.initializeSlot
  rw [hslot, readU32_writeU32_of_disjoint _ (by omega), readU32_writeU64_of_disjoint _ (by omega)]

lemma HeaderIs.initializeSlots (h : HeaderIs mem base slots stride) (indices : List Nat) :
    HeaderIs (indices.foldl (Segment.initializeSlot base) mem) base slots stride := by
  induction indices generalizing mem with
  | nil => exact h
  | cons i indices ih => exact ih (h.initializeSlot i)

/-- Dimensions that the daemon accepts can be initialized, and the header then holds them. -/
lemma initializeSegment_headerIs (mem : Memory) (hbase : base ≠ 0) (hbytes : required ≤ bytes)
    (h : checkedSize slots stride = some required) :
    ∃ mem', initializeSegment mem base bytes slots stride = some mem' ∧ HeaderIs mem' base slots stride := by
  have hfits : ¬ (base = 0 ∨ bytes < required) := by omega
  have hmem : initializeSegment mem base bytes slots stride = some ((List.range slots.toNat).foldl
      (initializeSlot base) (writeHeader (fillBytes mem base required 0) base slots stride)) := by
    rw [initializeSegment, h]
    exact if_neg hfits
  exact ⟨_, hmem, writeHeader_headerIs.initializeSlots _⟩

end header

section dimensions

variable {slots stride : UInt32} {required : Nat}

lemma and_pred_eq_zero_iff {n : UInt32} (hn : 4 ≤ n) : n &&& (n - 1) = 0 ↔ n.toNat.isPowerOfTwo := by
  have hle : 4 ≤ n.toNat := UInt32.le_iff_toNat_le.mp hn
  have hpred : (n - 1).toNat = n.toNat - 1 := UInt32.toNat_sub_of_le n 1 (UInt32.le_iff_toNat_le.mpr (by
    change 1 ≤ n.toNat
    omega))
  rw [← Nat.and_sub_one_eq_zero_iff_isPowerOfTwo (by omega : n.toNat ≠ 0), ← UInt32.toNat_inj,
    UInt32.toNat_and, hpred]
  rfl

lemma isPowerOfTwo_iff {n : UInt32} : isPowerOfTwo n = true ↔ n.toNat.isPowerOfTwo := by
  unfold isPowerOfTwo
  rw [decide_eq_true_iff]
  constructor
  · intro h
    exact ⟨n.toNat.log2, h.symm⟩
  · rintro ⟨k, hk⟩
    rw [hk, Nat.log2_two_pow]

/-- What the daemon accepts, apart from the test for overflow, which never fails. -/
structure Admitted (slots stride : UInt32) : Prop where
  four_le : 4 ≤ slots
  power : slots.toNat.isPowerOfTwo
  metadata_le : 64 ≤ stride.toNat
  aligned : stride.toNat % 8 = 0

lemma checkedSize_eq (h : checkedSize slots stride = some required) :
    Admitted slots stride ∧ required = 320 + slots.toNat * stride.toNat := by
  unfold checkedSize at h
  split at h
  · cases h
  · rename_i hdims
    split at h
    · cases h
    · cases h
      simp only [not_or, ne_eq, Classical.not_not] at hdims
      obtain ⟨hslots, hpower, hmetadata, haligned⟩ := hdims
      have hfour := UInt32.not_lt.mp hslots
      exact ⟨⟨hfour, (and_pred_eq_zero_iff hfour).mp hpower, Nat.not_lt.mp hmetadata, haligned⟩, rfl⟩

lemma segmentSize_eq (slots stride : UInt32) : segmentSize slots stride = .ok (320 + slots.toNat * stride.toNat) := by
  have hslots : slots.toNat ≤ 2 ^ 32 - 1 := Nat.le_pred_of_lt slots.toNat_lt
  have hstride : stride.toNat ≤ 2 ^ 32 - 1 := Nat.le_pred_of_lt stride.toNat_lt
  have hmul : slots.toNat * stride.toNat ≤ (2 ^ 32 - 1) * (2 ^ 32 - 1) := Nat.mul_le_mul hslots hstride
  unfold segmentSize sharedHeaderBytes
  dsimp only
  rw [if_neg (by omega), if_neg (by omega)]

lemma atomicU64_eq_ok_iff {base offset : Nat} : atomicU64 base offset = .ok () ↔ (base + offset) % 8 = 0 := by
  unfold atomicU64
  split
  · exact iff_of_false nofun ‹_›
  · exact iff_of_true rfl (Classical.not_not.mp ‹_›)

end dimensions

section validate

variable {mem : Memory} {base bytes : Nat} {layout : Layout} {slots stride : UInt32} {required : Nat}

structure Accepted (mem : Memory) (base bytes : Nat) (layout : Layout) : Prop where
  mapped : base ≠ 0
  header : HeaderIs mem base layout.slotCount layout.slotBytes
  four_le : 4 ≤ layout.slotCount
  power : layout.slotCount.toNat.isPowerOfTwo
  metadata_lt : 64 < layout.slotBytes.toNat
  size : layout.segmentBytes = 320 + layout.slotCount.toNat * layout.slotBytes.toNat
  fits : layout.segmentBytes ≤ bytes
  counters : base % 8 = 0
  slots : ∀ i < layout.slotCount.toNat, (base + (320 + i * layout.slotBytes.toNat)) % 8 = 0

lemma atomicU64_header_iff : [64, 128, 192].forM (atomicU64 base) = .ok () ↔ base % 8 = 0 := by
  rw [forM_eq_ok_iff]
  simp only [atomicU64_eq_ok_iff, List.mem_cons, List.not_mem_nil, or_false]
  constructor
  · intro h
    have := h 64 (.inl rfl)
    omega
  · intro h offset hoffset
    omega

lemma atomicU32_shutdown (h : base % 8 = 0) : atomicU32 base 256 = .ok () := by
  unfold atomicU32
  rw [if_neg (by omega)]

lemma atomicU64_slots_iff : ((List.range slots.toNat).forM fun i =>
      atomicU64 (base + (sharedHeaderBytes + i * stride.toNat)) 0) = .ok () ↔
    ∀ i < slots.toNat, (base + (320 + i * stride.toNat)) % 8 = 0 := by
  rw [forM_eq_ok_iff]
  simp only [atomicU64_eq_ok_iff, List.mem_range]
  exact Iff.rfl

lemma validateLayout_eq_ok_iff : validateLayout mem base bytes = .ok layout ↔ Accepted mem base bytes layout := by
  unfold validateLayout
  simp only [throw_if_eq_ok_iff, bind_eq_ok_iff, segmentSize_eq]
  constructor
  · rintro ⟨hsize, hmagic, hbytes, hdims, _, hrequired, hfits, _, hheader, _, _, _, hslots, hlayout⟩
    cases hrequired
    cases hlayout
    simp only [not_or, ne_eq, Classical.not_not, Bool.not_eq_true', Bool.not_eq_false] at hsize hmagic hbytes hdims
    exact {
      mapped := hsize.1
      header := ⟨hmagic.1, hmagic.2, UInt32.toNat_inj.mp (hbytes.trans sharedHeaderBytes_toNat.symm), rfl, rfl⟩
      four_le := UInt32.not_lt.mp hdims.1
      power := isPowerOfTwo_iff.mp hdims.2.1
      metadata_lt := Nat.not_le.mp hdims.2.2
      size := rfl
      fits := Nat.not_lt.mp hfits
      counters := atomicU64_header_iff.mp hheader
      slots := atomicU64_slots_iff.mp hslots }
  · intro h
    have hfits := h.size ▸ h.fits
    rw [h.header.magic, h.header.version, h.header.headerBytes, h.header.slotCount, h.header.slotSize]
    refine ⟨?_, ?_, ?_, ?_, _, rfl, Nat.not_lt.mpr hfits, (), atomicU64_header_iff.mpr h.counters, (),
      atomicU32_shutdown h.counters, (), atomicU64_slots_iff.mpr h.slots, ?_⟩
    · exact not_or.mpr ⟨h.mapped, by unfold sharedHeaderBytes; omega⟩
    · exact not_or.mpr ⟨fun h => h rfl, fun h => h rfl⟩
    · exact fun h => h sharedHeaderBytes_toNat
    · rw [isPowerOfTwo_iff.mpr h.power]
      exact not_or.mpr ⟨UInt32.not_lt.mpr h.four_le, not_or.mpr ⟨nofun, Nat.not_le.mpr h.metadata_lt⟩⟩
    · rw [← h.size]
      rfl

lemma HeaderIs.validateLayout_of_stride_le (h : HeaderIs mem base slots stride) (hbase : base ≠ 0)
    (hbytes : 320 ≤ bytes) (hstride : stride.toNat ≤ slotMetadataBytes) :
    validateLayout mem base bytes = .error ⟨"invalid slot dimensions"⟩ := by
  have hsize : ¬ (base = 0 ∨ bytes < sharedHeaderBytes) := not_or.mpr ⟨hbase, Nat.not_lt.mpr hbytes⟩
  have hmagic : ¬ (sharedMagic ≠ sharedMagic ∨ sharedVersion ≠ sharedVersion) :=
    not_or.mpr ⟨fun h => h rfl, fun h => h rfl⟩
  unfold validateLayout
  rw [h.magic, h.version, h.headerBytes, h.slotCount, h.slotSize, if_neg hsize, if_neg hmagic,
    if_neg (fun h => h sharedHeaderBytes_toNat), if_pos (.inr (.inr hstride))]
  rfl

/-- Of the dimensions that the daemon admits, the gateway refuses slots without a payload. -/
lemma accepted_iff (h : HeaderIs mem base slots stride) (hdims : Admitted slots stride) (hbase : base ≠ 0)
    (haligned : base % 8 = 0) (hbytes : 320 + slots.toNat * stride.toNat ≤ bytes) :
    Accepted mem base bytes ⟨slots, stride, 320 + slots.toNat * stride.toNat⟩ ↔ stride.toNat ≠ 64 := by
  have hmetadata := hdims.metadata_le
  constructor
  · intro hacc
    have hlt := hacc.metadata_lt
    dsimp only at hlt
    omega
  · intro hne
    refine ⟨hbase, h, hdims.four_le, hdims.power, ?_, rfl, hbytes, haligned, fun i _ => ?_⟩
    · dsimp only
      omega
    · have hi : i * stride.toNat % 8 = 0 := by rw [Nat.mul_mod, hdims.aligned, Nat.mul_zero, Nat.zero_mod]
      dsimp only
      omega

lemma HeaderIs.validHeader (h : HeaderIs mem base slots stride) (hdims : Admitted slots stride) :
    validHeader mem base = true := by
  unfold Segment.validHeader slotMetadataBytes slotAlignment
  rw [h.magic, h.version, h.headerBytes, h.slotCount, h.slotSize]
  simp only [Bool.and_eq_true, decide_eq_true_eq]
  exact ⟨⟨⟨⟨⟨⟨trivial, trivial⟩, sharedHeaderBytes_toNat⟩, hdims.four_le⟩,
    (and_pred_eq_zero_iff hdims.four_le).mpr hdims.power⟩, hdims.metadata_le⟩, hdims.aligned⟩

/-- The alignment of the first two slots is that of the stride. -/
lemma Accepted.admitted (h : Accepted mem base bytes layout) : Admitted layout.slotCount layout.slotBytes where
  four_le := h.four_le
  power := h.power
  metadata_le := Nat.le_of_lt h.metadata_lt
  aligned := by
    have hfour : 4 ≤ layout.slotCount.toNat := UInt32.le_iff_toNat_le.mp h.four_le
    have hfirst := h.slots 0 (by omega)
    have hsecond := h.slots 1 (by omega)
    omega

end validate

section addresses

variable {mem : Memory} {base bytes required : Nat} {slots stride : UInt32}

lemma Admitted.slot_eq (h : Admitted slots stride) (position : UInt64) :
    Layout.slot ⟨slots, stride, required⟩ base position =
      base + 320 + position.toNat % slots.toNat * stride.toNat := by
  obtain ⟨k, hk⟩ := h.power
  unfold Layout.slot sharedHeaderBytes
  dsimp only
  rw [hk, Nat.and_two_pow_sub_one_eq_mod, Nat.add_assoc]

structure AddressesAgree (mem : Memory) (base : Nat) (layout : Layout) : Prop where
  same : ∀ position, slotAt mem base position = layout.slot base position
  inside : ∀ position, base + sharedHeaderBytes ≤ layout.slot base position ∧
    layout.slot base position + layout.slotBytes.toNat ≤ base + layout.segmentBytes
  disjoint : ∀ p q : UInt64, p.toNat % layout.slotCount.toNat ≠ q.toNat % layout.slotCount.toNat →
    layout.slot base p + layout.slotBytes.toNat ≤ layout.slot base q ∨
      layout.slot base q + layout.slotBytes.toNat ≤ layout.slot base p

lemma stride_le_of_lt {i j n : Nat} (h : i < j) : i * n + n ≤ j * n := by
  rw [← Nat.succ_mul]
  exact Nat.mul_le_mul_right n h

lemma Admitted.addressesAgree (hdims : Admitted slots stride) (h : HeaderIs mem base slots stride) :
    AddressesAgree mem base ⟨slots, stride, 320 + slots.toNat * stride.toNat⟩ := by
  have hfour : 4 ≤ slots.toNat := UInt32.le_iff_toNat_le.mp hdims.four_le
  constructor
  · intro position
    rw [h.slotAt, hdims.slot_eq]
  · intro position
    have hlt : position.toNat % slots.toNat < slots.toNat := Nat.mod_lt _ (by omega)
    have hend := stride_le_of_lt (n := stride.toNat) hlt
    rw [hdims.slot_eq]
    unfold sharedHeaderBytes
    dsimp only
    omega
  · intro p q hne
    rw [hdims.slot_eq, hdims.slot_eq]
    dsimp only at hne ⊢
    rcases Nat.lt_or_gt_of_ne hne with hlt | hlt
    · have hend := stride_le_of_lt (n := stride.toNat) hlt
      omega
    · have hend := stride_le_of_lt (n := stride.toNat) hlt
      omega

end addresses

section agreement

variable {slots stride : UInt32} {required : Nat}

/-- The two processes agree on every segment of these dimensions, and the daemon takes whatever the
gateway takes. -/
structure LayoutsAgree (slots stride : UInt32) (required : Nat) : Prop where
  initialized : ∀ mem base bytes, base ≠ 0 → base % 8 = 0 → required ≤ bytes →
    ∃ mem', initializeSegment mem base bytes slots stride = some mem' ∧
      validateLayout mem' base bytes = .ok ⟨slots, stride, required⟩ ∧
      AddressesAgree mem' base ⟨slots, stride, required⟩
  header : ∀ mem base bytes layout, base % 8 = 0 → validateLayout mem base bytes = .ok layout →
    validHeader mem base = true

/-- The dimensions that the daemon admits are those of an agreed layout, except slots without a
payload. -/
theorem layout_agreement_iff (h : checkedSize slots stride = some required) :
    LayoutsAgree slots stride required ↔ stride.toNat ≠ slotMetadataBytes := by
  obtain ⟨hdims, hrequired⟩ := checkedSize_eq h
  constructor
  · intro hagree
    obtain ⟨mem', hinit, hvalid, _⟩ := hagree.initialized (fun _ => 0) 8 required nofun rfl Nat.le.refl
    obtain ⟨mem, hmem, hheader⟩ := initializeSegment_headerIs (fun _ => 0) (by decide : 8 ≠ 0) Nat.le.refl h
    cases hinit.symm.trans hmem
    subst hrequired
    exact (accepted_iff hheader hdims nofun rfl Nat.le.refl).mp (validateLayout_eq_ok_iff.mp hvalid)
  · intro hne
    constructor
    · intro mem base bytes hbase haligned hbytes
      obtain ⟨mem', hmem, hheader⟩ := initializeSegment_headerIs mem hbase hbytes h
      subst hrequired
      exact ⟨mem', hmem, validateLayout_eq_ok_iff.mpr ((accepted_iff hheader hdims hbase haligned hbytes).mpr hne),
        hdims.addressesAgree hheader⟩
    · intro mem base bytes layout _ hvalid
      have hacc := validateLayout_eq_ok_iff.mp hvalid
      exact hacc.header.validHeader hacc.admitted

theorem layout_agreement_iff_default : checkedSize 1024 4096 = some 4194624 ∧ LayoutsAgree 1024 4096 4194624 :=
  have h : checkedSize 1024 4096 = some 4194624 := by decide
  ⟨h, (layout_agreement_iff h).mpr (by decide)⟩

/-- A daemon with slots of 64 bytes starts, and no gateway attaches to its segment. -/
theorem layout_metadata_only : checkedSize 4 64 = some 576 ∧
    (∃ mem', initializeSegment (fun _ => 0) 4096 576 4 64 = some mem' ∧
      validateLayout mem' 4096 576 = .error ⟨"invalid slot dimensions"⟩) ∧
    ¬ LayoutsAgree 4 64 576 := by
  have h : checkedSize 4 64 = some 576 := by decide
  obtain ⟨mem', hmem, hheader⟩ :=
    initializeSegment_headerIs (fun _ => 0) (by decide : 4096 ≠ 0) (Nat.le_refl 576) h
  have herror : validateLayout mem' 4096 576 = .error ⟨"invalid slot dimensions"⟩ :=
    hheader.validateLayout_of_stride_le (by decide) (by decide) (by decide)
  refine ⟨h, ⟨mem', hmem, herror⟩, fun hagree => ?_⟩
  obtain ⟨mem, hinit, hvalid, _⟩ := hagree.initialized (fun _ => 0) 4096 576 (by decide) (by decide) Nat.le.refl
  cases hinit.symm.trans hmem
  cases herror.symm.trans hvalid

end agreement

end FraudDetection.Proofs
