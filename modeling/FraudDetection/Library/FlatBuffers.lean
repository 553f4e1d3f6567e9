import Mathlib.Algebra.Group.Nat.Defs
import Mathlib.Algebra.GroupWithZero.Nat
import Mathlib.Data.List.Basic

/-!
# FlatBuffers

The builder of one table over a buffer that does not grow. It fills its buffer from the end, so an
offset counts the bytes behind an object; what it skips for alignment, and the vtable entries of
absent fields, keep what the buffer held before.
-/

namespace FraudDetection.Library.FlatBuffers

def littleEndian (n value : Nat) : List UInt8 := (List.range n).map fun i => UInt8.ofNat (value / 256 ^ i)

@[simp]
lemma length_littleEndian (n value : Nat) : (littleEndian n value).length = n := by
  rw [littleEndian, List.length_map, List.length_range]

/-- `bytes` is the part in use, `old i` what the buffer held in the byte with `i` bytes behind it, and
a field location is a slot of the vtable with an offset. -/
structure Builder where
  capacity : Nat
  old : Nat → UInt8
  bytes : List UInt8
  minAlign : Nat
  fieldLocs : List (Nat × Nat)

def Builder.newIn (capacity : Nat) (old : Nat → UInt8) : Builder := ⟨capacity, old, [], 0, []⟩

abbrev Builder.used (b : Builder) : Nat := b.bytes.length

def Builder.ahead (b : Builder) (n : Nat) : List UInt8 := (List.range n).map fun i => b.old (b.used + (n - 1 - i))

@[simp]
lemma Builder.length_ahead (b : Builder) (n : Nat) : (b.ahead n).length = n := by
  rw [Builder.ahead, List.length_map, List.length_range]

/-- An operation of the builder; `none` where it unwinds because the buffer does not grow. -/
abbrev BuildM (α : Type) := StateT Builder Option α

section builder

def write (content : List UInt8) : BuildM Unit := fun b =>
  if b.capacity - b.used < content.length then none else some ((), { b with bytes := content ++ b.bytes })

def paddingBytes (size alignment : Nat) : Nat := (alignment - size % alignment) % alignment

def align (len alignment : Nat) : BuildM Unit := fun b =>
  write (b.ahead (paddingBytes (b.used + len) alignment)) { b with minAlign := max b.minAlign alignment }

def push (size value : Nat) : BuildM Nat := do
  align size size
  write (littleEndian size value)
  return (← get).used

def pushOffset (target : Nat) : BuildM Nat := do
  align 4 4
  write (littleEndian 4 (4 + (← get).used - target))
  return (← get).used

def createString (value : List UInt8) : BuildM Nat := do
  align (value.length + 1) 4
  write [0]
  write value
  push 4 value.length

def trackField (slot offset : Nat) : BuildM Unit := fun b =>
  some ((), { b with fieldLocs := b.fieldLocs ++ [(slot, offset)] })

/-- `push_slot` of a scalar, which is left out at its default of zero. -/
def pushSlot (slot size value : Nat) : BuildM Unit := do
  if value ≠ 0 then trackField slot (← push size value)

def pushSlotAlways (slot target : Nat) : BuildM Unit := do
  trackField slot (← pushOffset target)

def vtableByteLen (locs : List (Nat × Nat)) : Nat := (locs.map Prod.fst).foldr max 2 + 2

structure FinishedTable where
  offset : Nat
  fields : List (Nat × Nat)

def FinishedTable.entry (table : FinishedTable) (slot : Nat) : Nat := (table.fields.lookup slot).getD 0

/-- The vtable over the bytes that stood there. -/
def vtable (start : Nat) (table : FinishedTable) (old : List UInt8) : List UInt8 :=
  let len := vtableByteLen table.fields
  littleEndian 2 len ++ littleEndian 2 (table.offset - start) ++
    (List.range ((len - 4) / 2)).flatMap fun i => match table.fields.lookup (4 + 2 * i) with
      | some entry => littleEndian 2 entry
      | none => (old.drop (4 + 2 * i)).take 2

def endTable (start : Nat) : BuildM FinishedTable := do
  let locs := (← get).fieldLocs
  let offset ← push 4 (vtableByteLen locs)
  let table : FinishedTable := ⟨offset, locs.map fun loc => (loc.1, offset - loc.2)⟩
  write (vtable start table ((← get).ahead (vtableByteLen locs)))
  modify fun b => { b with fieldLocs := [] }
  return table

def required (table : FinishedTable) (slot : Nat) : BuildM Unit := fun b =>
  if table.entry slot = 0 then none else some ((), b)

def finish (root : Nat) (identifier : List UInt8) : BuildM Unit := do
  align (4 + identifier.length) (← get).minAlign
  write identifier
  let _ ← pushOffset root

end builder

section space

variable {α β : Type} {b b' b'' : Builder} {k l n n' : Nat}

structure Grown (b b' : Builder) (k n : Nat) : Prop where
  capacity : b'.capacity = b.capacity
  used : b'.used = b.used + k
  minAlign : b'.minAlign = max b.minAlign n
  fieldLocs : b'.fieldLocs = b.fieldLocs

lemma Grown.trans (h : Grown b b' k n) (h' : Grown b' b'' l n') : Grown b b'' (k + l) (max n n') where
  capacity := h'.capacity.trans h.capacity
  used := by rw [h'.used, h.used, Nat.add_assoc]
  minAlign := by rw [h'.minAlign, h.minAlign, Nat.max_assoc]
  fieldLocs := h'.fieldLocs.trans h.fieldLocs

def Grows (m : BuildM α) (b : Builder) (k n : Nat) : Prop :=
  b.used + k ≤ b.capacity → ∃ a b', m b = some (a, b') ∧ Grown b b' k n

lemma bind_of_eq_some {m : BuildM α} {f : α → BuildM β} {a : α} (h : m b = some (a, b')) : (m >>= f) b = f a b' := by
  change (m b >>= fun p => f p.1 p.2) = _
  rw [h]
  rfl

lemma get_eq_some (b : Builder) : (get : BuildM Builder) b = some (b, b) := rfl

lemma write_grows (content : List UInt8) : Grows (write content) b content.length 0 := by
  intro hroom
  have hwrite : write content b = some ((), { b with bytes := content ++ b.bytes }) := if_neg (by omega)
  refine ⟨(), _, hwrite, rfl, ?_, (Nat.max_zero _).symm, rfl⟩
  rw [Builder.used, List.length_append, Nat.add_comm]

lemma align_grows (len alignment : Nat) :
    Grows (align len alignment) b (paddingBytes (b.used + len) alignment) alignment := by
  intro hroom
  obtain ⟨_, b', hwrite, hgrown⟩ := write_grows (b := { b with minAlign := max b.minAlign alignment })
    (b.ahead (paddingBytes (b.used + len) alignment)) (by rwa [Builder.length_ahead])
  have hused := hgrown.used
  rw [Builder.length_ahead] at hused
  exact ⟨(), b', hwrite, hgrown.capacity, hused, hgrown.minAlign.trans (Nat.max_zero _), hgrown.fieldLocs⟩

def Pushes (m : BuildM Nat) (b : Builder) (k n : Nat) : Prop :=
  b.used + k ≤ b.capacity → ∃ b', m b = some (b'.used, b') ∧ Grown b b' k n

lemma Grows.pushes {m : BuildM α} {f : α → BuildM Nat} (h : Grows m b k n)
    (h' : ∀ a b', Grown b b' k n → Pushes (f a) b' l n') : Pushes (m >>= f) b (k + l) (max n n') := by
  intro hroom
  obtain ⟨a, b', hm, hgrown⟩ := h (by omega)
  have hcapacity := hgrown.capacity
  have hused := hgrown.used
  obtain ⟨b'', hf, hgrown'⟩ := h' a b' hgrown (by omega)
  exact ⟨b'', (bind_of_eq_some hm).trans hf, hgrown.trans hgrown'⟩

lemma write_pushes (content : List UInt8) :
    Pushes (do write content; return (← get).used) b content.length 0 := by
  intro hroom
  obtain ⟨_, b', hwrite, hgrown⟩ := write_grows content hroom
  exact ⟨b', bind_of_eq_some hwrite, hgrown⟩

lemma push_pushes (size value : Nat) :
    Pushes (push size value) b (paddingBytes (b.used + size) size + size) size := by
  have h := (align_grows (b := b) size size).pushes fun _ b' _ => write_pushes (b := b') (littleEndian size value)
  rwa [length_littleEndian, Nat.max_zero] at h

lemma pushOffset_pushes (target : Nat) :
    Pushes (pushOffset target) b (paddingBytes (b.used + 4) 4 + 4) 4 := by
  refine (align_grows (b := b) 4 4).pushes fun _ b' _ => (?_ : Pushes _ b' 4 0)
  have h := write_pushes (b := b') (littleEndian 4 (4 + b'.used - target))
  rw [length_littleEndian] at h
  exact h

lemma createString_pushes (value : List UInt8) (hword : b.used % 4 = 0) :
    Pushes (createString value) b (paddingBytes (value.length + 1) 4 + value.length + 5) 4 := by
  have hpadding : paddingBytes (b.used + (value.length + 1)) 4 = paddingBytes (value.length + 1) 4 := by
    unfold paddingBytes
    omega
  have h := (align_grows (b := b) (value.length + 1) 4).pushes fun _ b₁ h₁ =>
    (write_grows (b := b₁) [0]).pushes fun _ b₂ h₂ => (write_grows (b := b₂) value).pushes fun _ b₃ h₃ => by
      have hzero : paddingBytes (b₃.used + 4) 4 = 0 := by
        rw [h₃.used, h₂.used, h₁.used, hpadding, List.length_singleton]
        unfold paddingBytes
        omega
      have h₄ := push_pushes (b := b₃) 4 value.length
      rwa [hzero] at h₄
  rw [hpadding, List.length_singleton] at h
  have hspace : paddingBytes (value.length + 1) 4 + (1 + (value.length + (0 + 4))) =
      paddingBytes (value.length + 1) 4 + value.length + 5 := by omega
  rwa [hspace] at h

end space

section effects

variable {α β : Type} {maxSlot : Nat} {b b' b'' : Builder} {k n : Nat}

/-- What holds between the operations that write strings and the fields of a table. -/
structure Ready (maxSlot : Nat) (b : Builder) : Prop where
  word : b.used % 4 = 0
  minAlign_le : b.minAlign ≤ 8
  locs : ∀ loc ∈ b.fieldLocs, loc.1 ≤ maxSlot ∧ loc.2 ≤ b.used

lemma Ready.newIn (capacity : Nat) (old : Nat → UInt8) : Ready maxSlot (.newIn capacity old) :=
  ⟨rfl, Nat.zero_le 8, fun _ h => nomatch h⟩

lemma Ready.grown (h : Ready maxSlot b) (hgrown : Grown b b' k n) (hk : k % 4 = 0) (hn : n ≤ 8) :
    Ready maxSlot b' where
  word := by
    have hword := h.word
    rw [hgrown.used]
    omega
  minAlign_le := by
    rw [hgrown.minAlign]
    exact Nat.max_le.mpr ⟨h.minAlign_le, hn⟩
  locs := by
    rw [hgrown.fieldLocs, hgrown.used]
    exact fun loc hloc => ⟨(h.locs loc hloc).1, Nat.le_add_right_of_le (h.locs loc hloc).2⟩

/-- A bound on the space that an operation takes, an alignment that it asks for, and the slots that
it fills. -/
structure Effect where
  space : Nat
  alignment : Nat
  slots : List Nat

def Effect.andThen (e e' : Effect) : Effect :=
  ⟨e.space + e'.space, max e.alignment e'.alignment, e.slots ++ e'.slots⟩

structure Step (e : Effect) (b b' : Builder) : Prop where
  capacity : b'.capacity = b.capacity
  used_le : b'.used ≤ b.used + e.space
  minAlign_le : b.minAlign ≤ b'.minAlign
  alignment_le : e.alignment ≤ b'.minAlign
  locs : b.fieldLocs ⊆ b'.fieldLocs
  slots : ∀ slot ∈ e.slots, ∃ offset, (slot, offset) ∈ b'.fieldLocs

lemma Step.andThen {e e' : Effect} (h : Step e b b') (h' : Step e' b' b'') : Step (e.andThen e') b b'' where
  capacity := h'.capacity.trans h.capacity
  used_le := by
    have hused := h.used_le
    have hused' := h'.used_le
    unfold Effect.andThen
    dsimp only
    omega
  minAlign_le := Nat.le_trans h.minAlign_le h'.minAlign_le
  alignment_le := Nat.max_le.mpr ⟨Nat.le_trans h.alignment_le h'.minAlign_le, h'.alignment_le⟩
  locs := List.Subset.trans h.locs h'.locs
  slots slot hslot := by
    rcases List.mem_append.mp hslot with hslot | hslot
    · obtain ⟨offset, hmem⟩ := h.slots slot hslot
      exact ⟨offset, h'.locs hmem⟩
    · exact h'.slots slot hslot

def Allocates (maxSlot : Nat) (e : Effect) (m : BuildM α) : Prop :=
  ∀ b, Ready maxSlot b → b.used + e.space ≤ b.capacity →
    ∃ a b', m b = some (a, b') ∧ Step e b b' ∧ Ready maxSlot b'

lemma Allocates.bind {e e' : Effect} {m : BuildM α} {f : α → BuildM β} (h : Allocates maxSlot e m)
    (h' : ∀ a, Allocates maxSlot e' (f a)) : Allocates maxSlot (e.andThen e') (m >>= f) := by
  intro b hready hroom
  unfold Effect.andThen at hroom
  dsimp only at hroom
  obtain ⟨a, b', hm, hstep, hready'⟩ := h b hready (by omega)
  have hcapacity := hstep.capacity
  have hused := hstep.used_le
  obtain ⟨c, b'', hf, hstep', hready''⟩ := h' a b' hready' (by omega)
  exact ⟨c, b'', (bind_of_eq_some hm).trans hf, hstep.andThen hstep', hready''⟩

lemma Allocates.run {e : Effect} {m : BuildM α} {c used : Nat} (h : Allocates maxSlot e m) (hready : Ready maxSlot b)
    (hc : b.capacity = c) (hused : b.used ≤ used) (hroom : used + e.space ≤ c) :
    ∃ a b', (∀ (β : Type) (f : α → BuildM β), (m >>= f) b = f a b') ∧ Step e b b' ∧ Ready maxSlot b' ∧
      b'.capacity = c ∧ b'.used ≤ used + e.space := by
  obtain ⟨a, b', hm, hstep, hready'⟩ := h b hready (by omega)
  exact ⟨a, b', fun _ _ => bind_of_eq_some hm, hstep, hready', hstep.capacity.trans hc,
    Nat.le_trans hstep.used_le (Nat.add_le_add_right hused _)⟩

lemma Allocates.pure (a : α) : Allocates maxSlot ⟨0, 0, []⟩ (pure a : BuildM α) :=
  fun b hready _ => ⟨a, b, rfl, ⟨rfl, Nat.le.refl, Nat.le.refl, Nat.zero_le _, fun _ h => h, fun _ h => nomatch h⟩,
    hready⟩

lemma Pushes.allocates {m : BuildM Nat} {space : Nat} (hn : n ≤ 8)
    (h : ∀ b, b.used % 4 = 0 → ∃ k, Pushes m b k n ∧ k % 4 = 0 ∧ k ≤ space) : Allocates maxSlot ⟨space, n, []⟩ m := by
  intro b hready hroom
  obtain ⟨k, hpushes, hword, hk⟩ := h b hready.word
  obtain ⟨b', hm, hgrown⟩ := hpushes (Nat.le_trans (Nat.add_le_add_left hk _) hroom)
  refine ⟨_, b', hm, ⟨hgrown.capacity, ?_, ?_, ?_, ?_, fun _ h => nomatch h⟩, hready.grown hgrown hword hn⟩
  · rw [hgrown.used]
    exact Nat.add_le_add_left hk _
  · rw [hgrown.minAlign]
    exact Nat.le_max_left _ _
  · rw [hgrown.minAlign]
    exact Nat.le_max_right _ _
  · rw [hgrown.fieldLocs]
    exact fun _ h => h

lemma Pushes.trackField {m : BuildM Nat} {space slot : Nat} (hn : n ≤ 8) (hslot : slot ≤ maxSlot)
    (h : ∀ b, b.used % 4 = 0 → ∃ k, Pushes m b k n ∧ k % 4 = 0 ∧ k ≤ space) :
    Allocates maxSlot ⟨space, n, [slot]⟩ (do trackField slot (← m)) := by
  intro b hready hroom
  obtain ⟨k, hpushes, hword, hk⟩ := h b hready.word
  obtain ⟨b', hm, hgrown⟩ := hpushes (Nat.le_trans (Nat.add_le_add_left hk _) hroom)
  have hready' := hready.grown hgrown hword hn
  have htrack : (m >>= FlatBuffers.trackField slot) b =
      some ((), { b' with fieldLocs := b'.fieldLocs ++ [(slot, b'.used)] }) := bind_of_eq_some hm
  have hmem : (slot, b'.used) ∈ b'.fieldLocs ++ [(slot, b'.used)] := List.mem_append_right _ List.mem_cons_self
  refine ⟨(), _, htrack, ⟨hgrown.capacity, ?_, ?_, ?_, ?_, ?_⟩, hready'.word, hready'.minAlign_le, ?_⟩
  · exact Nat.le_trans (Nat.le_of_eq hgrown.used) (Nat.add_le_add_left hk _)
  · dsimp only
    rw [hgrown.minAlign]
    exact Nat.le_max_left _ _
  · dsimp only
    rw [hgrown.minAlign]
    exact Nat.le_max_right _ _
  · rw [hgrown.fieldLocs]
    exact List.subset_append_left _ _
  · intro slot' hslot'
    cases List.mem_singleton.mp hslot'
    exact ⟨_, hmem⟩
  · intro loc hloc
    rcases List.mem_append.mp hloc with hloc | hloc
    · exact hready'.locs loc hloc
    · cases List.mem_singleton.mp hloc
      exact ⟨hslot, Nat.le.refl⟩

lemma createString_allocates (value : List UInt8) :
    Allocates maxSlot ⟨value.length + 8, 4, []⟩ (createString value) := by
  refine Pushes.allocates (by decide) fun b hword => ⟨_, createString_pushes value hword, ?_, ?_⟩
  · unfold paddingBytes
    omega
  · unfold paddingBytes
    omega

lemma pushSlotAlways_allocates {slot : Nat} (target : Nat) (hslot : slot ≤ maxSlot) :
    Allocates maxSlot ⟨4, 4, [slot]⟩ (pushSlotAlways slot target) := by
  refine Pushes.trackField (by decide) hslot fun b hword => ⟨_, pushOffset_pushes target, ?_, ?_⟩
  · unfold paddingBytes
    omega
  · unfold paddingBytes
    omega

lemma pushSlot_allocates_of_ne {slot value : Nat} (hslot : slot ≤ maxSlot) (hvalue : value ≠ 0) :
    Allocates maxSlot ⟨12, 8, [slot]⟩ (pushSlot slot 8 value) := by
  unfold pushSlot
  rw [if_pos hvalue]
  refine Pushes.trackField (by decide) hslot fun b hword => ⟨_, push_pushes 8 value, ?_, ?_⟩
  · unfold paddingBytes
    omega
  · unfold paddingBytes
    omega

lemma Allocates.mono {e e' : Effect} {m : BuildM α} (h : Allocates maxSlot e m) (hspace : e.space ≤ e'.space)
    (halign : e'.alignment ≤ e.alignment) (hslots : e'.slots ⊆ e.slots) : Allocates maxSlot e' m := by
  intro b hready hroom
  obtain ⟨a, b', hm, hstep, hready'⟩ := h b hready (by omega)
  exact ⟨a, b', hm, ⟨hstep.capacity, Nat.le_trans hstep.used_le (Nat.add_le_add_left hspace _), hstep.minAlign_le,
    Nat.le_trans halign hstep.alignment_le, hstep.locs, fun slot hslot => hstep.slots slot (hslots hslot)⟩, hready'⟩

lemma pushSlot_allocates {slot : Nat} (value : Nat) (hslot : slot ≤ maxSlot) :
    Allocates maxSlot ⟨12, if value = 0 then 0 else 8, []⟩ (pushSlot slot 8 value) := by
  by_cases hvalue : value = 0
  · rw [if_pos hvalue]
    unfold pushSlot
    rw [if_neg (not_not.mpr hvalue)]
    exact (Allocates.pure ()).mono (Nat.zero_le _) Nat.le.refl nofun
  · rw [if_neg hvalue]
    exact (pushSlot_allocates_of_ne hslot hvalue).mono Nat.le.refl Nat.le.refl nofun

lemma foldr_max_le {xs : List Nat} (hmax : 2 ≤ maxSlot) (h : ∀ x ∈ xs, x ≤ maxSlot) :
    xs.foldr max 2 ≤ maxSlot := by
  induction xs with
  | nil => exact hmax
  | cons x xs ih =>
    exact Nat.max_le.mpr ⟨h x List.mem_cons_self, ih fun y hy => h y (List.mem_cons_of_mem x hy)⟩

lemma length_flatMap_le (entries : List Nat) {f : Nat → List UInt8} (h : ∀ i, (f i).length ≤ 2) :
    (entries.flatMap f).length ≤ 2 * entries.length := by
  induction entries with
  | nil => exact Nat.le.refl
  | cons i entries ih =>
    have hhead := h i
    rw [List.flatMap_cons, List.length_append, List.length_cons]
    omega

lemma length_vtable_le (start : Nat) (table : FinishedTable) (old : List UInt8) :
    (vtable start table old).length ≤ vtableByteLen table.fields := by
  have htwo : vtableByteLen table.fields ≥ 4 := by
    unfold vtableByteLen
    generalize table.fields.map Prod.fst = slots
    induction slots with
    | nil => exact Nat.le.refl
    | cons slot slots ih =>
      rw [List.foldr_cons]
      omega
  have hentries := length_flatMap_le (List.range ((vtableByteLen table.fields - 4) / 2))
    (f := fun i => match table.fields.lookup (4 + 2 * i) with
      | some entry => littleEndian 2 entry
      | none => (old.drop (4 + 2 * i)).take 2) fun i => by
    split
    · exact Nat.le_of_eq (length_littleEndian 2 _)
    · exact List.length_take_le 2 _
  rw [List.length_range] at hentries
  unfold vtable
  dsimp only
  rw [List.length_append, List.length_append, length_littleEndian, length_littleEndian]
  omega

lemma lookup_ne_zero {locs : List (Nat × Nat)} {offset slot loc : Nat} (hlt : ∀ loc ∈ locs, loc.2 < offset)
    (hmem : (slot, loc) ∈ locs) : ((locs.map fun loc => (loc.1, offset - loc.2)).lookup slot).getD 0 ≠ 0 := by
  induction locs with
  | nil => nomatch hmem
  | cons head locs ih =>
    rw [List.map_cons, List.lookup_cons]
    cases hslot : slot == head.1 with
    | true =>
      have hhead := hlt head List.mem_cons_self
      change offset - head.2 ≠ 0
      omega
    | false =>
      refine ih (fun loc hloc => hlt loc (List.mem_cons_of_mem _ hloc)) ((List.mem_cons.mp hmem).resolve_left ?_)
      intro heq
      rw [← heq] at hslot
      simp only [BEq.rfl, Bool.true_eq_false] at hslot

lemma endTable_eq_some (start : Nat) (hready : Ready maxSlot b) (hmax : 2 ≤ maxSlot)
    (hroom : b.used + (maxSlot + 6) ≤ b.capacity) :
    ∃ table b', endTable start b = some (table, b') ∧ b'.capacity = b.capacity ∧
      b'.used ≤ b.used + (maxSlot + 6) ∧ b'.minAlign = max b.minAlign 4 ∧
      ∀ slot offset, (slot, offset) ∈ b.fieldLocs → table.entry slot ≠ 0 := by
  have hlen : vtableByteLen b.fieldLocs ≤ maxSlot + 2 := by
    refine Nat.add_le_add_right (foldr_max_le hmax fun slot hslot => ?_) 2
    obtain ⟨loc, hloc, rfl⟩ := List.mem_map.mp hslot
    exact (hready.locs loc hloc).1
  have hpadding : paddingBytes (b.used + 4) 4 = 0 := by
    have hword := hready.word
    unfold paddingBytes
    omega
  have hpush := push_pushes (b := b) 4 (vtableByteLen b.fieldLocs)
  rw [hpadding] at hpush
  obtain ⟨b₁, hpush, hgrown⟩ := hpush (by omega)
  have hcapacity := hgrown.capacity
  have hused := hgrown.used
  let table : FinishedTable := ⟨b₁.used, b.fieldLocs.map fun loc => (loc.1, b₁.used - loc.2)⟩
  have hfields : vtableByteLen table.fields = vtableByteLen b.fieldLocs := by
    change vtableByteLen (b.fieldLocs.map _) = _
    rw [vtableByteLen, List.map_map]
    rfl
  let old := b₁.ahead (vtableByteLen b.fieldLocs)
  have hvtable := length_vtable_le start table old
  obtain ⟨_, b₂, hwrite, hgrown'⟩ := write_grows (b := b₁) (vtable start table old) (by omega)
  have hend : endTable start b = some (table, { b₂ with fieldLocs := [] }) :=
    (bind_of_eq_some (get_eq_some b)).trans ((bind_of_eq_some hpush).trans
      ((bind_of_eq_some (get_eq_some b₁)).trans (bind_of_eq_some hwrite)))
  refine ⟨table, _, hend, hgrown'.capacity.trans hcapacity, ?_, ?_, fun slot offset hmem => ?_⟩
  · have hused' := hgrown'.used
    change b₂.used ≤ _
    omega
  · change b₂.minAlign = _
    rw [hgrown'.minAlign, hgrown.minAlign, Nat.max_zero]
  · refine lookup_ne_zero (fun loc hloc => ?_) hmem
    have hoffset := (hready.locs loc hloc).2
    omega

/-- Finishing takes the identifier, the root offset and what aligns them; the size of a buffer with
the alignment of a 64-bit word is a multiple of it. -/
lemma finish_eq_some (root : Nat) {identifier : List UInt8} (hidentifier : identifier.length = 4)
    (hpos : 0 < b.minAlign) (hle : b.minAlign ≤ 8) (hroom : b.used + 18 ≤ b.capacity) :
    ∃ b', finish root identifier b = some ((), b') ∧ b.used < b'.used ∧ b'.used ≤ b.used + 18 ∧
      (b.minAlign = 8 → b'.used % 8 = 0) := by
  have hpadding : paddingBytes (b.used + (4 + 4)) b.minAlign < 8 := Nat.lt_of_lt_of_le (Nat.mod_lt _ hpos) hle
  have halignGrows := align_grows (b := b) (4 + identifier.length) b.minAlign
  rw [hidentifier] at halignGrows
  obtain ⟨_, b₁, hm₁, hgrown₁⟩ := halignGrows (by omega)
  have hused₁ := hgrown₁.used
  have hcapacity₁ := hgrown₁.capacity
  obtain ⟨_, b₂, hm₂, hgrown₂⟩ := write_grows (b := b₁) identifier (by omega)
  have hused₂ := hgrown₂.used
  have hcapacity₂ := hgrown₂.capacity
  have hroot : paddingBytes (b₂.used + 4) 4 < 4 := Nat.mod_lt _ (by decide)
  obtain ⟨b₃, hm₃, hgrown₃⟩ := pushOffset_pushes (b := b₂) root (by omega)
  have hused₃ := hgrown₃.used
  have hfinish : finish root identifier b = some ((), b₃) := by
    have hm₁' : align (4 + identifier.length) b.minAlign b = some ((), b₁) := by rw [hidentifier, hm₁]
    exact (bind_of_eq_some (get_eq_some b)).trans ((bind_of_eq_some hm₁').trans
      ((bind_of_eq_some hm₂).trans (bind_of_eq_some hm₃)))
  refine ⟨b₃, hfinish, by omega, by omega, fun height => ?_⟩
  rw [height] at hused₁
  unfold paddingBytes at hused₁ hused₃
  omega

end effects

end FraudDetection.Library.FlatBuffers
