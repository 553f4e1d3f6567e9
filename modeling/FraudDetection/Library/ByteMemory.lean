import Mathlib.Algebra.GroupWithZero.Nat
import Mathlib.Algebra.Group.Nat.Defs

/-!
# Byte-addressed memory

Memory as a function from addresses to bytes, with little-endian words of any width.
-/

namespace FraudDetection.Library

abbrev Memory := Nat → UInt8

/-- The little-endian word of `n` bytes at an address. -/
def readLE (mem : Memory) (addr : Nat) : Nat → Nat
  | 0 => 0
  | n + 1 => readLE mem addr n + 256 ^ n * (mem (addr + n)).toNat

/-- Stores the low `n` bytes of a value. -/
def writeLE (mem : Memory) (addr n value : Nat) : Memory := fun a =>
  if addr ≤ a ∧ a < addr + n then UInt8.ofNat (value / 256 ^ (a - addr)) else mem a

def fillBytes (mem : Memory) (addr n : Nat) (byte : UInt8) : Memory := fun a =>
  if addr ≤ a ∧ a < addr + n then byte else mem a

def readBytes (mem : Memory) (addr n : Nat) : List UInt8 := (List.range n).map fun i => mem (addr + i)

def writeBytes (mem : Memory) (addr : Nat) (content : List UInt8) : Memory := fun a =>
  if addr ≤ a ∧ a < addr + content.length then content.getD (a - addr) 0 else mem a

variable {mem mem' : Memory} {addr addr' n n' value : Nat} {content : List UInt8}

lemma readLE_congr (h : ∀ i < n, mem' (addr + i) = mem (addr + i)) : readLE mem' addr n = readLE mem addr n := by
  induction n with
  | zero => rfl
  | succ n ih => rw [readLE, readLE, ih fun i hi => h i (by omega), h n (by omega)]

lemma readLE_of_bytes (h : ∀ i < n, mem (addr + i) = UInt8.ofNat (value / 256 ^ i)) :
    readLE mem addr n = value % 256 ^ n := by
  induction n with
  | zero => rw [pow_zero, Nat.mod_one, readLE]
  | succ n ih =>
    have hsplit : value % 256 ^ (n + 1) = value % 256 ^ n + 256 ^ n * (value / 256 ^ n % 256) := Nat.mod_pow_succ
    rw [readLE, ih fun i hi => h i (by omega), h n (by omega), UInt8.toNat_ofNat', hsplit]

lemma readLE_writeLE_self : readLE (writeLE mem addr n value) addr n = value % 256 ^ n := by
  refine readLE_of_bytes fun i hi => ?_
  rw [writeLE, if_pos (by omega), Nat.add_sub_cancel_left]

lemma readLE_writeLE_of_disjoint (h : addr + n ≤ addr' ∨ addr' + n' ≤ addr) :
    readLE (writeLE mem addr' n' value) addr n = readLE mem addr n := by
  refine readLE_congr fun i hi => if_neg ?_
  omega

lemma readLE_writeBytes_of_disjoint (h : addr + n ≤ addr' ∨ addr' + content.length ≤ addr) :
    readLE (writeBytes mem addr' content) addr n = readLE mem addr n := by
  refine readLE_congr fun i hi => if_neg ?_
  omega

lemma writeLE_of_disjoint (h : addr < addr' ∨ addr' + n ≤ addr) : writeLE mem addr' n value addr = mem addr :=
  if_neg (by omega)

@[simp] lemma length_readBytes : (readBytes mem addr n).length = n := by
  rw [readBytes, List.length_map, List.length_range]

@[simp] lemma getElem_readBytes {i : Nat} (hi : i < (readBytes mem addr n).length) :
    (readBytes mem addr n)[i] = mem (addr + i) := by
  simp only [readBytes, List.getElem_map, List.getElem_range]

lemma readBytes_congr (h : ∀ i < n, mem' (addr + i) = mem (addr + i)) :
    readBytes mem' addr n = readBytes mem addr n :=
  List.map_congr_left fun i hi => h i (List.mem_range.mp hi)

lemma readBytes_writeLE_of_disjoint (h : addr + n ≤ addr' ∨ addr' + n' ≤ addr) :
    readBytes (writeLE mem addr' n' value) addr n = readBytes mem addr n := by
  refine readBytes_congr fun i hi => if_neg ?_
  omega

lemma readBytes_writeBytes_self : readBytes (writeBytes mem addr content) addr content.length = content := by
  refine List.ext_getElem length_readBytes fun i hi hi' => ?_
  rw [getElem_readBytes, writeBytes, if_pos (by omega), Nat.add_sub_cancel_left, List.getD_eq_getElem?_getD,
    List.getElem?_eq_getElem hi', Option.getD_some]

lemma readBytes_drop_take {start size : Nat} (h : start + size ≤ n) :
    ((readBytes mem addr n).drop start).take size = readBytes mem (addr + start) size := by
  refine List.ext_getElem ?_ fun i hi hi' => ?_
  · rw [List.length_take, List.length_drop, length_readBytes, length_readBytes]
    omega
  · rw [List.getElem_take, List.getElem_drop, getElem_readBytes, getElem_readBytes, Nat.add_assoc]

lemma readBytes_writeBytes {start : Nat} (h : start + content.length ≤ n) :
    readBytes (writeBytes mem (addr + start) content) addr n =
      (readBytes mem addr n).take start ++ content ++ (readBytes mem addr n).drop (start + content.length) := by
  refine List.ext_getElem (by simp; omega) fun i hi hi' => ?_
  rw [length_readBytes] at hi
  rw [getElem_readBytes]
  by_cases hbefore : i < start
  · rw [writeBytes, if_neg (by omega), List.getElem_append_left (by simp; omega), List.getElem_append_left (by simp; omega),
      List.getElem_take, getElem_readBytes]
  · by_cases hinside : i < start + content.length
    · rw [writeBytes, if_pos (by omega), List.getElem_append_left (by simp; omega),
        List.getElem_append_right (by simp; omega), List.getD_eq_getElem?_getD, List.getElem?_eq_getElem (by omega),
        Option.getD_some]
      congr 1
      rw [List.length_take, length_readBytes]
      omega
    · rw [writeBytes, if_neg (by omega), List.getElem_append_right (by simp; omega), List.getElem_drop,
        getElem_readBytes]
      congr 1
      rw [List.length_append, List.length_take, length_readBytes]
      omega

end FraudDetection.Library
