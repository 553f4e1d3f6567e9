import Mathlib.Algebra.GroupWithZero.Nat
import Mathlib.Data.List.AList
import Mathlib.Tactic.Common

/-!
# Finite maps with list values

Association lists with distinct keys stand for hash maps. `concat m` is the concatenation of
all values of a map whose values are lists; the lemmas say what an update of one key does to
it, up to the order of the keys. `total m` is the sum of a map of numbers. Two lemmas are about
looking a key up in a plain list of pairs.
-/

namespace FraudDetection.Library

/-- A finite map, as an association list with distinct keys. -/
abbrev FMap (κ α : Type) := AList (fun _ : κ => α)

variable {κ α β : Type}

/-- All values of a map of lists, one key after another. -/
def concat (m : FMap κ (List α)) : List α :=
  m.entries.flatMap (fun e => e.2)

lemma length_concat (m : FMap κ (List α)) :
    (concat m).length = (m.entries.map (fun e => e.2.length)).sum := by
  unfold concat
  rw [List.length_flatMap]

/-- Maps with the same keys list them alike, in some order. -/
lemma keys_perm_of_mem_iff (m : FMap κ α) (m' : FMap κ β) (h : ∀ k, k ∈ m ↔ k ∈ m') :
    m.keys.Perm m'.keys := by
  apply (List.perm_ext_iff_of_nodup m.keys_nodup m'.keys_nodup).mpr
  intro k
  rw [← AList.mem_keys, ← AList.mem_keys, h]

variable [DecidableEq κ]

lemma lookup_insert_ite (m : FMap κ α) (k k' : κ) (v : α) :
    (m.insert k' v).lookup k = if k = k' then some v else m.lookup k := by
  by_cases h : k = k'
  · subst h
    rw [if_pos rfl]
    exact AList.lookup_insert m
  · rw [if_neg h]
    exact AList.lookup_insert_ne h

lemma lookup_erase_ite (m : FMap κ α) (k k' : κ) :
    (m.erase k').lookup k = if k = k' then none else m.lookup k := by
  by_cases h : k = k'
  · subst h
    rw [if_pos rfl]
    exact AList.lookup_erase k m
  · rw [if_neg h]
    exact AList.lookup_erase_ne h

lemma mem_iff_lookup (m : FMap κ α) (k : κ) : k ∈ m ↔ ∃ v, m.lookup k = some v := by
  rw [← AList.lookup_isSome, Option.isSome_iff_exists]

lemma entries_perm_of_lookup (m : FMap κ α) (k : κ) (v : α) (h : m.lookup k = some v) :
    m.entries.Perm (⟨k, v⟩ :: (m.erase k).entries) := by
  have hk : k ∈ m.entries.keys := AList.mem_keys.mp ((mem_iff_lookup m k).mpr ⟨v, h⟩)
  obtain ⟨w, l₁, l₂, hl₁, he, hr⟩ := List.exists_of_kerase hk
  have hw : m.lookup k = some w := by
    apply AList.mem_lookup_iff.mpr
    rw [he]
    simp
  have hwv : w = v := Option.some.inj (hw.symm.trans h)
  change m.entries.Perm (⟨k, v⟩ :: List.kerase k m.entries)
  rw [hr, he, hwv]
  exact List.perm_middle

lemma concat_insert (m : FMap κ (List α)) (k : κ) (v : List α) :
    concat (m.insert k v) = v ++ concat (m.erase k) := by
  unfold concat
  rw [AList.entries_insert, List.flatMap_cons]
  rfl

lemma concat_perm (m : FMap κ (List α)) (k : κ) :
    (concat m).Perm ((m.lookup k).getD [] ++ concat (m.erase k)) := by
  cases h : m.lookup k with
  | none =>
    have hk : k ∉ m.entries.keys := AList.lookup_eq_none.mp h
    have he : (m.erase k).entries = m.entries := List.kerase_of_notMem_keys hk
    unfold concat
    rw [he, Option.getD_none, List.nil_append]
  | some v =>
    have hp := (entries_perm_of_lookup m k v h).flatMap_right (fun e => e.2)
    rwa [List.flatMap_cons] at hp

/-- The sum of the values of a map of numbers. -/
def total (m : FMap κ Nat) : Nat := (m.entries.map (fun e => e.2)).sum

/-- A missing value counts as zero. -/
lemma total_insert (m : FMap κ Nat) (k : κ) (v : Nat) :
    total (m.insert k v) + (m.lookup k).getD 0 = total m + v := by
  have hnew : total (m.insert k v) = v + total (m.erase k) := by
    unfold total
    rw [AList.entries_insert, List.map_cons, List.sum_cons]
    rfl
  have hold : total m = (m.lookup k).getD 0 + total (m.erase k) := by
    cases h : m.lookup k with
    | none =>
      have hk : k ∉ m.entries.keys := AList.lookup_eq_none.mp h
      have he : (m.erase k).entries = m.entries := List.kerase_of_notMem_keys hk
      unfold total
      rw [he, Option.getD_none, Nat.zero_add]
    | some w =>
      unfold total
      rw [((entries_perm_of_lookup m k w h).map _).sum_nat, List.map_cons, List.sum_cons, Option.getD_some]
  omega

lemma mem_concat (m : FMap κ (List α)) (a : α) :
    a ∈ concat m ↔ ∃ k l, m.lookup k = some l ∧ a ∈ l := by
  unfold concat
  rw [List.mem_flatMap]
  constructor
  · rintro ⟨⟨k, l⟩, he, ha⟩
    exact ⟨k, l, AList.mem_lookup_iff.mpr he, ha⟩
  · rintro ⟨k, l, hl, ha⟩
    exact ⟨⟨k, l⟩, AList.mem_lookup_iff.mp hl, ha⟩

lemma length_keys_insert (m : FMap κ α) (k : κ) (v : α) :
    (m.insert k v).keys.length = (m.erase k).keys.length + 1 := by
  rw [AList.keys_insert, AList.keys_erase, List.length_cons]

lemma length_keys_erase (m : FMap κ α) (k : κ) :
    (m.erase k).keys.length = m.keys.length - if k ∈ m then 1 else 0 := by
  rw [AList.keys_erase]
  by_cases hk : k ∈ m
  · rw [if_pos hk, List.length_erase_of_mem (AList.mem_keys.mp hk)]
  · rw [if_neg hk, List.erase_of_not_mem (fun h => hk (AList.mem_keys.mpr h)), Nat.sub_zero]

section lookup

variable {ι : Type} [BEq ι]

lemma lookup_map_snd (f : α → β) (key : ι) (entries : List (ι × α)) :
    (entries.map fun entry => (entry.1, f entry.2)).lookup key = (entries.lookup key).map f := by
  induction entries with
  | nil => rfl
  | cons entry rest ih =>
    obtain ⟨name, value⟩ := entry
    simp only [List.map_cons, List.lookup_cons, ih]
    split <;> rfl

lemma lookup_eq_some_iff_of_nodup [LawfulBEq ι] {entries : List (ι × α)} (h : (entries.map Prod.fst).Nodup) {key : ι}
    {value : α} : entries.lookup key = some value ↔ (key, value) ∈ entries := by
  induction entries with
  | nil => simp
  | cons entry entries ih =>
    obtain ⟨key', value'⟩ := entry
    obtain ⟨hnot, hnodup⟩ := List.nodup_cons.mp h
    rw [List.lookup_cons, List.mem_cons, Prod.mk.injEq]
    by_cases he : key = key'
    · subst he
      simp only [beq_self_eq_true, true_and]
      constructor
      · rintro ⟨⟩
        exact .inl rfl
      · rintro (rfl | hin)
        · rfl
        · exact absurd (List.mem_map.mpr ⟨(key, value), hin, rfl⟩) hnot
    · have hbeq : (key == key') = false := beq_eq_false_iff_ne.mpr he
      simp only [hbeq, he, false_and, false_or]
      exact ih hnodup

end lookup

end FraudDetection.Library
