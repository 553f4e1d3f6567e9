import Mathlib.Data.List.Lex
import Mathlib.Data.Rat.Defs
import FraudDetection.Library.Ieee
import FraudDetection.Library.ListMap
import FraudDetection.Library.PosixPath
import FraudDetection.Library.Sorting

/-!
# Python values and JSON

The Python values that `json` reads and writes, with tuples and read-only mappings beside lists and
dicts. `sortKeys` is what `sort_keys=True` does to a value before it is written: it orders the keys
of every dict and keeps everything else.
-/

namespace FraudDetection.Library

inductive Scalar where
  | none
  | bool (value : Bool)
  | int (value : Int)
  | float (value : Ieee ℚ)
  | str (value : PyString)
  deriving DecidableEq

inductive PyValue where
  | scalar (value : Scalar)
  | list (items : List PyValue)
  | tuple (items : List PyValue)
  | dict (entries : List (PyString × PyValue))
  | proxy (entries : List (PyString × PyValue))

namespace PyValue

abbrev str (value : PyString) : PyValue := .scalar (.str value)

mutual

/-- The value is one that `json.loads` can return; a dict has no key twice. -/
def isJson : PyValue → Bool
  | .scalar _ => true
  | .list items => isJsonItems items
  | .dict entries => (entries.map Prod.fst).Nodup && isJsonEntries entries
  | .tuple _ | .proxy _ => false

def isJsonItems : List PyValue → Bool
  | [] => true
  | item :: items => isJson item && isJsonItems items

def isJsonEntries : List (PyString × PyValue) → Bool
  | [] => true
  | (_, value) :: entries => isJson value && isJsonEntries entries

end

mutual

def sortKeys : PyValue → PyValue
  | .list items => .list (sortItems items)
  | .dict entries => .dict (stableSort Prod.fst (sortEntries entries))
  | value => value

def sortItems : List PyValue → List PyValue
  | [] => []
  | item :: items => sortKeys item :: sortItems items

def sortEntries : List (PyString × PyValue) → List (PyString × PyValue)
  | [] => []
  | (key, value) :: entries => (key, sortKeys value) :: sortEntries entries

end

/-- Induction over a value: what holds of a container's parts holds of the container. -/
@[elab_as_elim]
theorem induction_value {P : PyValue → Prop} (value : PyValue) (scalar : ∀ value, P (.scalar value))
    (list : ∀ items, (∀ item ∈ items, P item) → P (.list items))
    (tuple : ∀ items, (∀ item ∈ items, P item) → P (.tuple items))
    (dict : ∀ entries, (∀ entry ∈ entries, P entry.2) → P (.dict entries))
    (proxy : ∀ entries, (∀ entry ∈ entries, P entry.2) → P (.proxy entries)) : P value :=
  @PyValue.rec P (fun items => ∀ item ∈ items, P item) (fun entries => ∀ entry ∈ entries, P entry.2)
    (fun entry => P entry.2) scalar list tuple dict proxy
    (fun _ h => absurd h List.not_mem_nil)
    (fun _ _ hfirst hitems => List.forall_mem_cons.mpr ⟨hfirst, hitems⟩)
    (fun _ h => absurd h List.not_mem_nil)
    (fun _ _ hfirst hentries => List.forall_mem_cons.mpr ⟨hfirst, hentries⟩)
    (fun _ _ hvalue => hvalue) value

section json

variable {items : List PyValue} {entries : List (PyString × PyValue)}

lemma isJsonItems_iff : isJsonItems items = true ↔ ∀ item ∈ items, item.isJson = true := by
  induction items with
  | nil => simp [isJsonItems]
  | cons item items ih => simp [isJsonItems, ih]

lemma isJsonEntries_iff : isJsonEntries entries = true ↔ ∀ entry ∈ entries, entry.2.isJson = true := by
  induction entries with
  | nil => simp [isJsonEntries]
  | cons entry entries ih => simp [isJsonEntries, ih]

lemma isJson_dict_iff :
    (dict entries).isJson = true ↔ (entries.map Prod.fst).Nodup ∧ ∀ entry ∈ entries, entry.2.isJson = true := by
  rw [isJson, Bool.and_eq_true, decide_eq_true_iff, isJsonEntries_iff]

lemma sortItems_eq (items : List PyValue) : sortItems items = items.map sortKeys := by
  induction items with
  | nil => rfl
  | cons item items ih => rw [sortItems, ih, List.map_cons]

lemma sortEntries_eq (entries : List (PyString × PyValue)) :
    sortEntries entries = entries.map fun entry => (entry.1, entry.2.sortKeys) := by
  induction entries with
  | nil => rfl
  | cons entry entries ih => rw [sortEntries, ih, List.map_cons]

lemma sortKeys_dict (entries : List (PyString × PyValue)) :
    (dict entries).sortKeys = .dict (stableSort Prod.fst (entries.map fun entry => (entry.1, entry.2.sortKeys))) := by
  rw [sortKeys, sortEntries_eq]

lemma mem_sorted_entries {entry : PyString × PyValue} :
    entry ∈ stableSort Prod.fst (entries.map fun entry => (entry.1, entry.2.sortKeys)) ↔
      ∃ source ∈ entries, entry = (source.1, source.2.sortKeys) := by
  rw [(stableSort_perm _ _).mem_iff, List.mem_map]
  simp only [eq_comm]

lemma isJson_sortKeys {value : PyValue} (h : value.isJson = true) : value.sortKeys.isJson = true := by
  induction value using induction_value with
  | scalar value => exact h
  | list items ih =>
    rw [isJson, isJsonItems_iff] at h
    rw [sortKeys, sortItems_eq, isJson, isJsonItems_iff]
    intro item hitem
    obtain ⟨source, hsource, rfl⟩ := List.mem_map.mp hitem
    exact ih source hsource (h source hsource)
  | dict entries ih =>
    rw [isJson_dict_iff] at h
    rw [sortKeys_dict, isJson_dict_iff]
    refine ⟨?_, fun entry hentry => ?_⟩
    · have hkeys := (stableSort_perm Prod.fst (entries.map fun entry => (entry.1, entry.2.sortKeys))).map Prod.fst
      rw [List.map_map] at hkeys
      exact hkeys.nodup_iff.mpr h.1
    · obtain ⟨source, hsource, rfl⟩ := mem_sorted_entries.mp hentry
      exact ih source hsource (h.2 source hsource)
  | tuple items => exact h
  | proxy entries => exact h

theorem sortKeys_sortKeys (value : PyValue) : value.sortKeys.sortKeys = value.sortKeys := by
  induction value using induction_value with
  | scalar value => rfl
  | list items ih =>
    simp only [sortKeys, sortItems_eq, List.map_map]
    exact congrArg PyValue.list (List.map_congr_left ih)
  | dict entries ih =>
    rw [sortKeys_dict, sortKeys_dict]
    have hmap : (stableSort Prod.fst (entries.map fun entry => (entry.1, entry.2.sortKeys))).map
        (fun entry => (entry.1, entry.2.sortKeys)) =
        stableSort Prod.fst (entries.map fun entry => (entry.1, entry.2.sortKeys)) := by
      refine (List.map_congr_left fun entry hentry => ?_).trans (List.map_id _)
      obtain ⟨source, hsource, rfl⟩ := mem_sorted_entries.mp hentry
      rw [ih source hsource]
      rfl
    have hsorted := stableSort_append_left Prod.fst (entries.map fun entry => (entry.1, entry.2.sortKeys)) []
    rw [List.append_nil, List.append_nil] at hsorted
    rw [hmap, hsorted]
  | tuple items => rfl
  | proxy entries => rfl

/-- Removing a key from a dict with sorted keys, up to the order of keys. -/
theorem sortKeys_erase (key : PyString) (entries : List (PyString × PyValue)) :
    (dict ((stableSort Prod.fst (entries.map fun entry => (entry.1, entry.2.sortKeys))).filter
      fun entry => entry.1 ≠ key)).sortKeys = (dict (entries.filter fun entry => entry.1 ≠ key)).sortKeys := by
  have hfilter : (entries.map fun entry => (entry.1, entry.2.sortKeys)).filter (fun entry => entry.1 ≠ key) =
      (entries.filter fun entry => entry.1 ≠ key).map fun entry => (entry.1, entry.2.sortKeys) :=
    List.filter_map
  rw [stableSort_filter, hfilter, ← sortKeys_dict, sortKeys_sortKeys]

lemma lookup_stableSort (key : PyString) (entries : List (PyString × PyValue)) :
    (stableSort Prod.fst entries).lookup key = entries.lookup key := by
  have hhead : ∀ entries : List (PyString × PyValue),
      entries.lookup key = ((entries.filter fun entry => entry.1 = key).head?).map Prod.snd := by
    intro entries
    induction entries with
    | nil => rfl
    | cons entry entries ih =>
      obtain ⟨key', value⟩ := entry
      rw [List.lookup_cons]
      by_cases he : key = key'
      · simp [he]
      · have hbeq : (key == key') = false := beq_eq_false_iff_ne.mpr he
        simp [hbeq, ih, Ne.symm he]
  have hstable := stableSort_filter_key Prod.fst entries key
  rw [hhead, hhead]
  congr 2
  convert hstable

lemma lookup_sorted (key : PyString) (entries : List (PyString × PyValue)) :
    (stableSort Prod.fst (entries.map fun entry => (entry.1, entry.2.sortKeys))).lookup key =
      (entries.lookup key).map sortKeys := by
  rw [lookup_stableSort]
  exact lookup_map_snd sortKeys key entries

end json

end PyValue

end FraudDetection.Library
