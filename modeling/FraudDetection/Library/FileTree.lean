import Mathlib.Tactic.Common
import FraudDetection.Library.ListMap

/-!
# Directory trees

A tree of files and directories over any type of names and of contents. Listing a tree skips what
lies below a directory that cannot be listed; `find` follows a path all the same. The lemmas relate
the listing to the paths.
-/

namespace FraudDetection.Library

/-- An entry of a file system; a file has no content if it cannot be read. -/
inductive Node (ν β : Type) where
  | file (content : Option β)
  | dir (readable : Bool) (entries : List (ν × Node ν β))
  | link
  | special

namespace Node

variable {ν β : Type}

mutual

/-- The entries below a node with their paths, as far as directories can be listed. -/
def walk : Node ν β → List (List ν × Node ν β)
  | .dir true entries => walkEntries entries
  | _ => []

def walkEntries : List (ν × Node ν β) → List (List ν × Node ν β)
  | [] => []
  | (name, node) :: rest =>
    ([name], node) :: (walk node).map (fun entry => (name :: entry.1, entry.2)) ++ walkEntries rest

end

lemma mem_walkEntries_iff {entries : List (ν × Node ν β)} {path : List ν} {node : Node ν β} :
    (path, node) ∈ walkEntries entries ↔ ∃ name below, (name, below) ∈ entries ∧
      (path = [name] ∧ node = below ∨ ∃ rest, path = name :: rest ∧ (rest, node) ∈ walk below) := by
  induction entries with
  | nil => simp [walkEntries]
  | cons entry entries ih =>
    obtain ⟨name, below⟩ := entry
    simp only [walkEntries, List.cons_append, List.mem_cons, List.mem_append, List.mem_map, ih, Prod.mk.injEq,
      Prod.exists]
    constructor
    · rintro (⟨rfl, rfl⟩ | ⟨rest, node', hin, rfl, rfl⟩ | ⟨name', below', hin, hbelow⟩)
      · exact ⟨_, _, .inl ⟨rfl, rfl⟩, .inl ⟨rfl, rfl⟩⟩
      · exact ⟨_, _, .inl ⟨rfl, rfl⟩, .inr ⟨rest, rfl, hin⟩⟩
      · exact ⟨name', below', .inr hin, hbelow⟩
    · rintro ⟨name', below', ⟨rfl, rfl⟩ | hin, hbelow⟩
      · rcases hbelow with ⟨rfl, rfl⟩ | ⟨rest, rfl, hrest⟩
        · exact .inl ⟨rfl, rfl⟩
        · exact .inr (.inl ⟨rest, node, hrest, rfl, rfl⟩)
      · exact .inr (.inr ⟨name', below', hin, hbelow⟩)

variable [DecidableEq ν]

def find : Node ν β → List ν → Option (Node ν β)
  | node, [] => some node
  | .dir _ entries, name :: path => (entries.lookup name).bind fun node => node.find path
  | _, _ :: _ => none

/-- The node at a path all of whose directories can be listed. -/
def visible : Node ν β → List ν → Option (Node ν β)
  | node, [] => some node
  | .dir true entries, name :: path => (entries.lookup name).bind fun node => node.visible path
  | _, _ :: _ => none

def createFile (name : ν) (content : β) : Node ν β → Option (Node ν β)
  | .dir readable entries =>
    if name ∈ entries.map Prod.fst then none else some (.dir readable (entries ++ [(name, .file (some content))]))
  | _ => none

def EveryDirectory (Q : List (ν × Node ν β) → Prop) (t : Node ν β) : Prop :=
  ∀ path readable entries, t.find path = some (.dir readable entries) → Q entries

def UniqueNames (t : Node ν β) : Prop := t.EveryDirectory fun entries => (entries.map Prod.fst).Nodup

variable {t node : Node ν β} {path more : List ν} {name : ν}

@[simp] lemma visible_nil (t : Node ν β) : t.visible [] = some t := by
  cases t <;> rfl

@[simp] lemma find_nil (t : Node ν β) : t.find [] = some t := by
  cases t <;> rfl

lemma visible_append (t : Node ν β) (path more : List ν) :
    t.visible (path ++ more) = (t.visible path).bind fun node => node.visible more := by
  induction path generalizing t with
  | nil => simp
  | cons name path ih =>
    cases t with
    | dir readable entries =>
      cases readable with
      | true => simp only [List.cons_append, visible, Option.bind_assoc, ih]
      | false => rfl
    | _ => rfl

lemma find_of_visible (h : t.visible path = some node) : t.find path = some node := by
  induction path generalizing t with
  | nil => rwa [visible_nil, ← find_nil] at h
  | cons name path ih =>
    cases t with
    | dir readable entries =>
      cases readable with
      | true =>
        obtain ⟨below, hlookup, hbelow⟩ := Option.bind_eq_some_iff.mp h
        exact Option.bind_eq_some_iff.mpr ⟨below, hlookup, ih hbelow⟩
      | false => cases h
    | _ => cases h

variable {Q : List (ν × Node ν β) → Prop} {readable : Bool} {entries : List (ν × Node ν β)}

lemma eq_of_find_file {content : Option β} (h : (file content).find path = some node) :
    path = [] ∧ node = .file content := by
  cases path with
  | nil => exact ⟨rfl, (Option.some.inj h).symm⟩
  | cons name path => cases h

lemma exists_entry_of_find (h : (dir readable entries).find (name :: path) = some node) :
    ∃ below, entries.lookup name = some below ∧ (name, below) ∈ entries ∧ below.find path = some node := by
  obtain ⟨below, hlookup, hbelow⟩ := Option.bind_eq_some_iff.mp h
  obtain ⟨before, after, hentries, -⟩ := List.lookup_eq_some_iff.mp hlookup
  exact ⟨below, hlookup, by simp [hentries], hbelow⟩

lemma EveryDirectory.below (h : (dir readable entries).EveryDirectory Q)
    (hlookup : entries.lookup name = some node) : node.EveryDirectory Q := by
  intro path readable' entries' hfind
  refine h (name :: path) readable' entries' ?_
  simp only [find, hlookup, Option.bind_some, hfind]

lemma everyDirectory_file (Q : List (ν × Node ν β) → Prop) (content : Option β) :
    (file content : Node ν β).EveryDirectory Q := by
  intro path readable entries h
  cases (eq_of_find_file h).2

lemma everyDirectory_dir (hentries : Q entries) (hbelow : ∀ entry ∈ entries, entry.2.EveryDirectory Q) :
    (dir readable entries).EveryDirectory Q := by
  rintro (_ | ⟨name, path⟩) readable' entries' h
  · cases h
    exact hentries
  · obtain ⟨below, -, hin, hfind⟩ := exists_entry_of_find h
    exact hbelow (name, below) hin path readable' entries' hfind

lemma createFile_eq_some {content : β} (h : t.createFile name content = some node) :
    ∃ readable entries, t = .dir readable entries ∧ name ∉ entries.map Prod.fst ∧
      node = .dir readable (entries ++ [(name, .file (some content))]) := by
  cases t with
  | dir readable entries =>
    simp only [createFile] at h
    split_ifs at h with hin
    exact ⟨readable, entries, rfl, hin, (Option.some.inj h).symm⟩
  | _ => cases h

lemma find_createFile {content : β} (h : t.createFile name content = some node) (path : List ν) :
    node.find (name :: path) = (file (some content)).find path := by
  obtain ⟨readable, entries, rfl, hnot, rfl⟩ := createFile_eq_some h
  have hnone : entries.lookup name = none := by
    rw [List.lookup_eq_none_iff]
    intro entry hentry
    have hne : name ≠ entry.1 := fun he => hnot (he ▸ List.mem_map_of_mem hentry)
    simpa using hne
  simp only [find, List.lookup_append, hnone, Option.none_or, List.lookup_cons, beq_self_eq_true, Option.bind_some]

lemma find_createFile_of_ne {content : β} (h : t.createFile name content = some node) {other : ν} (hne : other ≠ name)
    (path : List ν) : node.find (other :: path) = t.find (other :: path) := by
  obtain ⟨readable, entries, rfl, hnot, rfl⟩ := createFile_eq_some h
  have hbeq : (other == name) = false := beq_eq_false_iff_ne.mpr hne
  simp only [find, List.lookup_append, List.lookup_cons, hbeq, List.lookup_nil, Option.or_none]

lemma EveryDirectory.createFile {content : β} (hQ : t.EveryDirectory Q)
    (hnew : ∀ entries, Q entries → name ∉ entries.map Prod.fst → Q (entries ++ [(name, .file (some content))]))
    (h : t.createFile name content = some node) : node.EveryDirectory Q := by
  rintro (_ | ⟨other, path⟩) readable' entries' hfind
  · obtain ⟨readable, entries, rfl, hnot, rfl⟩ := createFile_eq_some h
    cases hfind
    exact hnew entries (hQ [] _ entries rfl) hnot
  · by_cases hother : other = name
    · rw [hother, find_createFile h] at hfind
      cases (eq_of_find_file hfind).2
    · rw [find_createFile_of_ne h hother] at hfind
      exact hQ (other :: path) readable' entries' hfind

lemma names_of_find {P : ν → Prop} (hnames : t.EveryDirectory fun entries => ∀ entry ∈ entries, P entry.1)
    (h : t.find path = some node) : ∀ name ∈ path, P name := by
  induction path generalizing t with
  | nil => exact fun name hname => absurd hname List.not_mem_nil
  | cons name path ih =>
    cases t with
    | dir readable entries =>
      obtain ⟨below, hlookup, hin, hbelow⟩ := exists_entry_of_find h
      exact List.forall_mem_cons.mpr ⟨hnames [] readable entries rfl _ hin, ih (hnames.below hlookup) hbelow⟩
    | _ => cases h

/-- What is there and not listed lies below a directory that cannot be listed. -/
lemma exists_unlisted (h : t.find path = some node) (hhidden : t.visible path = none) :
    ∃ before name after entries, path = before ++ name :: after ∧ t.visible before = some (.dir false entries) := by
  induction path generalizing t with
  | nil =>
    rw [visible_nil] at hhidden
    cases hhidden
  | cons name path ih =>
    cases t with
    | dir readable entries =>
      cases readable with
      | true =>
        obtain ⟨below, hlookup, hbelow⟩ := Option.bind_eq_some_iff.mp h
        have hhidden' : below.visible path = none := by
          simpa only [visible, hlookup, Option.bind_some] using hhidden
        obtain ⟨before, name', after, entries', rfl, hbefore⟩ := ih hbelow hhidden'
        refine ⟨name :: before, name', after, entries', rfl, ?_⟩
        simp only [visible, hlookup, Option.bind_some, hbefore]
      | false => exact ⟨[], name, path, entries, rfl, visible_nil _⟩
    | _ => cases h

/-- The listing of a tree has exactly the entries at the paths that can be listed. -/
theorem mem_walk_iff (h : t.UniqueNames) :
    (path, node) ∈ t.walk ↔ path ≠ [] ∧ t.visible path = some node := by
  induction path generalizing t with
  | nil =>
    cases t with
    | dir readable entries =>
      cases readable with
      | true => simp [walk, mem_walkEntries_iff]
      | false => simp [walk]
    | _ => simp [walk]
  | cons name path ih =>
    cases t with
    | dir readable entries =>
      cases readable with
      | true =>
        have hnodup := h [] true entries rfl
        simp only [walk, mem_walkEntries_iff, visible, ne_eq, reduceCtorEq, not_false_eq_true, true_and,
          Option.bind_eq_some_iff, lookup_eq_some_iff_of_nodup hnodup, List.cons.injEq]
        constructor
        · rintro ⟨name', below, hin, ⟨⟨rfl, rfl⟩, rfl⟩ | ⟨rest, ⟨rfl, rfl⟩, hrest⟩⟩
          · exact ⟨node, hin, visible_nil _⟩
          · have hunique := EveryDirectory.below h ((lookup_eq_some_iff_of_nodup hnodup).mpr hin)
            exact ⟨below, hin, ((ih hunique).mp hrest).2⟩
        · rintro ⟨below, hin, hbelow⟩
          refine ⟨name, below, hin, ?_⟩
          have hunique := EveryDirectory.below h ((lookup_eq_some_iff_of_nodup hnodup).mpr hin)
          by_cases hempty : path = []
          · subst hempty
            rw [visible_nil] at hbelow
            exact .inl ⟨⟨rfl, rfl⟩, (Option.some.inj hbelow).symm⟩
          · exact .inr ⟨path, ⟨rfl, rfl⟩, (ih hunique).mpr ⟨hempty, hbelow⟩⟩
      | false => simp [walk, visible]
    | _ => simp [walk, visible]

end Node

end FraudDetection.Library
