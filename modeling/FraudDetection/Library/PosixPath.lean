import Mathlib.Data.List.Basic
import Mathlib.Tactic.Common

/-!
# Pure POSIX paths

Strings as code points, and `PurePosixPath` of Python's `pathlib`: a path drops the empty and the
`.` components of its text and keeps `..`. A text is the canonical one of its path exactly if
printing the path gives it back.
-/

namespace FraudDetection.Library

/-- A Python `str`: its code points, lone surrogates included. -/
abbrev PyString := List Nat

def text (s : String) : PyString := s.toList.map Char.toNat

def slash : Nat := 47

def joinPath (parts : List PyString) : PyString := [slash].intercalate parts

@[mk_iff]
structure IsComponent (c : PyString) : Prop where
  nonempty : c ≠ []
  ne_dot : c ≠ text "."
  ne_dotdot : c ≠ text ".."
  no_slash : slash ∉ c

instance : DecidablePred IsComponent := fun _ => decidable_of_iff' _ (isComponent_iff _)

structure PurePosixPath where
  root : PyString
  tail : List PyString
  deriving DecidableEq, Repr

namespace PurePosixPath

/-- One slash or three and more are the root `/`; exactly two are the root `//`. -/
def parse (name : PyString) : PurePosixPath where
  root :=
    if name.head? = some slash then
      if name[1]? = some slash ∧ name[2]? ≠ some slash then [slash, slash] else [slash]
    else []
  tail := (name.splitOn slash).filter fun part => part ≠ [] ∧ part ≠ text "."

def isAbsolute (path : PurePosixPath) : Bool := path.root ≠ []

def asPosix (path : PurePosixPath) : PyString :=
  if path.root = [] ∧ path.tail = [] then text "." else path.root ++ joinPath path.tail

def parts (path : PurePosixPath) : List PyString :=
  (if path.root = [] then [] else [path.root]) ++ path.tail

end PurePosixPath

open PurePosixPath

variable {parts parts' : List PyString} {name : PyString}

lemma not_mem_of_mem_splitOn (sep : Nat) {xs part : List Nat} (h : part ∈ xs.splitOn sep) : sep ∉ part := by
  induction xs generalizing part with
  | nil =>
    rw [List.splitOn_nil, List.mem_singleton] at h
    rw [h]
    exact List.not_mem_nil
  | cons x xs ih =>
    unfold List.splitOn at h ih
    rw [List.splitOnP_cons_eq_if_modifyHead] at h
    split at h
    · rcases List.mem_cons.mp h with rfl | hrest
      · exact List.not_mem_nil
      · exact ih hrest
    · rename_i hne
      obtain ⟨first, rest, hsplit⟩ := List.exists_cons_of_ne_nil (List.splitOnP_ne_nil (· == sep) xs)
      rw [hsplit, List.modifyHead_cons, List.mem_cons] at h
      rw [hsplit] at ih
      rcases h with rfl | hrest
      · have hfirst := ih List.mem_cons_self
        have hx : sep ≠ x := fun he => hne (by rw [he]; exact beq_self_eq_true x)
        simp [hx, hfirst]
      · exact ih (List.mem_cons_of_mem first hrest)

lemma joinPath_head (h : ∀ c ∈ parts, IsComponent c) : (joinPath parts).head? ≠ some slash := by
  cases parts with
  | nil => exact nofun
  | cons c rest =>
    obtain ⟨x, xs, rfl⟩ := List.exists_cons_of_ne_nil (h c List.mem_cons_self).nonempty
    have hx : x ≠ slash := fun he => (h _ List.mem_cons_self).no_slash (he ▸ List.mem_cons_self)
    cases rest with
    | nil => simpa [joinPath, List.intercalate] using hx
    | cons c' rest => simpa [joinPath, List.intercalate_cons_cons] using hx

/-- Printing a path of components and reading it back. -/
theorem parse_joinPath (h : ∀ c ∈ parts, IsComponent c) : parse (joinPath parts) = ⟨[], parts⟩ := by
  unfold parse
  rw [if_neg (joinPath_head h)]
  congr
  by_cases hempty : parts = []
  · rw [hempty]
    rfl
  · rw [joinPath, List.splitOn_intercalate slash (fun c hc => (h c hc).no_slash) hempty, List.filter_eq_self]
    intro c hc
    simpa using ⟨(h c hc).nonempty, (h c hc).ne_dot⟩

lemma joinPath_injective (h : ∀ c ∈ parts, IsComponent c) (h' : ∀ c ∈ parts', IsComponent c)
    (he : joinPath parts = joinPath parts') : parts = parts' := by
  have hparse := congrArg (fun name => (parse name).tail) he
  simpa only [parse_joinPath h, parse_joinPath h'] using hparse

lemma isComponent_of_mem_parse {c : PyString} (hc : c ∈ (parse name).tail) (hdots : c ≠ text "..") :
    IsComponent c := by
  obtain ⟨hsplit, hne⟩ := List.mem_filter.mp hc
  simp only [ne_eq, Bool.decide_and, Bool.and_eq_true, decide_eq_true_eq] at hne
  exact ⟨hne.1, hne.2, hdots, not_mem_of_mem_splitOn slash hsplit⟩

lemma eq_joinPath_of_canonical (hroot : (parse name).root = []) (hposix : (parse name).asPosix = name)
    (hne : (parse name).tail ≠ []) : name = joinPath (parse name).tail := by
  conv_lhs => rw [← hposix]
  simp [asPosix, hroot, hne]

end FraudDetection.Library
