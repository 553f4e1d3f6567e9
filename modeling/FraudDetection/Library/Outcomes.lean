import Mathlib.Data.List.Basic

/-!
# Functions that return early

Rules for `Except`: when a sequence of checks succeeds, what its errors satisfy, and what a loop
that may fail keeps.
-/

namespace FraudDetection.Library

variable {α β ε : Type}

section success

@[simp] lemma ok_bind (x : α) (next : α → Except ε β) : (Except.ok x >>= next) = next x := rfl

@[simp] lemma error_bind (err : ε) (next : α → Except ε β) : (Except.error err >>= next) = .error err := rfl

lemma throw_bind (err : ε) (next : α → Except ε β) : ((throw err : Except ε α) >>= next) = .error err := rfl

lemma throw_if_eq_ok_iff {c : Prop} [Decidable c] {err : ε} {next : Unit → Except ε α} {x : α} :
    (if c then (throw err : Except ε Unit) >>= next else next ()) = .ok x ↔ ¬ c ∧ next () = .ok x := by
  split
  · exact iff_of_false nofun fun h => h.1 ‹_›
  · exact (and_iff_right ‹_›).symm

lemma bind_eq_ok_iff {first : Except ε α} {next : α → Except ε β} {y : β} :
    (first >>= next) = .ok y ↔ ∃ x, first = .ok x ∧ next x = .ok y := by
  cases first with
  | error err => exact iff_of_false nofun fun ⟨_, h, _⟩ => nomatch h
  | ok x => exact ⟨fun h => ⟨x, rfl, h⟩, fun ⟨_, h, hnext⟩ => by cases h; exact hnext⟩

lemma forM_eq_ok_iff {xs : List α} {f : α → Except ε Unit} : xs.forM f = .ok () ↔ ∀ x ∈ xs, f x = .ok () := by
  induction xs with
  | nil => exact iff_of_true rfl fun x hx => by cases hx
  | cons x xs ih =>
    rw [List.forall_mem_cons, ← ih]
    change (f x >>= fun _ => xs.forM f) = .ok () ↔ _
    cases f x with
    | error err => exact iff_of_false nofun fun h => nomatch h.1
    | ok u => exact ⟨fun h => ⟨rfl, h⟩, fun h => h.2⟩

/-- The invariant rule for a loop that did not fail. -/
lemma foldlM_induction {P : β → Prop} {f : β → α → Except ε β} {xs : List α} {start result : β}
    (h : xs.foldlM f start = .ok result) (hstart : P start)
    (hstep : ∀ s, ∀ x ∈ xs, ∀ s', P s → f s x = .ok s' → P s') : P result := by
  induction xs generalizing start with
  | nil =>
    cases h
    exact hstart
  | cons x xs ih =>
    rw [List.foldlM_cons, bind_eq_ok_iff] at h
    obtain ⟨s, hs, hrest⟩ := h
    exact ih hrest (hstep start x List.mem_cons_self s hstart hs)
      fun s x hx => hstep s x (List.mem_cons_of_mem _ hx)

lemma foldlM_congr {f g : β → α → Except ε β} {xs : List α} (h : ∀ x ∈ xs, ∀ s, f s x = g s x) (start : β) :
    xs.foldlM f start = xs.foldlM g start := by
  induction xs generalizing start with
  | nil => rfl
  | cons x xs ih =>
    rw [List.foldlM_cons, List.foldlM_cons, h x List.mem_cons_self start]
    exact bind_congr fun s => ih (fun y hy => h y (List.mem_cons_of_mem x hy)) s

lemma mapM_congr {f g : α → Except ε β} {xs : List α} (h : ∀ x ∈ xs, f x = g x) : xs.mapM f = xs.mapM g := by
  induction xs with
  | nil => rfl
  | cons x xs ih =>
    rw [List.mapM_cons, List.mapM_cons, h x List.mem_cons_self, ih fun y hy => h y (List.mem_cons_of_mem x hy)]

lemma mapM_eq_ok_iff {f : α → Except ε β} {xs : List α} {ys : List β} :
    xs.mapM f = .ok ys ↔ xs.map f = ys.map .ok := by
  induction xs generalizing ys with
  | nil =>
    constructor
    · intro h
      cases h
      rfl
    · intro h
      rw [List.map_nil, eq_comm, List.map_eq_nil_iff] at h
      rw [h]
      rfl
  | cons x xs ih =>
    rw [List.mapM_cons, bind_eq_ok_iff, List.map_cons]
    constructor
    · rintro ⟨y, hy, h⟩
      obtain ⟨rest, hrest, h⟩ := bind_eq_ok_iff.mp h
      cases h
      rw [List.map_cons, hy, ih.mp hrest]
    · intro h
      obtain ⟨y, rest, rfl, hy, hrest⟩ := List.map_eq_cons_iff.mp h.symm
      exact ⟨y, hy.symm, bind_eq_ok_iff.mpr ⟨rest, ih.mpr hrest.symm, rfl⟩⟩

lemma mapM_forall {Q : β → Prop} {f : α → Except ε β} {xs : List α} {ys : List β} (h : xs.mapM f = .ok ys)
    (hstep : ∀ x y, f x = .ok y → Q y) : ∀ y ∈ ys, Q y := by
  intro y hy
  have hmem : (Except.ok y : Except ε β) ∈ xs.map f := by
    rw [mapM_eq_ok_iff.mp h]
    exact List.mem_map_of_mem hy
  obtain ⟨x, -, hx⟩ := List.mem_map.mp hmem
  exact hstep x y hx

/-- A loop whose turns can only succeed with `g` is a map wherever it succeeds. -/
lemma mapM_eq_map {P : α → Prop} {f : α → Except ε β} {g : α → β} {xs : List α} {ys : List β}
    (h : xs.mapM f = .ok ys) (hstep : ∀ x y, f x = .ok y → y = g x ∧ P x) : ys = xs.map g ∧ ∀ x ∈ xs, P x := by
  induction xs generalizing ys with
  | nil =>
    cases h
    exact ⟨rfl, fun x hx => absurd hx List.not_mem_nil⟩
  | cons x xs ih =>
    rw [List.mapM_cons] at h
    obtain ⟨y, hy, h⟩ := bind_eq_ok_iff.mp h
    obtain ⟨rest, hrest, h⟩ := bind_eq_ok_iff.mp h
    cases h
    obtain ⟨rfl, hP⟩ := hstep x y hy
    obtain ⟨rfl, hall⟩ := ih hrest
    exact ⟨rfl, List.forall_mem_cons.mpr ⟨hP, hall⟩⟩

end success

section total

def SucceedsWith (Q : α → Prop) (m : Except ε α) : Prop := ∃ x, m = .ok x ∧ Q x

lemma SucceedsWith.pure {Q : α → Prop} {x : α} (h : Q x) : SucceedsWith Q (pure x : Except ε α) := ⟨x, rfl, h⟩

lemma SucceedsWith.bind {Q : α → Prop} {R : β → Prop} {first : Except ε α} {next : α → Except ε β}
    (h : SucceedsWith Q first) (hnext : ∀ x, Q x → SucceedsWith R (next x)) : SucceedsWith R (first >>= next) := by
  obtain ⟨x, rfl, hx⟩ := h
  exact hnext x hx

lemma SucceedsWith.throw_if {Q : α → Prop} {c : Prop} [Decidable c] {err : ε} {next : Unit → Except ε α} (hc : ¬ c)
    (hnext : SucceedsWith Q (next ())) :
    SucceedsWith Q (if c then (MonadExcept.throw err : Except ε Unit) >>= next else next ()) := by
  rw [if_neg hc]
  exact hnext

/-- A loop whose steps all succeed under an invariant that may count them. -/
lemma SucceedsWith.foldlM {Q : Nat → β → Prop} {f : β → α → Except ε β} {xs : List α} {start : β} {n : Nat}
    (hstart : Q n start) (hstep : ∀ i s x, i < n + xs.length → Q i s → SucceedsWith (Q (i + 1)) (f s x)) :
    SucceedsWith (Q (n + xs.length)) (xs.foldlM f start) := by
  induction xs generalizing start n with
  | nil => exact .pure hstart
  | cons x xs ih =>
    have hlength : n + 1 + xs.length = n + (x :: xs).length := by
      rw [List.length_cons]
      omega
    rw [List.foldlM_cons, ← hlength]
    refine (hstep n start x (by rw [List.length_cons]; omega) hstart).bind fun s hs => ih hs ?_
    exact fun i s x hi => hstep i s x (hlength ▸ hi)

end total

section failure

variable {P : ε → Prop}

def FailsWith (P : ε → Prop) (m : Except ε α) : Prop := ∀ err, m = .error err → P err

lemma FailsWith.pure (x : α) : FailsWith P (pure x : Except ε α) := fun _ h => nomatch h

lemma FailsWith.throw {err : ε} (h : P err) : FailsWith P (throw err : Except ε α) := by
  intro err' herr
  cases herr
  exact h

lemma FailsWith.bind {first : Except ε α} {next : α → Except ε β} (h : FailsWith P first)
    (hnext : ∀ x, first = .ok x → FailsWith P (next x)) : FailsWith P (first >>= next) := by
  cases first with
  | error err => exact fun err' herr => by cases herr; exact h err rfl
  | ok x => exact hnext x rfl

lemma failsWith_bind_iff {first : Except ε α} {next : α → Except ε β} :
    FailsWith P (first >>= next) ↔ FailsWith P first ∧ ∀ x, first = .ok x → FailsWith P (next x) := by
  refine ⟨fun h => ?_, fun h => h.1.bind h.2⟩
  cases first with
  | error err =>
    refine ⟨fun err' herr => h err' ?_, fun x hx => nomatch hx⟩
    cases herr
    rfl
  | ok x =>
    refine ⟨FailsWith.pure x, fun x' hx => ?_⟩
    cases hx
    exact h

lemma FailsWith.throw_if {c : Prop} [Decidable c] {err : ε} {next : Unit → Except ε α} (h : c → P err)
    (hnext : ¬ c → FailsWith P (next ())) :
    FailsWith P (if c then (MonadExcept.throw err : Except ε Unit) >>= next else next ()) := by
  split
  · rename_i hc
    intro err' herr
    cases herr
    exact h hc
  · exact hnext ‹_›

lemma FailsWith.ite {c : Prop} [Decidable c] {first second : Except ε α} (h : c → FailsWith P first)
    (h' : ¬ c → FailsWith P second) : FailsWith P (if c then first else second) := by
  split
  · exact h ‹_›
  · exact h' ‹_›

lemma FailsWith.foldlM {f : β → α → Except ε β} {xs : List α} {start : β} (h : ∀ s x, FailsWith P (f s x)) :
    FailsWith P (xs.foldlM f start) := by
  induction xs generalizing start with
  | nil => exact .pure start
  | cons x xs ih =>
    rw [List.foldlM_cons]
    exact (h start x).bind fun _ _ => ih

lemma FailsWith.forM {f : α → Except ε Unit} {xs : List α} (h : ∀ x ∈ xs, FailsWith P (f x)) :
    FailsWith P (xs.forM f) := by
  induction xs with
  | nil => exact .pure ()
  | cons x xs ih =>
    exact (h x List.mem_cons_self).bind fun _ _ => ih fun y hy => h y (List.mem_cons_of_mem x hy)

lemma FailsWith.mapM {f : α → Except ε β} {xs : List α} (h : ∀ x, FailsWith P (f x)) : FailsWith P (xs.mapM f) := by
  induction xs with
  | nil => exact .pure []
  | cons x xs ih =>
    rw [List.mapM_cons]
    exact (h x).bind fun _ _ => ih.bind fun _ _ => .pure _

end failure

end FraudDetection.Library
