import Mathlib.Tactic.Common

/-!
# Programs that call an environment

A program either returns or makes a call and continues with the answer. Nothing is assumed about
the answers, so the traces of a program are its exchanges with every environment, whatever that
remembers. A protocol is a step relation over exchanges; a program conforms to it from a state when
every exchange it can have is a step, whatever the answer is.
-/

namespace FraudDetection.Library

/-- Programs over the calls `C`, where `A c` are the answers to call `c`. -/
inductive Prog (C : Type) (A : C → Type) (α : Type) where
  | pure (a : α)
  | call (c : C) (k : A c → Prog C A α)

abbrev Exchange (C : Type) (A : C → Type) := (c : C) × A c

variable {C : Type} {A : C → Type} {α β σ ε : Type}

inductive Runs (step : σ → ε → σ → Prop) : σ → List ε → σ → Prop where
  | nil (s) : Runs step s [] s
  | cons {s t u label labels} : step s label t → Runs step t labels u → Runs step s (label :: labels) u

namespace Runs

variable {step : σ → ε → σ → Prop} {s s' : σ}

theorem history {P : List ε → σ → Prop}
    (hstep : ∀ past s label s', P past s → step s label s' → P (past ++ [label]) s') {past labels : List ε}
    (hs : P past s) (h : Runs step s labels s') : P (past ++ labels) s' := by
  induction h generalizing past with
  | nil => rwa [List.append_nil]
  | cons hfirst _ ih =>
    have hnext := ih (hstep past _ _ _ hs hfirst)
    rwa [List.append_assoc, List.singleton_append] at hnext

lemma append {t : σ} {before after : List ε} (h : Runs step s before t) (h' : Runs step t after s') :
    Runs step s (before ++ after) s' := by
  induction h with
  | nil => exact h'
  | cons hfirst _ ih => exact .cons hfirst (ih h')

lemma split {before after : List ε} (h : Runs step s (before ++ after) s') :
    ∃ t, Runs step s before t ∧ Runs step t after s' := by
  induction before generalizing s with
  | nil => exact ⟨s, .nil s, h⟩
  | cons label before ih =>
    cases h with
    | cons hfirst hrest =>
      obtain ⟨t, hbefore, hafter⟩ := ih hrest
      exact ⟨t, .cons hfirst hbefore, hafter⟩

end Runs

namespace Prog

def bind : Prog C A α → (α → Prog C A β) → Prog C A β
  | .pure a, f => f a
  | .call c k, f => .call c fun answer => (k answer).bind f

instance : Monad (Prog C A) where
  pure := .pure
  bind := bind

def request (c : C) : Prog C A (A c) := .call c .pure

/-- The exchanges of a run, up to any moment; the result is there when the program has returned. -/
inductive Traces : Prog C A α → List (Exchange C A) → Option α → Prop where
  | running (p) : Traces p [] none
  | returned (a) : Traces (.pure a) [] (some a)
  | exchange (c k answer trace result) :
      Traces (k answer) trace result → Traces (.call c k) (⟨c, answer⟩ :: trace) result

/-- From `s`, every exchange is a step of the protocol, and the result and the state at the return
satisfy `Q`. -/
def Conforms (step : σ → Exchange C A → σ → Prop) : Prog C A α → σ → (α → σ → Prop) → Prop
  | .pure a, s, Q => Q a s
  | .call c k, s, Q => ∀ answer, ∃ s', step s ⟨c, answer⟩ s' ∧ Conforms step (k answer) s' Q

variable {step : σ → Exchange C A → σ → Prop} {s : σ}

lemma conforms_mono {Q Q' : α → σ → Prop} (hQ : ∀ a s, Q a s → Q' a s) (p : Prog C A α)
    (h : p.Conforms step s Q) : p.Conforms step s Q' := by
  induction p generalizing s with
  | pure a => exact hQ a s h
  | call c k ih =>
    intro answer
    obtain ⟨s', hs', hrest⟩ := h answer
    exact ⟨s', hs', ih answer hrest⟩

lemma conforms_bind {Q : β → σ → Prop} (p : Prog C A α) {f : α → Prog C A β}
    (h : p.Conforms step s fun a s' => (f a).Conforms step s' Q) : (p >>= f).Conforms step s Q := by
  induction p generalizing s with
  | pure a => exact h
  | call c k ih =>
    intro answer
    obtain ⟨s', hs', hrest⟩ := h answer
    exact ⟨s', hs', ih answer hrest⟩

lemma conforms_pure {Q : α → σ → Prop} {a : α} (h : Q a s) :
    (Pure.pure a : Prog C A α).Conforms step s Q := h

lemma conforms_request {Q : α → σ → Prop} {c : C} {f : A c → Prog C A α}
    (h : ∀ answer, ∃ s', step s ⟨c, answer⟩ s' ∧ (f answer).Conforms step s' Q) :
    (request c >>= f).Conforms step s Q := h

/-- The traces of a program that conforms are runs of the protocol. -/
theorem Traces.conforms {p : Prog C A α} {Q : α → σ → Prop} {trace : List (Exchange C A)}
    {result : Option α} (h : Traces p trace result) (hp : p.Conforms step s Q) :
    ∃ s', Runs step s trace s' ∧ ∀ a, result = some a → Q a s' := by
  induction h generalizing s with
  | running => exact ⟨s, .nil s, fun a ha => by cases ha⟩
  | returned a =>
    refine ⟨s, .nil s, fun b hb => ?_⟩
    cases hb
    exact hp
  | exchange c k answer trace result _ ih =>
    obtain ⟨t, ht, hrest⟩ := hp answer
    obtain ⟨s', hs', hq⟩ := ih hrest
    exact ⟨s', .cons ht hs', hq⟩

end Prog

end FraudDetection.Library
