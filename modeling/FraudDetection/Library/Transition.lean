import Mathlib.Logic.Function.Basic

/-!
# Runs of a partial step function

`step s a` is the state after action `a`, or `none` where `a` is not enabled in `s`. A run is a
list of actions, each enabled where it is taken.
-/

namespace FraudDetection.Library

variable {σ α : Type}

def runSteps (step : σ → α → Option σ) : σ → List α → Option σ
  | s, [] => some s
  | s, a :: actions => (step s a).bind (fun s' => runSteps step s' actions)

/-- What holds at the start and survives every step holds after every run. -/
theorem runSteps_invariant {step : σ → α → Option σ} {P : σ → Prop}
    (hstep : ∀ s a s', P s → step s a = some s' → P s') {s s' : σ} (hs : P s) (actions : List α)
    (h : runSteps step s actions = some s') : P s' := by
  induction actions generalizing s with
  | nil => exact Option.some.inj h ▸ hs
  | cons a actions ih =>
    obtain ⟨t, ht, hrest⟩ := Option.bind_eq_some_iff.mp h
    exact ih (hstep s a t hs ht) hrest

/-- The same for a property of the state together with the actions taken so far. -/
theorem runSteps_history {step : σ → α → Option σ} {P : List α → σ → Prop}
    (hstep : ∀ past s a s', P past s → step s a = some s' → P (past ++ [a]) s') {past : List α}
    {s s' : σ} (hs : P past s) (actions : List α) (h : runSteps step s actions = some s') :
    P (past ++ actions) s' := by
  induction actions generalizing past s with
  | nil =>
    rw [List.append_nil]
    exact Option.some.inj h ▸ hs
  | cons a actions ih =>
    obtain ⟨t, ht, hrest⟩ := Option.bind_eq_some_iff.mp h
    have hnext := ih (hstep past s a t hs ht) hrest
    rwa [List.append_assoc, List.singleton_append] at hnext

lemma runSteps_append (step : σ → α → Option σ) (s : σ) (past more : List α) :
    runSteps step s (past ++ more) = (runSteps step s past).bind (fun t => runSteps step t more) := by
  induction past generalizing s with
  | nil => rfl
  | cons a past ih => simp only [List.cons_append, runSteps, Option.bind_assoc, ih]

lemma runSteps_concat {step : σ → α → Option σ} {s t t' : σ} {past : List α} {a : α}
    (h : runSteps step s past = some t) (ha : step t a = some t') :
    runSteps step s (past ++ [a]) = some t' := by
  simp only [runSteps_append, h, runSteps, Option.bind_some, ha]

/-- A run from where an invariant holds has no more steps than a rank that each of them lowers. -/
theorem runSteps_rank {step : σ → α → Option σ} {P : σ → Prop} {rank : σ → Nat}
    (hstep : ∀ s a s', P s → step s a = some s' → P s' ∧ rank s' < rank s) {s s' : σ} (hs : P s) (actions : List α)
    (h : runSteps step s actions = some s') : actions.length + rank s' ≤ rank s := by
  induction actions generalizing s with
  | nil =>
    cases h
    exact Nat.le_of_eq (Nat.zero_add _)
  | cons a actions ih =>
    obtain ⟨t, ht, hrest⟩ := Option.bind_eq_some_iff.mp h
    obtain ⟨hP, hlt⟩ := hstep s a t hs ht
    have hle := ih hP hrest
    rw [List.length_cons]
    omega

def runLog {β : Type} (step : σ → α → Option σ) (observe : σ → α → List β) : σ → List α → List β
  | _, [] => []
  | s, a :: actions => observe s a ++ (step s a).elim [] fun s' => runLog step observe s' actions

lemma mem_runLog {β : Type} {step : σ → α → Option σ} {observe : σ → α → List β} {s : σ} {actions : List α} {b : β}
    (h : b ∈ runLog step observe s actions) :
    ∃ before a after t, actions = before ++ a :: after ∧ runSteps step s before = some t ∧ b ∈ observe t a := by
  induction actions generalizing s with
  | nil => cases h
  | cons a actions ih =>
    rw [runLog] at h
    rcases List.mem_append.mp h with hnow | hlater
    · exact ⟨[], a, actions, s, rfl, rfl, hnow⟩
    · cases hstep : step s a with
      | none =>
        rw [hstep] at hlater
        cases hlater
      | some s' =>
        rw [hstep] at hlater
        obtain ⟨before, a', after, t, rfl, hbefore, hmem⟩ := ih hlater
        refine ⟨a :: before, a', after, t, rfl, ?_, hmem⟩
        rw [runSteps, hstep]
        exact hbefore

/-- A property of the state together with the notes so far, over the runs whose actions satisfy `Q`. -/
theorem runSteps_log {β : Type} {step : σ → α → Option σ} {observe : σ → α → List β} {P : List β → σ → Prop}
    {Q : α → Prop}
    (hstep : ∀ log s a s', Q a → P log s → step s a = some s' → P (log ++ observe s a) s') {log : List β}
    {s s' : σ} (hs : P log s) {actions : List α} (hactions : ∀ a ∈ actions, Q a)
    (h : runSteps step s actions = some s') : P (log ++ runLog step observe s actions) s' := by
  induction actions generalizing log s with
  | nil =>
    rw [runLog, List.append_nil]
    exact Option.some.inj h ▸ hs
  | cons a actions ih =>
    obtain ⟨t, ht, hrest⟩ := Option.bind_eq_some_iff.mp h
    have hfirst := hstep log s a t (hactions a List.mem_cons_self) hs ht
    have hnext := ih hfirst (fun b hb => hactions b (List.mem_cons_of_mem a hb)) hrest
    rw [runLog, ht, Option.elim_some]
    rwa [List.append_assoc] at hnext

end FraudDetection.Library
