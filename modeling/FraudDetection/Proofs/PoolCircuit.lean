import Mathlib.Data.Rat.Defs
import FraudDetection.Library.Transition
import FraudDetection.WorkerPool

/-!
# Departed callers and the circuits of the worker pool

A worker is taken out of rotation after a failed inference, a failed probe of `available` or a
failed probe of `Healthy`. Only the first of the three looks at the context of the caller.
-/

namespace FraudDetection.Proofs
open FraudDetection.Library
open FraudDetection.Scheduler (CallId ContextError)
open FraudDetection.WorkerPool

variable {K : Type} {pool : Pool} {deadline : CallId → Option Int} {s s' : WorkerPool.State K} {c : CallId}

/-- Some worker is down that was not, or is down for longer. -/
def AddsOrExtends (s s' : WorkerPool.State K) : Prop :=
  ∃ i t, s'.unhealthy i = some t ∧ ∀ u, s.unhealthy i = some u → u < t

def marksDown : CallPC K → Bool
  | .probeFailed _ | .markDown _ | .sweepFailed _ => true
  | _ => false

section frame

lemma not_addsOrExtends_of_eq (h : s'.unhealthy = s.unhealthy) : ¬ AddsOrExtends s s' := by
  rintro ⟨i, t, hi, hlt⟩
  rw [h] at hi
  exact lt_irrefl t (hlt t hi)

lemma not_addsOrExtends_recover (s : WorkerPool.State K) (i : Nat) (c : CallId) (pc : CallPC K) :
    ¬ AddsOrExtends s ((s.recover i).goto c pc) := by
  rintro ⟨j, t, hj, hlt⟩
  change Function.update s.unhealthy i none j = some t at hj
  by_cases he : j = i
  · rw [he, Function.update_self] at hj
    cases hj
  · rw [Function.update_of_ne he] at hj
    exact lt_irrefl t (hlt t hj)

/-- Marking a worker down tells if time has passed since it was marked before. -/
lemma addsOrExtends_markDown {i : Nat} (pc : CallPC K)
    (hnew : ∀ u, s.unhealthy i = some u → u < s.now + pool.probeEvery) :
    AddsOrExtends s ((s.markDown pool i).goto c pc) :=
  ⟨i, s.now + pool.probeEvery, Function.update_self .., hnew⟩

lemma marksDown_inferLoop (pool : Pool) (a : Attempts K) : marksDown (inferLoop pool a) = false := by
  unfold inferLoop
  split <;> rfl

@[simp] lemma goto_calls_self (s : WorkerPool.State K) (c : CallId) (pc : CallPC K) : (s.goto c pc).calls c = pc :=
  Function.update_self ..

lemma goto_calls_other {c' : CallId} (pc : CallPC K) (h : c ≠ c') : (s.goto c' pc).calls c = s.calls c :=
  Function.update_of_ne h ..

end frame

section steps

/-- What a step of a call does to the map and where it leads: only a caller whose context is live
comes to mark a worker down. -/
inductive CallEffect (pool : Pool) (s : WorkerPool.State K) (c : CallId) : WorkerPool.State K → Prop where
  | advance (next : Nat) (pc : CallPC K) (hpc : marksDown (s.calls c) = false)
      (hnext : marksDown pc = true → s.contexts c = none) : CallEffect pool s c ({ s with next := next }.goto c pc)
  | recover (i : Nat) (pc : CallPC K) (hpc : marksDown (s.calls c) = false) (hnext : marksDown pc = false) :
      CallEffect pool s c ((s.recover i).goto c pc)
  | mark (i : Nat) (pc : CallPC K) (hpc : marksDown (s.calls c) = true) (hnext : marksDown pc = false) :
      CallEffect pool s c ((s.markDown pool i).goto c pc)

lemma callEffect_quiet {pc pc' : CallPC K} (hpc : s.calls c = pc) (hmarks : marksDown pc = false) (next : Nat)
    (hnext : marksDown pc' = false) : CallEffect pool s c ({ s with next := next }.goto c pc') := by
  refine .advance next pc' (by rw [hpc, hmarks]) fun hmarks' => ?_
  rw [hnext] at hmarks'
  cases hmarks'

lemma callStep_pool (h : callStep pool deadline s c = some s') : CallEffect pool s c s' := by
  cases hpc : s.calls c with
  | takeNext requests =>
    simp only [callStep, hpc] at h
    cases h
    exact callEffect_quiet hpc rfl _ (marksDown_inferLoop ..)
  | attempt a =>
    simp only [callStep, hpc] at h
    cases h
    exact callEffect_quiet hpc rfl s.next rfl
  | lookup a ctx =>
    simp only [callStep, hpc] at h
    split at h <;> cases h
    · exact callEffect_quiet hpc rfl s.next rfl
    · exact callEffect_quiet hpc rfl s.next rfl
  | cooldown a ctx until_ =>
    simp only [callStep, hpc] at h
    split at h <;> cases h
    · exact callEffect_quiet hpc rfl s.next (marksDown_inferLoop ..)
    · exact callEffect_quiet hpc rfl s.next rfl
  | probeFailed a =>
    simp only [callStep, hpc] at h
    cases h
    exact .mark _ _ (by rw [hpc]; rfl) (marksDown_inferLoop ..)
  | probePassed a ctx =>
    simp only [callStep, hpc] at h
    cases h
    exact .recover _ _ (by rw [hpc]; rfl) rfl
  | inferFailed a =>
    simp only [callStep, hpc] at h
    split at h <;> cases h
    · -- the one place where the context is looked at before the worker is marked
      exact .advance s.next _ (by rw [hpc]; rfl) fun _ => ‹_›
    · exact callEffect_quiet hpc rfl s.next (marksDown_inferLoop ..)
  | markDown a =>
    simp only [callStep, hpc] at h
    cases h
    exact .mark _ _ (by rw [hpc]; rfl) (marksDown_inferLoop ..)
  | sweep i =>
    simp only [callStep, hpc] at h
    split at h <;> cases h
    · exact callEffect_quiet hpc rfl s.next rfl
    · exact callEffect_quiet hpc rfl s.next rfl
  | sweepPassed i =>
    simp only [callStep, hpc] at h
    cases h
    exact .recover _ _ (by rw [hpc]; rfl) rfl
  | sweepFailed i =>
    simp only [callStep, hpc] at h
    cases h
    exact .mark _ _ (by rw [hpc]; rfl) rfl
  | idle | probing | inferring | sweeping | inferred | swept =>
    simp only [callStep, hpc] at h
    cases h

lemma callStep_adds (h : callStep pool deadline s c = some s') (hadds : AddsOrExtends s s') :
    marksDown (s.calls c) = true := by
  cases callStep_pool h with
  | advance next pc => exact absurd hadds (not_addsOrExtends_of_eq rfl)
  | recover i pc => exact absurd hadds (not_addsOrExtends_recover s i c pc)
  | mark i pc hpc => exact hpc

lemma inferReturns_goto {outcome : Except GoError (List (Worker.Result K))} (h : inferReturns s c outcome = some s') :
    ∃ pc, s' = s.goto c pc := by
  unfold inferReturns at h
  cases hpc : s.calls c with
  | inferring a ctx =>
    rw [hpc] at h
    cases outcome with
    | ok results =>
      cases h
      exact ⟨_, rfl⟩
    | error err =>
      cases h
      exact ⟨_, rfl⟩
  | _ =>
    rw [hpc] at h
    cases h

lemma probeReturns_goto {err : Option GoError} (h : probeReturns s c err = some s') : ∃ pc, s' = s.goto c pc := by
  unfold probeReturns at h
  cases hpc : s.calls c with
  | probing | sweeping =>
    rw [hpc] at h
    cases err with
    | none =>
      cases h
      exact ⟨_, rfl⟩
    | some err =>
      cases h
      exact ⟨_, rfl⟩
  | _ =>
    rw [hpc] at h
    cases h

def answersCall (c : CallId) : WorkerPool.Action K → Prop
  | .inferReturns c' _ | .probeReturns c' _ => c' = c
  | _ => False

/-- The caller has left and the call is not about to mark a worker down. -/
def Departed (c : CallId) (s : WorkerPool.State K) : Prop := s.contexts c ≠ none ∧ marksDown (s.calls c) = false

lemma Departed.goto {c' : CallId} {pc : CallPC K} (hd : Departed c s) (hpc : c = c' → marksDown pc = false) :
    Departed c (s.goto c' pc) := by
  refine ⟨hd.1, ?_⟩
  by_cases he : c = c'
  · subst he
    rw [goto_calls_self]
    exact hpc rfl
  · rw [goto_calls_other pc he]
    exact hd.2

lemma step_departed {a : WorkerPool.Action K} (ha : ¬ answersCall c a) (hd : Departed c s)
    (h : WorkerPool.step pool deadline s a = some s') : Departed c s' := by
  cases a with
  | tick elapsed =>
    cases h
    exact hd
  | endContext c' err =>
    simp only [WorkerPool.step] at h
    split at h <;> cases h
    rename_i hlive
    have he : c ≠ c' := fun he => hd.1 (he ▸ hlive)
    refine ⟨?_, hd.2⟩
    change Function.update s.contexts c' (some err) c ≠ none
    rw [Function.update_of_ne he]
    exact hd.1
  | infer c' requests =>
    simp only [WorkerPool.step] at h
    split at h <;> cases h
    exact hd.goto fun _ => rfl
  | healthy c' =>
    simp only [WorkerPool.step] at h
    split at h <;> cases h
    exact hd.goto fun _ => rfl
  | callStep c' =>
    cases callStep_pool h with
    | advance next pc hpc hnext =>
      refine Departed.goto (s := { s with next := next }) hd fun he => ?_
      subst he
      exact Bool.eq_false_iff.mpr fun hmarks => hd.1 (hnext hmarks)
    | recover i pc hpc hnext => exact Departed.goto (s := s.recover i) hd fun _ => hnext
    | mark i pc hpc hnext => exact Departed.goto (s := s.markDown pool i) hd fun _ => hnext
  | inferReturns c' outcome =>
    obtain ⟨pc, rfl⟩ := inferReturns_goto h
    exact hd.goto fun hc => absurd hc.symm ha
  | probeReturns c' err =>
    obtain ⟨pc, rfl⟩ := probeReturns_goto h
    exact hd.goto fun hc => absurd hc.symm ha

theorem run_departed {actions : List (WorkerPool.Action K)} (ha : ∀ a ∈ actions, ¬ answersCall c a) (hd : Departed c s)
    (h : runSteps (WorkerPool.step pool deadline) s actions = some s') : Departed c s' := by
  induction actions generalizing s with
  | nil =>
    cases h
    exact hd
  | cons a actions ih =>
    obtain ⟨t, ht, hrest⟩ := Option.bind_eq_some_iff.mp h
    exact ih (fun b hb => ha b (List.mem_cons_of_mem a hb)) (step_departed (ha a List.mem_cons_self) hd ht) hrest

end steps

section circuit

/-- Until a worker answers the call again, no step of the call takes a worker out of rotation or
keeps one out for longer. -/
def FailureIgnored (pool : Pool) (deadline : CallId → Option Int) (s : WorkerPool.State K) (c : CallId) : Prop :=
  ∀ actions t t', (∀ a ∈ actions, ¬ answersCall c a) → runSteps (WorkerPool.step pool deadline) s actions = some t →
    WorkerPool.step pool deadline t (.callStep c) = some t' → ¬ AddsOrExtends t t'

/-- A call that is about to mark a worker down does so, and the mark tells after a while. -/
lemma not_failureIgnored (hmarks : marksDown (s.calls c) = true) : ¬ FailureIgnored pool deadline s c := by
  intro hignored
  -- the clock goes past every mark that the worker may have
  have hmark : ∀ i pc, (∀ elapsed : Nat, callStep pool deadline { s with now := s.now + elapsed } c =
      some ((State.markDown { s with now := s.now + elapsed } pool i).goto c pc)) → False := by
    intro i pc hstep
    obtain ⟨elapsed, helapsed⟩ : ∃ elapsed : Nat, ∀ u, s.unhealthy i = some u →
        u < s.now + elapsed + pool.probeEvery := by
      have hpos := pool.probeEvery_pos
      refine ⟨((s.unhealthy i).getD 0 - s.now).toNat, fun u hu => ?_⟩
      rw [hu, Option.getD_some]
      omega
    refine hignored [.tick elapsed] { s with now := s.now + elapsed } _ ?_ rfl (hstep elapsed) ?_
    · rintro a ha hanswers
      rw [List.mem_singleton.mp ha] at hanswers
      exact hanswers
    · exact addsOrExtends_markDown pc helapsed
  cases hpc : s.calls c with
  | probeFailed a => exact hmark (a.worker pool) (nextAttempt pool a) fun _ => by simp only [callStep, hpc]
  | markDown a => exact hmark (a.worker pool) (nextAttempt pool a) fun _ => by simp only [callStep, hpc]
  | sweepFailed i => exact hmark i (.sweep (i + 1)) fun _ => by simp only [callStep, hpc]
  | _ =>
    rw [hpc] at hmarks
    cases hmarks

def fails (c : CallId) (a : WorkerPool.Action K) : Prop :=
  ∃ err, a = .inferReturns c (.error err) ∨ a = .probeReturns c (some err)

end circuit

/-- A worker fails for a call whose caller has left. The failure stays without consequence for the
rotation exactly if it was an inference that failed; a failed probe takes the worker out. -/
theorem departed_failure_ignored_iff (pool : Pool) (deadline : CallId → Option Int) (s s' : WorkerPool.State K)
    (c : CallId) (a : WorkerPool.Action K) (hfails : fails c a) (hended : s.contexts c ≠ none)
    (h : WorkerPool.step pool deadline s a = some s') :
    FailureIgnored pool deadline s' c ↔ ∃ attempts ctx, s.calls c = .inferring attempts ctx := by
  obtain ⟨err, rfl | rfl⟩ := hfails
  · simp only [WorkerPool.step, inferReturns] at h
    split at h
    · rename_i attempts ctx hpc
      cases h
      refine ⟨fun _ => ⟨attempts, ctx, hpc⟩, fun _ actions t t' hactions hrun hstep hadds => ?_⟩
      have hdeparted : Departed c (s.goto c (.inferFailed { attempts with last := some err })) :=
        ⟨hended, by rw [goto_calls_self]; rfl⟩
      have hquiet := (run_departed hactions hdeparted hrun).2
      exact absurd (hquiet.symm.trans (callStep_adds hstep hadds)) Bool.false_ne_true
    · cases h
  · simp only [WorkerPool.step, probeReturns] at h
    split at h
    · rename_i attempts ctx hpc
      cases h
      refine ⟨fun hignored => absurd hignored (not_failureIgnored (by rw [goto_calls_self]; rfl)), ?_⟩
      rintro ⟨attempts', ctx', hpc'⟩
      cases hpc.symm.trans hpc'
    · rename_i i ctx hpc
      cases h
      refine ⟨fun hignored => absurd hignored (not_failureIgnored (by rw [goto_calls_self]; rfl)), ?_⟩
      rintro ⟨attempts', ctx', hpc'⟩
      cases hpc.symm.trans hpc'
    · cases h

theorem departed_failure_ignored_iff_inference :
    let pool : Pool := ⟨1, second, by decide, by decide⟩
    let s : WorkerPool.State ℚ :=
      ⟨0, 1, fun _ => none, fun _ => some .canceled, fun _ => .inferring ⟨[], 0, 0, none⟩ (.withTimeout 5)⟩
    ∃ s', WorkerPool.step pool (fun _ => none) s (.inferReturns 0 (.error ⟨"context canceled"⟩)) = some s' ∧
      FailureIgnored pool (fun _ => none) s' 0 := by
  intro pool s
  refine ⟨_, rfl, ?_⟩
  have hiff := departed_failure_ignored_iff pool (fun _ => none) s _ 0
    (.inferReturns 0 (.error ⟨"context canceled"⟩)) ⟨_, .inl rfl⟩ (by simp [s]) rfl
  exact hiff.mpr ⟨_, _, rfl⟩

/-- A readiness probe whose caller disconnects before the worker has answered. -/
def disconnectedProbe : List (WorkerPool.Action ℚ) := [.healthy 0, .callStep 0, .endContext 0 .canceled]

/-- Right after it, the only worker is out of rotation and a request is refused without an attempt. -/
theorem disconnected_probe_trips :
    let pool : Pool := ⟨1, second, by decide, by decide⟩
    ∃ s t t' u : WorkerPool.State ℚ,
      runSteps (WorkerPool.step pool fun _ => none) (.initial 0) disconnectedProbe = some s ∧
      s.contexts 0 = some .canceled ∧
      WorkerPool.step pool (fun _ => none) s (.probeReturns 0 (some ⟨"context canceled"⟩)) = some t ∧
      WorkerPool.step pool (fun _ => none) t (.callStep 0) = some t' ∧ AddsOrExtends t t' ∧
      runSteps (WorkerPool.step pool fun _ => none) t' (.infer 1 [] :: List.replicate 4 (.callStep 1)) = some u ∧
      u.contexts 1 = none ∧ u.calls 1 = .inferred (.error noHealthyWorker) := by
  intro pool
  refine ⟨_, _, _, _, rfl, rfl, rfl, rfl, ⟨0, second, rfl, fun u hu => ?_⟩, rfl, rfl, rfl⟩
  cases hu

end FraudDetection.Proofs
