import Mathlib.Data.Nat.ModEq
import FraudDetection.Proofs.PoolCircuit

/-!
# One call of the worker pool

A call of `Infer` goes round the workers once, from its turn on. Each visit reads the map and, where
the worker is down, the clock and a probe; it ends in a skip, a failure or the result of the call.
-/

namespace FraudDetection.Proofs
open FraudDetection.Library
open FraudDetection.Scheduler (CallId ContextError)
open FraudDetection.Worker (Request Result)
open FraudDetection.WorkerPool

variable {K : Type} {pool : Pool} {deadline : CallId → Option Int} {s s' : WorkerPool.State K} {c : CallId}

section observations

/-- What a call does with a worker: the entry of the map it reads, its reading of the clock, the
answers of the worker, the error of its context, and its writes to the map. -/
inductive CallObservation (K : Type) where
  | lookup (i : Nat) (until_ : Option Int)
  | clock (i : Nat) (now : Int)
  | probed (i : Nat) (err : Option GoError)
  | recovered (i : Nat)
  | invoked (i : Nat) (outcome : Except GoError (List (Result K))) (now : Int)
  | ctxErr (i : Nat) (err : Option ContextError)
  | marked (i : Nat) (now : Int)

def CallObservation.worker : CallObservation K → Nat
  | .lookup i _ | .clock i _ | .probed i _ | .recovered i | .invoked i _ _ | .ctxErr i _ | .marked i _ => i

def observeStep (pool : Pool) (s : WorkerPool.State K) (c : CallId) : List (CallObservation K) :=
  match s.calls c with
  | .lookup a _ => [.lookup (a.worker pool) (s.unhealthy (a.worker pool))]
  | .cooldown a _ _ => [.clock (a.worker pool) s.now]
  | .probePassed a _ => [.recovered (a.worker pool)]
  | .inferFailed a => [.ctxErr (a.worker pool) (s.contexts c)]
  | .probeFailed a | .markDown a => [.marked (a.worker pool) s.now]
  | .sweepPassed i => [.recovered i]
  | .sweepFailed i => [.marked i s.now]
  | _ => []

def actingCall : WorkerPool.Action K → Option CallId
  | .tick _ | .endContext _ _ => none
  | .infer c _ | .healthy c | .callStep c | .inferReturns c _ | .probeReturns c _ => some c

def observeAction (pool : Pool) (s : WorkerPool.State K) (c : CallId) :
    WorkerPool.Action K → List (CallObservation K)
  | .callStep _ => observeStep pool s c
  | .inferReturns _ outcome => match s.calls c with
    | .inferring a _ => [.invoked (a.worker pool) outcome s.now]
    | _ => []
  | .probeReturns _ err => match s.calls c with
    | .probing a _ => [.probed (a.worker pool) err]
    | _ => []
  | .tick _ | .endContext _ _ | .infer _ _ | .healthy _ => []

def observeCall (pool : Pool) (c : CallId) (s : WorkerPool.State K) (a : WorkerPool.Action K) :
    List (CallObservation K) :=
  if actingCall a = some c then observeAction pool s c a else []

lemma observeCall_own {a : WorkerPool.Action K} (h : actingCall a = some c) :
    observeCall pool c s a = observeAction pool s c a := if_pos h

lemma observeCall_other {a : WorkerPool.Action K} (h : actingCall a ≠ some c) : observeCall pool c s a = [] :=
  if_neg h

def invokedWorkers (log : List (CallObservation K)) : List Nat :=
  log.filterMap fun
    | .invoked i _ _ => some i
    | _ => none

end observations

section visits

/-- How a worker came to be called: it was not down, or it was and a probe after its cooldown
passed. -/
inductive Access where
  | notDown
  | recovered (until_ now : Int)

inductive Aftermath where
  | departed (err : ContextError)
  | marked (now : Int)

inductive Visit (K : Type) where
  | cooling (until_ now : Int)
  | probeFailed (until_ now : Int) (err : GoError) (markedAt : Int)
  | failed (access : Access) (err : GoError) (now : Int) (aftermath : Aftermath)
  | succeeded (access : Access) (results : List (Result K)) (now : Int)

def Access.log (i : Nat) : Access → List (CallObservation K)
  | .notDown => [.lookup i none]
  | .recovered until_ now => [.lookup i (some until_), .clock i now, .probed i none, .recovered i]

def Aftermath.log (i : Nat) : Aftermath → List (CallObservation K)
  | .departed err => [.ctxErr i (some err)]
  | .marked now => [.ctxErr i none, .marked i now]

def Visit.log (i : Nat) : Visit K → List (CallObservation K)
  | .cooling until_ now => [.lookup i (some until_), .clock i now]
  | .probeFailed until_ now err markedAt =>
    [.lookup i (some until_), .clock i now, .probed i (some err), .marked i markedAt]
  | .failed access err now aftermath => access.log i ++ .invoked i (.error err) now :: aftermath.log i
  | .succeeded access results now => access.log i ++ [.invoked i (.ok results) now]

def Access.Eligible : Access → Prop
  | .notDown => True
  | .recovered until_ now => until_ ≤ now

/-- A worker is skipped only during its cooldown or after a failed probe, and called only if it is
eligible; it is marked no earlier than it fails. -/
def Visit.Sound : Visit K → Prop
  | .cooling until_ now => now < until_
  | .probeFailed until_ now _ _ => until_ ≤ now
  | .failed access _ _ (.departed _) => access.Eligible
  | .failed access _ now (.marked markedAt) => access.Eligible ∧ now ≤ markedAt
  | .succeeded access _ _ => access.Eligible

def Visit.Succeeds : Visit K → Prop
  | .succeeded _ _ _ => True
  | _ => False

def Visit.lastError (last : Option GoError) : Visit K → Option GoError
  | .failed _ err _ _ => some err
  | _ => last

/-- The visits of a call whose turn starts at worker `start`. -/
def visitsLog (pool : Pool) (start : Nat) (visits : List (Visit K)) : List (CallObservation K) :=
  visits.zipIdx.flatMap fun (visit, k) => visit.log ((start + k) % pool.workers)

lemma visitsLog_concat (pool : Pool) (start : Nat) (visits : List (Visit K)) (visit : Visit K) :
    visitsLog pool start (visits ++ [visit]) =
      visitsLog pool start visits ++ visit.log ((start + visits.length) % pool.workers) := by
  simp [visitsLog, List.zipIdx_append]

end visits

section serving

/-- The variables of the loop after some visits, none of which succeeded. -/
structure Rounds (pool : Pool) (start : Nat) (visits : List (Visit K)) (last : Option GoError) : Prop where
  sound : ∀ visit ∈ visits, visit.Sound ∧ ¬ visit.Succeeds
  last_eq : last = visits.foldl Visit.lastError none

structure Visiting (pool : Pool) (start : Nat) (visits : List (Visit K)) (a : Attempts K) : Prop where
  rounds : Rounds pool start visits a.last
  start_eq : a.start = start
  offset_eq : a.offset = visits.length
  offset_lt : a.offset < pool.workers

lemma Visiting.worker_eq {start : Nat} {visits : List (Visit K)} {a : Attempts K}
    (h : Visiting pool start visits a) : a.worker pool = (start + visits.length) % pool.workers := by
  unfold Attempts.worker
  rw [h.start_eq, h.offset_eq]

inductive Serving (pool : Pool) (start : Nat) (now : Int) : List (CallObservation K) → CallPC K → Prop where
  | attempt {visits a} (h : Visiting pool start visits a) :
      Serving pool start now (visitsLog pool start visits) (.attempt a)
  | lookup {visits a} (ctx : AttemptContext) (h : Visiting pool start visits a) :
      Serving pool start now (visitsLog pool start visits) (.lookup a ctx)
  | cooldown {visits a} (ctx : AttemptContext) (until_ : Int) (h : Visiting pool start visits a) :
      Serving pool start now (visitsLog pool start visits ++ [.lookup (a.worker pool) (some until_)])
        (.cooldown a ctx until_)
  | probing {visits a} (ctx : AttemptContext) (until_ t : Int) (ht : until_ ≤ t) (h : Visiting pool start visits a) :
      Serving pool start now
        (visitsLog pool start visits ++ [.lookup (a.worker pool) (some until_), .clock (a.worker pool) t])
        (.probing a ctx)
  | probePassed {visits a} (ctx : AttemptContext) (until_ t : Int) (ht : until_ ≤ t)
      (h : Visiting pool start visits a) :
      Serving pool start now
        (visitsLog pool start visits ++
          [.lookup (a.worker pool) (some until_), .clock (a.worker pool) t, .probed (a.worker pool) none])
        (.probePassed a ctx)
  | probeFailed {visits a} (until_ t : Int) (err : GoError) (ht : until_ ≤ t) (h : Visiting pool start visits a) :
      Serving pool start now
        (visitsLog pool start visits ++
          [.lookup (a.worker pool) (some until_), .clock (a.worker pool) t, .probed (a.worker pool) (some err)])
        (.probeFailed a)
  | inferring {visits a} (ctx : AttemptContext) (access : Access) (haccess : access.Eligible)
      (h : Visiting pool start visits a) :
      Serving pool start now (visitsLog pool start visits ++ access.log (a.worker pool)) (.inferring a ctx)
  | inferFailed {visits a} (access : Access) (haccess : access.Eligible) (err : GoError) (t : Int) (ht : t ≤ now)
      (h : Visiting pool start visits a) :
      Serving pool start now
        (visitsLog pool start visits ++ (access.log (a.worker pool) ++ [.invoked (a.worker pool) (.error err) t]))
        (.inferFailed { a with last := some err })
  | markDown {visits a} (access : Access) (haccess : access.Eligible) (err : GoError) (t : Int) (ht : t ≤ now)
      (h : Visiting pool start visits a) :
      Serving pool start now
        (visitsLog pool start visits ++ (access.log (a.worker pool) ++
          [.invoked (a.worker pool) (.error err) t, .ctxErr (a.worker pool) none]))
        (.markDown { a with last := some err })
  | succeeded {visits last} (access : Access) (haccess : access.Eligible) (results : List (Result K)) (t : Int)
      (hlt : visits.length < pool.workers) (h : Rounds pool start visits last) :
      Serving pool start now (visitsLog pool start (visits ++ [.succeeded access results t]))
        (.inferred (.ok results))
  | exhausted {visits last} (hall : visits.length = pool.workers) (h : Rounds pool start visits last) :
      Serving pool start now (visitsLog pool start visits) (.inferred (.error (last.getD noHealthyWorker)))

variable {start : Nat} {now : Int} {log : List (CallObservation K)}

lemma Rounds.concat {visits : List (Visit K)} {last last' : Option GoError} {visit : Visit K}
    (h : Rounds pool start visits last) (hsound : visit.Sound) (hfails : ¬ visit.Succeeds)
    (hlast : visit.lastError last = last') : Rounds pool start (visits ++ [visit]) last' := by
  constructor
  · intro v hv
    rcases List.mem_append.mp hv with hv | hv
    · exact h.sound v hv
    · rw [List.mem_singleton.mp hv]
      exact ⟨hsound, hfails⟩
  · rw [List.foldl_append, ← h.last_eq]
    exact hlast.symm

/-- `continue`: the next visit, or the end of the loop. -/
lemma serving_nextAttempt {visits : List (Visit K)} {a : Attempts K} {last : Option GoError}
    (h : Visiting pool start visits a) (visit : Visit K) (hsound : visit.Sound) (hfails : ¬ visit.Succeeds)
    (hlast : visit.lastError a.last = last) :
    Serving pool start now (visitsLog pool start visits ++ visit.log (a.worker pool))
      (nextAttempt pool { a with last := last }) := by
  have hrounds := h.rounds.concat hsound hfails hlast
  have hlength : (visits ++ [visit]).length = a.offset + 1 := by
    rw [List.length_append, h.offset_eq]
    rfl
  rw [h.worker_eq, ← visitsLog_concat]
  unfold nextAttempt inferLoop
  by_cases hlt : a.offset + 1 < pool.workers
  · rw [if_pos hlt]
    exact .attempt ⟨hrounds, h.start_eq, hlength.symm, hlt⟩
  · rw [if_neg hlt]
    have hoffset := h.offset_lt
    exact .exhausted (by omega) hrounds

lemma Serving.mono {now' : Int} {pc : CallPC K} (h : Serving pool start now log pc) (hle : now ≤ now') :
    Serving pool start now' log pc := by
  cases h with
  | attempt h => exact .attempt h
  | lookup ctx h => exact .lookup ctx h
  | cooldown ctx until_ h => exact .cooldown ctx until_ h
  | probing ctx until_ t ht h => exact .probing ctx until_ t ht h
  | probePassed ctx until_ t ht h => exact .probePassed ctx until_ t ht h
  | probeFailed until_ t err ht h => exact .probeFailed until_ t err ht h
  | inferring ctx access haccess h => exact .inferring ctx access haccess h
  | inferFailed access haccess err t ht h => exact .inferFailed access haccess err t (ht.trans hle) h
  | markDown access haccess err t ht h => exact .markDown access haccess err t (ht.trans hle) h
  | succeeded access haccess results t hlt h => exact .succeeded access haccess results t hlt h
  | exhausted hall h => exact .exhausted hall h

lemma serving_callStep (h : Serving pool start s.now log (s.calls c))
    (hstep : callStep pool deadline s c = some s') :
    Serving pool start s'.now (log ++ observeStep pool s c) (s'.calls c) := by
  generalize hpc : s.calls c = pc at h
  simp only [callStep, hpc] at hstep
  simp only [observeStep, hpc]
  cases h with
  | attempt h =>
    cases hstep
    rw [goto_calls_self, List.append_nil]
    exact .lookup _ h
  | @lookup visits a ctx h =>
    dsimp only at hstep ⊢
    cases hdown : s.unhealthy (a.worker pool) with
    | none =>
      rw [hdown] at hstep
      cases hstep
      rw [goto_calls_self]
      exact .inferring ctx .notDown trivial h
    | some until_ =>
      rw [hdown] at hstep
      cases hstep
      rw [goto_calls_self]
      exact .cooldown ctx until_ h
  | @cooldown visits a ctx until_ h =>
    dsimp only at hstep ⊢
    rw [List.append_assoc]
    by_cases hearly : s.now < until_
    · rw [if_pos hearly] at hstep
      cases hstep
      rw [goto_calls_self]
      exact serving_nextAttempt h (.cooling until_ s.now) hearly id rfl
    · rw [if_neg hearly] at hstep
      cases hstep
      rw [goto_calls_self]
      exact .probing ctx until_ s.now (not_lt.mp hearly) h
  | probing ctx until_ t ht h => cases hstep
  | probePassed ctx until_ t ht h =>
    cases hstep
    rw [goto_calls_self, List.append_assoc]
    exact .inferring ctx (.recovered until_ t) ht h
  | probeFailed until_ t err ht h =>
    cases hstep
    rw [goto_calls_self, List.append_assoc]
    exact serving_nextAttempt h (.probeFailed until_ t err s.now) ht id rfl
  | inferring ctx access haccess h => cases hstep
  | inferFailed access haccess err t ht h =>
    dsimp only at hstep ⊢
    rw [List.append_assoc, List.append_assoc]
    cases hctx : s.contexts c with
    | none =>
      rw [hctx] at hstep
      cases hstep
      rw [goto_calls_self]
      exact .markDown access haccess err t ht h
    | some ended =>
      rw [hctx] at hstep
      cases hstep
      rw [goto_calls_self]
      exact serving_nextAttempt h (.failed access err t (.departed ended)) haccess id rfl
  | markDown access haccess err t ht h =>
    cases hstep
    rw [goto_calls_self, List.append_assoc, List.append_assoc]
    exact serving_nextAttempt h (.failed access err t (.marked s.now)) ⟨haccess, ht⟩ id rfl
  | succeeded access haccess results t hlt h => cases hstep
  | exhausted hall h => cases hstep

lemma serving_inferReturns {outcome : Except GoError (List (Result K))}
    (h : Serving pool start s.now log (s.calls c)) (hstep : inferReturns s c outcome = some s') :
    Serving pool start s'.now (log ++ observeAction pool s c (.inferReturns c outcome)) (s'.calls c) := by
  generalize hpc : s.calls c = pc at h
  simp only [inferReturns, hpc] at hstep
  simp only [observeAction, hpc]
  cases h with
  | @inferring visits a ctx access haccess h =>
    cases outcome with
    | ok results =>
      cases hstep
      rw [goto_calls_self, List.append_assoc, h.worker_eq]
      have hlt := h.offset_lt
      rw [h.offset_eq] at hlt
      have hlog := visitsLog_concat pool start visits (.succeeded access results s.now)
      rw [Visit.log] at hlog
      dsimp only
      rw [h.worker_eq, ← hlog]
      exact .succeeded access haccess results s.now hlt h.rounds
    | error err =>
      cases hstep
      rw [goto_calls_self, List.append_assoc]
      exact .inferFailed access haccess err s.now le_rfl h
  | _ => cases hstep

lemma serving_probeReturns {err : Option GoError} (h : Serving pool start s.now log (s.calls c))
    (hstep : probeReturns s c err = some s') :
    Serving pool start s'.now (log ++ observeAction pool s c (.probeReturns c err)) (s'.calls c) := by
  generalize hpc : s.calls c = pc at h
  simp only [probeReturns, hpc] at hstep
  simp only [observeAction, hpc]
  cases h with
  | probing ctx until_ t ht h =>
    cases err with
    | none =>
      cases hstep
      rw [goto_calls_self, List.append_assoc]
      exact .probePassed ctx until_ t ht h
    | some err =>
      cases hstep
      rw [goto_calls_self, List.append_assoc]
      exact .probeFailed until_ t err ht h
  | _ => cases hstep

lemma step_other {a : WorkerPool.Action K} (hacting : actingCall a ≠ some c)
    (hstep : WorkerPool.step pool deadline s a = some s') : s'.calls c = s.calls c ∧ s.now ≤ s'.now := by
  have hne : ∀ {c'}, actingCall a = some c' → c ≠ c' := by
    rintro c' h rfl
    exact hacting h
  cases a with
  | tick elapsed =>
    cases hstep
    refine ⟨rfl, ?_⟩
    dsimp only
    omega
  | endContext =>
    simp only [WorkerPool.step] at hstep
    split at hstep <;> cases hstep
    exact ⟨rfl, le_rfl⟩
  | infer | healthy =>
    simp only [WorkerPool.step] at hstep
    split at hstep <;> cases hstep
    exact ⟨goto_calls_other _ (hne rfl), le_rfl⟩
  | callStep =>
    cases callStep_pool hstep with
    | advance next pc => exact ⟨goto_calls_other pc (hne rfl), le_rfl⟩
    | recover i pc => exact ⟨goto_calls_other pc (hne rfl), le_rfl⟩
    | mark i pc => exact ⟨goto_calls_other pc (hne rfl), le_rfl⟩
  | inferReturns =>
    obtain ⟨pc, rfl⟩ := inferReturns_goto hstep
    exact ⟨goto_calls_other pc (hne rfl), le_rfl⟩
  | probeReturns =>
    obtain ⟨pc, rfl⟩ := probeReturns_goto hstep
    exact ⟨goto_calls_other pc (hne rfl), le_rfl⟩

lemma serving_step {a : WorkerPool.Action K} (h : Serving pool start s.now log (s.calls c))
    (hstep : WorkerPool.step pool deadline s a = some s') :
    Serving pool start s'.now (log ++ observeCall pool c s a) (s'.calls c) := by
  by_cases hacting : actingCall a = some c
  · rw [observeCall_own hacting]
    cases a with
    | tick | endContext => cases hacting
    | infer | healthy =>
      -- the call is under way
      cases hacting
      simp only [WorkerPool.step] at hstep
      generalize s.calls c = pc at h hstep
      cases h <;> cases hstep
    | callStep =>
      cases hacting
      exact serving_callStep h hstep
    | inferReturns =>
      cases hacting
      exact serving_inferReturns h hstep
    | probeReturns =>
      cases hacting
      exact serving_probeReturns h hstep
  · obtain ⟨hcalls, hnow⟩ := step_other hacting hstep
    rw [observeCall_other hacting, List.append_nil, hcalls]
    exact h.mono hnow

end serving

section termination

/-- A bound on the steps and answers that a call still needs. -/
def callRank (pool : Pool) : CallPC K → Nat
  | .takeNext _ => 8 * pool.workers + 1
  | .attempt a => 8 * (pool.workers - a.offset - 1) + 8
  | .lookup a _ => 8 * (pool.workers - a.offset - 1) + 7
  | .cooldown a _ _ => 8 * (pool.workers - a.offset - 1) + 6
  | .probing a _ => 8 * (pool.workers - a.offset - 1) + 5
  | .probePassed a _ | .probeFailed a => 8 * (pool.workers - a.offset - 1) + 4
  | .inferring a _ => 8 * (pool.workers - a.offset - 1) + 3
  | .inferFailed a => 8 * (pool.workers - a.offset - 1) + 2
  | .markDown a => 8 * (pool.workers - a.offset - 1) + 1
  | .idle | .sweep _ | .sweeping _ _ | .sweepPassed _ | .sweepFailed _ | .inferred _ | .swept _ => 0

lemma callRank_nextAttempt (pool : Pool) (a : Attempts K) :
    callRank pool (nextAttempt pool a) ≤ 8 * (pool.workers - a.offset - 1) := by
  unfold nextAttempt inferLoop
  by_cases hlt : a.offset + 1 < pool.workers
  · rw [if_pos hlt]
    dsimp only [callRank]
    omega
  · rw [if_neg hlt]
    exact Nat.zero_le _

variable {start : Nat} {now : Int} {log : List (CallObservation K)}

/-- Every action of a call that is under way brings it closer to its end. -/
lemma callRank_step {a : WorkerPool.Action K} (h : Serving pool start now log (s.calls c))
    (hacting : actingCall a = some c) (hstep : WorkerPool.step pool deadline s a = some s') :
    callRank pool (s'.calls c) + 1 ≤ callRank pool (s.calls c) := by
  generalize hpc : s.calls c = pc at h
  cases a with
  | tick | endContext => cases hacting
  | infer | healthy =>
    cases hacting
    simp only [WorkerPool.step, hpc] at hstep
    cases h <;> cases hstep
  | inferReturns c₁ outcome =>
    cases hacting
    simp only [WorkerPool.step, inferReturns, hpc] at hstep
    cases h with
    | inferring =>
      cases outcome <;> cases hstep <;> simp only [goto_calls_self, callRank] <;> omega
    | _ => cases hstep
  | probeReturns c₁ err =>
    cases hacting
    simp only [WorkerPool.step, probeReturns, hpc] at hstep
    cases h with
    | probing =>
      cases err <;> cases hstep <;> simp only [goto_calls_self, callRank] <;> omega
    | _ => cases hstep
  | callStep c₁ =>
    cases hacting
    have hnext := fun attempts : Attempts K => callRank_nextAttempt pool attempts
    simp only [WorkerPool.step, callStep, hpc] at hstep
    cases h with
    | attempt =>
      cases hstep
      simp only [goto_calls_self, callRank]
      omega
    | lookup | cooldown | inferFailed =>
      dsimp only at hstep
      split at hstep <;> cases hstep <;> rw [goto_calls_self] <;>
        first | exact Nat.succ_le_of_lt (lt_of_le_of_lt (hnext _) (by simp [callRank])) | simp [callRank]
    | probePassed =>
      cases hstep
      simp only [goto_calls_self, callRank]
      omega
    | probeFailed | markDown =>
      cases hstep
      rw [goto_calls_self]
      exact Nat.succ_le_of_lt (lt_of_le_of_lt (hnext _) (by simp [callRank]))
    | probing | inferring | succeeded | exhausted => cases hstep

lemma run_callRank {actions : List (WorkerPool.Action K)} (h : Serving pool start s.now log (s.calls c))
    (hrun : runSteps (WorkerPool.step pool deadline) s actions = some s') :
    actions.countP (fun a => actingCall a = some c) + callRank pool (s'.calls c) ≤ callRank pool (s.calls c) := by
  induction actions generalizing s log with
  | nil =>
    cases hrun
    simp
  | cons a actions ih =>
    obtain ⟨t, ht, hrest⟩ := Option.bind_eq_some_iff.mp hrun
    have hle := ih (serving_step h ht) hrest
    rw [List.countP_cons]
    by_cases hacting : actingCall a = some c
    · have hrank := callRank_step h hacting ht
      rw [if_pos (by simpa using hacting)]
      omega
    · rw [(step_other hacting ht).1] at hle
      rw [if_neg (by simpa using hacting)]
      omega

/-- A call that has not returned can go on, whatever its worker answers. -/
def CanGoOn (pool : Pool) (deadline : CallId → Option Int) (s : WorkerPool.State K) (c : CallId) : Prop :=
  (WorkerPool.step pool deadline s (.callStep c)).isSome ∨
    (∀ outcome, (WorkerPool.step pool deadline s (.inferReturns c outcome)).isSome) ∨
    ∀ err, (WorkerPool.step pool deadline s (.probeReturns c err)).isSome

lemma serving_canGoOn (h : Serving pool start now log (s.calls c)) :
    (∃ result, s.calls c = .inferred result) ∨ CanGoOn pool deadline s c := by
  unfold CanGoOn
  simp only [WorkerPool.step, callStep, inferReturns, probeReturns]
  generalize s.calls c = pc at h
  cases h with
  | succeeded | exhausted => exact .inl ⟨_, rfl⟩
  | inferring =>
    refine .inr (.inr (.inl fun outcome => ?_))
    cases outcome <;> rfl
  | probing =>
    refine .inr (.inr (.inr fun err => ?_))
    cases err <;> rfl
  | attempt | probePassed | probeFailed | markDown => exact .inr (.inl rfl)
  | lookup | cooldown | inferFailed =>
    refine .inr (.inl ?_)
    dsimp only
    split <;> rfl

end termination

section map

def applyObservation (pool : Pool) (unhealthy : Nat → Option Int) : CallObservation K → Nat → Option Int
  | .recovered i => Function.update unhealthy i none
  | .marked i now => Function.update unhealthy i (some (now + pool.probeEvery))
  | .lookup _ _ | .clock _ _ | .probed _ _ | .invoked _ _ _ | .ctxErr _ _ => unhealthy

lemma callStep_unhealthy (hstep : callStep pool deadline s c = some s') :
    s'.unhealthy = (observeStep pool s c).foldl (applyObservation pool) s.unhealthy := by
  simp only [callStep] at hstep
  simp only [observeStep]
  cases hpc : s.calls c with
  | idle | probing | inferring | sweeping | inferred | swept =>
    rw [hpc] at hstep
    cases hstep
  | takeNext | attempt | probePassed | probeFailed | markDown | sweepPassed | sweepFailed =>
    rw [hpc] at hstep
    cases hstep
    rfl
  | lookup | cooldown | inferFailed | sweep =>
    rw [hpc] at hstep
    dsimp only at hstep
    split at hstep <;> cases hstep <;> rfl

/-- Without another call, the map is what the observations of the call make of it. -/
lemma step_unhealthy {a : WorkerPool.Action K} (hacting : ∀ c', actingCall a = some c' → c' = c)
    (hstep : WorkerPool.step pool deadline s a = some s') :
    s'.unhealthy = (observeCall pool c s a).foldl (applyObservation pool) s.unhealthy := by
  cases hactor : actingCall a with
  | none =>
    rw [observeCall_other (by simp [hactor])]
    cases a with
    | tick =>
      cases hstep
      rfl
    | endContext =>
      simp only [WorkerPool.step] at hstep
      split at hstep <;> cases hstep
      rfl
    | infer | healthy | callStep | inferReturns | probeReturns => cases hactor
  | some c' =>
    obtain rfl := hacting c' hactor
    rw [observeCall_own hactor]
    cases a with
    | tick | endContext => cases hactor
    | infer | healthy =>
      simp only [WorkerPool.step] at hstep
      split at hstep <;> cases hstep
      rfl
    | callStep =>
      cases hactor
      exact callStep_unhealthy hstep
    | inferReturns _ outcome =>
      cases hactor
      obtain ⟨pc, rfl⟩ := inferReturns_goto hstep
      simp only [observeAction]
      cases s.calls c' <;> rfl
    | probeReturns _ err =>
      cases hactor
      obtain ⟨pc, rfl⟩ := probeReturns_goto hstep
      simp only [observeAction]
      cases s.calls c' <;> rfl

lemma foldl_applyObservation_other {log : List (CallObservation K)} {i : Nat} (h : ∀ o ∈ log, o.worker ≠ i)
    (unhealthy : Nat → Option Int) : log.foldl (applyObservation pool) unhealthy i = unhealthy i := by
  induction log generalizing unhealthy with
  | nil => rfl
  | cons o log ih =>
    rw [List.foldl_cons, ih fun o' ho' => h o' (List.mem_cons_of_mem o ho')]
    have hne : i ≠ o.worker := (h o List.mem_cons_self).symm
    cases o with
    | recovered j => exact Function.update_of_ne hne ..
    | marked j now => exact Function.update_of_ne hne ..
    | lookup | clock | probed | invoked | ctxErr => rfl

end map

section log

variable {start : Nat} {visits : List (Visit K)}

lemma Visit.worker_of_mem_log {visit : Visit K} {i : Nat} {o : CallObservation K} (h : o ∈ visit.log i) :
    o.worker = i := by
  have haccess : ∀ access : Access, o ∈ access.log i → o.worker = i := by
    rintro (_ | _) ho <;> revert ho <;> simp only [Access.log, List.mem_cons, List.not_mem_nil, or_false]
    · rintro rfl
      rfl
    · rintro (rfl | rfl | rfl | rfl) <;> rfl
  have haftermath : ∀ aftermath : Aftermath, o ∈ aftermath.log i → o.worker = i := by
    rintro (_ | _) ho <;> revert ho <;> simp only [Aftermath.log, List.mem_cons, List.not_mem_nil, or_false]
    · rintro rfl
      rfl
    · rintro (rfl | rfl) <;> rfl
  cases visit with
  | cooling =>
    simp only [Visit.log, List.mem_cons, List.not_mem_nil, or_false] at h
    rcases h with rfl | rfl <;> rfl
  | probeFailed =>
    simp only [Visit.log, List.mem_cons, List.not_mem_nil, or_false] at h
    rcases h with rfl | rfl | rfl | rfl <;> rfl
  | failed access err now aftermath =>
    simp only [Visit.log, List.mem_append, List.mem_cons] at h
    rcases h with h | rfl | h
    · exact haccess access h
    · rfl
    · exact haftermath aftermath h
  | succeeded access results now =>
    simp only [Visit.log, List.mem_append, List.mem_singleton] at h
    rcases h with h | rfl
    · exact haccess access h
    · rfl

def visitOrder (pool : Pool) (start : Nat) : List Nat :=
  (List.range pool.workers).map fun k => (start + k) % pool.workers

lemma visitOrder_injective {n j k : Nat} (hj : j < n) (hk : k < n) (h : (start + j) % n = (start + k) % n) :
    j = k :=
  Nat.ModEq.eq_of_lt_of_lt (Nat.ModEq.add_left_cancel' start h) hj hk

lemma visitOrder_nodup (pool : Pool) (start : Nat) : (visitOrder pool start).Nodup := by
  apply List.Nodup.map_on _ List.nodup_range
  intro j hj k hk h
  exact visitOrder_injective (List.mem_range.mp hj) (List.mem_range.mp hk) h

lemma mem_visitsLog_iff {o : CallObservation K} : o ∈ visitsLog pool start visits ↔
    ∃ (k : Nat) (visit : Visit K), visits[k]? = some visit ∧ o ∈ visit.log ((start + k) % pool.workers) := by
  simp only [visitsLog, List.mem_flatMap, List.mem_zipIdx_iff_getElem?, Prod.exists]
  exact ⟨fun ⟨visit, k, h, ho⟩ => ⟨k, visit, h, ho⟩, fun ⟨k, visit, h, ho⟩ => ⟨visit, k, h, ho⟩⟩

lemma invokedWorkers_log (visit : Visit K) (i : Nat) : (invokedWorkers (visit.log i)).Sublist [i] := by
  cases visit with
  | cooling | probeFailed => exact List.nil_sublist _
  | failed access err now aftermath => cases access <;> cases aftermath <;> exact List.Sublist.refl _
  | succeeded access results now => cases access <;> exact List.Sublist.refl _

lemma invokedWorkers_visitsLog (hle : visits.length ≤ pool.workers) :
    (invokedWorkers (visitsLog pool start visits)).Sublist (visitOrder pool start) := by
  have hsublist : (invokedWorkers (visitsLog pool start visits)).Sublist
      ((List.range visits.length).map fun k => (start + k) % pool.workers) := by
    clear hle
    induction visits using List.reverseRecOn with
    | nil => exact List.nil_sublist _
    | append_singleton visits visit ih =>
      rw [visitsLog_concat, List.length_append, List.length_singleton, List.range_succ, List.map_append]
      unfold invokedWorkers at ih ⊢
      rw [List.filterMap_append]
      exact ih.append (invokedWorkers_log visit _)
  exact hsublist.trans ((List.range_sublist.mpr hle).map _)

lemma succeeds_of_invoked_ok {i : Nat} {results : List (Result K)} {t : Int}
    (h : .invoked i (.ok results) t ∈ visitsLog pool start visits) : ∃ visit ∈ visits, visit.Succeeds := by
  obtain ⟨k, visit, hk, ho⟩ := mem_visitsLog_iff.mp h
  refine ⟨visit, List.mem_of_getElem? hk, ?_⟩
  cases visit with
  | cooling | probeFailed => simp [Visit.log] at ho
  | failed access err now aftermath =>
    cases access <;> cases aftermath <;> simp [Visit.log, Access.log, Aftermath.log] at ho
  | succeeded => trivial

/-- A worker that is marked after its failure stays so through the later visits. -/
lemma foldl_visitsLog_marked {k : Nat} {access : Access} {err : GoError} {t markedAt : Int}
    (hle : visits.length ≤ pool.workers) (hk : visits[k]? = some (.failed access err t (.marked markedAt)))
    (unhealthy : Nat → Option Int) :
    (visitsLog pool start visits).foldl (applyObservation pool) unhealthy ((start + k) % pool.workers) =
      some (markedAt + pool.probeEvery) := by
  induction visits using List.reverseRecOn with
  | nil => cases hk
  | append_singleton visits visit ih =>
    rw [List.length_append, List.length_singleton] at hle
    rw [visitsLog_concat, List.foldl_append]
    rcases Nat.lt_trichotomy k visits.length with hlt | heq | hgt
    · rw [List.getElem?_append_left hlt] at hk
      rw [foldl_applyObservation_other, ih (by omega) hk]
      intro o ho hworker
      have hsame := visitOrder_injective hle (by omega) ((Visit.worker_of_mem_log ho).symm.trans hworker)
      omega
    · subst heq
      rw [List.getElem?_concat_length] at hk
      cases hk
      cases access <;> exact Function.update_self ..
    · rw [List.getElem?_eq_none] at hk
      · cases hk
      · rw [List.length_append, List.length_singleton]
        omega

end log

inductive Returns (pool : Pool) : List (Visit K) → Except GoError (List (Result K)) → Prop where
  | success (earlier : List (Visit K)) (access : Access) (results : List (Result K)) (now : Int)
      (hlt : earlier.length < pool.workers) (hfails : ∀ visit ∈ earlier, ¬ visit.Succeeds) :
      Returns pool (earlier ++ [.succeeded access results now]) (.ok results)
  | failure (visits : List (Visit K)) (hall : visits.length = pool.workers)
      (hfails : ∀ visit ∈ visits, ¬ visit.Succeeds) :
      Returns pool visits (.error ((visits.foldl Visit.lastError none).getD noHealthyWorker))

lemma Returns.length_le {visits : List (Visit K)} {result : Except GoError (List (Result K))}
    (h : Returns pool visits result) : visits.length ≤ pool.workers := by
  cases h with
  | success earlier access results now hlt =>
    rw [List.length_append]
    exact hlt
  | failure visits hall => exact hall.le

lemma Returns.ok_iff {start : Nat} {visits : List (Visit K)} {result : Except GoError (List (Result K))}
    (h : Returns pool visits result) :
    (∃ results, result = .ok results) ↔ ∃ i results t, .invoked i (.ok results) t ∈ visitsLog pool start visits := by
  cases h with
  | success earlier access results now hlt hfails =>
    refine ⟨fun _ => ⟨(start + earlier.length) % pool.workers, results, now, ?_⟩, fun _ => ⟨results, rfl⟩⟩
    rw [visitsLog_concat, Visit.log]
    simp
  | failure visits hall hfails =>
    constructor
    · rintro ⟨results, h⟩
      cases h
    · rintro ⟨i, results, t, h⟩
      obtain ⟨visit, hvisit, hsucceeds⟩ := succeeds_of_invoked_ok h
      exact absurd hsucceeds (hfails visit hvisit)

lemma Serving.returns {start : Nat} {now : Int} {log : List (CallObservation K)}
    {result : Except GoError (List (Result K))} (h : Serving pool start now log (.inferred result)) :
    ∃ visits, log = visitsLog pool start visits ∧ (∀ visit ∈ visits, visit.Sound) ∧ Returns pool visits result := by
  cases h with
  | succeeded access haccess results t hlt h =>
    refine ⟨_, rfl, ?_, .success _ access results t hlt fun visit hvisit => (h.sound visit hvisit).2⟩
    intro visit hvisit
    rcases List.mem_append.mp hvisit with hvisit | hvisit
    · exact (h.sound visit hvisit).1
    · rw [List.mem_singleton.mp hvisit]
      exact haccess
  | exhausted hall h =>
    refine ⟨_, rfl, fun visit hvisit => (h.sound visit hvisit).1, ?_⟩
    rw [h.last_eq]
    exact .failure _ hall fun visit hvisit => (h.sound visit hvisit).2

lemma step_takeNext {requests : List (Request K)} (hcall : s.calls c = .takeNext requests)
    (hstep : WorkerPool.step pool deadline s (.callStep c) = some s') :
    observeCall pool c s (.callStep c) = [] ∧ s'.unhealthy = s.unhealthy ∧
      s'.calls c = .attempt ⟨requests, s.next % pool.workers, 0, none⟩ := by
  simp only [WorkerPool.step, callStep, hcall] at hstep
  cases hstep
  refine ⟨?_, rfl, ?_⟩
  · rw [observeCall_own rfl]
    simp only [observeAction, observeStep, hcall]
  · rw [goto_calls_self, inferLoop, if_pos pool.workers_pos]

/-- A call of `Infer` that takes its turn at worker `next mod n`, among any other calls. It never gets
stuck and returns after at most `8 n + 1` steps and answers of its own. It calls the workers at most
once each and in cyclic order, and a worker only if the worker is not down or has recovered in this
call. It succeeds exactly if a worker does, with the result of the first one as its last act, and
fails after a visit to every worker otherwise. Without other calls, a worker that failed for a live
caller is down for `probeEvery` from then on. -/
theorem failover_complete (pool : Pool) (deadline : CallId → Option Int) (s s' : WorkerPool.State K) (c : CallId)
    (requests : List (Request K)) (actions : List (WorkerPool.Action K)) (hcall : s.calls c = .takeNext requests)
    (hrun : runSteps (WorkerPool.step pool deadline) s (.callStep c :: actions) = some s') :
    let start := s.next % pool.workers
    let log := runLog (WorkerPool.step pool deadline) (observeCall pool c) s (.callStep c :: actions)
    (WorkerPool.Action.callStep c :: actions).countP (fun a => actingCall a = some c) ≤ 8 * pool.workers + 1 ∧
    ((∃ result, s'.calls c = .inferred result) ∨ CanGoOn pool deadline s' c) ∧
    ∀ result, s'.calls c = .inferred result → ∃ visits,
      log = visitsLog pool start visits ∧ (∀ visit ∈ visits, visit.Sound) ∧ Returns pool visits result ∧
      (invokedWorkers log).Sublist (visitOrder pool start) ∧ (visitOrder pool start).Nodup ∧
      ((∃ results, result = .ok results) ↔ ∃ i results t, .invoked i (.ok results) t ∈ log) ∧
      ((∀ a ∈ actions, ∀ c', actingCall a = some c' → c' = c) →
        ∀ k access err t markedAt, visits[k]? = some (.failed access err t (.marked markedAt)) →
          s'.unhealthy ((start + k) % pool.workers) = some (markedAt + pool.probeEvery)) := by
  intro start log
  obtain ⟨t, ht, hrest⟩ := Option.bind_eq_some_iff.mp hrun
  obtain ⟨hquiet, hmap, hattempt⟩ := step_takeNext hcall ht
  have hlog : log = runLog (WorkerPool.step pool deadline) (observeCall pool c) t actions := by
    change runLog _ _ s _ = _
    rw [runLog, ht, Option.elim_some, hquiet, List.nil_append]
  have hvisiting : Visiting pool start ([] : List (Visit K)) ⟨requests, start, 0, none⟩ :=
    ⟨⟨fun _ h => absurd h List.not_mem_nil, rfl⟩, rfl, rfl, pool.workers_pos⟩
  have hturn : Serving pool start t.now [] (t.calls c) := by
    rw [hattempt]
    exact .attempt hvisiting
  have hserving : Serving pool start s'.now log (s'.calls c) := by
    have hserving := runSteps_log (P := fun log s => Serving pool start s.now log (s.calls c)) (Q := fun _ => True)
      (fun log s a s' _ h hstep => serving_step h hstep) hturn (fun _ _ => trivial) hrest
    rwa [List.nil_append, ← hlog] at hserving
  refine ⟨?_, serving_canGoOn hserving, ?_⟩
  · have hrank := run_callRank hturn hrest
    have hworkers := pool.workers_pos
    rw [hattempt] at hrank
    simp only [callRank] at hrank
    rw [List.countP_cons, if_pos (by simp [actingCall])]
    omega
  · intro result hresult
    rw [hresult] at hserving
    obtain ⟨visits, hvisits, hsound, hreturns⟩ := hserving.returns
    refine ⟨visits, hvisits, hsound, hreturns, ?_, visitOrder_nodup pool start, ?_, ?_⟩
    · rw [hvisits]
      exact invokedWorkers_visitsLog hreturns.length_le
    · rw [hvisits]
      exact hreturns.ok_iff
    · intro halone k access err t' markedAt hk
      have hunhealthy := runSteps_log (P := fun log t => t.unhealthy = log.foldl (applyObservation pool) s.unhealthy)
        (Q := fun a => ∀ c', actingCall a = some c' → c' = c)
        (fun log s a s' hacting h hstep => by rw [step_unhealthy hacting hstep, h, List.foldl_append])
        (show t.unhealthy = [].foldl (applyObservation (K := K) pool) s.unhealthy from hmap) halone hrest
      rw [List.nil_append, ← hlog, hvisits] at hunhealthy
      rw [hunhealthy]
      exact foldl_visitsLog_marked hreturns.length_le hk s.unhealthy

lemma second_pos : 0 < second := by decide

def recoveringPool : Pool := ⟨2, second, Nat.two_pos, second_pos⟩

def recoveringState : WorkerPool.State ℚ :=
  ⟨5, 2, fun i => if i = 0 then some 5 else none, fun _ => none, fun _ => .takeNext []⟩

/-- The first worker recovers and fails, the second answers. -/
def recoveringRun : List (WorkerPool.Action ℚ) :=
  [.callStep 0, .callStep 0, .callStep 0, .probeReturns 0 none, .callStep 0, .inferReturns 0 (.error ⟨"unavailable"⟩),
    .callStep 0, .callStep 0, .callStep 0, .callStep 0, .inferReturns 0 (.ok [])]

theorem failover_complete_two_workers :
    ∃ s', runSteps (WorkerPool.step recoveringPool fun _ => none) recoveringState (.callStep 0 :: recoveringRun) =
        some s' ∧
      s'.calls 0 = .inferred (.ok []) ∧ s'.unhealthy 0 = some (5 + second) ∧
      (invokedWorkers (runLog (WorkerPool.step recoveringPool fun _ => none) (observeCall recoveringPool 0)
        recoveringState (.callStep 0 :: recoveringRun))).Sublist (visitOrder recoveringPool 0) := by
  have hend : (runSteps (WorkerPool.step recoveringPool fun _ => none) recoveringState
      (.callStep 0 :: recoveringRun)).map (fun s' => (s'.calls 0, s'.unhealthy 0)) =
        some (.inferred (.ok []), some (5 + second)) := by rfl
  obtain ⟨s', hrun, hpair⟩ := Option.map_eq_some_iff.mp hend
  obtain ⟨hresult, hmarked⟩ := Prod.mk.inj hpair
  obtain ⟨-, -, hreturned⟩ :=
    failover_complete recoveringPool (fun _ => none) recoveringState s' 0 [] recoveringRun rfl hrun
  obtain ⟨visits, -, -, -, hsublist, -⟩ := hreturned _ hresult
  exact ⟨s', hrun, hresult, hmarked, hsublist⟩

end FraudDetection.Proofs
