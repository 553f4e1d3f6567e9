import FraudDetection.Proofs.Explanations
import FraudDetection.Proofs.PoolCircuit
import FraudDetection.Proofs.PoolFailover
import FraudDetection.Proofs.SchedulerPairing
import FraudDetection.Proofs.TransportRoundTrip
import FraudDetection.ServingPlane

/-!
# Verdicts of the serving plane

Batching, failover and the transport between a request and its verdict change nothing about it: the
scheduler pairs each result with its request, a call of the pool keeps the requests it was given
until a worker answers for all of them, and the answer is the scorer's on each request alone.
-/

namespace FraudDetection.Proofs
open FraudDetection.Library
open FraudDetection.Worker
open FraudDetection.Scheduler (CallId ContextError Invocation)
open FraudDetection.WorkerPool (Pool CallPC Attempts inferLoop nextAttempt)
open FraudDetection.ServingPlane

variable {K ς δ : Type} [Field K] [LinearOrder K] {p : Plane K ς δ} {requests : List (Worker.Request K)}
  {results : List (Worker.Result K)}

section answers

/-- An answer that comes over the wire is what the engine gave for the requests that were sent. -/
lemma wire_eq_ok {service : Service K} {ctx : Worker.Context} {response : Option (Proto.ScoreResponse K)}
    (h : service.wire ctx (requestsToProto requests) = .ok response) :
    ∃ engine results, service.engine = some engine ∧ engine ctx.arrived requests = .ok results ∧
      resultsFromProto response = results := by
  unfold Service.wire Service.score at h
  cases haccept : service.accept ctx.arrived (some (requestsToProto requests)) with
  | error status =>
    rw [haccept] at h
    cases h
  | ok handed =>
    obtain ⟨engine, received⟩ := handed
    rw [haccept] at h
    dsimp only at h
    cases hresults : engine ctx.arrived received with
    | error err =>
      rw [hresults] at h
      cases h
    | ok results =>
      rw [hresults] at h
      dsimp only at h
      cases hcheck : validateResults results received.length with
      | some err =>
        rw [hcheck] at h
        cases h
      | none =>
        rw [hcheck] at h
        cases h
        unfold Service.accept at haccept
        cases hengine : service.engine with
        | none =>
          rw [hengine] at haccept
          cases haccept
        | some engine' =>
          rw [hengine] at haccept
          dsimp only at haccept
          by_cases htoken : service.authToken ≠ [] ∧
              metadataValues ctx.arrived.incoming headerAuthorization ≠ [bearer ++ service.authToken]
          · rw [if_pos htoken] at haccept
            cases haccept
          · rw [if_neg htoken, requestsFromProto_toProto] at haccept
            cases hvalid : validateRPCRequests requests with
            | some err =>
              rw [hvalid] at haccept
              cases haccept
            | none =>
              rw [hvalid] at haccept
              cases haccept
              exact ⟨engine, results, rfl, hresults, results_roundTrip hcheck⟩

/-- The results of the scorer that every worker runs, one for each request. -/
def Scored (p : Plane K ς δ) (requests : List (Worker.Request K)) (results : List (Worker.Result K)) : Prop :=
  results = requests.map ((defaultCPUScorer p.ops).result p.ops p.sort) ∧
    ∀ r ∈ requests, r.features.length = modelFeatureWidth

/-- Whichever worker answers a call, the answer is the scorer's. -/
lemma scored_of_answer {i : Nat} {ctx : Worker.Context} {attempt : WorkerPool.AttemptContext}
    {delivery : ServingPlane.Delivery} (h : p.answer i ctx attempt requests delivery = .ok results) :
    Scored p requests results := by
  cases delivery with
  | lost err => cases h
  | served startedAt ctxErr =>
    have hconnected : (p.client i).connected = true := by
      by_contra hclosed
      rw [Bool.not_eq_true] at hclosed
      unfold Plane.answer GRPCClient.inferOver GRPCClient.infer GRPCClient.prepare at h
      rw [hclosed] at h
      cases h
    obtain ⟨-, ⟨response, hwire, hresponse⟩, -⟩ := (inferOver_eq_ok_iff hconnected).mp h
    obtain ⟨engine, scored, hengine, hscored, hreceived⟩ := wire_eq_ok hwire
    cases hengine
    rw [hreceived] at hresponse
    subst hresponse
    dsimp only at hscored
    cases hinfer : (defaultCPUScorer p.ops).infer p.ops p.sort ctxErr requests with
    | error err =>
      rw [hinfer] at hscored
      cases hscored
    | ok computed =>
      rw [hinfer] at hscored
      cases hscored
      exact (infer_eq_map hinfer).2

end answers

section pool

/-- A call of `Infer` has the requests it was given, and returns only results of the scorer. -/
def Knows (p : Plane K ς δ) (requests : List (Worker.Request K)) : CallPC K → Prop
  | .takeNext given => given = requests
  | .attempt a | .lookup a _ | .cooldown a _ _ | .probing a _ | .probePassed a _ | .probeFailed a
  | .inferring a _ | .inferFailed a | .markDown a => a.requests = requests
  | .inferred result => ∀ results, result = .ok results → Scored p requests results
  | .idle | .sweep _ | .sweeping _ _ | .sweepPassed _ | .sweepFailed _ | .swept _ => True

lemma knows_inferLoop {pool : Pool} {a : Attempts K} (h : a.requests = requests) :
    Knows p requests (inferLoop pool a) := by
  unfold inferLoop
  by_cases hlt : a.offset < pool.workers
  · rw [if_pos hlt]
    exact h
  · rw [if_neg hlt]
    intro results hresults
    cases hresults

variable {pool : Pool} {deadline : CallId → Option Int} {s s' : WorkerPool.State K} {c : CallId}

/-- A step of a call moves that call alone, and the call keeps what it knows. -/
structure Moves (p : Plane K ς δ) (s s' : WorkerPool.State K) (c : CallId) : Prop where
  started : s.calls c ≠ .idle
  others : ∀ c', c' ≠ c → s'.calls c' = s.calls c'
  knows : ∀ requests, Knows p requests (s.calls c) → Knows p requests (s'.calls c)

lemma moves_goto {pc pc' : CallPC K} {s₀ : WorkerPool.State K} (hpc : s.calls c = pc) (hidle : pc ≠ .idle)
    (hsame : s₀.calls = s.calls) (hknows : ∀ requests, Knows p requests pc → Knows p requests pc') :
    Moves p s (s₀.goto c pc') c := by
  refine ⟨hpc ▸ hidle, fun c' hne => ?_, fun requests h => ?_⟩
  · rw [goto_calls_other _ hne, hsame]
  · rw [goto_calls_self]
    exact hknows requests (hpc ▸ h)

lemma callStep_moves (h : WorkerPool.callStep pool deadline s c = some s') : Moves p s s' c := by
  cases hpc : s.calls c with
  | takeNext given =>
    simp only [WorkerPool.callStep, hpc] at h
    cases h
    exact moves_goto hpc (by rintro ⟨⟩) rfl fun requests hknown => knows_inferLoop hknown
  | attempt a =>
    simp only [WorkerPool.callStep, hpc] at h
    cases h
    exact moves_goto hpc (by rintro ⟨⟩) rfl fun requests hknown => hknown
  | lookup a ctx =>
    simp only [WorkerPool.callStep, hpc] at h
    cases hdown : s.unhealthy (a.worker pool) with
    | none =>
      rw [hdown] at h
      cases h
      exact moves_goto hpc (by rintro ⟨⟩) rfl fun requests hknown => hknown
    | some until_ =>
      rw [hdown] at h
      cases h
      exact moves_goto hpc (by rintro ⟨⟩) rfl fun requests hknown => hknown
  | cooldown a ctx until_ =>
    simp only [WorkerPool.callStep, hpc] at h
    by_cases hlt : s.now < until_
    · rw [if_pos hlt] at h
      cases h
      exact moves_goto hpc (by rintro ⟨⟩) rfl fun requests hknown => knows_inferLoop hknown
    · rw [if_neg hlt] at h
      cases h
      exact moves_goto hpc (by rintro ⟨⟩) rfl fun requests hknown => hknown
  | probeFailed a | markDown a =>
    simp only [WorkerPool.callStep, hpc] at h
    cases h
    exact moves_goto hpc (by rintro ⟨⟩) rfl fun requests hknown => knows_inferLoop hknown
  | probePassed a ctx =>
    simp only [WorkerPool.callStep, hpc] at h
    cases h
    exact moves_goto hpc (by rintro ⟨⟩) rfl fun requests hknown => hknown
  | inferFailed a =>
    simp only [WorkerPool.callStep, hpc] at h
    cases hctx : s.contexts c with
    | none =>
      rw [hctx] at h
      cases h
      exact moves_goto hpc (by rintro ⟨⟩) rfl fun requests hknown => hknown
    | some err =>
      rw [hctx] at h
      cases h
      exact moves_goto hpc (by rintro ⟨⟩) rfl fun requests hknown => knows_inferLoop hknown
  | sweep i =>
    simp only [WorkerPool.callStep, hpc] at h
    by_cases hlt : i < pool.workers
    · rw [if_pos hlt] at h
      cases h
      exact moves_goto hpc (by rintro ⟨⟩) rfl fun requests _ => trivial
    · rw [if_neg hlt] at h
      cases h
      exact moves_goto hpc (by rintro ⟨⟩) rfl fun requests _ => trivial
  | sweepPassed i | sweepFailed i =>
    simp only [WorkerPool.callStep, hpc] at h
    cases h
    exact moves_goto hpc (by rintro ⟨⟩) rfl fun requests _ => trivial
  | idle | probing | inferring | sweeping | inferred | swept =>
    simp only [WorkerPool.callStep, hpc] at h
    cases h

lemma probeReturns_moves {err : Option GoError} (h : WorkerPool.probeReturns s c err = some s') : Moves p s s' c := by
  unfold WorkerPool.probeReturns at h
  cases hpc : s.calls c with
  | probing a ctx =>
    rw [hpc] at h
    cases err with
    | none =>
      cases h
      exact moves_goto hpc (by rintro ⟨⟩) rfl fun requests hknown => hknown
    | some err =>
      cases h
      exact moves_goto hpc (by rintro ⟨⟩) rfl fun requests hknown => hknown
  | sweeping i ctx =>
    rw [hpc] at h
    cases err with
    | none =>
      cases h
      exact moves_goto hpc (by rintro ⟨⟩) rfl fun requests _ => trivial
    | some err =>
      cases h
      exact moves_goto hpc (by rintro ⟨⟩) rfl fun requests _ => trivial
  | _ =>
    rw [hpc] at h
    cases h

/-- An answer of a worker leaves the call with the results of the scorer or with its next attempt. -/
lemma inferReturns_moves {a : Attempts K} {ctx : WorkerPool.AttemptContext}
    {outcome : Except GoError (List (Worker.Result K))} (hpc : s.calls c = .inferring a ctx)
    (houtcome : ∀ results, outcome = .ok results → Scored p a.requests results)
    (h : WorkerPool.inferReturns s c outcome = some s') : Moves p s s' c := by
  unfold WorkerPool.inferReturns at h
  rw [hpc] at h
  cases outcome with
  | ok results =>
    cases h
    refine moves_goto hpc (by rintro ⟨⟩) rfl fun requests hknown results' hresults => ?_
    have hrequests : a.requests = requests := hknown
    rw [← hrequests]
    exact houtcome results' hresults
  | error err =>
    cases h
    exact moves_goto hpc (by rintro ⟨⟩) rfl fun requests hknown => hknown

/-- What the calls of the handlers go through in a step of the pool: those that have not started stay so,
the others keep what they know. -/
structure PoolKept (p : Plane K ς δ) (s s' : WorkerPool.State K) : Prop where
  idle : ∀ k, s.calls (poolCall k) = .idle → s'.calls (poolCall k) = .idle
  knows : ∀ k requests, Knows p requests (s.calls (poolCall k)) → Knows p requests (s'.calls (poolCall k))

lemma PoolKept.of_calls (h : s'.calls = s.calls) : PoolKept p s s' :=
  ⟨fun k hidle => by rw [h, hidle], fun k requests hknown => by rw [h]; exact hknown⟩

lemma Moves.kept (h : Moves p s s' c) : PoolKept p s s' := by
  refine ⟨fun k hidle => ?_, fun k requests hknown => ?_⟩
  · by_cases hc : poolCall k = c
    · exact absurd (hc ▸ hidle) h.started
    · rw [h.others _ hc, hidle]
  · by_cases hc : poolCall k = c
    · rw [hc] at hknown ⊢
      exact h.knows requests hknown
    · rw [h.others _ hc]
      exact hknown

lemma poolCall_ne {k i : Nat} (h : i % 2 = 1) : poolCall k ≠ i := by
  intro hk
  have hdouble : 2 * k = i := hk
  omega

lemma poolOwn_kept {a : WorkerPool.Action K} (hown : poolOwn a = true)
    (h : WorkerPool.step pool deadline s a = some s') : PoolKept p s s' := by
  cases a with
  | tick elapsed => cases hown
  | infer c requests => cases hown
  | inferReturns c outcome => cases hown
  | endContext c err =>
    simp only [WorkerPool.step] at h
    cases hctx : s.contexts c with
    | none =>
      rw [hctx] at h
      cases h
      exact .of_calls rfl
    | some err' =>
      rw [hctx] at h
      cases h
  | healthy c =>
    have hne : ∀ k, poolCall k ≠ c := fun k => poolCall_ne (of_decide_eq_true hown)
    simp only [WorkerPool.step] at h
    cases hpc : s.calls c with
    | idle =>
      rw [hpc] at h
      cases h
      refine ⟨fun k hidle => ?_, fun k requests hknown => ?_⟩
      · rw [goto_calls_other _ (hne k), hidle]
      · rw [goto_calls_other _ (hne k)]
        exact hknown
    | _ =>
      rw [hpc] at h
      cases h
  | callStep c => exact (callStep_moves h).kept
  | probeReturns c err => exact (probeReturns_moves h).kept

end pool

section runs

variable {s s' : ServingPlane.State K δ} {c : CallId}

lemma arrive_eq_some (h : p.arrive s c = some s') :
    s.scores c = .absent ∧ s' = s.goto c (.running (p.score c)) := by
  unfold Plane.arrive at h
  split at h
  · rename_i hpc
    split at h
    · exact ⟨hpc, (Option.some.inj h).symm⟩
    · cases h
  · cases h

omit [Field K] [LinearOrder K] in
lemma lookup_eq_some {store : ς} (h : p.lookup s c store = some s') :
    ∃ entityID resume, s.scores c = .running (.call (.get entityID) resume) ∧
      s' = s.goto c (.running (resume (p.get store entityID))) := by
  unfold Plane.lookup at h
  split at h
  · rename_i entityID resume hpc
    exact ⟨entityID, resume, hpc, (Option.some.inj h).symm⟩
  · cases h

omit [Field K] in
lemma submit_eq_some (h : p.submit s c = some s') :
    ∃ request resume, s.scores c = .running (.call (.submit request) resume) ∧ request = p.value c ∧
      p.stepScheduler (s.goto c (.submitted resume)) (.submit c) = some s' := by
  unfold Plane.submit at h
  split at h
  · rename_i request resume hpc
    split at h
    · rename_i hvalue
      exact ⟨request, resume, hpc, hvalue, h⟩
    · cases h
  · cases h

omit [Field K] [LinearOrder K] in
lemma finish_eq_some (h : finish s c = some s') :
    ∃ resume reply won, s.scores c = .submitted resume ∧ s.scheduler.calls c = .returned reply won ∧
      s' = s.goto c (.running (resume reply)) := by
  unfold finish at h
  split at h
  · rename_i resume reply won hpc hret
    exact ⟨resume, reply, won, hpc, hret, (Option.some.inj h).symm⟩
  · cases h

/-- The scheduler's part with its actions so far, and what the pool holds for each invocation of the
handler; everything that the handler returned without an error came from the scorer. -/
structure PlaneInvariant (p : Plane K ς δ) (past : List (Scheduler.Action (Worker.Result K) GoError))
    (s : ServingPlane.State K δ) : Prop where
  scheduler : SchedulerInvariant p.cfg.scheduler p.workload s.scheduler
  pairing : PairingInvariant past s.scheduler
  fresh : ∀ k, s.scheduler.invocations.length ≤ k → s.pool.calls (poolCall k) = .idle
  knows : ∀ (k : Nat) (invocation : Invocation (Worker.Request K)), s.scheduler.invocations[k]? = some invocation →
    Knows p invocation.values (s.pool.calls (poolCall k))
  returned : ∀ (k : Nat) (results : List (Worker.Result K)), (handlerReturned past)[k]? = some (results, none) →
    ∃ invocation : Invocation (Worker.Request K), s.scheduler.invocations[k]? = some invocation ∧
      Scored p invocation.values results

variable {past : List (Scheduler.Action (Worker.Result K) GoError)}

lemma step_invocations {T R ε : Type} {cfg : Scheduler.Config} {w : Scheduler.Workload T}
    {s s' : Scheduler.State T R ε} {a : Scheduler.Action R ε} (h : Scheduler.step cfg w s a = some s') :
    ∃ more, s'.invocations = s.invocations ++ more := by
  have hsame : ∀ {t : Scheduler.State T R ε}, t.invocations = s.invocations →
      ∃ more, t.invocations = s.invocations ++ more := fun ht => ⟨[], by rw [ht, List.append_nil]⟩
  cases step_effect h with
  | world _ now contexts ha => exact hsame rfl
  | start c hidle => exact hsame rfl
  | call c branch _ h => exact hsame (submitEffect_shared (submitStep_effect h)).2.2.1
  | loop branch _ h =>
    cases runStep_effect h with
    | invoke d invocation => exact ⟨[invocation], rfl⟩
    | _ => exact hsame rfl
  | returns results err _ h =>
    unfold Scheduler.handlerReturns at h
    split at h
    · cases h
      exact hsame rfl
    · cases h
  | close => exact hsame rfl
  | closing _ h =>
    obtain ⟨_, _, _, _, _, rfl⟩ := closeStep_frame h
    exact hsame rfl

/-- When the handler returns, the invocation that ran is the one that has not returned yet. -/
lemma running_invocation {T R ε : Type} {cfg : Scheduler.Config} {w : Scheduler.Workload T}
    {s s' : Scheduler.State T R ε} {past : List (Scheduler.Action R ε)} {results : List R} {err : Option ε}
    (hp : PairingInvariant past s) (h : Scheduler.step cfg w s (.handlerReturns results err) = some s') :
    s.invocations.length = (handlerReturned past).length + 1 ∧
      ∃ invocation, s.invocations[(handlerReturned past).length]? = some invocation := by
  have hloop := hp.loop
  simp only [Scheduler.step, Scheduler.handlerReturns] at h
  by_cases hpanic : s.panicked = true
  · rw [if_pos hpanic] at h
    cases h
  · rw [if_neg hpanic] at h
    cases hrun : s.run with
    | handling active queueOpen =>
      rw [hrun] at hloop
      obtain ⟨hlen, invocation, hget, -⟩ := hloop
      exact ⟨hlen, invocation, hget⟩
    | _ =>
      rw [hrun] at h
      cases h

lemma mem_handlerReturned_single {R ε : Type} {a : Scheduler.Action R ε} {item : List R × Option ε}
    (h : item ∈ handlerReturned [a]) : a = .handlerReturns item.1 item.2 := by
  cases a with
  | handlerReturns results err =>
    rw [List.mem_singleton.mp h]
  | _ => cases h

/-- A step of the scheduler, if what the handler returns in it is the scorer's. -/
lemma planeInvariant_scheduler {a : Scheduler.Action (Worker.Result K) GoError} (hp : PlaneInvariant p past s)
    (h : p.stepScheduler s a = some s')
    (hreturns : ∀ results, a = .handlerReturns results none → ∀ invocation,
      s.scheduler.invocations[(handlerReturned past).length]? = some invocation → Scored p invocation.values results) :
    PlaneInvariant p (past ++ [a]) s' := by
  unfold Plane.stepScheduler at h
  obtain ⟨scheduler, hstep, rfl⟩ := Option.map_eq_some_iff.mp h
  obtain ⟨more, hmore⟩ := step_invocations hstep
  refine ⟨step_schedulerInvariant hp.scheduler hstep, step_pairing hp.scheduler hp.pairing hstep, fun k hk => ?_,
    fun k invocation hk => ?_, fun k results hk => ?_⟩
  · have hle : s.scheduler.invocations.length ≤ scheduler.invocations.length := by
      rw [hmore, List.length_append]
      exact Nat.le_add_right ..
    exact hp.fresh k (hle.trans hk)
  · dsimp only at hk ⊢
    by_cases hlt : k < s.scheduler.invocations.length
    · rw [hmore, List.getElem?_append_left hlt] at hk
      exact hp.knows k invocation hk
    · -- a new invocation has not called the pool yet
      rw [hp.fresh k (not_lt.mp hlt)]
      trivial
  · rw [handlerReturned_append] at hk
    have hkept : ∀ invocation, s.scheduler.invocations[k]? = some invocation →
        scheduler.invocations[k]? = some invocation := by
      intro invocation hget
      rw [hmore]
      exact getElem?_append_of_some hget
    by_cases hlt : k < (handlerReturned past).length
    · rw [List.getElem?_append_left hlt] at hk
      obtain ⟨invocation, hget, hscored⟩ := hp.returned k results hk
      exact ⟨invocation, hkept invocation hget, hscored⟩
    · rw [List.getElem?_append_right (not_lt.mp hlt)] at hk
      have ha := mem_handlerReturned_single (List.mem_of_getElem? hk)
      subst ha
      have hzero : k - (handlerReturned past).length < 1 := (List.getElem?_eq_some_iff.mp hk).1
      have hk' : k = (handlerReturned past).length := by omega
      subst hk'
      obtain ⟨-, invocation, hget⟩ := running_invocation hp.pairing hstep
      exact ⟨invocation, hkept invocation hget, hreturns results rfl invocation hget⟩

lemma planeInvariant_pool (hp : PlaneInvariant p past s) (hscheduler : s'.scheduler = s.scheduler)
    (hidle : ∀ k, s.scheduler.invocations.length ≤ k → s.pool.calls (poolCall k) = .idle →
      s'.pool.calls (poolCall k) = .idle)
    (hknows : ∀ (k : Nat) (invocation : Invocation (Worker.Request K)),
      s.scheduler.invocations[k]? = some invocation → Knows p invocation.values (s.pool.calls (poolCall k)) →
      Knows p invocation.values (s'.pool.calls (poolCall k))) :
    PlaneInvariant p past s' := by
  obtain ⟨hsched, hpairing, hfresh, hknown, hreturned⟩ := hp
  rw [← hscheduler] at *
  exact ⟨hsched, hpairing, fun k hk => hidle k hk (hfresh k hk),
    fun k invocation hk => hknows k invocation hk (hknown k invocation hk), hreturned⟩

lemma planeInvariant_goto (hp : PlaneInvariant p past s) (c : CallId) (pc : ScorePC K δ) :
    PlaneInvariant p past (s.goto c pc) :=
  planeInvariant_pool hp rfl (fun _ _ hidle => hidle) fun _ _ _ hknown => hknown

lemma planeInvariant_kept {a : WorkerPool.Action K} (hp : PlaneInvariant p past s) (h : p.stepPool s a = some s')
    (hkept : ∀ pool, WorkerPool.step p.pool (p.poolDeadline s) s.pool a = some pool → PoolKept p s.pool pool) :
    PlaneInvariant p past s' := by
  unfold Plane.stepPool at h
  obtain ⟨pool, hstep, rfl⟩ := Option.map_eq_some_iff.mp h
  exact planeInvariant_pool hp rfl (fun k _ => (hkept pool hstep).idle k)
    fun k invocation _ => (hkept pool hstep).knows k invocation.values

/-- The call of the running handler starts with the values of its invocation. -/
lemma planeInvariant_infer (hp : PlaneInvariant p past s) (h : p.infer s = some s') : PlaneInvariant p past s' := by
  unfold Plane.infer at h
  cases hlast : s.scheduler.invocations.getLast? with
  | none =>
    rw [hlast] at h
    cases hrun : s.scheduler.run <;> rw [hrun] at h <;> cases h
  | some invocation =>
    cases hrun : s.scheduler.run with
    | handling active queueOpen =>
      rw [hlast, hrun] at h
      dsimp only at h
      unfold Plane.stepPool at h
      obtain ⟨pool, hstep, rfl⟩ := Option.map_eq_some_iff.mp h
      have hcurrent : s.scheduler.invocations[s.current]? = some invocation := by
        rw [List.getLast?_eq_getElem?] at hlast
        exact hlast
      have hlt : s.current < s.scheduler.invocations.length := (List.getElem?_eq_some_iff.mp hcurrent).1
      have hpool : pool = s.pool.goto (poolCall s.current) (.takeNext invocation.values) := by
        simp only [WorkerPool.step] at hstep
        cases hpc : s.pool.calls (poolCall s.current) with
        | idle =>
          rw [hpc] at hstep
          exact (Option.some.inj hstep).symm
        | _ =>
          rw [hpc] at hstep
          cases hstep
      have hother : ∀ k, k ≠ s.current → pool.calls (poolCall k) = s.pool.calls (poolCall k) := by
        intro k hne
        rw [hpool]
        refine goto_calls_other _ fun heq => hne ?_
        have hdouble : (2 * k : Nat) = 2 * s.current := heq
        omega
      refine planeInvariant_pool hp rfl (fun k hk hidle => ?_) fun k invocation' hk hknown => ?_
      · exact (hother k (by omega)).trans hidle
      · by_cases hk' : k = s.current
        · subst hk'
          rw [hcurrent] at hk
          cases hk
          dsimp only
          rw [hpool, goto_calls_self]
          rfl
        · dsimp only
          rw [hother k hk']
          exact hknown
    | _ =>
      rw [hrun] at h
      cases h

lemma planeInvariant_handlerReturns (hp : PlaneInvariant p past s) (h : p.handlerReturns s = some s') :
    ∃ past, PlaneInvariant p past s' := by
  unfold Plane.handlerReturns at h
  cases hpc : s.pool.calls (poolCall s.current) with
  | inferred result =>
    rw [hpc] at h
    cases result with
    | ok results =>
      refine ⟨_, planeInvariant_scheduler hp h fun results' ha invocation hget => ?_⟩
      cases ha
      have hstep := h
      unfold Plane.stepScheduler at hstep
      obtain ⟨scheduler, hstep, -⟩ := Option.map_eq_some_iff.mp hstep
      have hlen := (running_invocation hp.pairing hstep).1
      have hcurrent : s.current = (handlerReturned past).length := by
        unfold State.current
        omega
      have hknown := hp.knows s.current invocation (hcurrent ▸ hget)
      rw [hpc] at hknown
      exact hknown results rfl
    | error err =>
      refine ⟨_, planeInvariant_scheduler hp h fun results' ha => ?_⟩
      cases ha
  | _ =>
    rw [hpc] at h
    cases h

theorem planeInvariant_step {a : ServingPlane.Action K ς} (hp : ∃ past, PlaneInvariant p past s)
    (h : p.step s a = some s') : ∃ past, PlaneInvariant p past s' := by
  obtain ⟨past, hp⟩ := hp
  cases a with
  | tick elapsed =>
    obtain ⟨s₁, hscheduler, hpool⟩ := Option.bind_eq_some_iff.mp h
    have hp₁ := planeInvariant_scheduler hp hscheduler fun results ha => by cases ha
    refine ⟨_, planeInvariant_kept hp₁ hpool fun pool hstep => ?_⟩
    cases hstep
    exact .of_calls rfl
  | scheduler a =>
    obtain ⟨hown, hstep⟩ := Option.ite_none_right_eq_some.mp h
    refine ⟨_, planeInvariant_scheduler hp hstep fun results ha => ?_⟩
    subst ha
    cases hown
  | arrive c =>
    obtain ⟨-, rfl⟩ := arrive_eq_some h
    exact ⟨past, planeInvariant_goto hp c _⟩
  | lookup c store =>
    obtain ⟨entityID, resume, -, rfl⟩ := lookup_eq_some h
    exact ⟨past, planeInvariant_goto hp c _⟩
  | submit c =>
    obtain ⟨request, resume, -, -, hstep⟩ := submit_eq_some h
    exact ⟨_, planeInvariant_scheduler (planeInvariant_goto hp c _) hstep fun results ha => by cases ha⟩
  | finish c =>
    obtain ⟨resume, reply, won, -, -, rfl⟩ := finish_eq_some h
    exact ⟨past, planeInvariant_goto hp c _⟩
  | infer => exact ⟨past, planeInvariant_infer hp h⟩
  | reachDeadline k =>
    simp only [Plane.step] at h
    cases hdeadline : (s.contexts k).deadline with
    | none =>
      rw [hdeadline] at h
      cases h
    | some t =>
      rw [hdeadline] at h
      obtain ⟨-, hpool⟩ := Option.ite_none_right_eq_some.mp h
      refine ⟨past, planeInvariant_kept hp hpool fun pool hstep => ?_⟩
      simp only [WorkerPool.step] at hstep
      cases hctx : s.pool.contexts (poolCall k) with
      | none =>
        rw [hctx] at hstep
        cases hstep
        exact .of_calls rfl
      | some err =>
        rw [hctx] at hstep
        cases hstep
  | pool a =>
    obtain ⟨hown, hpool⟩ := Option.ite_none_right_eq_some.mp h
    exact ⟨past, planeInvariant_kept hp hpool fun pool hstep => poolOwn_kept hown hstep⟩
  | answer k delivery =>
    simp only [Plane.step] at h
    cases hpc : s.pool.calls (poolCall k) with
    | inferring a attempt =>
      rw [hpc] at h
      exact ⟨past, planeInvariant_kept hp h fun pool hstep =>
        (inferReturns_moves hpc (fun results => scored_of_answer) hstep).kept⟩
    | _ =>
      rw [hpc] at h
      cases h
  | handlerReturns => exact planeInvariant_handlerReturns hp h

lemma planeInvariant_initial (p : Plane K ς δ) (now : Int) : PlaneInvariant p [] (State.initial now) := by
  obtain ⟨hscheduler, hpairing⟩ := run_pairing p.cfg.scheduler p.workload now [] (.initial now) rfl
  refine ⟨hscheduler, hpairing, fun k _ => rfl, fun k invocation hk => ?_, fun k results hk => ?_⟩
  · cases hk
  · cases hk

/-- A value that `Submit` returns is the scorer's result for the value that was submitted. -/
lemma submit_scored (hp : PlaneInvariant p past s) {c : CallId} {result : Worker.Result K} {won : Bool}
    (hret : s.scheduler.calls c = .returned (.ok result) won) :
    result = (defaultCPUScorer p.ops).result p.ops p.sort (p.workload.value c) ∧
      (p.workload.value c).features.length = modelFeatureWidth := by
  obtain ⟨k, i, invocation, results, hpair⟩ :=
    hp.pairing.replies _ (hp.pairing.calls c result won hret) result rfl
  obtain ⟨invocation', hget, hresults, hwidth⟩ := hp.returned k results hpair.returned
  cases hpair.invoked.symm.trans hget
  have hvalues := (hp.scheduler.invoked invocation (List.mem_of_getElem? hpair.invoked)).2.2
  have hvalue : invocation.values[i]? = some (p.workload.value c) := by
    rw [hvalues, List.getElem?_map, hpair.item]
    rfl
  have hresult := hpair.result
  rw [hresults, List.getElem?_map, hvalue] at hresult
  exact ⟨(Option.some.inj hresult).symm, hwidth _ (List.mem_of_getElem? hvalue)⟩

end runs

section scores

/-- `score` when the feature store has answered, and when `Submit` has returned. -/
def afterSubmit (p : Plane K ς δ) (c : CallId) : Except (Scheduler.Error GoError) (Worker.Result K) → ScoreProgram K δ
  | .error err => .pure (HttpGateway.respondError p.wraps (p.requests c) err)
  | .ok result => .pure (HttpGateway.respondResult p.cfg (p.requests c) result)

def afterLookup (p : Plane K ς δ) (c : CallId) (input : HttpGateway.ScoreRequest K) :
    Except δ (List (Ieee K)) → ScoreProgram K δ
  | .error _ => .pure (HttpGateway.respondFallback (p.requests c) fallbackFeatureUnavailable)
  | .ok features => .call (.submit ⟨features, input.amount⟩) (afterSubmit p c)

lemma score_of_error {c : CallId} {response : HttpGateway.HttpResponse K}
    (h : HttpGateway.checkRequest p.cfg (p.requests c) = .error response) : p.score c = .pure response := by
  unfold Plane.score HttpGateway.score
  rw [h]
  rfl

lemma score_of_ok {c : CallId} {input : HttpGateway.ScoreRequest K}
    (h : HttpGateway.checkRequest p.cfg (p.requests c) = .ok input) :
    p.score c = .call (.get input.entityID) (afterLookup p c input) := by
  unfold Plane.score HttpGateway.score
  rw [h]
  refine congrArg (Prog.call (ScoreCall.get input.entityID)) (funext fun found => ?_)
  cases found with
  | error err => rfl
  | ok features =>
    refine congrArg (Prog.call (ScoreCall.submit ⟨features, input.amount⟩)) (funext fun reply => ?_)
    cases reply <;> rfl

/-- Request `c` has looked up its own entity, and the feature store had these features for it then. -/
structure LookedUp (p : Plane K ς δ) (past : List (ServingPlane.Action K ς)) (c : CallId)
    (input : HttpGateway.ScoreRequest K) (features : List (Ieee K)) : Prop where
  checked : HttpGateway.checkRequest p.cfg (p.requests c) = .ok input
  found : ∃ store before after, past = before ++ .lookup c store :: after ∧ p.get store input.entityID = .ok features

def Answered (p : Plane K ς δ) (past : List (ServingPlane.Action K ς)) (c : CallId)
    (response : HttpGateway.HttpResponse K) : Prop :=
  HttpGateway.checkRequest p.cfg (p.requests c) = .error response ∨
    (∃ reason, validFallbackReason reason = true ∧ reason ≠ [] ∧
      response = HttpGateway.respondFallback (p.requests c) reason) ∨
    ∃ input features, LookedUp p past c input features ∧ features.length = modelFeatureWidth ∧
      response = HttpGateway.respondResult p.cfg (p.requests c)
        ((defaultCPUScorer p.ops).result p.ops p.sort ⟨features, input.amount⟩)

inductive ScoreAt (p : Plane K ς δ) (past : List (ServingPlane.Action K ς)) (c : CallId) : ScorePC K δ → Prop
  | absent : ScoreAt p past c .absent
  | arrived {program} (h : program = p.score c) : ScoreAt p past c (.running program)
  | found {input features} (h : LookedUp p past c input features) :
      ScoreAt p past c (.running (.call (.submit ⟨features, input.amount⟩) (afterSubmit p c)))
  | submitted {input features} (h : LookedUp p past c input features) (hvalue : p.value c = ⟨features, input.amount⟩) :
      ScoreAt p past c (.submitted (afterSubmit p c))
  | answered {response} (h : Answered p past c response) : ScoreAt p past c (.running (.pure response))

variable {s s' : ServingPlane.State K δ} {past : List (ServingPlane.Action K ς)} {c : CallId} {pc : ScorePC K δ}
  {input : HttpGateway.ScoreRequest K} {features : List (Ieee K)} {response : HttpGateway.HttpResponse K}

lemma LookedUp.later (h : LookedUp p past c input features) (a : ServingPlane.Action K ς) :
    LookedUp p (past ++ [a]) c input features := by
  obtain ⟨hchecked, store, before, after, rfl, hget⟩ := h
  exact ⟨hchecked, store, before, after ++ [a], List.append_assoc .., hget⟩

lemma ScoreAt.later (h : ScoreAt p past c pc) (a : ServingPlane.Action K ς) : ScoreAt p (past ++ [a]) c pc := by
  cases h with
  | absent => exact .absent
  | arrived h => exact .arrived h
  | found h => exact .found (h.later a)
  | submitted h hvalue => exact .submitted (h.later a) hvalue
  | answered h =>
    rcases h with hrefused | hdenied | ⟨input, features, hlooked, hverdict⟩
    · exact .answered (.inl hrefused)
    · exact .answered (.inr (.inl hdenied))
    · exact .answered (.inr (.inr ⟨input, features, hlooked.later a, hverdict⟩))

/-- `score` goes on from the lookup with what the feature store has for the entity of its request. -/
lemma scoreAt_lookup {store : ς} {entityID : GoString} {resume : Except δ (List (Ieee K)) → ScoreProgram K δ}
    (h : ScoreAt p past c (.running (.call (.get entityID) resume))) :
    ScoreAt p (past ++ [.lookup c store]) c (.running (resume (p.get store entityID))) := by
  cases h with
  | arrived h =>
    cases hcheck : HttpGateway.checkRequest p.cfg (p.requests c) with
    | error response =>
      rw [score_of_error hcheck] at h
      cases h
    | ok input =>
      rw [score_of_ok hcheck] at h
      cases h
      cases hget : p.get store input.entityID with
      | error err => exact .answered (.inr (.inl ⟨fallbackFeatureUnavailable, rfl, by decide, rfl⟩))
      | ok features => exact .found ⟨hcheck, store, past, [], rfl, hget⟩

lemma scoreAt_submit {request : Worker.Request K}
    {resume : Except (Scheduler.Error GoError) (Worker.Result K) → ScoreProgram K δ}
    (h : ScoreAt p past c (.running (.call (.submit request) resume))) (hvalue : request = p.value c) :
    ScoreAt p past c (.submitted resume) := by
  cases h with
  | arrived h =>
    cases hcheck : HttpGateway.checkRequest p.cfg (p.requests c) with
    | error response =>
      rw [score_of_error hcheck] at h
      cases h
    | ok input =>
      rw [score_of_ok hcheck] at h
      cases h
  | found h => exact .submitted h hvalue.symm

omit [LinearOrder K] in
lemma respondError_reason (p : Plane K ς δ) (r : HttpGateway.HttpRequest K) (err : Scheduler.Error GoError) :
    ∃ reason, validFallbackReason reason = true ∧ reason ≠ [] ∧
      HttpGateway.respondError p.wraps r err = HttpGateway.respondFallback r reason := by
  unfold HttpGateway.respondError
  cases HttpGateway.isQueueError p.wraps err with
  | true => exact ⟨fallbackQueueDeadline, rfl, by decide, rfl⟩
  | false => exact ⟨fallbackWorkerUnavailable, rfl, by decide, rfl⟩

lemma scoreAt_finish {actions : List (Scheduler.Action (Worker.Result K) GoError)} (hp : PlaneInvariant p actions s)
    {resume : Except (Scheduler.Error GoError) (Worker.Result K) → ScoreProgram K δ}
    (h : ScoreAt p past c (.submitted resume)) {reply : Except (Scheduler.Error GoError) (Worker.Result K)} {won : Bool}
    (hret : s.scheduler.calls c = .returned reply won) : ScoreAt p past c (.running (resume reply)) := by
  cases h with
  | submitted h hvalue =>
    rename_i input features
    cases reply with
    | error err => exact .answered (.inr (.inl (respondError_reason p (p.requests c) err)))
    | ok result =>
      obtain ⟨hresult, hwidth⟩ := submit_scored hp hret
      have hworkload : p.workload.value c = ⟨features, input.amount⟩ := hvalue
      rw [hworkload] at hresult hwidth
      exact .answered (.inr (.inr ⟨input, features, h, hwidth, congrArg _ hresult⟩))

omit [Field K] [LinearOrder K] in
lemma goto_scores_self : (s.goto c pc).scores c = pc := Function.update_self ..

omit [Field K] [LinearOrder K] in
lemma goto_scores_other {c' : CallId} (h : c' ≠ c) : (s.goto c pc).scores c' = s.scores c' :=
  Function.update_of_ne h ..

omit [Field K] [LinearOrder K] in
lemma stepScheduler_scores {a : Scheduler.Action (Worker.Result K) GoError} (h : p.stepScheduler s a = some s') :
    s'.scores = s.scores := by
  obtain ⟨scheduler, -, rfl⟩ := Option.map_eq_some_iff.mp h
  rfl

omit [Field K] [LinearOrder K] in
lemma stepPool_scores {a : WorkerPool.Action K} (h : p.stepPool s a = some s') : s'.scores = s.scores := by
  obtain ⟨pool, -, rfl⟩ := Option.map_eq_some_iff.mp h
  rfl

lemma scoreAt_goto {a : ServingPlane.Action K ς} (hscores : ∀ c, ScoreAt p past c (s.scores c))
    (hpc : ScoreAt p (past ++ [a]) c pc) (c' : CallId) : ScoreAt p (past ++ [a]) c' ((s.goto c pc).scores c') := by
  by_cases heq : c' = c
  · subst heq
    rw [goto_scores_self]
    exact hpc
  · rw [goto_scores_other heq]
    exact (hscores c').later a

/-- The steps of the scheduler and of the pool leave every `score` where it is. -/
lemma step_scores_rest {a : ServingPlane.Action K ς} (h : p.step s a = some s')
    (hother : ∀ c, a ≠ .arrive c ∧ (∀ store, a ≠ .lookup c store) ∧ a ≠ .submit c ∧ a ≠ .finish c) :
    s'.scores = s.scores := by
  cases a with
  | arrive c => exact absurd rfl (hother c).1
  | lookup c store => exact absurd rfl ((hother c).2.1 store)
  | submit c => exact absurd rfl (hother c).2.2.1
  | finish c => exact absurd rfl (hother c).2.2.2
  | tick elapsed =>
    obtain ⟨s₁, hscheduler, hpool⟩ := Option.bind_eq_some_iff.mp h
    exact (stepPool_scores hpool).trans (stepScheduler_scores hscheduler)
  | scheduler a =>
    obtain ⟨-, hstep⟩ := Option.ite_none_right_eq_some.mp h
    exact stepScheduler_scores hstep
  | infer =>
    change p.infer s = some s' at h
    unfold Plane.infer at h
    split at h
    · exact (stepPool_scores h).trans rfl
    · cases h
  | reachDeadline k =>
    simp only [Plane.step] at h
    split at h
    · split at h
      · exact stepPool_scores h
      · cases h
    · cases h
  | pool a =>
    obtain ⟨-, hpool⟩ := Option.ite_none_right_eq_some.mp h
    exact stepPool_scores hpool
  | answer k delivery =>
    simp only [Plane.step] at h
    split at h
    · exact stepPool_scores h
    · cases h
  | handlerReturns =>
    change p.handlerReturns s = some s' at h
    unfold Plane.handlerReturns at h
    split at h
    · exact stepScheduler_scores h
    · exact stepScheduler_scores h
    · cases h

lemma scoreAt_step {a : ServingPlane.Action K ς} {actions : List (Scheduler.Action (Worker.Result K) GoError)}
    (hp : PlaneInvariant p actions s) (hscores : ∀ c, ScoreAt p past c (s.scores c)) (h : p.step s a = some s')
    (c : CallId) : ScoreAt p (past ++ [a]) c (s'.scores c) := by
  cases a with
  | arrive c₀ =>
    obtain ⟨-, rfl⟩ := arrive_eq_some h
    exact scoreAt_goto hscores (.arrived rfl) c
  | lookup c₀ store =>
    obtain ⟨entityID, resume, hpc, rfl⟩ := lookup_eq_some h
    exact scoreAt_goto hscores (scoreAt_lookup (hpc ▸ hscores c₀)) c
  | submit c₀ =>
    obtain ⟨request, resume, hpc, hvalue, hstep⟩ := submit_eq_some h
    rw [stepScheduler_scores hstep]
    exact scoreAt_goto hscores ((scoreAt_submit (hpc ▸ hscores c₀) hvalue).later _) c
  | finish c₀ =>
    obtain ⟨resume, reply, won, hpc, hret, rfl⟩ := finish_eq_some h
    exact scoreAt_goto hscores ((scoreAt_finish hp (hpc ▸ hscores c₀) hret).later _) c
  | _ =>
    rw [step_scores_rest h fun c => ⟨by rintro ⟨⟩, by rintro store ⟨⟩, by rintro ⟨⟩, by rintro ⟨⟩⟩]
    exact (hscores c).later _

theorem scoreAt_run {now : Int} {actions : List (ServingPlane.Action K ς)}
    (h : runSteps p.step (State.initial now) actions = some s) (c : CallId) : ScoreAt p actions c (s.scores c) := by
  have hinitial : (∃ before, PlaneInvariant p before (State.initial now)) ∧
      ∀ c, ScoreAt p [] c ((State.initial now : ServingPlane.State K δ).scores c) :=
    ⟨⟨[], planeInvariant_initial p now⟩, fun c => .absent⟩
  have hrun := runSteps_history
    (P := fun past s => (∃ before, PlaneInvariant p before s) ∧ ∀ c, ScoreAt p past c (s.scores c))
    (fun past s a s' hs hstep => ⟨planeInvariant_step hs.1 hstep, scoreAt_step hs.1.choose_spec hs.2 hstep⟩)
    hinitial actions h
  exact hrun.2 c

lemma answered_of_response {now : Int} {actions : List (ServingPlane.Action K ς)}
    (hrun : runSteps p.step (State.initial now) actions = some s) (h : s.response c = some response) :
    Answered p actions c response := by
  have hat := scoreAt_run hrun c
  unfold State.response at h
  split at h
  · rename_i hpc
    cases h
    rw [hpc] at hat
    cases hat with
    | arrived h =>
      cases hcheck : HttpGateway.checkRequest p.cfg (p.requests c) with
      | error refusal =>
        rw [score_of_error hcheck] at h
        cases h
        exact .inl hcheck
      | ok input =>
        rw [score_of_ok hcheck] at h
        cases h
    | answered h => exact h
  · cases h

end scores

/-- In every run, whatever batches the scheduler forms and whichever workers fail, the answer to a
request is the error of its own check, a denial that names why there is no verdict, or the verdict of
the scorer on the amount of that request and on what the feature store had for its entity when the
request looked it up. -/
theorem serving_plane_verdicts (p : Plane K ς δ) (now : Int) (actions : List (ServingPlane.Action K ς))
    (s : ServingPlane.State K δ) (hrun : runSteps p.step (State.initial now) actions = some s) (c : CallId)
    (response : HttpGateway.HttpResponse K) (h : s.response c = some response) :
    HttpGateway.checkRequest p.cfg (p.requests c) = .error response ∨
    (∃ reason, validFallbackReason reason = true ∧ reason ≠ [] ∧
      response = HttpGateway.respondFallback (p.requests c) reason) ∨
    ∃ input features store before after, HttpGateway.checkRequest p.cfg (p.requests c) = .ok input ∧
      actions = before ++ .lookup c store :: after ∧ p.get store input.entityID = .ok features ∧
      features.length = modelFeatureWidth ∧
      response = HttpGateway.respondResult p.cfg (p.requests c)
        ((defaultCPUScorer p.ops).result p.ops p.sort ⟨features, input.amount⟩) := by
  rcases answered_of_response hrun h with hrefused | hdenied | ⟨input, features, hlooked, hwidth, hresponse⟩
  · exact .inl hrefused
  · exact .inr (.inl hdenied)
  · obtain ⟨hchecked, store, before, after, hactions, hget⟩ := hlooked
    exact .inr (.inr ⟨input, features, store, before, after, hchecked, hactions, hget, hwidth, hresponse⟩)

def exactRounding : Rounding ℚ where
  literal := .finite
  neg := fun
    | .finite a => .finite (-a)
    | _ => .nan
  add := fun
    | .finite a, .finite b => .finite (a + b)
    | _, _ => .nan
  sub := fun
    | .finite a, .finite b => .finite (a - b)
    | _, _ => .nan
  mul := fun
    | .finite a, .finite b => .finite (a * b)
    | _, _ => .nan
  div := fun
    | .finite a, .finite b => .finite (a / b)
    | _, _ => .nan
  exp := fun _ => .finite 3

/-- Two workers with one token, and two cards that pay at the same time. -/
def twoWorkers : Plane ℚ (GoString → List (Ieee ℚ)) Unit where
  cfg := .new (ascii "key") 0 0 0 0 0
  pool := recoveringPool
  client _ := ⟨true, ascii "worker"⟩
  authToken _ := ascii "worker"
  ops := exactRounding
  sort := insertionSlices
  wraps _ := false
  requests c := ⟨ascii "Bearer key", ascii "r", some ⟨ascii (if c = 0 then "silver" else "gold"), .finite (100 * c)⟩⟩
  arrival _ := 0
  value c := ⟨List.replicate 32 (.finite c), .finite (100 * c)⟩
  get store entityID := .ok (store entityID)
  probeDeadline _ := none

def cardFeatures (entityID : GoString) : List (Ieee ℚ) :=
  List.replicate 32 (.finite (if entityID = ascii "gold" then 1 else 0))

/-- The two requests share a batch; the first worker does not answer and the second one does. -/
def failoverRun {ς : Type} (store : ς) : List (ServingPlane.Action ℚ ς) :=
  let enter (c : CallId) : List (ServingPlane.Action ℚ ς) :=
    [.arrive c, .lookup c store, .submit c] ++ List.replicate 6 (Action.scheduler (.submitStep c .reply))
  enter 0 ++ enter 1 ++ List.replicate 4 (Action.scheduler (.runStep .receive)) ++
    [Action.tick 1000000, .scheduler (.runStep .timer)] ++ List.replicate 8 (Action.scheduler (.runStep .receive)) ++
    [Action.infer] ++ List.replicate 3 (Action.pool (.callStep 0)) ++ [Action.answer 0 (.lost ⟨"unavailable"⟩)] ++
    List.replicate 4 (Action.pool (.callStep 0)) ++
    [Action.answer 0 (.served 1000000 fun _ => none), .handlerReturns] ++
    List.replicate 4 (Action.scheduler (.runStep .receive)) ++ [Action.scheduler (.submitStep 1 .reply), .finish 1]

lemma lookup_mem_failoverRun {ς : Type} {store found : ς} {c : CallId}
    (h : ServingPlane.Action.lookup c found ∈ failoverRun store) : found = store := by
  simp only [failoverRun, List.mem_append, List.mem_cons, List.mem_replicate, List.not_mem_nil, reduceCtorEq,
    ServingPlane.Action.lookup.injEq, and_false, or_false, false_or] at h
  rcases h with h | h
  · exact h.2
  · exact h.2

theorem serving_plane_verdicts_failover :
    ∃ s response, runSteps twoWorkers.step (State.initial 0) (failoverRun cardFeatures) = some s ∧
      s.response 1 = some response ∧ response.status = 200 ∧
      response = HttpGateway.respondResult twoWorkers.cfg (twoWorkers.requests 1)
        ((defaultCPUScorer exactRounding).result exactRounding insertionSlices
          ⟨List.replicate 32 (.finite 1), .finite 100⟩) := by
  have hstatus : ((runSteps twoWorkers.step (State.initial 0) (failoverRun cardFeatures)).bind fun s =>
      (s.response 1).map HttpGateway.HttpResponse.status) = some 200 := by decide +kernel
  obtain ⟨s, hs, hstatus⟩ := Option.bind_eq_some_iff.mp hstatus
  obtain ⟨response, hresponse, hstatus⟩ := Option.map_eq_some_iff.mp hstatus
  have hinput : HttpGateway.checkRequest twoWorkers.cfg (twoWorkers.requests 1) =
      .ok ⟨ascii "gold", .finite 100⟩ := by decide +kernel
  refine ⟨s, response, hs, hresponse, hstatus, ?_⟩
  rcases serving_plane_verdicts twoWorkers 0 (failoverRun cardFeatures) s hs 1 response hresponse with
    hrefused | hdenied | hverdict
  · cases hinput.symm.trans hrefused
  · obtain ⟨reason, -, -, rfl⟩ := hdenied
    cases hstatus
  · obtain ⟨input, features, store, before, after, hcheck, hactions, hget, -, rfl⟩ := hverdict
    cases hinput.symm.trans hcheck
    have hlookup : ServingPlane.Action.lookup 1 store ∈ failoverRun cardFeatures := by
      rw [hactions]
      exact List.mem_append_right _ List.mem_cons_self
    rw [lookup_mem_failoverRun hlookup] at hget
    cases hget
    rfl

end FraudDetection.Proofs
