import Mathlib.Algebra.Order.Field.Rat
import FraudDetection.HttpGateway
import FraudDetection.Proofs.SchedulerPairing

/-!
# Failing closed

The response to a score request, over every answer of the feature store, every run of the
scheduler and every outcome of the engine. Errors of the three always end in a denial. A result of
the engine is judged by its score alone, so the flag of a fallback result decides nothing.
-/

namespace FraudDetection.Proofs
open FraudDetection.Library
open FraudDetection.Scheduler
open FraudDetection.Worker
open FraudDetection.HttpGateway

variable {K ε δ : Type} [Field K] [LinearOrder K]

section results

lemma validateResult_score {i : Nat} {result : Result K} (h : validateResult i result = none) :
    inRange 0 1 result.score = true := by
  unfold validateResult at h
  split at h
  · cases h
  · rename_i hscore
    simpa using hscore

lemma validateResults_score {results : List (Result K)} {expected i : Nat}
    (h : validateResults results expected = none) {result : Result K} (hi : results[i]? = some result) :
    result.score.isNaN = false := by
  unfold validateResults at h
  split at h
  · cases h
  · have hin : (result, i) ∈ results.zipIdx := List.mk_mem_zipIdx_iff_getElem?.mpr hi
    have hscore := validateResult_score (List.findSome?_eq_none_iff.mp h (result, i) hin)
    cases hnan : result.score.isNaN with
    | false => rfl
    | true => simp [inRange, nonFinite, hnan] at hscore

end results

/-- The engine returned the result for call `c`, which it was given as the request. -/
def EngineReturned (s : State (Request K) (Result K) ε)
    (returned : List (List (Result K) × Option ε)) (c : CallId) (request : Request K) (result : Result K) :
    Prop :=
  ∃ (k i : Nat) (invocation : Invocation (Request K)) (results : List (Result K)),
    s.invocations[k]? = some invocation ∧ invocation.active[i]? = some c ∧
    invocation.values[i]? = some request ∧ returned[k]? = some (results, none) ∧ results[i]? = some result

def EngineFailed (s : State (Request K) (Result K) ε) (returned : List (List (Result K) × Option ε))
    (c : CallId) : Prop :=
  ∃ (k i : Nat) (invocation : Invocation (Request K)) (results : List (Result K)) (err : ε),
    s.invocations[k]? = some invocation ∧ invocation.active[i]? = some c ∧
    returned[k]? = some (results, some err)

/-- The results that the engine returns without an error pass `validateResults`. -/
def EngineValidates (s : State (Request K) (Result K) ε)
    (returned : List (List (Result K) × Option ε)) : Prop :=
  ∀ (k : Nat) (invocation : Invocation (Request K)) (results : List (Result K)),
    s.invocations[k]? = some invocation → returned[k]? = some (results, none) →
      validateResults results invocation.values.length = none

structure Denied (response : HttpResponse K) : Prop where
  status : response.status = 503
  body : ∃ body, response.body = .score body ∧ body.decision = .deny ∧ body.fallback = true ∧
    body.fallbackReason ≠ [] ∧ validFallbackReason body.fallbackReason = true

omit [LinearOrder K] in
lemma respondFallback_denied (r : HttpRequest K) {reason : GoString} (hne : reason ≠ [])
    (hvalid : validFallbackReason reason = true) : Denied (respondFallback r reason) :=
  ⟨rfl, _, rfl, rfl, rfl, hne, hvalid⟩

omit [LinearOrder K] in
lemma respondError_denied (wraps : ε → Bool) (r : HttpRequest K) (err : Scheduler.Error ε) :
    Denied (respondError wraps r err) := by
  unfold respondError
  split
  · exact respondFallback_denied r (by decide) (by decide)
  · exact respondFallback_denied r (by decide) (by decide)

/-- A request that passed the checks of `score`, the run of the scheduler that served it, and what
its dependencies answered: the feature store, and `Submit` as call `c` of the run. -/
structure ScoredRequest (cfg : HttpGateway.Config K) (ε δ : Type) where
  workload : Workload (Request K)
  start : Int
  actions : List (Scheduler.Action (Result K) ε)
  state : State (Request K) (Result K) ε
  run : runSteps (step cfg.scheduler workload) (State.initial start) actions = some state
  validates : EngineValidates state (handlerReturned actions)
  wraps : ε → Bool
  get : GoString → Except δ (List (Ieee K))
  submit : Request K → Except (Scheduler.Error ε) (Result K)
  request : HttpRequest K
  input : ScoreRequest K
  accepted : checkRequest cfg request = .ok input
  call : CallId
  submitted : ∀ features, get input.entityID = .ok features →
    workload.value call = ⟨features, input.amount⟩ ∧
      ∃ won, state.calls call = .returned (submit ⟨features, input.amount⟩) won

namespace ScoredRequest

variable {cfg : HttpGateway.Config K} (q : ScoredRequest cfg ε δ)

def response : HttpResponse K := score (m := Id) cfg q.wraps q.get q.submit q.request

def LenientFallback : Prop :=
  ∃ features result, q.get q.input.entityID = .ok features ∧
    q.submit ⟨features, q.input.amount⟩ = .ok result ∧ result.fallback = true ∧
    result.score.lt (.finite cfg.denyScore) = true

structure FailsClosed : Prop where
  allow : ∀ body, q.response.body = .score body → body.decision = .allow →
    ∃ features result, q.get q.input.entityID = .ok features ∧
      EngineReturned q.state (handlerReturned q.actions) q.call ⟨features, q.input.amount⟩ result ∧
      result.fallback = false ∧ result.score.lt (.finite cfg.denyScore) = true
  fallback : ∀ body, q.response.body = .score body → body.fallback = true → body.decision = .deny
  store : ∀ err, q.get q.input.entityID = .error err → Denied q.response
  queue : ∀ features err, q.get q.input.entityID = .ok features →
    q.submit ⟨features, q.input.amount⟩ = .error err → Denied q.response
  engine : EngineFailed q.state (handlerReturned q.actions) q.call → Denied q.response

variable {q}

lemma failsClosed_of_denied (h : Denied q.response) : q.FailsClosed := by
  obtain ⟨denial, hbody, hdeny, -⟩ := h.body
  refine ⟨fun body hb hallow => ?_, fun body hb _ => ?_, fun _ _ => h, fun _ _ _ _ => h, fun _ => h⟩
  · cases hbody.symm.trans hb
    rw [hdeny] at hallow
    cases hallow
  · cases hbody.symm.trans hb
    exact hdeny

lemma response_of_store_error {err : δ} (h : q.get q.input.entityID = .error err) :
    q.response = respondFallback q.request fallbackFeatureUnavailable := by
  simp only [response, score, q.accepted, bind, pure, h]

lemma response_of_submit_error {features : List (Ieee K)} {err : Scheduler.Error ε}
    (h : q.get q.input.entityID = .ok features) (hs : q.submit ⟨features, q.input.amount⟩ = .error err) :
    q.response = respondError q.wraps q.request err := by
  simp only [response, score, q.accepted, bind, pure, h, hs]

lemma response_of_result {features : List (Ieee K)} {result : Result K}
    (h : q.get q.input.entityID = .ok features) (hs : q.submit ⟨features, q.input.amount⟩ = .ok result) :
    q.response = respondResult cfg q.request result := by
  simp only [response, score, q.accepted, bind, pure, h, hs]

/-- The facts about the one batch that held the call: the engine returned the result for the
request itself, the score is a number, and the batch did not fail. -/
lemma engine_of_result {features : List (Ieee K)} {result : Result K}
    (h : q.get q.input.entityID = .ok features) (hs : q.submit ⟨features, q.input.amount⟩ = .ok result) :
    EngineReturned q.state (handlerReturned q.actions) q.call ⟨features, q.input.amount⟩ result ∧
      result.score.isNaN = false ∧ ¬ EngineFailed q.state (handlerReturned q.actions) q.call := by
  obtain ⟨hvalue, won, hret⟩ := q.submitted features h
  rw [hs] at hret
  obtain ⟨hi, hp⟩ := run_pairing _ _ _ _ _ q.run
  obtain ⟨k, i, invocation, results, hpair⟩ := hp.replies _ (hp.calls q.call result won hret) result rfl
  have hvalues := (hi.invoked invocation (List.mem_of_getElem? hpair.invoked)).2.2
  refine ⟨⟨k, i, invocation, results, hpair.invoked, hpair.item, ?_, hpair.returned, hpair.result⟩, ?_, ?_⟩
  · rw [hvalues, List.getElem?_map, hpair.item, Option.map_some, hvalue]
  · exact validateResults_score (q.validates k invocation results hpair.invoked hpair.returned) hpair.result
  · rintro ⟨k', i', invocation', results', err, hk', hi', hfailed⟩
    obtain ⟨rfl, -⟩ := index_unique_of_nodup (handled_nodup hi) hpair.invoked hpair.item hk' hi'
    rw [hpair.returned] at hfailed
    cases hfailed

omit [Field K] in
lemma decision_allow_iff {result : Result K} (hnum : result.score.isNaN = false) :
    (if (Ieee.finite cfg.denyScore).le result.score then Decision.deny else .allow) = .allow ↔
      result.score.lt (.finite cfg.denyScore) = true := by
  cases hle : (Ieee.finite cfg.denyScore).le result.score with
  | false => simp [Ieee.lt_of_not_le hnum rfl hle]
  | true =>
    refine iff_of_false (by simp) fun hlt => ?_
    rw [Ieee.not_le_of_lt hlt] at hle
    cases hle

/-- A result that reached the caller fails closed unless it is a fallback that allows. -/
lemma failsClosed_of_result {features : List (Ieee K)} {result : Result K}
    (h : q.get q.input.entityID = .ok features) (hs : q.submit ⟨features, q.input.amount⟩ = .ok result)
    (hstrict : result.fallback = true → result.score.lt (.finite cfg.denyScore) = false) : q.FailsClosed := by
  obtain ⟨hengine, hnum, hnofailure⟩ := engine_of_result h hs
  have hresponse := response_of_result h hs
  refine ⟨fun body hb hallow => ?_, fun body hb hfallback => ?_, fun err he => ?_, fun _ err hf he => ?_,
    fun hfailed => absurd hfailed hnofailure⟩
  · rw [hresponse] at hb
    cases hb
    have hlt := (decision_allow_iff hnum).mp hallow
    refine ⟨features, result, h, hengine, ?_, hlt⟩
    by_contra hfallback
    rw [hstrict (by simpa using hfallback)] at hlt
    cases hlt
  · rw [hresponse] at hb
    cases hb
    cases hle : (Ieee.finite cfg.denyScore).le result.score with
    | true => simp
    | false =>
      have hlt := Ieee.lt_of_not_le hnum rfl hle
      rw [hstrict hfallback] at hlt
      cases hlt
  · cases h.symm.trans he
  · cases h.symm.trans hf
    cases hs.symm.trans he

/-- The gateway fails closed on a request exactly when `Submit` does not return a fallback result
with a score below the threshold. -/
theorem fails_closed_iff (q : ScoredRequest cfg ε δ) : q.FailsClosed ↔ ¬ q.LenientFallback := by
  cases hget : q.get q.input.entityID with
  | error err =>
    have hdenied : Denied q.response :=
      response_of_store_error hget ▸ respondFallback_denied _ (by decide) (by decide)
    refine iff_of_true (failsClosed_of_denied hdenied) ?_
    rintro ⟨features, result, hf, -⟩
    rw [hget] at hf
    cases hf
  | ok features =>
    cases hsubmit : q.submit ⟨features, q.input.amount⟩ with
    | error err =>
      have hdenied : Denied q.response :=
        response_of_submit_error hget hsubmit ▸ respondError_denied _ _ _
      refine iff_of_true (failsClosed_of_denied hdenied) ?_
      rintro ⟨features', result, hf, hs, -⟩
      cases hget.symm.trans hf
      cases hsubmit.symm.trans hs
    | ok result =>
      constructor
      · rintro hclosed ⟨features', result', hf, hs, hfallback, hlt⟩
        cases hget.symm.trans hf
        cases hsubmit.symm.trans hs
        have hallow := (decision_allow_iff (engine_of_result hget hsubmit).2.1).mpr hlt
        have hresponse := response_of_result hget hsubmit
        have hdeny := hclosed.fallback _ (congrArg HttpResponse.body hresponse) hfallback
        cases hallow.symm.trans hdeny
      · intro hstrict
        refine failsClosed_of_result hget hsubmit fun hfallback => ?_
        by_contra hlt
        exact hstrict ⟨features, result, hget, hsubmit, hfallback, by simpa using hlt⟩

/-- What a worker may answer when it could not score a request. -/
def fallbackResult : Result ℚ where
  score := .finite 0
  confidence := .finite 0
  explanation := []
  model := ascii "native"
  calibrationVersion := ascii "v1"
  policyVersion := ascii "v1"
  featureVersion := ascii "v1"
  fallback := true
  fallbackReason := fallbackWorkerUnavailable

def fallbackRun : List (Scheduler.Action (Result ℚ) GoError) :=
  Action.submit 0 :: List.replicate 6 (.submitStep 0 .reply) ++ List.replicate 2 (Action.runStep .receive) ++
    [Action.tick 1000000, .runStep .timer] ++ List.replicate 5 (Action.runStep .receive) ++
    [Action.handlerReturns [fallbackResult] none] ++ List.replicate 2 (Action.runStep .receive) ++
    [Action.submitStep 0 .reply]

def fallbackWorkload : Workload (Request ℚ) :=
  ⟨id, fun _ => ⟨[.finite 0], .finite 1⟩, fun _ => some 40000000⟩

lemma fallbackRun_ends : (runSteps (step (Config.new [] 0 0 0 0 (0 : ℚ)).scheduler fallbackWorkload)
    (State.initial 0) fallbackRun).isSome = true := by
  decide +kernel

lemma fallbackResult_valid : validateResults [fallbackResult] 1 = none := by
  decide +kernel

lemma fallbackRequest_accepted :
    checkRequest (Config.new [] 0 0 0 0 (0 : ℚ)) ⟨[], ascii "id", some ⟨ascii "account", .finite 1⟩⟩ =
      .ok ⟨ascii "account", .finite 1⟩ := by
  have hentity : validEntityID (ascii "account") = true := by decide +kernel
  have hamount : (Ieee.finite (1 : ℚ)).lt (.finite 0) = false := by decide +kernel
  simp [checkRequest, authorized, HttpGateway.Config.new, hentity, hamount]

def fallbackScored : ScoredRequest (Config.new [] 0 0 0 0 (0 : ℚ)) GoError GoError where
  workload := fallbackWorkload
  start := 0
  actions := fallbackRun
  state := (runSteps _ _ _).get fallbackRun_ends
  run := (Option.some_get fallbackRun_ends).symm
  validates := by
    intro k invocation results hk hret
    have hreturned : handlerReturned fallbackRun = [([fallbackResult], none)] := by rfl
    rw [hreturned] at hret
    cases k with
    | zero =>
      cases hret
      cases hk
      exact fallbackResult_valid
    | succ k => cases hret
  wraps _ := false
  get _ := .ok [.finite 0]
  submit _ := .ok fallbackResult
  request := ⟨[], ascii "id", some ⟨ascii "account", .finite 1⟩⟩
  input := ⟨ascii "account", .finite 1⟩
  accepted := fallbackRequest_accepted
  call := 0
  submitted := by
    intro features hfeatures
    cases hfeatures
    exact ⟨rfl, false, rfl⟩

/-- The same request while the feature store is down. -/
def outageScored : ScoredRequest (Config.new [] 0 0 0 0 (0 : ℚ)) GoError GoError :=
  { fallbackScored with get := fun _ => .error ⟨"redis is unreachable"⟩, submitted := fun _ h => by cases h }

theorem fails_closed_iff_outage : ¬ outageScored.LenientFallback ∧ outageScored.FailsClosed := by
  have hstrict : ¬ outageScored.LenientFallback := by
    rintro ⟨features, result, hfeatures, -⟩
    cases hfeatures
  exact ⟨hstrict, (fails_closed_iff outageScored).mpr hstrict⟩

theorem fallback_allowed :
    fallbackScored.response.status = 200 ∧ ∃ body, fallbackScored.response.body = .score body ∧
      body.fallback = true ∧ body.decision = .allow := by
  have hresponse := response_of_result (q := fallbackScored) rfl rfl
  rw [hresponse]
  exact ⟨rfl, _, rfl, rfl, by decide +kernel⟩

end ScoredRequest

end FraudDetection.Proofs
