import Mathlib.Algebra.Order.Field.Rat
import FraudDetection.HttpGateway
import FraudDetection.Proofs.SchedulerAdmission

/-!
# Under whose identity a request travels

The gateway attaches a request's id and its `Authorization` value to the request's own context.
A batch runs under the context of its first request, and one remote call scores all of it, so
every request of the batch travels under the identity of the first.
-/

namespace FraudDetection.Proofs
open FraudDetection.Library
open FraudDetection.Scheduler
open FraudDetection.Worker
open FraudDetection.HttpGateway

section headers

variable {K : Type} (client : GRPCClient) (ctx : Context) (requests : List (Worker.Request K))
  (m : RequestMetadata) (hm : ctx.requestMetadata = some m) (hout : ctx.outgoing = [])
include hm hout

lemma header_requestID :
    ScoreCall.header ⟨client.outgoingContext ctx, requests⟩ headerRequestID = m.requestID := by
  have hne : (headerRequestID == headerAuthorization) = false := by decide
  simp only [ScoreCall.header, GRPCClient.outgoingContext, hm]
  by_cases hid : m.requestID = [] <;> by_cases htoken : client.authToken = [] <;>
    by_cases hauth : m.authorization = [] <;>
    simp [hid, htoken, hauth, hout, Context.appendToOutgoing, hne]

lemma header_authorization (htoken : client.authToken = []) :
    ScoreCall.header ⟨client.outgoingContext ctx, requests⟩ headerAuthorization = m.authorization := by
  have hne : (headerAuthorization == headerRequestID) = false := by decide
  simp only [ScoreCall.header, GRPCClient.outgoingContext, hm]
  by_cases hid : m.requestID = [] <;> by_cases hauth : m.authorization = [] <;>
    simp [hid, htoken, hauth, hout, Context.appendToOutgoing, List.lookup_cons, hne]

end headers

variable {K : Type} [Field K] [LinearOrder K]

/-- The contexts of the calls of `Submit`: each from its own HTTP request, whose context carries
no outgoing metadata. -/
def gatewayContexts (cfg : HttpGateway.Config K) (requests : CallId → HttpRequest K)
    (arrival : CallId → Int) (deadline : CallId → Option Int) (c : CallId) : Context :=
  scoreContext cfg (requests c) (arrival c) ⟨none, [], deadline c⟩

def TravelsAs (client : GRPCClient) (call : ScoreCall K) (r : HttpRequest K) : Prop :=
  call.header headerRequestID = r.requestID ∧
    (client.authToken = [] → call.header headerAuthorization = r.authorization)

/-- Whatever deadline the handler and the worker pool put on it, a batch travels as its first
request. -/
lemma batch_travelsAs_first (cfg : HttpGateway.Config K) (requests : CallId → HttpRequest K)
    (arrival : CallId → Int) (deadline : CallId → Option Int) (client : GRPCClient)
    {invocation : Invocation (Worker.Request K)} {first : CallId} {rest : List CallId}
    (hactive : invocation.active = first :: rest) (budget : Option Int) {call : ScoreCall K}
    (hcall : client.prepare
      { batchContext (gatewayContexts cfg requests arrival deadline) invocation with deadline := budget }
      invocation.values = .ok call) : TravelsAs client call (requests first) := by
  have hmeta : (batchContext (gatewayContexts cfg requests arrival deadline) invocation).requestMetadata =
      some ⟨(requests first).requestID, (requests first).authorization⟩ := by
    unfold batchContext
    rw [hactive]
    cases invocation.deadline <;> rfl
  have hout : (batchContext (gatewayContexts cfg requests arrival deadline) invocation).outgoing = [] := by
    unfold batchContext
    rw [hactive]
    cases invocation.deadline <;> rfl
  unfold GRPCClient.prepare at hcall
  split at hcall
  · cases hcall
  · split at hcall
    · cases hcall
    · cases hcall
      exact ⟨header_requestID client { batchContext _ invocation with deadline := budget } _ _ hmeta hout,
        header_authorization client { batchContext _ invocation with deadline := budget } _ _ hmeta hout⟩

/-- In every run and for every remote call that scores a batch: each request of the batch travels
under its own identity exactly when all of them carry the same id, and the same `Authorization`
value if the client has no token. -/
theorem request_identity_iff (cfg : HttpGateway.Config K) (w : Workload (Worker.Request K)) (now : Int)
    (actions : List (Scheduler.Action (Result K) GoError)) (s : State (Worker.Request K) (Result K) GoError)
    (h : runSteps (step cfg.scheduler w) (State.initial now) actions = some s)
    (requests : CallId → HttpRequest K) (arrival : CallId → Int) (deadline : CallId → Option Int)
    (client : GRPCClient) (invocation : Invocation (Worker.Request K)) (hin : invocation ∈ s.invocations)
    (budget : Option Int) (call : ScoreCall K)
    (hcall : client.prepare
      { batchContext (gatewayContexts cfg requests arrival deadline) invocation with deadline := budget }
      invocation.values = .ok call) :
    (∀ c ∈ invocation.active, TravelsAs client call (requests c)) ↔
      ∀ c ∈ invocation.active, ∀ c' ∈ invocation.active, (requests c).requestID = (requests c').requestID ∧
        (client.authToken = [] → (requests c).authorization = (requests c').authorization) := by
  have hi := run_schedulerInvariant cfg.scheduler w now actions s h
  have hpos := (hi.invoked invocation hin).1
  obtain ⟨first, rest, hactive⟩ := List.exists_cons_of_length_pos hpos
  have hfirst := batch_travelsAs_first cfg requests arrival deadline client hactive budget hcall
  constructor
  · intro hall c hc c' hc'
    obtain ⟨hid, hauth⟩ := hall c hc
    obtain ⟨hid', hauth'⟩ := hall c' hc'
    exact ⟨hid.symm.trans hid', fun htoken => (hauth htoken).symm.trans (hauth' htoken)⟩
  · intro hsame c hc
    have hmem : first ∈ invocation.active := hactive ▸ List.mem_cons_self
    obtain ⟨hid, hauth⟩ := hsame first hmem c hc
    exact ⟨hfirst.1.trans hid, fun htoken => (hfirst.2 htoken).trans (hauth htoken)⟩

def twoCallers : List (Scheduler.Action (Result ℚ) GoError) :=
  let enter (c : CallId) : List (Scheduler.Action (Result ℚ) GoError) :=
    .submit c :: List.replicate 6 (.submitStep c .reply)
  enter 0 ++ enter 1 ++ List.replicate 4 (Action.runStep .receive) ++ [Action.tick 1000000, .runStep .timer] ++
    List.replicate 8 (Action.runStep .receive)

def twoRequests (c : CallId) : HttpRequest ℚ where
  authorization := ascii (if c = 0 then "Bearer first" else "Bearer second")
  requestID := ascii (if c = 0 then "first" else "second")
  body := some ⟨ascii "account", .finite 1⟩

def twoWorkload : Workload (Worker.Request ℚ) where
  ctx := id
  value _ := ⟨[.finite 0], .finite 1⟩
  deadline _ := some 40000000

def defaultGateway : HttpGateway.Config ℚ := .new [] 0 0 0 0 0

def twoBatch : Invocation (Worker.Request ℚ) :=
  ⟨[0, 1], [0, 1].map twoWorkload.value, some 40000000⟩

lemma twoCallers_batch :
    (runSteps (step defaultGateway.scheduler twoWorkload) (State.initial 0) twoCallers).map State.invocations =
      some [twoBatch] := by
  rfl

lemma twoBatch_prepare (ctx : Context) :
    GRPCClient.prepare ⟨true, []⟩ ctx twoBatch.values =
      .ok ⟨GRPCClient.outgoingContext ⟨true, []⟩ ctx, twoBatch.values⟩ := by
  have hvalid : validateRequests twoBatch.values false = none := by rfl
  rw [GRPCClient.prepare, hvalid]
  rfl

/-- The second caller's request is scored under the first caller's id and authorization. -/
theorem request_identity_lost :
    ∃ (s : State (Worker.Request ℚ) (Result ℚ) GoError) (call : ScoreCall ℚ),
      runSteps (step defaultGateway.scheduler twoWorkload) (State.initial 0) twoCallers = some s ∧
      twoBatch ∈ s.invocations ∧ 1 ∈ twoBatch.active ∧
      GRPCClient.prepare ⟨true, []⟩ (handlerContext defaultGateway 1000000 (batchContext
        (gatewayContexts defaultGateway twoRequests (fun _ => 0) (fun _ => none)) twoBatch))
        twoBatch.values = .ok call ∧
      call.header headerRequestID ≠ (twoRequests 1).requestID ∧
      call.header headerAuthorization ≠ (twoRequests 1).authorization := by
  obtain ⟨s, hs, hinv⟩ := Option.map_eq_some_iff.mp twoCallers_batch
  refine ⟨s, _, hs, hinv ▸ List.mem_cons_self, by decide, twoBatch_prepare _, ?_, ?_⟩
  · decide
  · decide

/-- The same batch from a caller that sends both requests under one id. -/
theorem request_identity_iff_shared :
    ∃ (s : State (Worker.Request ℚ) (Result ℚ) GoError) (call : ScoreCall ℚ),
      runSteps (step defaultGateway.scheduler twoWorkload) (State.initial 0) twoCallers = some s ∧
      twoBatch ∈ s.invocations ∧ ∀ c ∈ twoBatch.active, TravelsAs ⟨true, []⟩ call (twoRequests 0) := by
  obtain ⟨s, hs, hinv⟩ := Option.map_eq_some_iff.mp twoCallers_batch
  have hin : twoBatch ∈ s.invocations := hinv ▸ List.mem_cons_self
  have hiff := request_identity_iff defaultGateway twoWorkload 0 twoCallers s hs (fun _ => twoRequests 0)
    (fun _ => 0) (fun _ => none) ⟨true, []⟩ twoBatch hin (some 21000000) _ (twoBatch_prepare _)
  exact ⟨s, _, hs, hin, hiff.mpr fun _ _ _ _ => ⟨rfl, fun _ => rfl⟩⟩

end FraudDetection.Proofs
