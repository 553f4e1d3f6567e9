import Mathlib.Algebra.Order.Field.Rat
import FraudDetection.Library.Outcomes
import FraudDetection.WorkerTransport

/-!
# Transparency of the worker transport

The conversions of a batch and of its validated results undo each other, so over a wire that loses
nothing the client returns what the engine returned, and the engine gets what the client was given.
Whatever comes from the wire, only validated results get past the client.
-/

namespace FraudDetection.Proofs
open FraudDetection.Library
open FraudDetection.Worker

variable {K : Type}

section requests

lemma requests_roundTrip (requests : List (Worker.Request K)) :
    (requestsToProto requests).requests.mapM requestFromProto = .ok requests := by
  unfold requestsToProto
  induction requests with
  | nil => rfl
  | cons item requests ih =>
    rw [List.map_cons, List.mapM_cons, ih]
    rfl

variable [LinearOrder K] [Zero K] {requests : List (Worker.Request K)}

lemma requestsFromProto_toProto (requests : List (Worker.Request K)) :
    requestsFromProto (some (requestsToProto requests)) =
      match validateRPCRequests requests with
      | some err => .error err
      | none => .ok requests := by
  unfold requestsFromProto
  dsimp only
  rw [requests_roundTrip]
  change (match validateRPCRequests requests with
    | some err => throw err
    | none => pure requests : Except GoError (List (Worker.Request K))) = _
  split <;> rfl

lemma validateRequests_of_rpc (h : validateRPCRequests requests = none) : validateRequests requests false = none := by
  unfold validateRPCRequests at h
  split at h
  · cases h
  · assumption

end requests

section results

lemma toUint32_toNat {value : Int} (hnonneg : 0 ≤ value) (hlt : value < 2 ^ 32) :
    ((toUint32 value).toNat : Int) = value := by
  have hmod : value % 2 ^ 32 = value := Int.emod_eq_of_lt hnonneg hlt
  have hnat : value.toNat < UInt32.size := by
    change value.toNat < 2 ^ 32
    omega
  unfold toUint32
  rw [hmod, UInt32.toNat_ofNat_of_lt' hnat]
  omega

variable [LinearOrder K] [One K] [Neg K]

lemma explanation_roundTrip {item : Worker.Explanation K} (h : validExplanation item = true) :
    explanationFromProto (explanationToProto item) = item := by
  simp only [validExplanation, Bool.and_eq_true, decide_eq_true_eq] at h
  obtain ⟨⟨hnonneg, hlt⟩, -⟩ := h
  have hwidth : ((maxFeatureWidth : Nat) : Int) = 256 := rfl
  have hindex := toUint32_toNat hnonneg (by omega)
  unfold explanationFromProto explanationToProto
  dsimp only
  rw [hindex]

/-- The loop keeps every explanation as long as there are not too many. -/
lemma keepExplanation_toProto (items kept : List (Worker.Explanation K))
    (hvalid : ∀ item ∈ items, validExplanation item = true)
    (hlen : kept.length + items.length ≤ maxExplanations) :
    (items.map fun item => some (explanationToProto item)).foldl keepExplanation kept = kept ++ items := by
  induction items generalizing kept with
  | nil => simp
  | cons item items ih =>
    rw [List.length_cons] at hlen
    have hroom : kept.length < maxExplanations := by omega
    have hkept : keepExplanation kept (some (explanationToProto item)) = kept ++ [item] := by
      simp only [keepExplanation, hroom, if_true, explanation_roundTrip (hvalid item List.mem_cons_self)]
    rw [List.map_cons, List.foldl_cons, hkept,
      ih (kept ++ [item]) (fun x hx => hvalid x (List.mem_cons_of_mem item hx)) (by simp; omega)]
    simp

variable [Zero K]

lemma validateResult_explanation {i : Nat} {result : Worker.Result K} (h : validateResult i result = none) :
    result.explanation.length ≤ maxExplanations ∧ ∀ item ∈ result.explanation, validExplanation item = true := by
  unfold validateResult at h
  split_ifs at h with _ _ hlen hall
  refine ⟨not_lt.mp hlen, ?_⟩
  simpa using hall

lemma result_roundTrip {i : Nat} {result : Worker.Result K} (h : validateResult i result = none) :
    resultFromProto (some (resultToProto result)) = result := by
  obtain ⟨hlen, hvalid⟩ := validateResult_explanation h
  have hkept := keepExplanation_toProto result.explanation [] hvalid (by simpa using hlen)
  unfold resultFromProto resultToProto
  dsimp only
  rw [hkept, List.nil_append]

lemma validateResults_each {results : List (Worker.Result K)} {expected : Nat}
    (h : validateResults results expected = none) :
    results.length = expected ∧ ∀ result ∈ results, ∃ i, validateResult i result = none := by
  unfold validateResults at h
  split at h
  · cases h
  · rename_i hcount
    refine ⟨not_ne_iff.mp hcount, fun result hin => ?_⟩
    obtain ⟨i, hi⟩ := List.getElem?_of_mem hin
    have hmem : (result, i) ∈ results.zipIdx := List.mem_zipIdx_iff_getElem?.mpr hi
    exact ⟨i, List.findSome?_eq_none_iff.mp h (result, i) hmem⟩

lemma results_roundTrip {results : List (Worker.Result K)} {expected : Nat}
    (h : validateResults results expected = none) : resultsFromProto (some (resultsToProto results)) = results := by
  obtain ⟨-, hvalid⟩ := validateResults_each h
  unfold resultsFromProto resultsToProto
  dsimp only
  rw [List.map_map]
  refine (List.map_congr_left fun result hin => ?_).trans (List.map_id results)
  obtain ⟨i, hi⟩ := hvalid result hin
  exact result_roundTrip hi

end results

section token

variable {client : GRPCClient} {service : Service K} {ctx : Worker.Context}

/-- The service asks for no token, or the call carries the one that it asks for and no other. -/
def TokenMatches (client : GRPCClient) (service : Service K) (ctx : Worker.Context) : Prop :=
  service.authToken = [] ∨
    metadataValues (client.outgoingContext ctx).outgoing headerAuthorization = [bearer ++ service.authToken]

lemma metadataValues_append (ctx : Worker.Context) (value : GoString) :
    metadataValues (ctx.appendToOutgoing headerAuthorization value).outgoing headerAuthorization =
      metadataValues ctx.outgoing headerAuthorization ++ [value] := by
  simp [metadataValues, Worker.Context.appendToOutgoing]

/-- A client with the token of the service matches, unless its caller has put another
authorization into the outgoing metadata. -/
lemma tokenMatches_of_eq (htoken : client.authToken = service.authToken)
    (hout : metadataValues ctx.outgoing headerAuthorization = []) : TokenMatches client service ctx := by
  by_cases hempty : service.authToken = []
  · exact .inl hempty
  · right
    have hset : client.authToken ≠ [] := htoken ▸ hempty
    have hother : headerRequestID ≠ headerAuthorization := by decide
    have hgiven : ∀ value, metadataValues (ctx.appendToOutgoing headerRequestID value).outgoing
        headerAuthorization = [] := by
      intro value
      simpa [metadataValues, Worker.Context.appendToOutgoing, hother] using hout
    unfold GRPCClient.outgoingContext
    simp only [hset, false_and, if_false, ne_eq, not_false_eq_true, if_true]
    rw [metadataValues_append, htoken]
    split
    · rw [hout]
      rfl
    · split
      · rw [hgiven]
        rfl
      · rw [hout]
        rfl

end token

section infer

variable [LinearOrder K] [Zero K] {client : GRPCClient} {service : Service K} {ctx : Worker.Context}
  {requests : List (Worker.Request K)} {engine : Engine K}

/-- The service of a matching call hands its engine the requests that the client was given. -/
lemma accept_arrived (requests : List (Worker.Request K)) (hengine : service.engine = some engine)
    (htoken : TokenMatches client service ctx) :
    service.accept (client.outgoingContext ctx).arrived (some (requestsToProto requests)) =
      match validateRPCRequests requests with
      | some err => .error ⟨.invalidArgument, err.text⟩
      | none => .ok (engine, requests) := by
  have hpass : ¬ (service.authToken ≠ [] ∧ metadataValues (client.outgoingContext ctx).arrived.incoming
      headerAuthorization ≠ [bearer ++ service.authToken]) := by
    rintro ⟨hset, hvalues⟩
    exact htoken.elim hset hvalues
  unfold Service.accept
  rw [hengine]
  dsimp only
  rw [if_neg hpass, requestsFromProto_toProto]
  cases validateRPCRequests requests with
  | none => rfl
  | some err => rfl

variable [One K] [Neg K]

/-- `Score` answers a matching call exactly if the requests and the results of its engine pass. -/
lemma score_arrived (requests : List (Worker.Request K)) (hengine : service.engine = some engine)
    (htoken : TokenMatches client service ctx) {response : Proto.ScoreResponse K} :
    service.score (client.outgoingContext ctx).arrived (some (requestsToProto requests)) = .ok response ↔
      validateRPCRequests requests = none ∧ ∃ results,
        engine (client.outgoingContext ctx).arrived requests = .ok results ∧
        validateResults results requests.length = none ∧ response = resultsToProto results := by
  unfold Service.score
  rw [accept_arrived requests hengine htoken]
  cases hvalid : validateRPCRequests requests with
  | some err => simp
  | none =>
    dsimp only
    cases hresults : engine (client.outgoingContext ctx).arrived requests with
    | error err => simp
    | ok results =>
      dsimp only
      cases hcheck : validateResults results requests.length with
      | some err => simp [hcheck]
      | none => simp [hcheck, eq_comm]

/-- A client that is connected returns results exactly if the wire answers with results that pass. -/
lemma inferOver_eq_ok_iff (hconnected : client.connected = true) {wire : Wire K} {results : List (Worker.Result K)} :
    client.inferOver wire ctx requests = .ok results ↔
      validateRequests requests false = none ∧
        (∃ response, wire (client.outgoingContext ctx) (requestsToProto requests) = .ok response ∧
          resultsFromProto response = results) ∧
        validateResults results requests.length = none := by
  unfold GRPCClient.inferOver GRPCClient.infer GRPCClient.prepare
  rw [hconnected]
  cases hrequests : validateRequests requests false with
  | some err => simp
  | none =>
    simp only [Bool.not_true, Bool.false_eq_true, if_false, ok_bind, true_and]
    cases hwire : wire (client.outgoingContext ctx) (requestsToProto requests) with
    | error err => simp [Except.map]
    | ok response =>
      simp only [Except.map, ok_bind, Except.ok.injEq, exists_eq_left']
      cases hcheck : validateResults (resultsFromProto response) requests.length with
      | some err =>
        constructor
        · intro h
          cases h
        · rintro ⟨rfl, h⟩
          cases hcheck.symm.trans h
      | none =>
        constructor
        · intro h
          cases h
          exact ⟨rfl, hcheck⟩
        · rintro ⟨rfl, -⟩
          rfl

end infer

/-- A matching call over a wire that loses nothing: the engine is handed the requests of the caller;
the caller gets the results of the engine if the requests and the results pass their checks, and an
error otherwise. Over any wire, what the caller gets has passed. -/
theorem worker_transport_transparent [LinearOrder K] [Zero K] [One K] [Neg K] (client : GRPCClient)
    (service : Service K) (engine : Engine K) (ctx : Worker.Context) (requests : List (Worker.Request K))
    (hconnected : client.connected = true) (hengine : service.engine = some engine)
    (htoken : TokenMatches client service ctx) :
    (∀ handed, service.accept (client.outgoingContext ctx).arrived (some (requestsToProto requests)) = .ok handed →
      handed = (engine, requests)) ∧
    (∀ results, validateRPCRequests requests = none →
      engine (client.outgoingContext ctx).arrived requests = .ok results →
      validateResults results requests.length = none →
      client.inferOver service.wire ctx requests = .ok results) ∧
    ((¬ ∃ results, validateRPCRequests requests = none ∧
        engine (client.outgoingContext ctx).arrived requests = .ok results ∧
        validateResults results requests.length = none) →
      ∃ err, client.inferOver service.wire ctx requests = .error err) ∧
    ∀ (wire : Wire K) results, client.inferOver wire ctx requests = .ok results →
      results.length = requests.length ∧ validateResults results requests.length = none := by
  refine ⟨fun handed h => ?_, fun results hrequests hresults hcheck => ?_, fun hnot => ?_, fun wire results h => ?_⟩
  · rw [accept_arrived requests hengine htoken] at h
    split at h
    · cases h
    · exact (Except.ok.inj h).symm
  · have hscore := (score_arrived requests hengine htoken).mpr ⟨hrequests, results, hresults, hcheck, rfl⟩
    refine (inferOver_eq_ok_iff hconnected).mpr ⟨validateRequests_of_rpc hrequests, ?_, hcheck⟩
    refine ⟨some (resultsToProto results), ?_, results_roundTrip hcheck⟩
    unfold Service.wire
    rw [hscore]
  · cases hinfer : client.inferOver service.wire ctx requests with
    | error err => exact ⟨err, rfl⟩
    | ok results =>
      obtain ⟨-, ⟨response, hwire, -⟩, -⟩ := (inferOver_eq_ok_iff hconnected).mp hinfer
      unfold Service.wire at hwire
      split at hwire
      · cases hwire
      · rename_i response' hscore
        obtain ⟨hrequests, results', hresults, hcheck, -⟩ := (score_arrived requests hengine htoken).mp hscore
        exact absurd ⟨results', hrequests, hresults, hcheck⟩ hnot
  · have hcheck := ((inferOver_eq_ok_iff hconnected).mp h).2.2
    exact ⟨(validateResults_each hcheck).1, hcheck⟩

def transportRequests : List (Worker.Request ℚ) := [⟨List.replicate 32 (.finite 1), .finite 12⟩]

def transportResults : List (Worker.Result ℚ) :=
  [⟨.finite 1, .finite 0, [⟨31, .finite (-1)⟩, ⟨255, .finite 1⟩], ascii "m", ascii "c", ascii "p", ascii "f", false, []⟩]

theorem worker_transport_transparent_token :
    let client : GRPCClient := ⟨true, ascii "secret"⟩
    let service : Service ℚ := ⟨some fun _ _ => .ok transportResults, ascii "secret"⟩
    client.inferOver service.wire Worker.Context.background transportRequests = .ok transportResults := by
  intro client service
  have htransparent := worker_transport_transparent client service (fun _ _ => .ok transportResults)
    Worker.Context.background transportRequests rfl rfl (tokenMatches_of_eq rfl rfl)
  exact htransparent.2.1 transportResults (by decide +kernel) rfl (by decide +kernel)

end FraudDetection.Proofs
