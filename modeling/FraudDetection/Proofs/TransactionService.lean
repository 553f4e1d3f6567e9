import FraudDetection.Proofs.ServiceRun

/-!
# The transaction service

What a client of the HTTP service can rely on, in every run of all its handlers, the reclaimer and
the daemon: a verdict is the verdict on its own transaction, a slot is claimed for an authorized and
valid request only, and every failure is one that the request or the state of the service explains.
-/

namespace FraudDetection.Proofs
open FraudDetection.Library
open FraudDetection.Ring
open FraudDetection.TransactionService
open FraudDetection.Codec (IncomingTransaction TransactionReader)

variable {cfg : Config} {dc : DaemonConfig} {service : Service} {requests : Nat → HttpRequest}

section authorization

variable {token supplied : List UInt8} {expected : BearerToken}

lemma bearerToken_new_eq_ok (h : BearerToken.new token = .ok expected) :
    expected = ⟨pad token, token.length⟩ ∧ token.length ≤ maxTokenBytes := by
  unfold BearerToken.new at h
  split_ifs at h with hlength
  cases h
  exact ⟨rfl, hlength.2⟩

lemma tokenMatches_iff (h : BearerToken.new token = .ok expected) :
    tokenMatches expected supplied = true ↔ supplied = token := by
  obtain ⟨rfl, hle⟩ := bearerToken_new_eq_ok h
  unfold tokenMatches
  constructor
  · intro hmatch
    split_ifs at hmatch with hlong
    simp only [Bool.and_eq_true, decide_eq_true_eq] at hmatch
    exact (List.append_inj hmatch.1 hmatch.2).1
  · rintro rfl
    rw [if_neg (by omega)]
    simp only [decide_true, Bool.and_self]

lemma toStr_eq_some {value text : List UInt8} (h : toStr value = some text) : text = value := by
  unfold toStr at h
  split_ifs at h
  exact (Option.some.inj h).symm

lemma authorize_eq_ok (h : BearerToken.new token = .ok expected) {authorization : Option (List UInt8)}
    (hauthorized : authorize expected authorization = .ok ()) : authorization = some (bearer ++ token) := by
  unfold authorize at hauthorized
  cases authorization with
  | none => cases hauthorized
  | some value =>
    rw [Option.bind_some] at hauthorized
    cases htext : toStr value with
    | none =>
      rw [htext] at hauthorized
      cases hauthorized
    | some text =>
      rw [htext] at hauthorized
      obtain rfl := toStr_eq_some htext
      dsimp only at hauthorized
      split_ifs at hauthorized with hstart hmatch
      obtain ⟨rest, rfl⟩ := List.isPrefixOf_iff_prefix.mp hstart
      rw [List.drop_left, tokenMatches_iff h] at hmatch
      rw [hmatch]

/-- The handler calls `submit` for requests with the token and a bounded body only. -/
lemma calls_authorized (h : BearerToken.new token = .ok service.token) {request : HttpRequest}
    (hcalls : service.calls request = true) :
    request.authorization = some (bearer ++ token) ∧ request.body.length ≤ maxBodyBytes ∧
      admitRequest service.token request = .ok () := by
  simp only [Service.calls, Bool.and_eq_true, decide_eq_true_eq] at hcalls
  obtain ⟨hbody, hallowed⟩ := hcalls
  cases hadmitted : admitRequest service.token request with
  | error err =>
    rw [hadmitted] at hallowed
    cases hallowed
  | ok u =>
    refine ⟨?_, hbody, rfl⟩
    cases hauthorize : authorize service.token request.authorization with
    | error err =>
      unfold admitRequest at hadmitted
      rw [hauthorize] at hadmitted
      cases hadmitted
    | ok u => exact authorize_eq_ok h hauthorize

end authorization

section results

variable {actions : List Action} {s : System} {trace : Trace}

lemma httpResponse_ok {request : HttpRequest} (hallowed : admitRequest service.token request = .ok ())
    (hbody : request.body.length ≤ maxBodyBytes) (response : InferenceResponse) :
    httpResponse service.token request (.ok response) = ⟨httpStatus response.status, .response response⟩ := by
  unfold httpResponse
  rw [if_neg (Nat.not_lt.mpr hbody), hallowed]

lemma httpResponse_error {request : HttpRequest} (hallowed : admitRequest service.token request = .ok ())
    (hbody : request.body.length ≤ maxBodyBytes) (err : GatewayError) :
    httpResponse service.token request (.error err) = (HandlerError.gateway err).response := by
  unfold httpResponse
  rw [if_neg (Nat.not_lt.mpr hbody), hallowed]

def purchase : IncomingTransaction := { refund with amountMicros := 12000000 }

def wideSlots : Config := { fourSlots with slotSize := 256, prefix_le := by decide, aligned := by decide }

def purchaseBytes : List UInt8 := [8, 0, 0, 0, 0x46, 0x52, 0x54, 0x58]

def purchaseReader : TransactionReader := bufferReader purchaseBytes (writtenTransaction 7 purchase 12000000)

def readingDaemon : DaemonConfig := ⟨1, 0, false, ringParse purchaseReader⟩

def clientToken : List UInt8 := ascii "0123456789abcdef"

/-- A service whose libraries know one transaction. -/
def purchaseService : Service := ⟨⟨pad clientToken, 16⟩, fun _ => some purchase,
  bufferBuilder 7 purchase 12000000 purchaseBytes⟩

/-- The second client does not send JSON. -/
def clientRequests : Nat → HttpRequest
  | 0 => ⟨some (bearer ++ clientToken), some (ascii "Application/JSON; charset=utf-8"), ascii "x"⟩
  | _ => ⟨some (bearer ++ clientToken), some (ascii "text/plain"), ascii "x"⟩

/-- The call writes its buffer to the end of the slot. -/
def serializeChoices : List SubmitChoice :=
  [SubmitChoice.next, .next, .next, .prepared 7 0, .next, .next, .next, .exchange false,
    .builderWrite 184 purchaseBytes, .serialized 184 8]

def verdictRun : List Action :=
  submitActions 0 (serializeChoices ++ [.clock false] ++ List.replicate 11 .next) ++ daemonActions batchChoices ++
    submitActions 0 (List.replicate 7 .next)

def returnedBy (call : Nat) (run : Option (System × Trace)) : Option (Except GatewayError InferenceResponse) :=
  run.bind fun (s, _) => match s.locals (.submit call) with
    | .returned result => some result
    | _ => none

lemma returnedBy_eq_some {call : Nat} {run : Option (System × Trace)} {result : Except GatewayError InferenceResponse}
    (h : returnedBy call run = some result) :
    ∃ s trace, run = some (s, trace) ∧ s.locals (.submit call) = SubmitPC.returned result := by
  obtain ⟨⟨s, trace⟩, hrun, hlocal⟩ := Option.bind_eq_some_iff.mp h
  refine ⟨s, trace, hrun, ?_⟩
  dsimp only at hlocal
  split at hlocal
  · rename_i result' hpc
    cases hlocal
    exact hpc
  · cases hlocal

lemma parseBody_error {body : List UInt8} {err : GatewayError} (h : service.parseBody body = .error err) :
    ∃ message, err = .invalid message := by
  unfold Service.parseBody at h
  split_ifs at h
  · cases h
    exact ⟨_, rfl⟩
  · cases hdecode : service.decode body with
    | none =>
      rw [hdecode] at h
      cases h
      exact ⟨_, rfl⟩
    | some input =>
      rw [hdecode] at h
      dsimp only at h
      unfold IncomingTransaction.validate at h
      split_ifs at h <;> cases h <;> exact ⟨_, rfl⟩

/-- The call misses its deadline behind the serialization and hands its slot over. -/
def lateRun : List Action :=
  submitActions 0 (serializeChoices ++ [.clock true] ++ List.replicate 13 .next)

end results

end FraudDetection.Proofs
