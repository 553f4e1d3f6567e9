import FraudDetection.GoStrings
import FraudDetection.RingSystem
import FraudDetection.TransactionCodec

/-!
# The transaction service

The HTTP face of `api_gateway/src/lib.rs` over the ring: `authorize` with `token_matches`,
`submit_handler`, and `Gateway::submit` with the body it was called with. In `Gateway` the outcomes
of parsing and of serialization are choices of the step; here they are what the code computes from
the body, so the service is the ring program with fewer choices. `decode` stands for
`serde_json::from_slice` and `builder` for the FlatBuffers builder. A string is its bytes.
-/

namespace FraudDetection.TransactionService
open FraudDetection.Library
open FraudDetection.Ring
open FraudDetection.Codec (IncomingTransaction TransactionBuilder)

section authorization

def minTokenBytes : Nat := 16
def maxTokenBytes : Nat := 256

/-- The token of a `Gateway`: padded with zeros to its full width, and its length. -/
structure BearerToken where
  padded : List UInt8
  length : Nat
  deriving DecidableEq

def pad (bytes : List UInt8) : List UInt8 := bytes ++ List.replicate (maxTokenBytes - bytes.length) 0

def BearerToken.new (token : List UInt8) : Except GatewayError BearerToken :=
  if minTokenBytes ≤ token.length ∧ token.length ≤ maxTokenBytes then .ok ⟨pad token, token.length⟩
  else .error (.invalid "FRAUD_GATEWAY_TOKEN must contain 16..=256 bytes")

/-- `token_matches`; both comparisons are made whatever the other one gives. -/
def tokenMatches (expected : BearerToken) (supplied : List UInt8) : Bool :=
  if maxTokenBytes < supplied.length then false
  else decide (pad supplied = expected.padded) && decide (supplied.length = expected.length)

/-- `HeaderValue::to_str`: visible ASCII, blanks and tabs. -/
def toStr (value : List UInt8) : Option (List UInt8) :=
  if value.all fun byte => (0x20 ≤ byte && byte < 0x7F) || byte = 0x09 then some value else none

def bearer : List UInt8 := ascii "Bearer "

inductive HandlerError where
  | auth
  | gateway (err : GatewayError)
  deriving DecidableEq

def authorize (token : BearerToken) (authorization : Option (List UInt8)) : Except HandlerError Unit :=
  match authorization.bind toStr with
  | none => .error .auth
  | some value =>
    if bearer.isPrefixOf value then
      if tokenMatches token (value.drop bearer.length) then .ok () else .error .auth
    else .error .auth

end authorization

section handler

structure HttpRequest where
  authorization : Option (List UInt8)
  contentType : Option (List UInt8)
  body : List UInt8

def maxBodyBytes : Nat := 4096

def isWhitespace (byte : UInt8) : Bool := byte = 0x20 || (0x09 ≤ byte && byte ≤ 0x0D)

def trim (value : List UInt8) : List UInt8 :=
  ((value.dropWhile isWhitespace).reverse.dropWhile isWhitespace).reverse

def toAsciiLowercase (byte : UInt8) : UInt8 := if 0x41 ≤ byte && byte ≤ 0x5A then byte + 0x20 else byte

def namesJson (contentType : List UInt8) : Bool :=
  (trim (contentType.takeWhile (· ≠ 0x3B))).map toAsciiLowercase = ascii "application/json"

def admitRequest (token : BearerToken) (request : HttpRequest) : Except HandlerError Unit := do
  authorize token request.authorization
  if !namesJson ((request.contentType.bind toStr).getD []) then
    throw (.gateway (.invalid "content-type must be application/json"))

def HandlerError.text : HandlerError → String
  | .auth => "unauthorized"
  | .gateway (.invalid message) => message
  | .gateway (.internal message) => message
  | .gateway .full => "inference queue is full"
  | .gateway .timeout => "inference deadline exceeded"
  | .gateway .daemonStopped => "inference daemon is stopping"

def HandlerError.status : HandlerError → Nat
  | .auth => 401
  | .gateway (.invalid _) => 400
  | .gateway .full | .gateway .timeout | .gateway .daemonStopped => 503
  | .gateway (.internal _) => 500

def httpStatus : DaemonResponseStatus → Nat
  | .scored => 200
  | .invalidInput => 422
  | .unavailable => 503

inductive HttpBody where
  | error (text : String)
  | response (response : InferenceResponse)
  | rejected
  deriving DecidableEq

structure HttpResponse where
  status : Nat
  body : HttpBody
  deriving DecidableEq

def HandlerError.response (err : HandlerError) : HttpResponse := ⟨err.status, .error err.text⟩

/-- What a request is answered with; `submitted` is what `submit` returned, if the handler called it.
The extractor of the body refuses more than `maxBodyBytes` before the handler runs. -/
def httpResponse (token : BearerToken) (request : HttpRequest)
    (submitted : Except GatewayError InferenceResponse) : HttpResponse :=
  if maxBodyBytes < request.body.length then ⟨413, .rejected⟩
  else match admitRequest token request with
    | .error err => err.response
    | .ok () => match submitted with
      | .error err => (HandlerError.gateway err).response
      | .ok response => ⟨httpStatus response.status, .response response⟩

end handler

section submit

structure Service where
  token : BearerToken
  decode : List UInt8 → Option IncomingTransaction
  builder : TransactionBuilder

def Service.calls (service : Service) (request : HttpRequest) : Bool :=
  request.body.length ≤ maxBodyBytes && (admitRequest service.token request).isOk

def Service.parseBody (service : Service) (body : List UInt8) : Except GatewayError (IncomingTransaction × Int64) :=
  if body.isEmpty || maxBodyBytes < body.length then .error (.invalid "request body must be 1..=4096 bytes")
  else match service.decode body with
    | none => .error (.invalid "invalid transaction JSON")
    | some input => match input.validate with
      | .error err => .error err
      | .ok amountMicros => .ok (input, amountMicros)

/-- What may fail between the preflight and the reservation: the time is up, `getrandom` or the clock
failed. -/
def preparationErrors : List GatewayError :=
  [.timeout, .internal "getrandom failed", .internal "CLOCK_MONOTONIC failed",
    .internal "CLOCK_MONOTONIC returned invalid timestamp", .internal "CLOCK_MONOTONIC overflow"]

def exceedsSlot : GatewayError := .invalid "transaction exceeds fixed shared-memory slot"

def mayPrepare (cfg : Config) (input : IncomingTransaction) : SubmitChoice → Bool
  | .refuse err =>
    if payloadCapacity cfg < input.worstCaseBytes then err = exceedsSlot else preparationErrors.contains err
  | .prepared requestId _ => input.worstCaseBytes ≤ payloadCapacity cfg && requestId ≠ 0
  | _ => false

/-- The choices of `serialize_transaction`: the builder writes to the payload area, finishes with what
the area then holds, or unwinds. -/
def maySerialize (builder : TransactionBuilder) (cfg : Config) (input : IncomingTransaction) (amountMicros : Int64)
    (v : Reservation) (payload : List UInt8) : SubmitChoice → Bool
  | .builderWrite _ _ => true
  | .serialized start size => builder.finishes (payloadCapacity cfg) v.requestId input amountMicros start size payload
  | .panicked => builder.unwinds (payloadCapacity cfg) v.requestId input amountMicros
  | _ => false

/-- The choices of a call of `submit` that its request leaves open. -/
def Service.permits (service : Service) (cfg : Config) (request : HttpRequest) (pc : SubmitPC) (m : Shared)
    (choice : SubmitChoice) : Bool :=
  match pc, service.parseBody request.body with
  | .idle, _ => service.calls request
  | .checkBody, .error reason => match choice with
    | .refuse err => err = reason
    | _ => false
  | .checkBody, .ok _ => match choice with
    | .refuse _ => false
    | _ => true
  | .prepare, .ok (input, _) => mayPrepare cfg input choice
  | .serializing v, .ok (input, amountMicros) =>
    maySerialize service.builder cfg input amountMicros v (m.data (slotIndex cfg v.position)).payload choice
  | .prepare, .error _ | .serializing _, .error _ => false
  | _, _ => true

def Service.step (service : Service) (cfg : Config) (request : HttpRequest) (pc : SubmitPC) (m : Shared)
    (choice : SubmitChoice) : Option (SubmitPC × Shared × Label) :=
  if service.permits cfg request pc m choice then submitStep cfg pc m choice else none

def Service.program (service : Service) (cfg : Config) (dc : DaemonConfig) (requests : Nat → HttpRequest) :
    Program Local Choice Shared Label
  | .submit call, pc, m, choice => service.step cfg (requests call) pc m choice
  | .reclaimer, pc, m, () => some (reclaimerStep cfg pc m)
  | .daemon, pc, m, choice => daemonStep cfg dc pc m choice
  | .producer _, _, _, _ => none
  | .consumer _, _, _, _ => none

end submit

end FraudDetection.TransactionService
