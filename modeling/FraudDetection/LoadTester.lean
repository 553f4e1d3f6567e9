import FraudDetection.Ingestion
import FraudDetection.Library.Ieee
import FraudDetection.Library.Transition

/-!
# The load tester

`load_tester/main.go`: the checks of a configuration, the entity of a request, and `Run` with its
arrival goroutine, its workers, the goroutine that waits for them and the collector. `jobs` is
unbuffered, so a send is one step of the arrival goroutine and of the worker that receives; `results`
holds one result for each worker. Timers, the cancellation of the context and the answers to requests
are choices of the steps. Random numbers, logarithms and roundings of the schedule are parameters.
Memory is taken to suffice; times, the histogram and what is derived from them are left out of the
summary.
-/

namespace FraudDetection.LoadTester
open FraudDetection.Library
open FraudDetection.Ingestion (wrap64)

section config

variable {K : Type}

/-- The fields that `Run` reads; durations are nanoseconds. -/
structure Config (K : Type) where
  url : GoString
  token : GoString
  duration : Int
  requests : Int
  concurrency : Int
  rate : Ieee K
  timeout : Int
  seed : UInt64
  entities : List GoString
  entityWeights : List Int
  payloadMode : GoString
  deriving DecidableEq, Repr

variable [LinearOrder K] [Zero K]

def Config.validate (c : Config K) : Except GoError Unit := do
  if !(ascii "http://").isPrefixOf c.url ∧ !(ascii "https://").isPrefixOf c.url then
    throw ⟨"url must be http(s)"⟩
  if c.requests < 1 ∧ c.duration ≤ 0 then throw ⟨"set a positive -requests or -duration"⟩
  if c.requests < 0 ∨ c.duration < 0 ∨ c.concurrency < 1 ∨ Ieee.le c.rate (.finite 0) ∨ c.timeout ≤ 0 then
    throw ⟨"requests/duration/concurrency/rate/timeout must be positive"⟩
  if c.entities.length = 0 then throw ⟨"at least one entity is required"⟩
  if c.payloadMode ≠ [] ∧ c.payloadMode ≠ ascii "entity" ∧ c.payloadMode ≠ ascii "transaction" then
    throw ⟨"payload-mode must be entity or transaction"⟩
  if c.entityWeights.length ≠ 0 ∧ c.entityWeights.length ≠ c.entities.length then
    throw ⟨"entity weights must match entities"⟩
  if c.entityWeights.any (· < 1) then throw ⟨"entity weights must be positive"⟩
  return ()

def atoi (s : GoString) : Option Int :=
  let (negative, digits) := match s with
    | 0x2B :: rest => (false, rest)
    | 0x2D :: rest => (true, rest)
    | _ => (false, s)
  if digits = [] ∨ !digits.all (fun b => 0x30 ≤ b && b ≤ 0x39) then none
  else
    let magnitude : Int := digits.foldl (fun value b => value * 10 + (b.toNat - 0x30 : Nat)) 0
    let value := if negative then -magnitude else magnitude
    if -2 ^ 63 ≤ value ∧ value < 2 ^ 63 then some value else none

def parseEntity (part : GoString) : Except GoError (GoString × Int) :=
  match (trimSpaceBytes part).splitOn 0x3A with
  | [] :: _ => .error ⟨"entities must be name[:weight]"⟩
  | [name] => .ok (name, 1)
  | [name, weight] => match atoi weight with
    | some weight =>
      if weight < 1 then .error ⟨"entity weight must be a positive integer"⟩ else .ok (name, weight)
    | none => .error ⟨"entity weight must be a positive integer"⟩
  | _ => .error ⟨"entities must be name[:weight]"⟩

def parseEntities (s : GoString) : Except GoError (List GoString × List Int) := do
  let items ← (s.splitOn 0x2C).mapM parseEntity
  return (items.map Prod.fst, items.map Prod.snd)

end config

section schedule

variable {K : Type}

/-- The random source of a seed, `elapsed + -math.Log(u) / rate`, and the conversions of
`time.Duration(elapsed * float64(time.Second))` and `int(math.Ceil(d.Seconds() * rate))`. -/
structure FloatCalls (K : Type) where
  float64 : UInt64 → Nat → Ieee K
  smallestNonzero : Ieee K
  advance : Ieee K → Ieee K → Ieee K → Ieee K
  duration : Ieee K → Int
  ceilSeconds : Int → Ieee K → Int

variable [LinearOrder K] [Zero K]

def scheduleFrom (calls : FloatCalls K) (rate : Ieee K) (draws : Nat → Ieee K) : Nat → Nat → Ieee K → List Int
  | 0, _, _ => []
  | n + 1, i, elapsed =>
    let u := if Ieee.le (draws i) (.finite 0) then calls.smallestNonzero else draws i
    let elapsed := calls.advance elapsed u rate
    calls.duration elapsed :: scheduleFrom calls rate draws n (i + 1) elapsed

def arrivalSchedule (calls : FloatCalls K) (n : Int) (rate : Ieee K) (seed : UInt64) : Except GoError (List Int) :=
  if n < 0 ∨ Ieee.le rate (.finite 0) then .error ⟨"n must be non-negative and rate must be positive"⟩
  else .ok (scheduleFrom calls rate (calls.float64 seed) n.toNat 0 (.finite 0))

def Config.offsets (calls : FloatCalls K) (c : Config K) : Except GoError (List Int) := do
  c.validate
  let requested := if c.requests = 0 then calls.ceilSeconds c.duration c.rate else c.requests
  arrivalSchedule calls requested c.rate c.seed

end schedule

section selection

variable {K : Type}

inductive Panic where
  | integerDivideByZero
  | indexOutOfRange
  | sendOnClosedChannel
  deriving DecidableEq, Repr

/-- The remainder of Go, which has the sign of its first operand. -/
def remainder (a b : Int) : Except Panic Int :=
  if b = 0 then .error .integerDivideByZero else .ok (a.tmod b)

def Config.entityAt (c : Config K) (i : Int) : Except Panic GoString :=
  if i < 0 then .error .indexOutOfRange
  else match c.entities[i.toNat]? with
    | some entity => .ok entity
    | none => .error .indexOutOfRange

def totalWeight (weights : List Int) : Int := weights.foldl (fun total weight => wrap64 (total + weight)) 0

/-- The index at which the loop over the weights returns, if it does. -/
def scanWeights : List Int → Int → Option Nat
  | [], _ => none
  | weight :: weights, position =>
    if position < weight then some 0 else (scanWeights weights (wrap64 (position - weight))).map (· + 1)

def Config.selectedPosition (c : Config K) (index : Int) : Except Panic (Option Nat) := do
  let position ← remainder index (totalWeight c.entityWeights)
  return scanWeights c.entityWeights position

def entityForIndex (c : Config K) (index : Int) : Except Panic GoString := do
  if c.entityWeights.length = 0 then
    let i ← remainder index c.entities.length
    c.entityAt i
  else match ← c.selectedPosition index with
    | some i => c.entityAt i
    | none => c.entityAt (c.entities.length - 1)

end selection

section requests

variable {K : Type}

/-- `scheduled` counts nanoseconds since 1970. -/
structure Job where
  index : Nat
  scheduled : Int
  deriving DecidableEq, Repr

structure Result where
  latency : Int
  status : Int
  err : Option GoError
  deriving DecidableEq, Repr

/-- The amount of the entity payload is a whole number, which a `float64` holds exactly. -/
inductive Payload where
  | transaction (transactionID accountID : GoString) (amountMicros : Int) (currency : GoString)
      (occurredAtNS : Int) (merchantCategory : GoString)
  | entity (entityID : GoString) (amount : Int)
  deriving DecidableEq, Repr

def hexPadded (width n : Nat) : GoString := (List.leftpad width '0' (Nat.toDigits 16 n)).map fun c => c.toNat.toUInt8

def merchantCategories : List GoString := [ascii "grocery", ascii "fuel", ascii "travel", ascii "retail"]

def requestPayload (c : Config K) (work : Job) : Except Panic Payload := do
  let entity ← entityForIndex c work.index
  if c.payloadMode = ascii "transaction" then
    let occurred := if work.scheduled ≤ 0 then wrap64 (1700000000000000000 + work.index) else work.scheduled
    return .transaction
      (ascii "load-" ++ hexPadded 16 c.seed.toNat ++ ascii "-" ++ hexPadded 8 work.index) entity
      (1000000 + (work.index % 100 : Nat) * 10000) (ascii "USD") occurred
      (merchantCategories.getD (work.index % 4) [])
  return .entity entity (10 + (work.index % 100 : Nat))

structure HttpRequest where
  url : GoString
  body : GoString
  contentType : GoString
  authorization : Option GoString
  deriving DecidableEq, Repr

structure Answers where
  marshal : Payload → Except GoError GoString
  newRequest : GoString → GoString → Option GoError
  send : HttpRequest → Except GoError Int
  sinceScheduled : Int

/-- A panic of the goroutine is an error here. -/
def perform (c : Config K) (answers : Answers) (work : Job) : Except Panic Result := do
  let payload ← requestPayload c work
  match answers.marshal payload with
  | .error err => return ⟨answers.sinceScheduled, 0, some err⟩
  | .ok body =>
    match answers.newRequest c.url body with
    | some err => return ⟨answers.sinceScheduled, 0, some err⟩
    | none =>
      let authorization := if c.token ≠ [] then some (ascii "Bearer " ++ c.token) else none
      match answers.send ⟨c.url, body, ascii "application/json", authorization⟩ with
      | .error err => return ⟨answers.sinceScheduled, 0, some err⟩
      | .ok status => return ⟨answers.sinceScheduled, status, none⟩

end requests

section summary

structure Summary where
  scheduled : Nat
  completed : Nat
  successful : Nat
  errors : Nat
  statusCounts : FMap GoString Nat

def Summary.empty : Summary := ⟨0, 0, 0, 0, ∅⟩

def increment (counts : FMap GoString Nat) (key : GoString) : FMap GoString Nat :=
  counts.insert key ((counts.lookup key).getD 0 + 1)

def Summary.add (s : Summary) (r : Result) : Summary :=
  let s := { s with completed := s.completed + 1 }
  match r.err with
  | some _ => { s with errors := s.errors + 1, statusCounts := increment s.statusCounts (ascii "transport_error") }
  | none =>
    let s := { s with statusCounts := increment s.statusCounts (itoa r.status) }
    if 200 ≤ r.status ∧ r.status < 300 then { s with successful := s.successful + 1 }
    else { s with errors := s.errors + 1 }

end summary

section run

variable {K : Type}

inductive ArrivalPC where
  | next (i : Nat)
  | waiting (i : Nat) (offset : Int)
  | handing (work : Job)
  | counting (i : Nat)
  | closing
  | done
  deriving DecidableEq, Repr

inductive WorkerPC where
  | receiving
  | performing (work : Job)
  | sending (r : Result)
  | panicking (panic : Panic)
  | leaving
  | done
  deriving DecidableEq, Repr

inductive CloserPC where
  | waiting
  | closing
  | done
  deriving DecidableEq, Repr

inductive CollectorPC where
  | collecting (s : Summary)
  | loading (s : Summary)
  | returned (s : Summary)

/-- A run in progress. `crashed` is a panic that nothing recovered, behind the deferred calls of its
goroutine; until the process has exited, the other goroutines go on. -/
structure RunState where
  cancelled : Bool
  arrival : ArrivalPC
  sent : Nat
  jobsClosed : Bool
  workers : Nat → WorkerPC
  results : List Result
  resultsClosed : Bool
  closer : CloserPC
  collector : CollectorPC
  crashed : Option Panic
  exited : Bool

def RunState.initial : RunState where
  cancelled := false
  arrival := .next 0
  sent := 0
  jobsClosed := false
  workers _ := .receiving
  results := []
  resultsClosed := false
  closer := .waiting
  collector := .collecting .empty
  crashed := none
  exited := false

/-- `timerFires` and `contextDone` are the cases of the select statement. -/
inductive RunAction where
  | cancel
  | arrive
  | timerFires
  | contextDone
  | handOff (worker : Nat)
  | work (worker : Nat) (answers : Answers)
  | wait
  | collect
  | exit

structure Plan (K : Type) where
  config : Config K
  offsets : List Int
  started : Int

def Plan.concurrency (plan : Plan K) : Nat := plan.config.concurrency.toNat

def Plan.late (plan : Plan K) (offset : Int) : Bool := 0 < plan.config.duration && plan.config.duration < offset

def RunState.setWorker (s : RunState) (worker : Nat) (pc : WorkerPC) : RunState :=
  { s with workers := Function.update s.workers worker pc }

def arriveStep (plan : Plan K) (s : RunState) : Option RunState :=
  match s.arrival with
  | .next i => match plan.offsets[i]? with
    | none => some { s with arrival := .closing }
    | some offset =>
      if plan.late offset then some { s with arrival := .closing } else some { s with arrival := .waiting i offset }
  | .counting i => some { s with sent := s.sent + 1, arrival := .next (i + 1) }
  | .closing => some { s with jobsClosed := true, arrival := .done }
  | _ => none

/-- A send on a closed channel panics, and one on a full channel waits. -/
def workStep (plan : Plan K) (s : RunState) (worker : Nat) (answers : Answers) : Option RunState :=
  match s.workers worker with
  | .receiving => if s.jobsClosed then some (s.setWorker worker .leaving) else none
  | .performing work => match perform plan.config answers work with
    | .error panic => some (s.setWorker worker (.panicking panic))
    | .ok r => some (s.setWorker worker (.sending r))
  | .sending r =>
    if s.resultsClosed then some (s.setWorker worker (.panicking .sendOnClosedChannel))
    else if s.results.length < plan.concurrency then
      some ({ s with results := s.results ++ [r] }.setWorker worker .receiving)
    else none
  -- the deferred `workers.Done()` runs before the panic is fatal
  | .panicking panic => some ({ s with crashed := s.crashed.or (some panic) }.setWorker worker .done)
  | .leaving => some (s.setWorker worker .done)
  | .done => none

def waitStep (plan : Plan K) (s : RunState) : Option RunState :=
  match s.closer with
  | .waiting =>
    if (List.range plan.concurrency).all fun worker => s.workers worker = .done then
      some { s with closer := .closing }
    else none
  | .closing => some { s with resultsClosed := true, closer := .done }
  | .done => none

def collectStep (s : RunState) : Option RunState :=
  match s.collector with
  | .collecting summary => match s.results with
    | r :: results => some { s with results, collector := .collecting (summary.add r) }
    | [] => if s.resultsClosed then some { s with collector := .loading summary } else none
  | .loading summary => some { s with collector := .returned { summary with scheduled := s.sent } }
  | .returned _ => none

def runStep (plan : Plan K) (s : RunState) (action : RunAction) : Option RunState :=
  if s.exited then none
  else match action with
    | .cancel => if s.cancelled then none else some { s with cancelled := true }
    | .arrive => arriveStep plan s
    | .timerFires => match s.arrival with
      | .waiting i offset => some { s with arrival := .handing ⟨i, plan.started + offset⟩ }
      | _ => none
    | .contextDone => match s.arrival with
      | .waiting _ _ => if s.cancelled then some { s with arrival := .closing } else none
      | _ => none
    | .handOff worker => match s.arrival with
      | .handing work =>
        if worker < plan.concurrency ∧ s.workers worker = .receiving then
          some ({ s with arrival := .counting work.index }.setWorker worker (.performing work))
        else none
      | _ => none
    | .work worker answers => if worker < plan.concurrency then workStep plan s worker answers else none
    | .wait => waitStep plan s
    | .collect => collectStep s
    | .exit => if s.crashed.isSome then some { s with exited := true } else none

inductive Note where
  | handed (index : Nat)
  | yielded (index : Nat) (r : Result)
  | collected (r : Result)
  deriving DecidableEq

def observe (plan : Plan K) (s : RunState) : RunAction → List Note
  | .handOff _ => match s.arrival with
    | .handing work => [.handed work.index]
    | _ => []
  | .work worker answers => match s.workers worker with
    | .performing work => match perform plan.config answers work with
      | .ok r => [.yielded work.index r]
      | .error _ => []
    | _ => []
  | .collect => match s.collector, s.results with
    | .collecting _, r :: _ => [.collected r]
    | _, _ => []
  | _ => []

def handedJobs (log : List Note) : List Nat :=
  log.filterMap fun note => match note with
    | .handed index => some index
    | _ => none

def yieldedResults (log : List Note) : List (Nat × Result) :=
  log.filterMap fun note => match note with
    | .yielded index r => some (index, r)
    | _ => none

def collectedResults (log : List Note) : List Result :=
  log.filterMap fun note => match note with
    | .collected r => some r
    | _ => none

end run

end FraudDetection.LoadTester
