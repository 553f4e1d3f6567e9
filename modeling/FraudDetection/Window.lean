import Mathlib.Data.Finset.Basic
import Mathlib.Algebra.Order.Field.Basic
import FraudDetection.GoStrings
import FraudDetection.Library.ListMap
import FraudDetection.Library.Sorting

/-!
# Sliding-window aggregation

Model of `stream_processor/aggregations/window.go`. Instants are nanoseconds since Go's zero
time, so the zero value of `time.Time` is `0`. The `float64` operations that the code applies
to amounts are the fields of `Arithmetic`; `exactArithmetic` reads them in an ordered field.
A call holds the mutex throughout, so `apply` and `applyAndMaterialize` are functions from
one window to the next.
-/

namespace FraudDetection
open FraudDetection.Library

/-- The `float64` operations and predicates of the aggregation code. -/
structure Arithmetic (α : Type) where
  zero : α
  add : α → α → α
  sub : α → α → α
  lt : α → α → Bool
  le : α → α → Bool
  isNaN : α → Bool
  isInf : α → Bool
  maxFloat64 : α

/-- Amounts as exact numbers, with the largest finite `float64` left open. -/
def exactArithmetic {K : Type} [Field K] [LinearOrder K] (maxFloat64 : K) : Arithmetic K where
  zero := 0
  add := (· + ·)
  sub := (· - ·)
  lt a b := decide (a < b)
  le a b := decide (a ≤ b)
  isNaN _ := false
  isInf _ := false
  maxFloat64 := maxFloat64

structure Event (α : Type) where
  id : GoString
  entityID : GoString
  amount : α
  occurredAt : Int
  partition : Int
  offset : Int
  deriving DecidableEq, Repr

structure Features (α : Type) where
  entityID : GoString
  eventCount : Nat
  totalAmount : α
  maxAmount : α
  windowEnd : Int
  deriving DecidableEq, Repr

def Features.empty {α : Type} (ar : Arithmetic α) : Features α :=
  ⟨[], 0, ar.zero, ar.zero, 0⟩

/-- The unexported `event`: what a window retains of an accepted record. -/
structure WindowEvent (α : Type) where
  id : GoString
  at_ : Int
  amount : α
  deriving DecidableEq, Repr

structure Window (α : Type) where
  duration : Int
  byEntity : FMap GoString (List (WindowEvent α))
  seen : Finset GoString
  offsets : FMap Int Int
  watermark : FMap GoString Int
  lastActive : FMap GoString Int
  eventCount : Int
  maxEntities : Int
  maxEvents : Int
  deriving DecidableEq

def errNumericRange : GoError := ⟨"aggregation numeric range exceeded"⟩
def errStateCapacity : GoError := ⟨"aggregation state capacity exceeded"⟩
def errInvalidEvent : GoError := ⟨"invalid financial event"⟩
def errMaterializerRequired : GoError := ⟨"materializer is required"⟩

def maxTrackedPartitions : Int := 100000

def newWithLimits {α : Type} (duration maxEntities maxEvents : Int) : Window α where
  duration := if duration ≤ 0 then 5 * 60 * 1000000000 else duration
  byEntity := ∅
  seen := ∅
  offsets := ∅
  watermark := ∅
  lastActive := ∅
  eventCount := 0
  maxEntities := if maxEntities < 1 then 1 else maxEntities
  maxEvents := if maxEvents < 1 then 1 else maxEvents

variable {α : Type}

def validEvent (ar : Arithmetic α) (input : Event α) : Bool :=
  input.id ≠ [] && input.id.length ≤ 256 && validString input.id && noControl input.id &&
    input.entityID ≠ [] && input.entityID.length ≤ 256 &&
    validString input.entityID && trimmed input.entityID && noControl input.entityID &&
    ar.le ar.zero input.amount && !ar.isNaN input.amount && !ar.isInf input.amount &&
    input.occurredAt ≠ 0 &&
    0 ≤ input.partition && input.partition < maxTrackedPartitions && 0 ≤ input.offset

def olderEntity (best : GoString × Int) (candidate : GoString) (active : Int) : GoString × Int :=
  if best.1 = [] ∨ active < best.2 ∨ (active = best.2 ∧ candidate < best.1) then (candidate, active)
  else best

/-- `oldestEntityLocked`, ranging over `lastActive` in the order of the association list. -/
def oldestEntityLocked (lastActive : FMap GoString Int) : GoString :=
  (lastActive.entries.foldl (fun best e => olderEntity best e.1 e.2) ([], 0)).1

structure PendingUpdate (α : Type) where
  accepted : Bool
  changed : Bool
  features : Features α
  events : List (WindowEvent α)
  watermark : Int
  expired : List GoString
  evictEntity : GoString

def PendingUpdate.empty (ar : Arithmetic α) : PendingUpdate α :=
  ⟨false, false, Features.empty ar, [], 0, [], []⟩

def Window.eventsOf (w : Window α) (entity : GoString) : List (WindowEvent α) :=
  (w.byEntity.lookup entity).getD []

def Window.watermarkOf (w : Window α) (entity : GoString) : Int :=
  (w.watermark.lookup entity).getD 0

def Window.stale (w : Window α) (input : Event α) : Bool :=
  (w.offsets.lookup input.partition).any (fun high => input.offset ≤ high)

/-- The entity that a new entity displaces, empty when there is room. -/
def Window.evictFor (w : Window α) (input : Event α) : GoString :=
  if input.entityID ∉ w.watermark ∧ w.maxEntities ≤ w.watermark.keys.length then
    oldestEntityLocked w.lastActive
  else []

def Window.nextWatermark (w : Window α) (input : Event α) : Int :=
  if w.watermarkOf input.entityID < input.occurredAt then input.occurredAt
  else w.watermarkOf input.entityID

def Window.cutoff (w : Window α) (input : Event α) : Int :=
  w.nextWatermark input - w.duration

/-- `sort.Search` for the first retained event not before the cutoff. -/
def Window.firstLive (w : Window α) (input : Event α) : Nat :=
  searchList (fun e => decide (w.cutoff input ≤ e.at_)) (w.eventsOf input.entityID)

def Event.retained (input : Event α) : WindowEvent α :=
  ⟨input.id, input.occurredAt, input.amount⟩

def Window.nextEvents (w : Window α) (input : Event α) : List (WindowEvent α) :=
  if w.cutoff input ≤ input.occurredAt then
    stableSort WindowEvent.at_
      ((w.eventsOf input.entityID).drop (w.firstLive input) ++ [input.retained])
  else (w.eventsOf input.entityID).drop (w.firstLive input)

def Window.projectedEventCount (w : Window α) (input : Event α) : Int :=
  w.eventCount - w.firstLive input -
    (if w.evictFor input ≠ [] then ((w.eventsOf (w.evictFor input)).length : Int) else 0) +
    (if w.cutoff input ≤ input.occurredAt then 1 else 0)

def Window.updates (w : Window α) (input : Event α) : Bool :=
  decide (w.cutoff input ≤ input.occurredAt) || decide (0 < w.firstLive input)

def Window.expiredIds (w : Window α) (input : Event α) : List GoString :=
  ((w.eventsOf input.entityID).take (w.firstLive input)).map WindowEvent.id

/-- The aggregation loop of `prepareLocked`, refusing a total past the finite range. -/
def accumulate (ar : Arithmetic α) :
    List (WindowEvent α) → Features α → Except GoError (Features α)
  | [], features => .ok features
  | item :: rest, features =>
    if ar.lt (ar.sub ar.maxFloat64 item.amount) features.totalAmount then .error errNumericRange
    else accumulate ar rest
      { features with
        totalAmount := ar.add features.totalAmount item.amount
        maxAmount := if ar.lt features.maxAmount item.amount then item.amount else features.maxAmount }

def prepareLocked (ar : Arithmetic α) (w : Window α) (input : Event α) :
    Except GoError (PendingUpdate α) :=
  if !validEvent ar input then .error errInvalidEvent
  else if input.id ∈ w.seen then .ok (PendingUpdate.empty ar)
  else if w.stale input then .ok (PendingUpdate.empty ar)
  else if w.maxEvents < w.projectedEventCount input then .error errStateCapacity
  else do
    let features ← accumulate ar (w.nextEvents input)
      ⟨input.entityID, (w.nextEvents input).length, ar.zero, ar.zero, w.nextWatermark input⟩
    return {
      accepted := true
      changed := w.updates input
      features := features
      events := w.nextEvents input
      watermark := w.nextWatermark input
      expired := w.expiredIds input
      evictEntity := w.evictFor input }

def accepts (ar : Arithmetic α) (w : Window α) (input : Event α) : Bool :=
  match prepareLocked ar w input with
  | .ok pending => pending.accepted
  | .error _ => false

def evictEntityLocked (w : Window α) (entity : GoString) : Window α :=
  { w with
    seen := w.seen \ ((w.eventsOf entity).map WindowEvent.id).toFinset
    eventCount := w.eventCount - (w.eventsOf entity).length
    byEntity := w.byEntity.erase entity
    watermark := w.watermark.erase entity
    lastActive := w.lastActive.erase entity }

def commitLocked (w : Window α) (input : Event α) (pending : PendingUpdate α) : Window α :=
  let w := if pending.evictEntity ≠ [] then evictEntityLocked w pending.evictEntity else w
  let seen := w.seen \ pending.expired.toFinset
  { w with
    seen := if pending.watermark - w.duration ≤ input.occurredAt then insert input.id seen else seen
    offsets := w.offsets.insert input.partition input.offset
    watermark := w.watermark.insert input.entityID pending.watermark
    eventCount := w.eventCount + pending.events.length - (w.eventsOf input.entityID).length
    byEntity := w.byEntity.insert input.entityID pending.events
    lastActive := w.lastActive.insert input.entityID pending.watermark }

def Window.makeRoom (w : Window α) (input : Event α) : Window α :=
  if w.evictFor input ≠ [] then evictEntityLocked w (w.evictFor input) else w

/-- The window that `commitLocked` leaves after an accepted event. -/
def Window.advance (w : Window α) (input : Event α) : Window α :=
  { w.makeRoom input with
    seen := if w.cutoff input ≤ input.occurredAt then
        insert input.id ((w.makeRoom input).seen \ (w.expiredIds input).toFinset)
      else (w.makeRoom input).seen \ (w.expiredIds input).toFinset
    offsets := w.offsets.insert input.partition input.offset
    watermark := (w.makeRoom input).watermark.insert input.entityID (w.nextWatermark input)
    eventCount := (w.makeRoom input).eventCount + (w.nextEvents input).length -
      ((w.makeRoom input).eventsOf input.entityID).length
    byEntity := (w.makeRoom input).byEntity.insert input.entityID (w.nextEvents input)
    lastActive := (w.makeRoom input).lastActive.insert input.entityID (w.nextWatermark input) }

abbrev ApplyResult (α : Type) := Except GoError (Features α × Bool)

def apply (ar : Arithmetic α) (w : Window α) (input : Event α) : ApplyResult α × Window α :=
  match prepareLocked ar w input with
  | .error err => (.error err, w)
  | .ok pending =>
    if !pending.accepted then (.ok (Features.empty ar, false), w)
    else (.ok (pending.features, pending.changed), commitLocked w input pending)

/-- A `Materializer`: `Put` as a function of the sink's state, with its error if it fails. -/
abbrev Materializer (σ α : Type) := σ → Features α → Option GoError × σ

variable {σ : Type}

def applyAndMaterialize (ar : Arithmetic α) (w : Window α) (input : Event α)
    (sink : Option (Materializer σ α)) (state : σ) : ApplyResult α × Window α × σ :=
  match sink with
  | none => (.error errMaterializerRequired, w, state)
  | some put =>
    match prepareLocked ar w input with
    | .error err => (.error err, w, state)
    | .ok pending =>
      if !pending.accepted then (.ok (Features.empty ar, false), w, state)
      else if pending.changed then
        match put state pending.features with
        | (some err, state') => (.error err, w, state')
        | (none, state') => (.ok (pending.features, pending.changed), commitLocked w input pending, state')
      else (.ok (pending.features, pending.changed), commitLocked w input pending, state)

def snapshotStep (ar : Arithmetic α) (cutoff : Int) (features : Features α) (item : WindowEvent α) :
    Features α :=
  if item.at_ < cutoff then features
  else { features with
    eventCount := features.eventCount + 1
    totalAmount := ar.add features.totalAmount item.amount
    maxAmount := if ar.lt features.maxAmount item.amount then item.amount else features.maxAmount }

def snapshot (ar : Arithmetic α) (w : Window α) (entity : GoString) (now : Int) :
    Features α × Bool :=
  let watermark := if w.watermarkOf entity < now then now else w.watermarkOf entity
  if (w.eventsOf entity).length = 0 then (Features.empty ar, false)
  else ((w.eventsOf entity).foldl (snapshotStep ar (watermark - w.duration))
    ⟨entity, 0, ar.zero, ar.zero, watermark⟩, true)

def applyRun (ar : Arithmetic α) : Window α → List (Event α) → List (ApplyResult α) × Window α
  | w, [] => ([], w)
  | w, input :: rest =>
    let (result, w') := apply ar w input
    let (results, final) := applyRun ar w' rest
    (result :: results, final)

end FraudDetection
