import FraudDetection.Library.Ieee
import FraudDetection.Window

/-!
# The feature vector in Redis

`RedisMaterializer.Put` of `stream_processor/aggregations/materialize.go` writes the vector of an
entity, `Redis.Get` of `serving_plane/feature_store/store.go` reads it. `strconv` and the Redis
client are parameters; what a timeout does is an answer of the client. `MemoryMaterializer` is the
local sink beside it, which keeps the features themselves.
-/

namespace FraudDetection.FeatureVector
open FraudDetection.Library

/-- `strconv.FormatFloat(x, 'g', -1, 64)` and `strconv.ParseFloat(s, 64)`. -/
structure Strconv (α : Type) where
  formatFloat : α → GoString
  parseFloat : GoString → Except GoError (Ieee α)

inductive RedisError where
  | nil
  | failed (err : GoError)

structure RedisClient (σ : Type) where
  set : σ → GoString → GoString → Option GoError × σ
  get : σ → GoString → Except RedisError GoString

variable {α σ : Type}

section materialize

def materializedFeatureWidth : Nat := 32

def validateMaterializedFeatures (ar : Arithmetic α) (features : Features α) : Option GoError :=
  if features.entityID = [] || 256 < features.entityID.length ||
      features.entityID.any (fun b => b = 0x0D || b = 0x0A) ||
      (features.eventCount : Int) < 0 || ar.lt features.totalAmount ar.zero || ar.lt features.maxAmount ar.zero ||
      ar.isNaN features.totalAmount || ar.isInf features.totalAmount ||
      ar.isNaN features.maxAmount || ar.isInf features.maxAmount ||
      ar.lt features.totalAmount features.maxAmount then some ⟨"invalid materialized fraud features"⟩
  else none

def vectorOf (sc : Strconv α) (features : Features α) : List GoString :=
  (((List.replicate materializedFeatureWidth (ascii "0")).set 0 (itoa features.eventCount)).set 1
    (sc.formatFloat features.totalAmount)).set 2 (sc.formatFloat features.maxAmount)

/-- `Put`; a nil materializer or client is `none`. -/
def put (ar : Arithmetic α) (sc : Strconv α) (client : Option (RedisClient σ)) : Materializer σ α :=
  fun state features =>
    match client with
    | none => (some ⟨"invalid Redis materialization request"⟩, state)
    | some client =>
      match validateMaterializedFeatures ar features with
      | some err => (some err, state)
      | none => client.set state features.entityID (List.intercalate (ascii ",") (vectorOf sc features))

abbrev MemoryMaterializer (α : Type) := FMap GoString (Features α)

def memoryPut (ar : Arithmetic α) (cancelled : Option GoError) : Materializer (MemoryMaterializer α) α :=
  fun values features =>
    match cancelled with
    | some err => (some err, values)
    | none =>
      match validateMaterializedFeatures ar features with
      | some err => (some err, values)
      | none => (none, values.insert features.entityID features)

def memoryGet (ar : Arithmetic α) (values : MemoryMaterializer α) (entity : GoString) : Features α × Bool :=
  match values.lookup entity with
  | some features => (features, true)
  | none => (Features.empty ar, false)

end materialize

section serve

def errNotFound : GoError := ⟨"features not found"⟩

def validFeatureKey (key : GoString) : Bool :=
  key ≠ [] && key.length ≤ 256 && validString key && trimmed key && noControl key

def parseParts (sc : Strconv α) : Nat → List GoString → Except GoError (List (Ieee α))
  | _, [] => .ok []
  | i, part :: parts =>
    match sc.parseFloat part with
    | .error err => .error ⟨s!"feature {i}: " ++ err.text⟩
    | .ok value =>
      if value.isNaN || value.isInf then .error ⟨s!"feature {i}: non-finite value"⟩
      else do
        let values ← parseParts sc (i + 1) parts
        return value :: values

structure Redis (σ : Type) where
  client : RedisClient σ
  width : Nat

/-- `Get`; a nil store or client is `none`, and `cancelled` is the error of the context. -/
def get (sc : Strconv α) (redis : Option (Redis σ)) (cancelled : Option GoError) (state : σ) (key : GoString) :
    Except GoError (List (Ieee α)) :=
  match redis with
  | none => .error ⟨"invalid Redis feature store request"⟩
  | some redis =>
    if !validFeatureKey key then .error ⟨"invalid Redis feature store request"⟩
    else match cancelled with
      | some err => .error err
      | none =>
        match redis.client.get state key with
        | .error .nil => .error errNotFound
        | .error (.failed err) => .error err
        | .ok value =>
          let parts := value.splitOn 0x2C
          if parts.length ≠ redis.width then
            .error ⟨s!"Redis feature width is {parts.length}, expected {redis.width}"⟩
          else parseParts sc 0 parts

end serve

end FraudDetection.FeatureVector
