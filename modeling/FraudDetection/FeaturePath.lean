import FraudDetection.ServingPlane
import FraudDetection.StreamProcessor

/-!
# From events to verdicts

The stream processors and the serving plane around one Redis: the processors write the features of an
entity, and `score` looks them up for a request. Redis may change by itself too, as an occurrence of the
consumer group. What a client of the gateway does at a lookup is a choice of the step.
-/

namespace FraudDetection.FeaturePath
open FraudDetection.Library FraudDetection.FeatureVector FraudDetection.StreamProcessor
open FraudDetection.Scheduler (CallId)
open FraudDetection.ServingPlane (Plane)

variable {K σ : Type} [Field K] [LinearOrder K]

/-- What a lookup meets: Redis, the client of the gateway, and the error of the request's context. -/
structure Lookup (σ : Type) where
  store : σ
  client : RedisClient σ
  cancelled : Option GoError

/-- The feature store of the gateway. -/
def redisGet (sc : Strconv K) (lookup : Lookup σ) (entityID : GoString) : Except GoError (List (Ieee K)) :=
  FeatureVector.get sc (some ⟨lookup.client, 32⟩) lookup.cancelled lookup.store entityID

structure State (K σ : Type) where
  group : ConsumerGroup K σ
  plane : ServingPlane.State K GoError

inductive Action (K σ : Type) where
  | stream (o : Occurrence σ)
  | lookup (c : CallId) (client : RedisClient σ) (cancelled : Option GoError)
  | serve (a : ServingPlane.Action K (Lookup σ))

def isLookup {ς : Type} : ServingPlane.Action K ς → Bool
  | .lookup _ _ => true
  | _ => false

/-- The steps of the serving plane in an action. A lookup meets Redis as the processors have left it. -/
def served (s : State K σ) : Action K σ → List (ServingPlane.Action K (Lookup σ))
  | .stream _ => []
  | .lookup c client cancelled => [.lookup c ⟨s.group.store, client, cancelled⟩]
  | .serve a => if isLookup a then [] else [a]

def step (d : Deployment K) (p : Plane K (Lookup σ) GoError) (s : State K σ) : Action K σ → Option (State K σ)
  | .stream o => (StreamProcessor.step d s.group o).map fun group => { s with group }
  | .lookup c client cancelled =>
    (p.step s.plane (.lookup c ⟨s.group.store, client, cancelled⟩)).map fun plane => { s with plane }
  | .serve a => if isLookup a then none else (p.step s.plane a).map fun plane => { s with plane }

end FraudDetection.FeaturePath
