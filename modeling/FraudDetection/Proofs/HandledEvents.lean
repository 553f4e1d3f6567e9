import FraudDetection.FeaturePath
import FraudDetection.Proofs.ServingPlane
import FraudDetection.Proofs.StreamFeatures

/-!
# From handled events to verdicts

The stream processors and the serving plane meet in Redis. A run of both is a run of each, in which every
lookup meets what Redis holds at that moment; so the verdict on a request is the scorer's on the events that
a processor has handled until then, aggregated by the window.
-/

namespace FraudDetection.Proofs
open FraudDetection.Library FraudDetection.Worker FraudDetection.FeatureVector
open FraudDetection.StreamProcessor (Deployment ConsumerGroup Occurrence)
open FraudDetection.ServingPlane (Plane)
open FraudDetection.Scheduler (CallId)
open FraudDetection.FeaturePath (Lookup redisGet served)

section parts

variable {K σ : Type} [Field K] [LinearOrder K] {d : Deployment K} {p : Plane K (Lookup σ) GoError}
  {s s' : FeaturePath.State K σ} {actions : List (FeaturePath.Action K σ)}

def occurrences (actions : List (FeaturePath.Action K σ)) : List (Occurrence σ) :=
  actions.filterMap fun
    | .stream o => some o
    | _ => none

lemma serve_eq_some {a : ServingPlane.Action K (Lookup σ)} (h : FeaturePath.step d p s (.serve a) = some s') :
    ¬ FeaturePath.isLookup a = true ∧ ∃ plane, p.step s.plane a = some plane ∧ { s with plane } = s' := by
  obtain ⟨hother, hstep⟩ := Option.ite_none_left_eq_some.mp h
  exact ⟨hother, Option.map_eq_some_iff.mp hstep⟩

lemma run_group (h : runSteps (FeaturePath.step d p) s actions = some s') :
    runSteps (StreamProcessor.step d) s.group (occurrences actions) = some s'.group := by
  induction actions generalizing s with
  | nil =>
    cases h
    rfl
  | cons a actions ih =>
    obtain ⟨t, hstep, hrest⟩ := Option.bind_eq_some_iff.mp h
    have hlater := ih hrest
    cases a with
    | stream o =>
      obtain ⟨group, hgroup, rfl⟩ := Option.map_eq_some_iff.mp hstep
      exact Option.bind_eq_some_iff.mpr ⟨group, hgroup, hlater⟩
    | lookup c client cancelled =>
      obtain ⟨plane, -, rfl⟩ := Option.map_eq_some_iff.mp hstep
      exact hlater
    | serve a =>
      obtain ⟨-, plane, -, rfl⟩ := serve_eq_some hstep
      exact hlater

lemma run_plane (h : runSteps (FeaturePath.step d p) s actions = some s') :
    runSteps p.step s.plane (runLog (FeaturePath.step d p) served s actions) = some s'.plane := by
  induction actions generalizing s with
  | nil =>
    cases h
    rfl
  | cons a actions ih =>
    obtain ⟨t, hstep, hrest⟩ := Option.bind_eq_some_iff.mp h
    have hlater := ih hrest
    rw [runLog, hstep, Option.elim_some, runSteps_append]
    cases a with
    | stream o =>
      obtain ⟨group, -, rfl⟩ := Option.map_eq_some_iff.mp hstep
      exact hlater
    | lookup c client cancelled =>
      obtain ⟨plane, hplane, rfl⟩ := Option.map_eq_some_iff.mp hstep
      rw [served, runSteps, hplane]
      exact hlater
    | serve a =>
      obtain ⟨hother, plane, hplane, rfl⟩ := serve_eq_some hstep
      rw [served, if_neg hother, runSteps, hplane]
      exact hlater

/-- A lookup of the serving plane is one of the whole run, and meets Redis as it is then. -/
lemma lookup_of_served {c : CallId} {lookup : Lookup σ}
    (h : .lookup c lookup ∈ runLog (FeaturePath.step d p) served s actions) :
    ∃ before after t, actions = before ++ .lookup c lookup.client lookup.cancelled :: after ∧
      runSteps (FeaturePath.step d p) s before = some t ∧ lookup.store = t.group.store := by
  obtain ⟨before, a, after, t, rfl, hbefore, hmem⟩ := mem_runLog h
  cases a with
  | stream o => cases hmem
  | lookup c' client cancelled =>
    cases List.mem_singleton.mp hmem
    exact ⟨before, after, t, rfl, hbefore, rfl⟩
  | serve a =>
    rw [served] at hmem
    split at hmem
    · cases hmem
    · rename_i hother
      cases List.mem_singleton.mp hmem
      exact absurd rfl hother

end parts

lemma get_eq_ok {α σ : Type} {sc : Strconv α} {client : RedisClient σ} {cancelled : Option GoError} {state : σ}
    {key : GoString} {features : List (Ieee α)}
    (h : FeatureVector.get sc (some ⟨client, 32⟩) cancelled state key = .ok features) :
    cancelled = none ∧ ∃ value, client.get state key = .ok value := by
  unfold FeatureVector.get at h
  dsimp only at h
  split at h
  · cases h
  · cases cancelled with
    | some err => cases h
    | none =>
      refine ⟨rfl, ?_⟩
      cases hget : client.get state key with
      | ok value => exact ⟨value, rfl⟩
      | error err =>
        rw [hget] at h
        cases err <;> cases h

def ClientsKept {K σ : Type} (held : σ → GoString → Option GoString) : FeaturePath.Action K σ → Prop
  | .stream o => WritesKept held o
  | .lookup _ client _ => ReadContract held client
  | .serve _ => True

/-- Since a start of process `i`, nobody else has touched what Redis holds for the entity. -/
def SoleSource {α σ : Type} (d : Deployment α) (held : σ → GoString → Option GoString) (store : σ) (i : Nat)
    (e : GoString) (past : List (Occurrence σ)) : Prop :=
  ∃ earlier rounds since g₀, past = earlier ++ .start i rounds :: since ∧
    runSteps (StreamProcessor.step d) (d.initial store) earlier = some g₀ ∧
    ∀ note ∈ runLog (StreamProcessor.step d) redisNotes g₀ (.start i rounds :: since), note.Spares held i e

section verdicts

variable {K σ : Type} [Field K] [LinearOrder K] {d : Deployment K} {held : σ → GoString → Option GoString}

omit [LinearOrder K] in
/-- What a lookup finds when a ready processor is the sole source. -/
lemma lookup_of_source {isFloat64 : K → Prop} (hsc : StrconvContract d.sc isFloat64)
    (hhalt : d.consumer.poisonPolicy = .halt) {store : σ} {past : List (Occurrence σ)} {g : ConsumerGroup K σ}
    (hrun : runSteps (StreamProcessor.step d) (d.initial store) past = some g) (hwrites : ∀ a ∈ past, WritesKept held a)
    {i : Nat} {e : GoString} (hsource : SoleSource d held store i e past)
    (hready : (g.members i).processor.state.ready = true) {client : RedisClient σ} (hclient : ReadContract held client)
    {cancelled : Option GoError} {found : List (Ieee K)}
    (hget : FeatureVector.get d.sc (some ⟨client, 32⟩) cancelled g.store e = .ok found) :
    let window := (applyRun d.ar (newWithLimits d.windowDuration d.maxEntities d.maxEvents)
      (appliedEvents (g.members i).session)).2
    let features := (snapshot d.ar window e (window.watermarkOf e)).1
    window.eventsOf e ≠ [] → features.eventCount < 2 ^ 53 → isFloat64 features.totalAmount →
      isFloat64 features.maxAmount → found = (servedValues features).map .finite := by
  obtain ⟨earlier, rounds, since, g₀, rfl, hearlier, hown⟩ := hsource
  rw [← (reachable_memberEffects hrun i).processor.window]
  rw [runSteps_append, hearlier, Option.bind_some] at hrun
  have hlater : ∀ a ∈ since, WritesKept held a :=
    fun a ha => hwrites a (List.mem_append_right _ (List.mem_cons_of_mem _ ha))
  intro window features hevents hcount htotal hmax
  obtain ⟨rfl, value, hvalue⟩ := get_eq_ok hget
  obtain ⟨-, hread⟩ := serves_read hsc (run_serves hhalt hrun hlater hown) hready hevents hcount htotal hmax
  have hsame := (hread client hclient value hvalue).symm.trans hget
  exact (Except.ok.inj hsame).symm

end verdicts

section sample

/-- The workers of the other plane, and requests for the entity of the charge. -/
def chargePlane : Plane ℚ (Lookup (GoString → Option GoString)) GoError where
  cfg := twoWorkers.cfg
  pool := twoWorkers.pool
  client := twoWorkers.client
  authToken := twoWorkers.authToken
  ops := twoWorkers.ops
  sort := twoWorkers.sort
  wraps := twoWorkers.wraps
  requests _ := ⟨ascii "Bearer key", ascii "r", some ⟨[97], .finite 100⟩⟩
  arrival _ := 0
  value _ := ⟨(servedValues oneChargeFeatures).map .finite, .finite 100⟩
  get := redisGet decimal
  probeDeadline _ := none

def overRedis : ServingPlane.Action ℚ (Lookup (GoString → Option GoString)) →
    FeaturePath.Action ℚ (GoString → Option GoString)
  | .lookup c _ => .lookup c mapClient none
  | a => .serve a

/-- The charge is handled at the second attempt, and the request is answered by the second worker. -/
def chargeRun : List (FeaturePath.Action ℚ (GoString → Option GoString)) :=
  (.start 0 5 :: writtenTwice).map .stream ++ (failoverRun ⟨fun _ => none, mapClient, none⟩).map overRedis

lemma chargeRun_kept : ∀ a ∈ chargeRun, ClientsKept (fun state key => state key) a := by
  intro a ha
  rcases List.mem_append.mp ha with hstream | hserve
  · obtain ⟨o, ho, rfl⟩ := List.mem_map.mp hstream
    rcases List.mem_cons.mp ho with rfl | ho
    · rintro j now client ⟨⟩
    · exact writtenTwice_kept o ho
  · obtain ⟨b, -, rfl⟩ := List.mem_map.mp hserve
    cases b with
    | lookup c store => exact mapClient_reads
    | _ => trivial

lemma chargeRun_occurrences {before after : List (FeaturePath.Action ℚ (GoString → Option GoString))} {c : CallId}
    {client : RedisClient (GoString → Option GoString)} {cancelled : Option GoError}
    (h : chargeRun = before ++ .lookup c client cancelled :: after) : occurrences before = .start 0 5 :: writtenTwice := by
  have hstream (past : List (Occurrence (GoString → Option GoString))) :
      occurrences (past.map (FeaturePath.Action.stream (K := ℚ))) = past := by
    unfold occurrences
    rw [List.filterMap_map]
    exact List.filterMap_some
  unfold chargeRun at h
  rcases List.append_eq_append_iff.mp h with ⟨more, rfl, hserve⟩ | ⟨rest, hbefore, hrest⟩
  · have hnone : occurrences more = [] := by
      refine List.filterMap_eq_nil_iff.mpr fun a ha => ?_
      have hmem : a ∈ (failoverRun ⟨fun _ => none, mapClient, none⟩).map overRedis := by
        rw [hserve]
        exact List.mem_append_left _ ha
      obtain ⟨b, -, rfl⟩ := List.mem_map.mp hmem
      cases b <;> rfl
    unfold occurrences at hstream hnone ⊢
    rw [List.filterMap_append, hstream, hnone, List.append_nil]
  · cases rest with
    | nil =>
      rw [List.append_nil] at hbefore
      rw [← hbefore, hstream]
    | cons a rest =>
      cases (List.cons.inj hrest).1
      have hmem : .lookup c client cancelled ∈
          (.start 0 5 :: writtenTwice).map (FeaturePath.Action.stream (K := ℚ)) := by
        rw [hbefore]
        exact List.mem_append_right _ List.mem_cons_self
      obtain ⟨o, -, ho⟩ := List.mem_map.mp hmem
      cases ho

end sample

end FraudDetection.Proofs
