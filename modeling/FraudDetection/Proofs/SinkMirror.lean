import FraudDetection.FeatureVector
import FraudDetection.Proofs.WindowDelivery

/-!
# The sink mirrors the window

Calls of `ApplyAndMaterialize` against one `MemoryMaterializer`. For every entity that the window
tracks with events, the sink holds what `Snapshot` reads off the window at the entity's own
watermark. The aggregation loop and the loop of `Snapshot` do the same operations in the same
order, so this holds for every arithmetic on the amounts.
-/

namespace FraudDetection.Proofs
open FraudDetection.Library FraudDetection.FeatureVector

variable {α : Type} {ar : Arithmetic α} {w : Window α} {input : Event α} {features : Features α}

def Attempt.serve (ar : Arithmetic α) (s : Window α × MemoryMaterializer α) (a : Attempt α) :
    Window α × MemoryMaterializer α :=
  (applyAndMaterialize ar s.1 a.input (some (memoryPut ar a.outcome)) s.2).2

def servingRun (ar : Arithmetic α) (s : Window α × MemoryMaterializer α) (attempts : List (Attempt α)) :
    Window α × MemoryMaterializer α :=
  attempts.foldl (Attempt.serve ar) s

section aggregation

/-- The loop of `Snapshot` skips nothing in the window and ends where `prepareLocked` did. -/
lemma foldl_snapshotStep {cutoff : Int} {events : List (WindowEvent α)}
    (hlive : ∀ x ∈ events, cutoff ≤ x.at_) {start : Features α} (n : Nat)
    (h : accumulate ar events start = .ok features) :
    events.foldl (snapshotStep ar cutoff) { start with eventCount := n } =
      { features with eventCount := n + events.length } := by
  induction events generalizing start n with
  | nil =>
    rw [accumulate] at h
    rw [← Except.ok.inj h]
    rfl
  | cons item rest ih =>
    rw [accumulate] at h
    split at h
    · cases h
    · have hitem : ¬ item.at_ < cutoff := not_lt.mpr (hlive item List.mem_cons_self)
      have hrest := ih (fun x hx => hlive x (List.mem_cons_of_mem item hx)) (n + 1) h
      rw [List.foldl_cons, snapshotStep, if_neg hitem, List.length_cons, Nat.add_comm rest.length 1,
        ← Nat.add_assoc, ← hrest]

lemma accumulate_eventCount {events : List (WindowEvent α)} {start : Features α}
    (h : accumulate ar events start = .ok features) : features.eventCount = start.eventCount := by
  induction events generalizing start with
  | nil =>
    rw [accumulate] at h
    rw [Except.ok.inj h]
  | cons item rest ih =>
    rw [accumulate] at h
    split at h
    · cases h
    · have hrest := ih h
      exact hrest

lemma snapshot_congr {w' : Window α} {e : GoString} (hevents : w'.eventsOf e = w.eventsOf e)
    (hwatermark : w'.watermarkOf e = w.watermarkOf e) (hduration : w'.duration = w.duration) :
    snapshot ar w' e (w'.watermarkOf e) = snapshot ar w e (w.watermarkOf e) := by
  unfold snapshot
  rw [hevents, hwatermark, hduration]

lemma advance_duration (w : Window α) (input : Event α) : (w.advance input).duration = w.duration :=
  makeRoom_duration w input

/-- The features of an accepted event are the snapshot of the window it leaves. -/
lemma snapshot_advance (hi : WindowInvariant w) (ha : Accepts ar w input features)
    (hne : w.nextEvents input ≠ []) :
    snapshot ar (w.advance input) input.entityID ((w.advance input).watermarkOf input.entityID) =
      (features, true) := by
  have hevents : (w.advance input).eventsOf input.entityID = w.nextEvents input := by
    rw [eventsOf_advance, if_pos rfl]
  have hwatermark : (w.advance input).watermarkOf input.entityID = w.nextWatermark input := by
    rw [watermarkOf_advance, if_pos rfl]
  have hlive : ∀ x ∈ w.nextEvents input, w.nextWatermark input - w.duration ≤ x.at_ :=
    fun x hx => (nextEvents_in_window hi input x hx).1
  have hcount : features.eventCount = (w.nextEvents input).length := accumulate_eventCount ha.aggregate
  have hfold := foldl_snapshotStep hlive 0 ha.aggregate
  unfold snapshot
  rw [hevents, hwatermark, advance_duration, ite_self, if_neg (fun h => hne (List.length_eq_zero_iff.mp h)), hfold,
    Nat.zero_add, ← hcount]

end aggregation

section mirror

/-- What the sink holds for an entity is the snapshot of the window at the entity's watermark. -/
structure Mirrors (ar : Arithmetic α) (s : Window α × MemoryMaterializer α) : Prop where
  window : WindowInvariant s.1
  stored : ∀ e, s.1.eventsOf e ≠ [] → memoryGet ar s.2 e = snapshot ar s.1 e (s.1.watermarkOf e)

lemma memoryPut_outcome (ar : Arithmetic α) (cancelled : Option GoError) (values : MemoryMaterializer α)
    (features : Features α) :
    (∃ err, memoryPut ar cancelled values features = (some err, values)) ∨
      memoryPut ar cancelled values features = (none, values.insert features.entityID features) := by
  unfold memoryPut
  cases cancelled with
  | some err => exact .inl ⟨err, rfl⟩
  | none =>
    cases h : validateMaterializedFeatures ar features with
    | some err => exact .inl ⟨err, rfl⟩
    | none => exact .inr rfl

lemma memoryGet_insert (values : MemoryMaterializer α) (features : Features α) (e : GoString) :
    memoryGet ar (values.insert features.entityID features) e =
      if e = features.entityID then (features, true) else memoryGet ar values e := by
  unfold memoryGet
  rw [lookup_insert_ite]
  by_cases h : e = features.entityID
  · rw [if_pos h, if_pos h]
  · rw [if_neg h, if_neg h]

/-- An event that changes nothing leaves the events and the watermark of its entity as they were. -/
lemma unchanged_of_not_updates (hi : WindowInvariant w) (h : w.updates input = false) :
    w.nextEvents input = w.eventsOf input.entityID ∧ w.nextWatermark input = w.watermarkOf input.entityID := by
  unfold Window.updates at h
  simp only [Bool.or_eq_false_iff, decide_eq_false_iff_not, Nat.not_lt, Nat.le_zero] at h
  obtain ⟨hlate, hfirst⟩ := h
  have hduration := hi.duration_pos
  constructor
  · unfold Window.nextEvents
    rw [if_neg hlate, hfirst, List.drop_zero]
  · unfold Window.cutoff at hlate
    unfold Window.nextWatermark at hlate ⊢
    split at hlate
    · omega
    · rename_i hle
      rw [if_neg hle]

/-- The other entities keep their events and their watermark, except for the evicted one. -/
lemma advance_other (hi : WindowInvariant w) {e : GoString} (he : e ≠ input.entityID)
    (hne : (w.advance input).eventsOf e ≠ []) :
    (w.advance input).eventsOf e = w.eventsOf e ∧ (w.advance input).watermarkOf e = w.watermarkOf e := by
  rw [eventsOf_advance, if_neg he] at hne ⊢
  rw [watermarkOf_advance, if_neg he]
  by_cases hev : e = w.evictFor input
  · rw [hev, (makeRoom_of_evicted hi input).1] at hne
    exact absurd rfl hne
  · exact makeRoom_of_ne input hev

lemma mirrors_advance {values values' : MemoryMaterializer α} (hm : Mirrors ar (w, values))
    (ha : Accepts ar w input features)
    (hown : w.nextEvents input ≠ [] → memoryGet ar values' input.entityID = (features, true))
    (hothers : ∀ e, e ≠ input.entityID → memoryGet ar values' e = memoryGet ar values e) :
    Mirrors ar (w.advance input, values') := by
  refine ⟨advance_invariant hm.window ha, fun e hne => ?_⟩
  change (w.advance input).eventsOf e ≠ [] at hne
  change memoryGet ar values' e = snapshot ar (w.advance input) e ((w.advance input).watermarkOf e)
  by_cases he : e = input.entityID
  · subst he
    rw [eventsOf_advance, if_pos rfl] at hne
    rw [hown hne, snapshot_advance hm.window ha hne]
  · obtain ⟨hevents, hwatermark⟩ := advance_other hm.window he hne
    rw [hothers e he, snapshot_congr hevents hwatermark (advance_duration w input)]
    rw [hevents] at hne
    exact hm.stored e hne

lemma serve_mirrors {s : Window α × MemoryMaterializer α} (hm : Mirrors ar s) (a : Attempt α) :
    Mirrors ar (a.serve ar s) := by
  obtain ⟨w, values⟩ := s
  unfold Attempt.serve
  obtain ⟨err, -, he⟩ | ⟨he, -⟩ | ⟨features, ha, hput⟩ :=
    materialize_outcome ar w a.input (memoryPut ar a.outcome) values
  · rw [he]
    exact hm
  · rw [he]
    exact hm
  · obtain ⟨hentity, -⟩ := accepts_windowEnd ha
    have houtcome := memoryPut_outcome ar a.outcome values features
    obtain ⟨-, err, hp, he⟩ | ⟨-, hp, he⟩ | ⟨hu, he⟩ := hput
    · rw [he]
      obtain ⟨_, hfails⟩ | hstores := houtcome
      · rw [hfails]
        exact hm
      · rw [hstores] at hp
        cases hp
    · rw [he]
      obtain ⟨_, hfails⟩ | hstores := houtcome
      · rw [hfails] at hp
        cases hp
      · rw [hstores]
        refine mirrors_advance hm ha (fun _ => ?_) fun e he => ?_
        · rw [memoryGet_insert, if_pos hentity.symm]
        · rw [memoryGet_insert, hentity, if_neg he]
    · rw [he]
      -- the features were skipped because the sink has them already
      refine mirrors_advance hm ha (fun hne => ?_) fun _ _ => rfl
      obtain ⟨hevents, hwatermark⟩ := unchanged_of_not_updates hm.window hu
      have hsnapshot := snapshot_advance hm.window ha hne
      rw [snapshot_congr (w := w) (by rw [eventsOf_advance, if_pos rfl, hevents])
        (by rw [watermarkOf_advance, if_pos rfl, hwatermark]) (advance_duration w a.input)] at hsnapshot
      rw [hevents] at hne
      rw [← hsnapshot]
      exact hm.stored _ hne

lemma servingRun_mirrors {s : Window α × MemoryMaterializer α} (attempts : List (Attempt α))
    (hm : Mirrors ar s) : Mirrors ar (servingRun ar s attempts) := by
  induction attempts generalizing s with
  | nil => exact hm
  | cons a attempts ih => exact ih (serve_mirrors hm a)

/-- For every run against one sink, whatever it held before and whichever of its `Put`s fail: a
tracked entity with events has in the sink what `Snapshot` returns at its watermark. -/
theorem sink_mirrors_window (ar : Arithmetic α) (duration maxEntities maxEvents : Int)
    (values : MemoryMaterializer α) (attempts : List (Attempt α)) (e : GoString) (t : Int) :
    let s := servingRun ar (newWithLimits duration maxEntities maxEvents, values) attempts
    s.1.watermark.lookup e = some t → s.1.eventsOf e ≠ [] →
      memoryGet ar s.2 e = snapshot ar s.1 e t ∧ (snapshot ar s.1 e t).2 = true := by
  intro s ht hne
  have hstart : Mirrors ar ((newWithLimits duration maxEntities maxEvents, values) : Window α × _) :=
    ⟨newWithLimits_invariant duration maxEntities maxEvents, fun e he => absurd rfl he⟩
  have hm : Mirrors ar s := servingRun_mirrors attempts hstart
  have hwatermark : s.1.watermarkOf e = t := by
    unfold Window.watermarkOf
    rw [ht]
    rfl
  have hstored := hm.stored e hne
  rw [hwatermark] at hstored
  refine ⟨hstored, ?_⟩
  unfold snapshot
  rw [if_neg (fun h => hne (List.length_eq_zero_iff.mp h))]

/-- A `Put` that fails, a late event that is not put, and an entity evicted and created again. -/
theorem sink_mirrors_window_recreated :
    let attempts : List (Attempt ℚ) := [⟨eventA, some ⟨"timeout"⟩⟩, ⟨eventA, none⟩, ⟨eventB, none⟩,
      ⟨eventAOld, none⟩, ⟨⟨[52], [97], 3, -100, 3, 1⟩, none⟩]
    let s := servingRun (exactArithmetic 1000000) (newWithLimits 60 1 10, ∅) attempts
    s.1.watermark.lookup [97] = some 50 ∧
      memoryGet (exactArithmetic 1000000) s.2 [97] = snapshot (exactArithmetic 1000000) s.1 [97] 50 := by
  intro attempts s
  have hwatermark : s.1.watermark.lookup [97] = some 50 := by decide +kernel
  have hne : s.1.eventsOf [97] ≠ [] := by decide +kernel
  exact ⟨hwatermark, (sink_mirrors_window _ 60 1 10 ∅ attempts [97] 50 hwatermark hne).1⟩

end mirror

end FraudDetection.Proofs
