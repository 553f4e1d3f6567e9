import Mathlib.Algebra.Field.Rat
import Mathlib.Algebra.Order.Ring.Rat
import FraudDetection.Proofs.WindowInvariant

/-!
# The incremental window against its batch specification

`History` runs `Apply` and keeps, beside the window, the events of each entity that were
accepted since its last eviction and the last features returned for it. The batch
specification reads the watermark and the retained events off that list: `latest` and
`windowed`. With exact amounts the features are `aggregate` of the retained events.
-/

namespace FraudDetection.Proofs
open FraudDetection.Library

variable {α : Type}

/-- A window with the accepted events and the last returned features of each entity. -/
structure History (α : Type) where
  window : Window α
  accepted : GoString → List (Event α)
  last : GoString → Option (Features α)

def History.start (w : Window α) : History α :=
  ⟨w, fun _ => [], fun _ => none⟩

def returned (result : ApplyResult α) : Option (Features α) :=
  match result with
  | .ok (features, _) => some features
  | .error _ => none

/-- One call of `Apply`. An evicted entity starts again without a past. -/
def History.step (ar : Arithmetic α) (s : History α) (input : Event α) : History α :=
  match prepareLocked ar s.window input with
  | .error _ => { s with window := (apply ar s.window input).2 }
  | .ok pending =>
    if pending.accepted then
      { window := (apply ar s.window input).2
        accepted := fun e =>
          if e = input.entityID then s.accepted e ++ [input]
          else if e = pending.evictEntity then [] else s.accepted e
        last := fun e =>
          if e = input.entityID then returned (apply ar s.window input).1
          else if e = pending.evictEntity then none else s.last e }
    else { s with window := (apply ar s.window input).2 }

def historyRun (ar : Arithmetic α) (w : Window α) (inputs : List (Event α)) : History α :=
  inputs.foldl (History.step ar) (History.start w)

lemma historyRun_snoc (ar : Arithmetic α) (w : Window α) (inputs : List (Event α)) (input : Event α) :
    historyRun ar w (inputs ++ [input]) = (historyRun ar w inputs).step ar input := by
  unfold historyRun
  rw [List.foldl_append, List.foldl_cons, List.foldl_nil]

lemma step_window (ar : Arithmetic α) (s : History α) (input : Event α) :
    (s.step ar input).window = (apply ar s.window input).2 := by
  unfold History.step
  cases prepareLocked ar s.window input with
  | error err => rfl
  | ok pending => cases h : pending.accepted <;> simp [h]

lemma foldl_step_window (ar : Arithmetic α) (s : History α) (inputs : List (Event α)) :
    (inputs.foldl (History.step ar) s).window = (applyRun ar s.window inputs).2 := by
  induction inputs generalizing s with
  | nil => rfl
  | cons input inputs ih =>
    rw [List.foldl_cons, ih, step_window]
    rfl

theorem historyRun_window (ar : Arithmetic α) (w : Window α) (inputs : List (Event α)) :
    (historyRun ar w inputs).window = (applyRun ar w inputs).2 :=
  foldl_step_window ar (History.start w) inputs

lemma step_outcome (ar : Arithmetic α) (s : History α) (input : Event α) :
    (s.step ar input = s ∧ ((∃ err, (apply ar s.window input).1 = .error err) ∨
      input.id ∈ s.window.seen ∨ s.window.stale input = true)) ∨
    ∃ features, Accepts ar s.window input features ∧
      s.step ar input =
        { window := s.window.advance input
          accepted := fun e =>
            if e = input.entityID then s.accepted e ++ [input]
            else if e = s.window.evictFor input then [] else s.accepted e
          last := fun e =>
            if e = input.entityID then some features
            else if e = s.window.evictFor input then none else s.last e } := by
  obtain ⟨err, hp⟩ | ⟨hp, -, hs⟩ | ⟨features, ha, hp⟩ := prepareLocked_outcome ar s.window input
  · have he : apply ar s.window input = (.error err, s.window) := by
      unfold apply
      rw [hp]
    refine .inl ⟨?_, .inl ⟨err, by rw [he]⟩⟩
    unfold History.step
    rw [hp, he]
  · have he : apply ar s.window input = (.ok (Features.empty ar, false), s.window) := by
      unfold apply
      rw [hp]
      rfl
    refine .inl ⟨?_, .inr hs⟩
    unfold History.step
    rw [hp, he]
    rfl
  · refine .inr ⟨features, ha, ?_⟩
    unfold History.step
    rw [hp, apply_of_accepts ha]
    rfl

section specification

def latest (events : List (Event α)) : Int :=
  (events.map Event.occurredAt).foldr max 0

/-- The events at or after the cutoff, stably sorted by time. -/
def windowed (cutoff : Int) (events : List (Event α)) : List (WindowEvent α) :=
  stableSort WindowEvent.at_ ((events.map Event.retained).filter (fun x => decide (cutoff ≤ x.at_)))

lemma foldr_max_append (l : List Int) (a : Int) : (l ++ [a]).foldr max 0 = max (l.foldr max 0) a := by
  induction l with
  | nil => exact max_comm a 0
  | cons b l ih => rw [List.cons_append, List.foldr_cons, ih, List.foldr_cons, max_assoc]

lemma latest_snoc (events : List (Event α)) (input : Event α) :
    latest (events ++ [input]) = max (latest events) input.occurredAt := by
  unfold latest
  rw [List.map_append, List.map_singleton, foldr_max_append]

/-- Cutting off again later is the same as cutting off once. -/
lemma windowed_filter (cutoff cutoff' : Int) (h : cutoff ≤ cutoff') (events : List (Event α)) :
    (windowed cutoff events).filter (fun x => decide (cutoff' ≤ x.at_)) = windowed cutoff' events := by
  unfold windowed
  rw [stableSort_filter, List.filter_filter]
  congr 1
  apply List.filter_congr
  intro x _
  simp only [Bool.and_eq_left_iff_imp, decide_eq_true_eq]
  omega

lemma windowed_snoc (cutoff : Int) (events : List (Event α)) (input : Event α) :
    windowed cutoff (events ++ [input]) = if cutoff ≤ input.occurredAt then
      stableSort WindowEvent.at_ (windowed cutoff events ++ [input.retained])
      else windowed cutoff events := by
  unfold windowed
  rw [List.map_append, List.filter_append, List.map_singleton]
  by_cases h : cutoff ≤ input.occurredAt
  · have hkeep : [input.retained].filter (fun x => decide (cutoff ≤ x.at_)) = [input.retained] := by
      simp [Event.retained, h]
    rw [if_pos h, hkeep, stableSort_append_left]
  · have hdrop : [input.retained].filter (fun x => decide (cutoff ≤ x.at_)) = [] := by
      simp [Event.retained, h]
    rw [if_neg h, hdrop, List.append_nil]

lemma windowed_perm (cutoff : Int) (events : List (Event α)) :
    (windowed cutoff events).Perm
      ((events.map Event.retained).filter (fun x => decide (cutoff ≤ x.at_))) :=
  stableSort_perm WindowEvent.at_ _

end specification

structure HistoryInvariant (s : History α) : Prop where
  window : WindowInvariant s.window
  tracked : ∀ e, e ∈ s.window.watermark ↔ s.accepted e ≠ []
  watermark : ∀ e, s.window.watermarkOf e = latest (s.accepted e)
  events : ∀ e, s.window.eventsOf e = windowed (latest (s.accepted e) - s.window.duration) (s.accepted e)

lemma start_invariant (duration maxEntities maxEvents : Int) :
    HistoryInvariant (History.start (newWithLimits (α := α) duration maxEntities maxEvents)) where
  window := newWithLimits_invariant duration maxEntities maxEvents
  tracked e := ⟨fun he => absurd he (AList.notMem_empty e), fun hne => absurd rfl hne⟩
  watermark _ := rfl
  events _ := rfl

lemma nextWatermark_latest {s : History α} (hi : HistoryInvariant s) (input : Event α) :
    s.window.nextWatermark input = latest (s.accepted input.entityID ++ [input]) := by
  rw [latest_snoc, ← hi.watermark]
  unfold Window.nextWatermark
  split <;> omega

lemma nextEvents_windowed {s : History α} (hi : HistoryInvariant s) (input : Event α) :
    s.window.nextEvents input =
      windowed (s.window.cutoff input) (s.accepted input.entityID ++ [input]) := by
  have hcut : latest (s.accepted input.entityID) - s.window.duration ≤ s.window.cutoff input := by
    have hle := (watermark_le_next s.window input).1
    rw [hi.watermark] at hle
    unfold Window.cutoff
    omega
  have hlive : liveEvents s.window input =
      windowed (s.window.cutoff input) (s.accepted input.entityID) := by
    unfold liveEvents
    rw [hi.events, windowed_filter _ _ hcut]
  rw [nextEvents_eq hi.window, windowed_snoc, hlive]

/-- An accepted event keeps the window equal to its specification: the event's own entity is
extended, the evicted one forgotten, the others untouched. -/
theorem step_historyInvariant (ar : Arithmetic α) {s : History α} (hi : HistoryInvariant s)
    (input : Event α) : HistoryInvariant (s.step ar input) := by
  obtain ⟨hs, -⟩ | ⟨features, ha, hs⟩ := step_outcome ar s input
  · rw [hs]
    exact hi
  · rw [hs]
    refine ⟨advance_invariant hi.window ha, ?_, ?_, ?_⟩
    · intro e
      change e ∈ (s.window.makeRoom input).watermark.insert _ _ ↔
        (if e = input.entityID then _ else if e = s.window.evictFor input then [] else _) ≠ []
      rw [AList.mem_insert, makeRoom_watermark_mem hi.window]
      by_cases he : e = input.entityID
      · simp [he]
      · rw [if_neg he]
        by_cases hev : e = s.window.evictFor input
        · rw [if_pos hev]
          exact ⟨fun h => absurd hev (h.resolve_left he).1, fun h => absurd rfl h⟩
        · rw [if_neg hev, ← hi.tracked]
          simp [he, hev]
    · intro e
      change (s.window.advance input).watermarkOf e = latest (if e = input.entityID then _ else
        if e = s.window.evictFor input then [] else _)
      rw [watermarkOf_advance]
      by_cases he : e = input.entityID
      · rw [if_pos he, if_pos he, he]
        exact nextWatermark_latest hi input
      · rw [if_neg he, if_neg he]
        by_cases hev : e = s.window.evictFor input
        · rw [if_pos hev, hev, (makeRoom_of_evicted hi.window input).2]
          rfl
        · rw [if_neg hev, (makeRoom_of_ne input hev).2]
          exact hi.watermark e
    · intro e
      change (s.window.advance input).eventsOf e = windowed (latest (if e = input.entityID then _ else
        if e = s.window.evictFor input then [] else _) - (s.window.makeRoom input).duration)
        (if e = input.entityID then _ else if e = s.window.evictFor input then [] else _)
      rw [eventsOf_advance, makeRoom_duration]
      by_cases he : e = input.entityID
      · rw [if_pos he, if_pos he, he, nextEvents_windowed hi, Window.cutoff, nextWatermark_latest hi]
      · rw [if_neg he, if_neg he]
        by_cases hev : e = s.window.evictFor input
        · rw [if_pos hev, hev, (makeRoom_of_evicted hi.window input).1]
          rfl
        · rw [if_neg hev, (makeRoom_of_ne input hev).1]
          exact hi.events e

theorem historyRun_invariant (ar : Arithmetic α) (duration maxEntities maxEvents : Int)
    (inputs : List (Event α)) :
    HistoryInvariant (historyRun ar (newWithLimits duration maxEntities maxEvents) inputs) := by
  induction inputs using List.reverseRecOn with
  | nil => exact start_invariant duration maxEntities maxEvents
  | append_singleton inputs input ih =>
    rw [historyRun_snoc]
    exact step_historyInvariant ar ih input

lemma lookup_of_tracked {w : Window α} (hi : WindowInvariant w) {e : GoString} (he : e ∈ w.watermark) :
    w.watermark.lookup e = some (w.watermarkOf e) ∧ w.byEntity.lookup e = some (w.eventsOf e) := by
  obtain ⟨t, ht⟩ := (mem_iff_lookup _ _).mp he
  obtain ⟨l, hl⟩ := (mem_iff_lookup _ _).mp ((hi.tracked_iff e).mpr he)
  unfold Window.watermarkOf Window.eventsOf
  rw [ht, hl]
  exact ⟨rfl, rfl⟩

section exact

variable {K : Type} [Field K] [LinearOrder K]

def aggregate (entity : GoString) (windowEnd : Int) (events : List (WindowEvent K)) : Features K :=
  ⟨entity, events.length, (events.map WindowEvent.amount).sum,
    (events.map WindowEvent.amount).foldr max 0, windowEnd⟩

lemma foldr_max_nonneg (l : List K) : 0 ≤ l.foldr max 0 := by
  induction l with
  | nil => exact le_refl 0
  | cons a l ih => exact ih.trans (le_max_right a _)

lemma foldl_max_eq (l : List K) (a : K) (ha : 0 ≤ a) : l.foldl max a = max a (l.foldr max 0) := by
  induction l generalizing a with
  | nil => exact (max_eq_left ha).symm
  | cons b l ih => rw [List.foldl_cons, ih _ (ha.trans (le_max_left a b)), List.foldr_cons, max_assoc]

lemma max_exact (maxFloat64 a b : K) :
    (if (exactArithmetic maxFloat64).lt a b then b else a) = max a b := by
  simp only [exactArithmetic, decide_eq_true_eq]
  split
  · rename_i h
    rw [max_eq_right h.le]
  · rename_i h
    rw [max_eq_left (not_lt.mp h)]

/-- The aggregation loop, when it does not overflow, computes sum and maximum. -/
lemma accumulate_exact (maxFloat64 : K) (events : List (WindowEvent K)) (start features : Features K)
    (h : accumulate (exactArithmetic maxFloat64) events start = .ok features) :
    features = { start with
      totalAmount := start.totalAmount + (events.map WindowEvent.amount).sum
      maxAmount := (events.map WindowEvent.amount).foldl max start.maxAmount } := by
  induction events generalizing start with
  | nil =>
    rw [accumulate] at h
    rw [← Except.ok.inj h]
    simp
  | cons item rest ih =>
    rw [accumulate] at h
    split at h
    · cases h
    · rw [ih _ h, max_exact]
      simp [exactArithmetic, add_assoc]

lemma accepts_features {maxFloat64 : K} {w : Window K} {input : Event K} {features : Features K}
    (ha : Accepts (exactArithmetic maxFloat64) w input features) :
    features = aggregate input.entityID (w.nextWatermark input) (w.nextEvents input) := by
  rw [accumulate_exact maxFloat64 _ _ _ ha.aggregate]
  simp only [aggregate, exactArithmetic, zero_add]
  rw [foldl_max_eq _ 0 le_rfl, max_eq_right (foldr_max_nonneg _)]

lemma snapshot_fold (maxFloat64 : K) (cutoff : Int) (events : List (WindowEvent K)) (start : Features K) :
    events.foldl (snapshotStep (exactArithmetic maxFloat64) cutoff) start =
      let kept := events.filter (fun x => decide (cutoff ≤ x.at_))
      { start with
        eventCount := start.eventCount + kept.length
        totalAmount := start.totalAmount + (kept.map WindowEvent.amount).sum
        maxAmount := (kept.map WindowEvent.amount).foldl max start.maxAmount } := by
  induction events generalizing start with
  | nil => simp
  | cons item rest ih =>
    rw [List.foldl_cons, ih]
    by_cases h : cutoff ≤ item.at_
    · have hstep : snapshotStep (exactArithmetic maxFloat64) cutoff start item =
          { start with
            eventCount := start.eventCount + 1
            totalAmount := start.totalAmount + item.amount
            maxAmount := max start.maxAmount item.amount } := by
        unfold snapshotStep
        rw [if_neg (not_lt.mpr h), max_exact]
        rfl
      rw [hstep, List.filter_cons_of_pos (by simpa using h)]
      simp [add_assoc, Nat.add_comm 1]
    · have hstep : snapshotStep (exactArithmetic maxFloat64) cutoff start item = start := by
        unfold snapshotStep
        rw [if_pos (not_le.mp h)]
      rw [hstep, List.filter_cons_of_neg (by simpa using h)]

lemma snapshot_exact (maxFloat64 : K) (w : Window K) (entity : GoString) (now : Int)
    (hne : w.eventsOf entity ≠ []) :
    snapshot (exactArithmetic maxFloat64) w entity now =
      (aggregate entity (max now (w.watermarkOf entity)) ((w.eventsOf entity).filter
        (fun x => decide (max now (w.watermarkOf entity) - w.duration ≤ x.at_))), true) := by
  have hmax : (if w.watermarkOf entity < now then now else w.watermarkOf entity) =
      max now (w.watermarkOf entity) := by
    split <;> omega
  unfold snapshot
  simp only [hmax]
  rw [if_neg (fun h => hne (List.length_eq_zero_iff.mp h)), snapshot_fold]
  simp only [aggregate, exactArithmetic, zero_add]
  rw [foldl_max_eq _ 0 le_rfl, max_eq_right (foldr_max_nonneg _)]

lemma foldr_max_perm {l l' : List K} (h : l.Perm l') : l.foldr max 0 = l'.foldr max 0 := by
  have hcomm : LeftCommutative (max : K → K → K) := ⟨max_left_comm⟩
  exact h.foldr_eq 0

lemma aggregate_perm (entity : GoString) (windowEnd : Int) {l l' : List (WindowEvent K)}
    (h : l.Perm l') : aggregate entity windowEnd l = aggregate entity windowEnd l' := by
  unfold aggregate
  rw [h.length_eq, (h.map WindowEvent.amount).sum_eq, foldr_max_perm (h.map WindowEvent.amount)]

/-- The last features returned for a tracked entity aggregate its retained events. -/
def LastExact (s : History K) : Prop :=
  ∀ e ∈ s.window.watermark, s.last e = some (aggregate e (s.window.watermarkOf e) (s.window.eventsOf e))

lemma step_lastExact (maxFloat64 : K) {s : History K} (hi : WindowInvariant s.window)
    (hl : LastExact s) (input : Event K) : LastExact (s.step (exactArithmetic maxFloat64) input) := by
  obtain ⟨hs, -⟩ | ⟨features, ha, hs⟩ := step_outcome (exactArithmetic maxFloat64) s input
  · rw [hs]
    exact hl
  · rw [hs]
    intro e he
    change e ∈ (s.window.makeRoom input).watermark.insert _ _ at he
    change (if e = input.entityID then some features else
      if e = s.window.evictFor input then none else s.last e) =
      some (aggregate e ((s.window.advance input).watermarkOf e) ((s.window.advance input).eventsOf e))
    rw [AList.mem_insert, makeRoom_watermark_mem hi] at he
    rw [watermarkOf_advance, eventsOf_advance]
    by_cases hown : e = input.entityID
    · rw [if_pos hown, if_pos hown, if_pos hown, accepts_features ha, hown]
    · obtain ⟨hev, hin⟩ := he.resolve_left hown
      rw [if_neg hown, if_neg hown, if_neg hown, if_neg hev, (makeRoom_of_ne input hev).1,
        (makeRoom_of_ne input hev).2]
      exact hl e hin

lemma historyRun_lastExact (maxFloat64 : K) (duration maxEntities maxEvents : Int)
    (inputs : List (Event K)) :
    LastExact (historyRun (exactArithmetic maxFloat64) (newWithLimits duration maxEntities maxEvents) inputs) := by
  induction inputs using List.reverseRecOn with
  | nil => exact fun e he => absurd he (AList.notMem_empty e)
  | append_singleton inputs input ih =>
    rw [historyRun_snoc]
    exact step_lastExact maxFloat64 (historyRun_invariant _ _ _ _ inputs).window ih input

/-- Incremental equals batch. For every run from an empty window and every tracked entity, with
`A` its accepted events since its last eviction: the watermark is the latest time of `A`, the
retained list is the stable sort of the events of `A` inside the window, the last features
returned aggregate that list, and a snapshot aggregates the events inside its own window. -/
theorem window_refines_batch (maxFloat64 : K) (duration maxEntities maxEvents : Int)
    (inputs : List (Event K)) (e : GoString) :
    let ar := exactArithmetic maxFloat64
    let s := historyRun ar (newWithLimits duration maxEntities maxEvents) inputs
    let A := s.accepted e
    e ∈ s.window.watermark →
      s.window.watermark.lookup e = some (latest A) ∧
      s.window.byEntity.lookup e = some (windowed (latest A - s.window.duration) A) ∧
      s.last e = some (aggregate e (latest A) (windowed (latest A - s.window.duration) A)) ∧
      ∀ now, windowed (latest A - s.window.duration) A ≠ [] →
        snapshot ar s.window e now = (aggregate e (max now (latest A))
          ((A.map Event.retained).filter
            (fun x => decide (max now (latest A) - s.window.duration ≤ x.at_))), true) := by
  intro ar s A he
  have hi : HistoryInvariant s := historyRun_invariant ar duration maxEntities maxEvents inputs
  have hl : LastExact s := historyRun_lastExact maxFloat64 duration maxEntities maxEvents inputs
  obtain ⟨hw, hb⟩ := lookup_of_tracked hi.window he
  have hlast := hl e he
  rw [hi.watermark] at hw hlast
  rw [hi.events] at hb hlast
  refine ⟨hw, hb, hlast, ?_⟩
  intro now hne
  have hsnap := snapshot_exact maxFloat64 s.window e now (by rw [hi.events]; exact hne)
  rw [hi.watermark, hi.events, windowed_filter _ _ (by omega)] at hsnap
  rw [hsnap, aggregate_perm e _ (windowed_perm _ _)]

/-- A late event of one entity between two events of a window of sixty nanoseconds. -/
def lateSample : List (Event ℚ) :=
  [⟨[49], [97], 10, 100, 0, 1⟩, ⟨[50], [97], 5, 70, 0, 2⟩, ⟨[51], [98], 7, 90, 1, 1⟩]

theorem window_refines_batch_late :
    let s := historyRun (exactArithmetic 1000000) (newWithLimits 60 2 10) lateSample
    [97] ∈ s.window.watermark ∧ s.window.watermark.lookup [97] = some (latest (s.accepted [97])) ∧
      s.last [97] = some (aggregate [97] (latest (s.accepted [97]))
        (windowed (latest (s.accepted [97]) - s.window.duration) (s.accepted [97]))) := by
  have he : [97] ∈ (historyRun (exactArithmetic 1000000) (newWithLimits 60 2 10)
      lateSample).window.watermark := by decide +kernel
  obtain ⟨hw, -, hl, -⟩ := window_refines_batch 1000000 60 2 10 lateSample [97] he
  exact ⟨he, hw, hl⟩

end exact

end FraudDetection.Proofs
