import FraudDetection.Proofs.WindowBatch
import FraudDetection.Proofs.WindowEntities

/-!
# Arrival order

With distinct ids, increasing offsets, no error and no eviction every event is accepted, so the
history of an entity is the list of its events in arrival order. What the batch specification
reads off that list does not depend on the order.
-/

namespace FraudDetection.Proofs
open FraudDetection.Library

variable {α : Type}

def highWater (p : Int) (inputs : List (Event α)) : Option Int :=
  ((inputs.filter (fun input => decide (input.partition = p))).map Event.offset).getLast?

lemma highWater_cons (p : Int) (input : Event α) (rest : List (Event α)) :
    highWater p (input :: rest) =
      (highWater p rest).or (if p = input.partition then some input.offset else none) := by
  unfold highWater
  rw [List.filter_cons]
  by_cases hp : input.partition = p
  · rw [if_pos (by simpa using hp), if_pos hp.symm, List.map_cons, List.getLast?_cons]
    cases (List.map Event.offset _).getLast? <;> rfl
  · rw [if_neg (by simpa using hp), if_neg (Ne.symm hp), Option.or_none]

lemma advance_seen (w : Window α) (input : Event α) :
    (w.advance input).seen ⊆ insert input.id w.seen := by
  have hroom := makeRoom_seen w input
  unfold Window.advance
  dsimp only
  split
  · exact Finset.insert_subset_insert _ (Finset.sdiff_subset.trans hroom)
  · exact Finset.sdiff_subset.trans (hroom.trans (Finset.subset_insert _ _))

/-- What an in-order run without error and eviction leaves: the history of each entity is the
list of its events, and the marks are the last offsets. -/
lemma foldl_step_accepts_all (ar : Arithmetic α) (inputs : List (Event α)) (s : History α)
    (hi : WindowInvariant s.window) (hoff : OffsetsIncreasing inputs) (hahead : Ahead s.window inputs)
    (hids : (inputs.map Event.id).Nodup) (hunseen : ∀ input ∈ inputs, input.id ∉ s.window.seen)
    (herr : NoError ar s.window inputs) (hev : NoEviction ar s.window inputs) :
    (∀ e ≠ [], (inputs.foldl (History.step ar) s).accepted e = s.accepted e ++ eventsFor e inputs) ∧
      ∀ p, (inputs.foldl (History.step ar) s).window.offsets.lookup p =
        (highWater p inputs).or (s.window.offsets.lookup p) := by
  induction inputs generalizing s with
  | nil => exact ⟨fun e _ => (List.append_nil _).symm, fun p => rfl⟩
  | cons input rest ih =>
    obtain ⟨hok, herr'⟩ := noError_cons herr
    obtain ⟨hnew, hids'⟩ := List.nodup_cons.mp hids
    have hfresh := hunseen input List.mem_cons_self
    have hcurrent := hahead input List.mem_cons_self
    have hahead' := apply_ahead ar hahead hoff
    have hev' : NoEviction ar (apply ar s.window input).2 rest := hev.2
    rw [List.foldl_cons]
    obtain ⟨-, ⟨err, he⟩ | hseen | hstale⟩ | ⟨features, ha, hs⟩ := step_outcome ar s input
    · rw [he] at hok
      exact absurd hok Bool.false_ne_true
    · exact absurd hseen hfresh
    · exact absurd (hcurrent.symm.trans hstale) Bool.false_ne_true
    · have hnone := hev.1 ((accepts_iff ar _ _).mpr ⟨features, ha⟩)
      have hwindow : (s.step ar input).window = s.window.advance input := by rw [hs]
      rw [← step_window] at herr' hahead' hev'
      have hunseen' : ∀ next ∈ rest, next.id ∉ (s.step ar input).window.seen := by
        intro next hnext hin
        rw [hwindow] at hin
        rcases Finset.mem_insert.mp (advance_seen s.window input hin) with heq | hold
        · exact hnew (heq ▸ List.mem_map_of_mem hnext)
        · exact hunseen next (List.mem_cons_of_mem _ hnext) hold
      obtain ⟨hacc, hmark⟩ := ih (s.step ar input) (hwindow ▸ advance_invariant hi ha)
        (List.pairwise_cons.mp hoff).2 hahead' hids' hunseen' herr' hev'
      constructor
      · intro e hne
        rw [hacc e hne, eventsFor_cons, hs]
        change (if e = input.entityID then _ else if e = s.window.evictFor input then [] else _) ++ _ = _
        by_cases he : e = input.entityID
        · rw [if_pos he, if_pos he.symm, List.append_assoc, List.singleton_append]
        · rw [if_neg he, hnone, if_neg hne, if_neg (fun h => he h.symm)]
      · intro p
        rw [hmark p, highWater_cons, Option.or_assoc, hwindow]
        congr 1
        change (s.window.offsets.insert input.partition input.offset).lookup p = _
        rw [lookup_insert_ite]
        split <;> rfl

lemma historyRun_accepts_all (ar : Arithmetic α) (duration maxEntities maxEvents : Int)
    (inputs : List (Event α)) (hoff : OffsetsIncreasing inputs) (hids : (inputs.map Event.id).Nodup)
    (herr : NoError ar (newWithLimits duration maxEntities maxEvents) inputs)
    (hev : NoEviction ar (newWithLimits duration maxEntities maxEvents) inputs) :
    (∀ e ≠ [], (historyRun ar (newWithLimits duration maxEntities maxEvents) inputs).accepted e =
      eventsFor e inputs) ∧
    ∀ p, (historyRun ar (newWithLimits duration maxEntities maxEvents) inputs).window.offsets.lookup p =
      highWater p inputs := by
  obtain ⟨hacc, hmark⟩ := foldl_step_accepts_all ar inputs
    (History.start (newWithLimits duration maxEntities maxEvents))
    (newWithLimits_invariant duration maxEntities maxEvents) hoff (fun _ _ => rfl) hids
    (fun _ _ => Finset.notMem_empty _) herr hev
  refine ⟨fun e he => (hacc e he).trans (List.nil_append _), fun p => (hmark p).trans ?_⟩
  exact Option.or_none

lemma highWater_perm {inputs inputs' : List (Event α)} (hperm : inputs.Perm inputs')
    (hoff : OffsetsIncreasing inputs) (hoff' : OffsetsIncreasing inputs') (p : Int) :
    highWater p inputs = highWater p inputs' := by
  have hsorted : ∀ l : List (Event α), OffsetsIncreasing l →
      ((l.filter (fun input => decide (input.partition = p))).map Event.offset).Pairwise (· < ·) := by
    intro l hl
    apply List.pairwise_map.mpr
    apply (hl.filter _).imp_of_mem
    intro a b ha hb hab
    have hpa := of_decide_eq_true (List.mem_filter.mp ha).2
    have hpb := of_decide_eq_true (List.mem_filter.mp hb).2
    exact hab (hpa.trans hpb.symm)
  unfold highWater
  rw [((hperm.filter _).map Event.offset).eq_of_pairwise (fun _ _ _ _ h h' => absurd h' h.asymm)
    (hsorted inputs hoff) (hsorted inputs' hoff')]

lemma window_of_accepted {s s' : History α} (hi : HistoryInvariant s) (hi' : HistoryInvariant s')
    (hd : s.window.duration = s'.window.duration)
    (hacc : ∀ e, (s.accepted e).Perm (s'.accepted e)) (e : GoString) :
    (e ∈ s.window.watermark ↔ e ∈ s'.window.watermark) ∧
      s.window.watermarkOf e = s'.window.watermarkOf e ∧
      (s.window.eventsOf e).Perm (s'.window.eventsOf e) := by
  have hlatest : latest (s.accepted e) = latest (s'.accepted e) := by
    have hcomm : LeftCommutative (max : Int → Int → Int) := ⟨max_left_comm⟩
    exact ((hacc e).map Event.occurredAt).foldr_eq 0
  refine ⟨?_, ?_, ?_⟩
  · rw [hi.tracked, hi'.tracked, ← List.length_pos_iff, ← List.length_pos_iff, (hacc e).length_eq]
  · rw [hi.watermark, hi'.watermark, hlatest]
  · rw [hi.events, hi'.events, hd, hlatest]
    exact (windowed_perm _ _).trans ((((hacc e).map _).filter _).trans (windowed_perm _ _).symm)

lemma mem_seen_iff {w : Window α} (hi : WindowInvariant w) (id : GoString) :
    id ∈ w.seen ↔ ∃ e, id ∈ (w.eventsOf e).map WindowEvent.id := by
  constructor
  · intro h
    rw [hi.seen_eq, List.mem_toFinset] at h
    obtain ⟨x, hx, rfl⟩ := List.mem_map.mp h
    obtain ⟨e, events, he, hin⟩ := (mem_concat _ _).mp hx
    refine ⟨e, List.mem_map_of_mem ?_⟩
    unfold Window.eventsOf
    rw [he]
    exact hin
  · rintro ⟨e, he⟩
    exact own_ids_seen hi id he

lemma eventCount_eq_card {w : Window α} (hi : WindowInvariant w) : w.eventCount = w.seen.card := by
  rw [hi.count_eq, hi.seen_eq, List.toFinset_card_of_nodup hi.ids_nodup]
  unfold retainedIds
  rw [List.length_map]

lemma lookup_watermark {w : Window α} (hi : WindowInvariant w) (e : GoString) :
    w.watermark.lookup e = if e ∈ w.watermark then some (w.watermarkOf e) else none := by
  split
  · rename_i he
    exact (lookup_of_tracked hi he).1
  · rename_i he
    exact AList.lookup_eq_none.mpr he

lemma historyRun_duration (ar : Arithmetic α) (w : Window α) (inputs : List (Event α)) :
    (historyRun ar w inputs).window.duration = w.duration := by
  induction inputs using List.reverseRecOn with
  | nil => rfl
  | append_singleton inputs input ih =>
    rw [historyRun_snoc]
    obtain ⟨hs, -⟩ | ⟨features, -, hs⟩ := step_outcome ar (historyRun ar w inputs) input
    · rw [hs, ih]
    · rw [hs]
      exact (makeRoom_duration _ input).trans ih

lemma accepted_perm (ar : Arithmetic α) (duration maxEntities maxEvents : Int)
    {inputs inputs' : List (Event α)} (hperm : inputs.Perm inputs')
    (hids : (inputs.map Event.id).Nodup) (hoff : OffsetsIncreasing inputs)
    (hoff' : OffsetsIncreasing inputs')
    (herr : NoError ar (newWithLimits duration maxEntities maxEvents) inputs)
    (herr' : NoError ar (newWithLimits duration maxEntities maxEvents) inputs')
    (hev : NoEviction ar (newWithLimits duration maxEntities maxEvents) inputs)
    (hev' : NoEviction ar (newWithLimits duration maxEntities maxEvents) inputs') (e : GoString) :
    ((historyRun ar (newWithLimits duration maxEntities maxEvents) inputs).accepted e).Perm
      ((historyRun ar (newWithLimits duration maxEntities maxEvents) inputs').accepted e) := by
  by_cases hne : e = []
  · -- no event of the unnamed entity is ever accepted
    have hnil : ∀ l : List (Event α),
        (historyRun ar (newWithLimits duration maxEntities maxEvents) l).accepted e = [] := by
      intro l
      have hi := historyRun_invariant ar duration maxEntities maxEvents l
      by_contra h
      exact hi.window.named e ((hi.tracked e).mpr h) hne
    rw [hnil inputs, hnil inputs']
  · have hids' : (inputs'.map Event.id).Nodup := (hperm.map Event.id).nodup_iff.mp hids
    rw [(historyRun_accepts_all ar _ _ _ inputs hoff hids herr hev).1 e hne,
      (historyRun_accepts_all ar _ _ _ inputs' hoff' hids' herr' hev').1 e hne]
    exact hperm.filter _

lemma snapshot_perm {K : Type} [Field K] [LinearOrder K] (maxFloat64 : K) {w w' : Window K}
    {e : GoString} (hd : w.duration = w'.duration) (hw : w.watermarkOf e = w'.watermarkOf e)
    (hevents : (w.eventsOf e).Perm (w'.eventsOf e)) (now : Int) :
    snapshot (exactArithmetic maxFloat64) w e now = snapshot (exactArithmetic maxFloat64) w' e now := by
  by_cases hnil : w.eventsOf e = []
  · have hnil' : w'.eventsOf e = [] := (hnil ▸ hevents).nil_eq.symm
    unfold snapshot
    simp only [hnil, hnil', List.length_nil, if_true]
  · have hnil' : w'.eventsOf e ≠ [] := fun h => hnil (h ▸ hevents).eq_nil
    rw [snapshot_exact maxFloat64 w e now hnil, snapshot_exact maxFloat64 w' e now hnil', hw, hd,
      aggregate_perm e _ (hevents.filter _)]

/-- Arrival order does not matter. Two orders of the same events with distinct ids, both with
increasing offsets in every partition and without error or eviction, leave windows that agree
on everything but the order of events within the retained lists; with exact amounts the last
features of every entity and all snapshots agree. -/
theorem arrival_order_irrelevant {K : Type} [Field K] [LinearOrder K] (ar : Arithmetic K)
    (duration maxEntities maxEvents : Int) (inputs inputs' : List (Event K))
    (hperm : inputs.Perm inputs') (hids : (inputs.map Event.id).Nodup)
    (hoff : OffsetsIncreasing inputs) (hoff' : OffsetsIncreasing inputs')
    (herr : NoError ar (newWithLimits duration maxEntities maxEvents) inputs)
    (herr' : NoError ar (newWithLimits duration maxEntities maxEvents) inputs')
    (hev : NoEviction ar (newWithLimits duration maxEntities maxEvents) inputs)
    (hev' : NoEviction ar (newWithLimits duration maxEntities maxEvents) inputs') :
    let s := historyRun ar (newWithLimits duration maxEntities maxEvents) inputs
    let s' := historyRun ar (newWithLimits duration maxEntities maxEvents) inputs'
    let w := (applyRun ar (newWithLimits duration maxEntities maxEvents) inputs).2
    let w' := (applyRun ar (newWithLimits duration maxEntities maxEvents) inputs').2
    (∀ e, w.watermark.lookup e = w'.watermark.lookup e) ∧
      w.seen = w'.seen ∧
      (∀ p, w.offsets.lookup p = w'.offsets.lookup p) ∧
      (∀ e, w.lastActive.lookup e = w'.lastActive.lookup e) ∧
      w.eventCount = w'.eventCount ∧
      (∀ e, (w.eventsOf e).Perm (w'.eventsOf e)) ∧
      ∀ maxFloat64, ar = exactArithmetic maxFloat64 →
        (∀ e ∈ w.watermark, s.last e = s'.last e) ∧ ∀ e now, snapshot ar w e now = snapshot ar w' e now := by
  intro s s' w w'
  have hw : s.window = w := historyRun_window ar _ inputs
  have hw' : s'.window = w' := historyRun_window ar _ inputs'
  have hi : HistoryInvariant s := historyRun_invariant ar duration maxEntities maxEvents inputs
  have hi' : HistoryInvariant s' := historyRun_invariant ar duration maxEntities maxEvents inputs'
  have hd : s.window.duration = s'.window.duration :=
    (historyRun_duration ar _ inputs).trans (historyRun_duration ar _ inputs').symm
  have hsame := window_of_accepted hi hi' hd
    (accepted_perm ar duration maxEntities maxEvents hperm hids hoff hoff' herr herr' hev hev')
  rw [← hw, ← hw']
  have hwatermark : ∀ e, s.window.watermark.lookup e = s'.window.watermark.lookup e := by
    intro e
    rw [lookup_watermark hi.window, lookup_watermark hi'.window, (hsame e).2.1]
    simp only [(hsame e).1]
  have hseen : s.window.seen = s'.window.seen := by
    ext id
    rw [mem_seen_iff hi.window, mem_seen_iff hi'.window]
    exact exists_congr fun e => ((hsame e).2.2.map WindowEvent.id).mem_iff
  refine ⟨hwatermark, hseen, ?_, ?_, ?_, fun e => (hsame e).2.2, ?_⟩
  · intro p
    have hids' : (inputs'.map Event.id).Nodup := (hperm.map Event.id).nodup_iff.mp hids
    rw [(historyRun_accepts_all ar _ _ _ inputs hoff hids herr hev).2 p,
      (historyRun_accepts_all ar _ _ _ inputs' hoff' hids' herr' hev').2 p]
    exact highWater_perm hperm hoff hoff' p
  · intro e
    rw [hi.window.lastActive_eq, hi'.window.lastActive_eq, hwatermark]
  · rw [eventCount_eq_card hi.window, eventCount_eq_card hi'.window, hseen]
  · rintro maxFloat64 rfl
    constructor
    · intro e he
      rw [historyRun_lastExact maxFloat64 _ _ _ inputs e he,
        historyRun_lastExact maxFloat64 _ _ _ inputs' e ((hsame e).1.mp he), (hsame e).2.1]
      exact congrArg some (aggregate_perm e _ (hsame e).2.2)
    · intro e now
      exact snapshot_perm maxFloat64 hd (hsame e).2.1 (hsame e).2.2 now

/-- The same four events with the partitions interleaved differently; one is late. -/
def orderSample : List (Event ℚ) :=
  [⟨[49], [97], 10, 100, 0, 1⟩, ⟨[50], [97], 5, 70, 1, 1⟩, ⟨[51], [98], 7, 90, 1, 2⟩,
    ⟨[52], [97], 3, 150, 0, 2⟩]

def orderSample' : List (Event ℚ) :=
  [⟨[49], [97], 10, 100, 0, 1⟩, ⟨[52], [97], 3, 150, 0, 2⟩, ⟨[50], [97], 5, 70, 1, 1⟩,
    ⟨[51], [98], 7, 90, 1, 2⟩]

theorem arrival_order_irrelevant_sample :
    let w := newWithLimits 60 2 10
    let ar := exactArithmetic (1000000 : ℚ)
    (applyRun ar w orderSample).2.seen = (applyRun ar w orderSample').2.seen ∧
      snapshot ar (applyRun ar w orderSample).2 [97] 0 =
        snapshot ar (applyRun ar w orderSample').2 [97] 0 := by
  obtain ⟨-, hseen, -, -, -, -, hexact⟩ := arrival_order_irrelevant (exactArithmetic (1000000 : ℚ)) 60 2 10
    orderSample orderSample' (by decide +kernel) (by decide +kernel) (by unfold OffsetsIncreasing; decide +kernel)
    (by unfold OffsetsIncreasing; decide +kernel) (by unfold NoError; decide +kernel)
    (by unfold NoError; decide +kernel) (by simp only [NoEviction, orderSample]; decide +kernel)
    (by simp only [NoEviction, orderSample']; decide +kernel)
  exact ⟨hseen, (hexact 1000000 rfl).2 [97] 0⟩

end FraudDetection.Proofs
