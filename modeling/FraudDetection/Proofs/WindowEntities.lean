import Mathlib.Algebra.Field.Rat
import Mathlib.Algebra.Order.Ring.Rat
import FraudDetection.Proofs.WindowInvariant

/-!
# Interference between entities

A run is compared with the run that sees only the events of one entity. The partial window
follows the full one (`Shadow`) as long as no event of the entity is suppressed by an id that
is retained for another entity; where it is, the two runs answer differently.
-/

namespace FraudDetection.Proofs
open FraudDetection.Library

variable {α : Type}

def OffsetsIncreasing (inputs : List (Event α)) : Prop :=
  inputs.Pairwise (fun a b => a.partition = b.partition → a.offset < b.offset)

def NoError (ar : Arithmetic α) (w : Window α) (inputs : List (Event α)) : Prop :=
  ∀ r ∈ (applyRun ar w inputs).1, r.isOk = true

def NoEviction (ar : Arithmetic α) : Window α → List (Event α) → Prop
  | _, [] => True
  | w, input :: rest =>
    (accepts ar w input = true → w.evictFor input = []) ∧ NoEviction ar (apply ar w input).2 rest

def eventsFor (e : GoString) (inputs : List (Event α)) : List (Event α) :=
  inputs.filter (fun input => decide (input.entityID = e))

def resultsFor (e : GoString) (inputs : List (Event α)) (results : List (ApplyResult α)) :
    List (ApplyResult α) :=
  ((inputs.zip results).filter (fun p => decide (p.1.entityID = e))).map Prod.snd

/-- No event of the entity arrives while its id is retained for another entity. -/
def NoForeignDuplicate (ar : Arithmetic α) (e : GoString) : Window α → List (Event α) → Prop
  | _, [] => True
  | w, input :: rest =>
    (input.entityID = e → input.id ∈ w.seen → input.id ∈ (w.eventsOf e).map WindowEvent.id) ∧
      NoForeignDuplicate ar e (apply ar w input).2 rest

/-- The high-water marks are below every event still to come. -/
def Ahead (w : Window α) (inputs : List (Event α)) : Prop :=
  ∀ input ∈ inputs, w.stale input = false

lemma stale_advance (w : Window α) (input next : Event α) (h : w.stale next = false)
    (hlt : input.partition = next.partition → input.offset < next.offset) :
    (w.advance input).stale next = false := by
  unfold Window.stale at h ⊢
  change ((w.offsets.insert input.partition input.offset).lookup next.partition).any _ = false
  rw [lookup_insert_ite]
  split
  · rename_i hp
    have := hlt hp.symm
    simp only [Option.any_some, decide_eq_false_iff_not]
    omega
  · exact h

lemma apply_ahead (ar : Arithmetic α) {w : Window α} {input : Event α} {rest : List (Event α)}
    (h : Ahead w (input :: rest)) (hoff : OffsetsIncreasing (input :: rest)) :
    Ahead (apply ar w input).2 rest := by
  intro next hnext
  have hold := h next (List.mem_cons_of_mem input hnext)
  obtain ⟨err, -, he⟩ | ⟨he, -⟩ | ⟨features, -, he⟩ := apply_outcome ar w input
  · rw [he]
    exact hold
  · rw [he]
    exact hold
  · rw [he]
    exact stale_advance w input next hold ((List.pairwise_cons.mp hoff).1 next hnext)

lemma makeRoom_eq_self {w : Window α} {input : Event α} (h : w.evictFor input = []) :
    w.makeRoom input = w := by
  unfold Window.makeRoom
  rw [h, if_neg (fun h => h rfl)]

/-- The partial window agrees with the full one on the entity and tracks nothing else. -/
structure Shadow (e : GoString) (w v : Window α) : Prop where
  full : WindowInvariant w
  partial_ : WindowInvariant v
  duration : v.duration = w.duration
  maxEvents : v.maxEvents = w.maxEvents
  events : v.eventsOf e = w.eventsOf e
  watermark : v.watermarkOf e = w.watermarkOf e
  only : ∀ e' ∈ v.watermark, e' = e

lemma shadow_concat {e : GoString} {w v : Window α} (h : Shadow e w v) :
    (concat v.byEntity).Perm (w.eventsOf e) := by
  have hempty : concat (v.byEntity.erase e) = [] := by
    apply List.eq_nil_iff_forall_not_mem.mpr
    intro x hx
    obtain ⟨k, l, hl, -⟩ := (mem_concat _ _).mp hx
    rw [lookup_erase_ite] at hl
    split at hl
    · cases hl
    · rename_i hne
      exact hne (h.only k ((h.partial_.tracked_iff k).mp ((mem_iff_lookup _ _).mpr ⟨l, hl⟩)))
  have hperm := concat_perm v.byEntity e
  rw [hempty, List.append_nil] at hperm
  exact h.events ▸ hperm

lemma shadow_seen {e : GoString} {w v : Window α} (h : Shadow e w v) (id : GoString) :
    id ∈ v.seen ↔ id ∈ (w.eventsOf e).map WindowEvent.id := by
  rw [h.partial_.seen_eq, List.mem_toFinset]
  exact ((shadow_concat h).map WindowEvent.id).mem_iff

lemma own_ids_seen {e : GoString} {w : Window α} (hi : WindowInvariant w) (id : GoString)
    (h : id ∈ (w.eventsOf e).map WindowEvent.id) : id ∈ w.seen := by
  rw [hi.seen_eq, List.mem_toFinset, (retainedIds_perm w e).mem_iff]
  exact List.mem_append_left _ h

lemma shadow_eventCount {e : GoString} {w v : Window α} (h : Shadow e w v) :
    v.eventCount ≤ w.eventCount := by
  have hv := h.partial_.count_eq
  have hw := h.full.count_eq
  have hlen := (shadow_concat h).length_eq
  have hsplit := length_concat_split w e
  omega

lemma shadow_evictFor {e : GoString} {w v : Window α} (h : Shadow e w v) {input : Event α}
    (he : input.entityID = e) : v.evictFor input = [] := by
  unfold Window.evictFor
  apply if_neg
  rintro ⟨hnew, hfull⟩
  have hnil : v.watermark.keys = [] := by
    apply List.eq_nil_iff_forall_not_mem.mpr
    intro k hk
    have hin := AList.mem_keys.mpr hk
    exact hnew (he ▸ h.only k hin ▸ hin)
  have hpos := h.partial_.entities_pos
  rw [hnil, List.length_nil] at hfull
  omega

lemma shadow_derived {e : GoString} {w v : Window α} (h : Shadow e w v) {input : Event α}
    (he : input.entityID = e) :
    v.nextWatermark input = w.nextWatermark input ∧ v.firstLive input = w.firstLive input ∧
      v.nextEvents input = w.nextEvents input ∧ v.cutoff input = w.cutoff input := by
  have hn : v.nextWatermark input = w.nextWatermark input := by
    unfold Window.nextWatermark
    rw [he, h.watermark]
  have hc : v.cutoff input = w.cutoff input := by
    unfold Window.cutoff
    rw [hn, h.duration]
  have hf : v.firstLive input = w.firstLive input := by
    unfold Window.firstLive
    rw [hc, he, h.events]
  refine ⟨hn, hf, ?_, hc⟩
  unfold Window.nextEvents
  rw [hc, hf, he, h.events]

lemma shadow_updates {e : GoString} {w v : Window α} (h : Shadow e w v) {input : Event α}
    (he : input.entityID = e) : v.updates input = w.updates input := by
  obtain ⟨-, hf, -, hc⟩ := shadow_derived h he
  unfold Window.updates
  rw [hf, hc]

/-- What the full window accepts without eviction, the partial one accepts alike. -/
lemma shadow_accepts {ar : Arithmetic α} {e : GoString} {w v : Window α} (h : Shadow e w v)
    {input : Event α} {features : Features α} (he : input.entityID = e)
    (ha : Accepts ar w input features) (hev : w.evictFor input = []) (hstale : v.stale input = false) :
    Accepts ar v input features := by
  obtain ⟨hn, hf, hne, hc⟩ := shadow_derived h he
  refine ⟨ha.valid, ?_, hstale, ?_, ?_⟩
  · rw [shadow_seen h]
    exact fun hid => ha.fresh (own_ids_seen h.full _ hid)
  · have hcap := ha.capacity
    have hcount := shadow_eventCount h
    rw [makeRoom_eventCount, makeRoom_eq_self hev] at hcap
    rw [makeRoom_eventCount, makeRoom_eq_self (shadow_evictFor h he), hf, hc, h.maxEvents]
    omega
  · rw [hne, hn]
    exact ha.aggregate

lemma shadow_advance_own {ar : Arithmetic α} {e : GoString} {w v : Window α} (h : Shadow e w v)
    {input : Event α} {features : Features α} (he : input.entityID = e)
    (ha : Accepts ar w input features) (ha' : Accepts ar v input features) :
    Shadow e (w.advance input) (v.advance input) := by
  obtain ⟨hn, -, hne, -⟩ := shadow_derived h he
  refine ⟨advance_invariant h.full ha, advance_invariant h.partial_ ha', ?_, ?_, ?_, ?_, ?_⟩
  · change (v.makeRoom input).duration = (w.makeRoom input).duration
    rw [makeRoom_duration, makeRoom_duration, h.duration]
  · change (v.makeRoom input).maxEvents = (w.makeRoom input).maxEvents
    rw [(makeRoom_limits v input).2, (makeRoom_limits w input).2, h.maxEvents]
  · rw [eventsOf_advance, eventsOf_advance, if_pos he.symm, if_pos he.symm, hne]
  · rw [watermarkOf_advance, watermarkOf_advance, if_pos he.symm, if_pos he.symm, hn]
  · intro e' hmem
    change e' ∈ (v.makeRoom input).watermark.insert _ _ at hmem
    rw [AList.mem_insert, makeRoom_eq_self (shadow_evictFor h he)] at hmem
    rcases hmem with rfl | hmem
    · exact he
    · exact h.only e' hmem

/-- Without eviction an event of another entity does not touch the entity. -/
lemma shadow_apply_other {ar : Arithmetic α} {e : GoString} {w v : Window α} (h : Shadow e w v)
    {input : Event α} (he : input.entityID ≠ e)
    (hev : accepts ar w input = true → w.evictFor input = []) : Shadow e (apply ar w input).2 v := by
  obtain ⟨err, -, hs⟩ | ⟨hs, -⟩ | ⟨features, ha, hs⟩ := apply_outcome ar w input
  · rw [hs]
    exact h
  · rw [hs]
    exact h
  · rw [hs]
    have hroom := makeRoom_eq_self (hev ((accepts_iff ar w input).mpr ⟨features, ha⟩))
    refine ⟨advance_invariant h.full ha, h.partial_, ?_, ?_, ?_, ?_, h.only⟩
    · change v.duration = (w.makeRoom input).duration
      rw [hroom, h.duration]
    · change v.maxEvents = (w.makeRoom input).maxEvents
      rw [hroom, h.maxEvents]
    · rw [eventsOf_advance, if_neg (Ne.symm he), hroom, h.events]
    · rw [watermarkOf_advance, if_neg (Ne.symm he), hroom, h.watermark]

/-- An event that is neither a duplicate nor stale is never answered like an ignored one. -/
lemma apply_not_ignored {ar : Arithmetic α} {w : Window α} {input : Event α}
    (hv : validEvent ar input = true) (hs : input.id ∉ w.seen) (ho : w.stale input = false) :
    (apply ar w input).1 ≠ .ok (Features.empty ar, false) := by
  obtain ⟨err, -, he⟩ | ⟨-, -, hd⟩ | ⟨features, ha, he⟩ := apply_outcome ar w input
  · rw [he]
    exact fun h => by cases h
  · rcases hd with hd | hd
    · exact absurd hd hs
    · exact absurd (ho.symm.trans hd) Bool.false_ne_true
  · rw [he]
    intro h
    have hf : features = Features.empty ar := (Prod.mk.inj (Except.ok.inj h)).1
    have hentity := (accepts_windowEnd ha).1
    rw [hf] at hentity
    exact (validEvent_fields hv).2.1 hentity.symm

lemma resultsFor_cons (e : GoString) (ar : Arithmetic α) (w : Window α) (input : Event α)
    (rest : List (Event α)) :
    resultsFor e (input :: rest) (applyRun ar w (input :: rest)).1 =
      if input.entityID = e then
        (apply ar w input).1 :: resultsFor e rest (applyRun ar (apply ar w input).2 rest).1
      else resultsFor e rest (applyRun ar (apply ar w input).2 rest).1 := by
  change ((((input, (apply ar w input).1) :: rest.zip (applyRun ar (apply ar w input).2 rest).1).filter
    (fun p => decide (p.1.entityID = e))).map Prod.snd) = _
  rw [List.filter_cons]
  by_cases he : input.entityID = e
  · simp [he, resultsFor]
  · simp [he, resultsFor]

lemma eventsFor_cons (e : GoString) (input : Event α) (rest : List (Event α)) :
    eventsFor e (input :: rest) =
      if input.entityID = e then input :: eventsFor e rest else eventsFor e rest := by
  unfold eventsFor
  rw [List.filter_cons]
  simp only [decide_eq_true_eq]

lemma noError_cons {ar : Arithmetic α} {w : Window α} {input : Event α} {rest : List (Event α)}
    (h : NoError ar w (input :: rest)) :
    (apply ar w input).1.isOk = true ∧ NoError ar (apply ar w input).2 rest :=
  ⟨h _ List.mem_cons_self, fun r hr => h r (List.mem_cons_of_mem _ hr)⟩

/-- Along a run the two windows answer alike for the entity exactly while no foreign id
suppresses one of its events. Induction on the events, with the windows in `Shadow`. -/
lemma shadow_results_iff (ar : Arithmetic α) (e : GoString) (inputs : List (Event α)) {w v : Window α}
    (h : Shadow e w v) (hoff : OffsetsIncreasing inputs) (hw : Ahead w inputs)
    (hv : Ahead v (eventsFor e inputs)) (herr : NoError ar w inputs) (hev : NoEviction ar w inputs) :
    resultsFor e inputs (applyRun ar w inputs).1 = (applyRun ar v (eventsFor e inputs)).1 ↔
      NoForeignDuplicate ar e w inputs := by
  induction inputs generalizing w v with
  | nil => exact ⟨fun _ => trivial, fun _ => rfl⟩
  | cons input rest ih =>
    have hoff' : OffsetsIncreasing rest := (List.pairwise_cons.mp hoff).2
    have hw' := apply_ahead ar hw hoff
    obtain ⟨hok, herr'⟩ := noError_cons herr
    have hev' : NoEviction ar (apply ar w input).2 rest := hev.2
    rw [resultsFor_cons]
    rw [eventsFor_cons] at hv ⊢
    by_cases he : input.entityID = e
    · rw [if_pos he] at hv ⊢
      rw [if_pos he]
      have hoffv : OffsetsIncreasing (input :: eventsFor e rest) :=
        hoff.sublist (List.Sublist.cons_cons input List.filter_sublist)
      have hv' := apply_ahead ar hv hoffv
      have hstale : v.stale input = false := hv input List.mem_cons_self
      change _ :: _ = (apply ar v input).1 :: (applyRun ar (apply ar v input).2 _).1 ↔ _ ∧ _
      rw [List.cons.injEq]
      obtain ⟨err, -, hs⟩ | ⟨hs, hvalid, hdup⟩ | ⟨features, ha, hs⟩ := apply_outcome ar w input
      · rw [hs] at hok
        exact absurd hok Bool.false_ne_true
      · have hseen : input.id ∈ w.seen := by
          rcases hdup with hdup | hdup
          · exact hdup
          · exact absurd ((hw input List.mem_cons_self).symm.trans hdup) Bool.false_ne_true
        by_cases hown : input.id ∈ (w.eventsOf e).map WindowEvent.id
        · have hsv := apply_of_duplicate hvalid ((shadow_seen h _).mpr hown)
          rw [hsv] at hv' ⊢
          rw [hs] at hw' herr' hev' ⊢
          have hrest := ih h hoff' hw' hv' herr' hev'
          exact ⟨fun heq => ⟨fun _ _ => hown, hrest.mp heq.2⟩, fun hno => ⟨rfl, hrest.mpr hno.2⟩⟩
        · have hne := apply_not_ignored hvalid (fun hin => hown ((shadow_seen h _).mp hin)) hstale
          rw [hs]
          exact ⟨fun heq => absurd heq.1.symm hne, fun hno => absurd (hno.1 he hseen) hown⟩
      · have hno := hev.1 ((accepts_iff ar w input).mpr ⟨features, ha⟩)
        have ha' := shadow_accepts h he ha hno hstale
        have hsv := apply_of_accepts ha'
        rw [shadow_updates h he] at hsv
        rw [hsv] at hv' ⊢
        rw [hs] at hw' herr' hev' ⊢
        have hrest := ih (shadow_advance_own h he ha ha') hoff' hw' hv' herr' hev'
        exact ⟨fun heq => ⟨fun _ hin => absurd hin ha.fresh, hrest.mp heq.2⟩,
          fun hno => ⟨rfl, hrest.mpr hno.2⟩⟩
    · rw [if_neg he] at hv ⊢
      rw [if_neg he]
      have hrest := ih (shadow_apply_other h he hev.1) hoff' hw' hv herr' hev'
      exact ⟨fun heq => ⟨fun hown => absurd hown he, hrest.mp heq⟩, fun hno => hrest.mpr hno.2⟩

/-- Deleting the events of the other entities leaves the results of an entity unchanged exactly
when none of its events arrives while its id is retained for another entity. -/
theorem entity_independent_iff (ar : Arithmetic α) (duration maxEntities maxEvents : Int)
    (inputs : List (Event α)) (hoff : OffsetsIncreasing inputs)
    (herr : NoError ar (newWithLimits duration maxEntities maxEvents) inputs)
    (hev : NoEviction ar (newWithLimits duration maxEntities maxEvents) inputs) (e : GoString) :
    resultsFor e inputs (applyRun ar (newWithLimits duration maxEntities maxEvents) inputs).1 =
        (applyRun ar (newWithLimits duration maxEntities maxEvents) (eventsFor e inputs)).1 ↔
      NoForeignDuplicate ar e (newWithLimits duration maxEntities maxEvents) inputs := by
  have hi := newWithLimits_invariant (α := α) duration maxEntities maxEvents
  have hstart : Shadow e (newWithLimits (α := α) duration maxEntities maxEvents)
      (newWithLimits duration maxEntities maxEvents) :=
    ⟨hi, hi, rfl, rfl, rfl, rfl, fun e' he' => absurd he' (AList.notMem_empty e')⟩
  exact shadow_results_iff ar e inputs hstart hoff (fun _ _ => rfl) (fun _ _ => rfl) herr hev

/-- Two accounts that use the same event id, on different partitions. -/
def sameIdSample : List (Event ℚ) :=
  [⟨[49], [98], 5, 100, 0, 1⟩, ⟨[49], [97], 10, 101, 1, 1⟩]

theorem entity_independent_iff_sample :
    OffsetsIncreasing sameIdSample ∧
    NoError (exactArithmetic 1000000) (newWithLimits 60 2 10) sameIdSample ∧
    NoEviction (exactArithmetic 1000000) (newWithLimits 60 2 10) sameIdSample ∧
    (resultsFor [98] sameIdSample
        (applyRun (exactArithmetic 1000000) (newWithLimits 60 2 10) sameIdSample).1 =
        (applyRun (exactArithmetic 1000000) (newWithLimits 60 2 10) (eventsFor [98] sameIdSample)).1 ↔
      NoForeignDuplicate (exactArithmetic 1000000) [98] (newWithLimits 60 2 10) sameIdSample) := by
  have hoff : OffsetsIncreasing sameIdSample := by
    unfold OffsetsIncreasing
    decide +kernel
  have herr : NoError (exactArithmetic 1000000) (newWithLimits 60 2 10) sameIdSample := by
    unfold NoError
    decide +kernel
  have hev : NoEviction (exactArithmetic 1000000) (newWithLimits 60 2 10) sameIdSample := by
    unfold sameIdSample NoEviction NoEviction NoEviction
    decide +kernel
  exact ⟨hoff, herr, hev, entity_independent_iff _ _ _ _ _ hoff herr hev _⟩

/-- The event of the second account is suppressed by the first one's id, and is accepted when
the first account's event is deleted. -/
theorem entity_interference :
    OffsetsIncreasing sameIdSample ∧
    NoError (exactArithmetic 1000000) (newWithLimits 60 2 10) sameIdSample ∧
    NoEviction (exactArithmetic 1000000) (newWithLimits 60 2 10) sameIdSample ∧
    resultsFor [97] sameIdSample
        (applyRun (exactArithmetic 1000000) (newWithLimits 60 2 10) sameIdSample).1 ≠
      (applyRun (exactArithmetic 1000000) (newWithLimits 60 2 10) (eventsFor [97] sameIdSample)).1 := by
  unfold OffsetsIncreasing NoError sameIdSample NoEviction NoEviction NoEviction
  decide +kernel

end FraudDetection.Proofs
