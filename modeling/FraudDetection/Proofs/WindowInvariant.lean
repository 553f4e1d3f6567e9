import Mathlib.Data.Int.Interval
import FraudDetection.Proofs.WindowStep

/-!
# Representation invariant of the window

The six pieces of redundant state of a window agree after every call. Eviction and the
admission of the event are treated separately: each keeps `WindowInvariant`, and an accepted
event does one after the other.
-/

namespace FraudDetection.Proofs
open FraudDetection.Library

variable {α σ : Type}

def retainedIds (w : Window α) : List GoString :=
  (concat w.byEntity).map WindowEvent.id

/-- The relations between the fields of a window that every call keeps. -/
structure WindowInvariant (w : Window α) : Prop where
  duration_pos : 0 < w.duration
  entities_pos : 1 ≤ w.maxEntities
  tracked_iff : ∀ e, e ∈ w.byEntity ↔ e ∈ w.watermark
  lastActive_eq : ∀ e, w.lastActive.lookup e = w.watermark.lookup e
  entity_bound : (w.watermark.keys.length : Int) ≤ w.maxEntities
  named : ∀ e ∈ w.watermark, e ≠ []
  sorted : ∀ e, SortedBy WindowEvent.at_ (w.eventsOf e)
  in_window : ∀ e, ∀ x ∈ w.eventsOf e, w.watermarkOf e - w.duration ≤ x.at_ ∧ x.at_ ≤ w.watermarkOf e
  ids_nodup : (retainedIds w).Nodup
  seen_eq : w.seen = (retainedIds w).toFinset
  count_eq : w.eventCount = (concat w.byEntity).length
  count_bound : w.eventCount ≤ w.maxEvents
  partitions : ∀ p ∈ w.offsets, 0 ≤ p ∧ p < maxTrackedPartitions

lemma newWithLimits_invariant (duration maxEntities maxEvents : Int) :
    WindowInvariant (newWithLimits (α := α) duration maxEntities maxEvents) where
  duration_pos := by
    change 0 < (if duration ≤ 0 then _ else duration)
    split <;> omega
  entities_pos := by
    change 1 ≤ (if maxEntities < 1 then 1 else maxEntities)
    split <;> omega
  tracked_iff e := by simp [newWithLimits, AList.notMem_empty]
  lastActive_eq e := rfl
  entity_bound := by
    change (0 : Int) ≤ (if maxEntities < 1 then 1 else maxEntities)
    split <;> omega
  named e he := absurd he (AList.notMem_empty e)
  sorted e := List.Pairwise.nil
  in_window e x hx := absurd hx List.not_mem_nil
  ids_nodup := List.nodup_nil
  seen_eq := rfl
  count_eq := rfl
  count_bound := by
    change (0 : Int) ≤ (if maxEvents < 1 then 1 else maxEvents)
    split <;> omega
  partitions p hp := absurd hp (AList.notMem_empty p)

lemma retainedIds_perm (w : Window α) (e : GoString) :
    (retainedIds w).Perm
      ((w.eventsOf e).map WindowEvent.id ++ (concat (w.byEntity.erase e)).map WindowEvent.id) := by
  unfold retainedIds Window.eventsOf
  rw [← List.map_append]
  exact (concat_perm w.byEntity e).map WindowEvent.id

lemma length_concat_split (w : Window α) (e : GoString) :
    (concat w.byEntity).length = (w.eventsOf e).length + (concat (w.byEntity.erase e)).length := by
  rw [(concat_perm w.byEntity e).length_eq, List.length_append]
  rfl

lemma eventsOf_evict (w : Window α) (e e' : GoString) :
    (evictEntityLocked w e).eventsOf e' = if e' = e then [] else w.eventsOf e' := by
  unfold Window.eventsOf evictEntityLocked
  rw [lookup_erase_ite]
  split <;> rfl

lemma watermarkOf_evict (w : Window α) (e e' : GoString) :
    (evictEntityLocked w e).watermarkOf e' = if e' = e then 0 else w.watermarkOf e' := by
  unfold Window.watermarkOf evictEntityLocked
  rw [lookup_erase_ite]
  split <;> rfl

/-- Dropping one entity drops exactly its ids from the deduplication set. -/
lemma seen_sdiff_eq {w : Window α} (hi : WindowInvariant w) (e : GoString) :
    w.seen \ ((w.eventsOf e).map WindowEvent.id).toFinset =
      ((concat (w.byEntity.erase e)).map WindowEvent.id).toFinset := by
  have hperm := retainedIds_perm w e
  have hnodup := hperm.nodup_iff.mp hi.ids_nodup
  have hdisj := List.disjoint_of_nodup_append hnodup
  rw [hi.seen_eq, List.toFinset_eq_of_perm _ _ hperm, List.toFinset_append]
  exact Finset.union_sdiff_cancel_left (List.disjoint_toFinset_iff_disjoint.mpr hdisj)

lemma evict_invariant {w : Window α} (hi : WindowInvariant w) (e : GoString) :
    WindowInvariant (evictEntityLocked w e) where
  duration_pos := hi.duration_pos
  entities_pos := hi.entities_pos
  tracked_iff e' := by
    change e' ∈ w.byEntity.erase e ↔ e' ∈ w.watermark.erase e
    rw [AList.mem_erase, AList.mem_erase, hi.tracked_iff]
  lastActive_eq e' := by
    change (w.lastActive.erase e).lookup e' = (w.watermark.erase e).lookup e'
    rw [lookup_erase_ite, lookup_erase_ite, hi.lastActive_eq]
  entity_bound := by
    change ((w.watermark.erase e).keys.length : Int) ≤ w.maxEntities
    have hlen := length_keys_erase w.watermark e
    have hb := hi.entity_bound
    omega
  named e' he' := hi.named e' (AList.mem_erase.mp he').2
  sorted e' := by
    rw [eventsOf_evict]
    split
    · exact List.Pairwise.nil
    · exact hi.sorted e'
  in_window e' x hx := by
    rw [eventsOf_evict] at hx
    rw [watermarkOf_evict]
    split at hx
    · exact absurd hx List.not_mem_nil
    · rename_i hne
      rw [if_neg hne]
      exact hi.in_window e' x hx
  ids_nodup := by
    have hnodup := (retainedIds_perm w e).nodup_iff.mp hi.ids_nodup
    exact (List.nodup_append.mp hnodup).2.1
  seen_eq := seen_sdiff_eq hi e
  count_eq := by
    change w.eventCount - _ = ((concat (w.byEntity.erase e)).length : Int)
    have hlen := length_concat_split w e
    have hc := hi.count_eq
    omega
  count_bound := by
    change w.eventCount - ((w.eventsOf e).length : Int) ≤ w.maxEvents
    have hb := hi.count_bound
    omega
  partitions := hi.partitions

lemma oldest_tracked {w : Window α} (hi : WindowInvariant w) (hne : 0 < w.watermark.keys.length) :
    oldestEntityLocked w.lastActive ∈ w.watermark := by
  have hmem : ∀ e, e ∈ w.lastActive ↔ e ∈ w.watermark := fun e => by
    rw [mem_iff_lookup, mem_iff_lookup, hi.lastActive_eq]
  have hlen := (keys_perm_of_mem_iff _ _ hmem).length_eq
  have hkeys : w.lastActive.keys ≠ [] := by
    intro hnil
    rw [hnil, List.length_nil] at hlen
    omega
  obtain ⟨t, ht, -⟩ := oldestEntityLocked_spec w.lastActive
    (fun e he => hi.named e ((hmem e).mp he)) hkeys
  exact (hmem _).mp ((mem_iff_lookup _ _).mpr ⟨t, ht⟩)

lemma evictFor_tracked {w : Window α} (hi : WindowInvariant w) {input : Event α}
    (h : w.evictFor input ≠ []) :
    w.evictFor input ∈ w.watermark ∧ w.evictFor input ≠ input.entityID ∧
      input.entityID ∉ w.watermark := by
  have hpos := hi.entities_pos
  unfold Window.evictFor at h ⊢
  by_cases hfull : input.entityID ∉ w.watermark ∧ w.maxEntities ≤ w.watermark.keys.length
  · rw [if_pos hfull]
    have hin := oldest_tracked hi (by omega)
    exact ⟨hin, fun heq => hfull.1 (heq ▸ hin), hfull.1⟩
  · rw [if_neg hfull] at h
    exact absurd rfl h

lemma evictFor_ne_nil {w : Window α} (hi : WindowInvariant w) {input : Event α}
    (hnew : input.entityID ∉ w.watermark) (hfull : w.maxEntities ≤ w.watermark.keys.length) :
    w.evictFor input ≠ [] := by
  have hpos := hi.entities_pos
  unfold Window.evictFor
  rw [if_pos ⟨hnew, hfull⟩]
  exact hi.named _ (oldest_tracked hi (by omega))

lemma makeRoom_invariant {w : Window α} (hi : WindowInvariant w) (input : Event α) :
    WindowInvariant (w.makeRoom input) := by
  unfold Window.makeRoom
  split
  · exact evict_invariant hi _
  · exact hi

lemma makeRoom_entity {w : Window α} (hi : WindowInvariant w) (input : Event α) :
    (w.makeRoom input).eventsOf input.entityID = w.eventsOf input.entityID ∧
      (w.makeRoom input).watermarkOf input.entityID = w.watermarkOf input.entityID := by
  unfold Window.makeRoom
  split
  · rename_i h
    have hne := (evictFor_tracked hi h).2.1
    rw [eventsOf_evict, watermarkOf_evict, if_neg (Ne.symm hne), if_neg (Ne.symm hne)]
    exact ⟨rfl, rfl⟩
  · exact ⟨rfl, rfl⟩

lemma makeRoom_watermark_mem {w : Window α} (hi : WindowInvariant w) (input : Event α) (e : GoString) :
    e ∈ (w.makeRoom input).watermark ↔ e ≠ w.evictFor input ∧ e ∈ w.watermark := by
  unfold Window.makeRoom
  split
  · exact AList.mem_erase
  · rename_i h
    rw [not_not.mp h]
    exact ⟨fun he => ⟨hi.named e he, he⟩, fun he => he.2⟩

lemma makeRoom_of_ne {w : Window α} (input : Event α) {e : GoString} (h : e ≠ w.evictFor input) :
    (w.makeRoom input).eventsOf e = w.eventsOf e ∧ (w.makeRoom input).watermarkOf e = w.watermarkOf e := by
  unfold Window.makeRoom
  split
  · rw [eventsOf_evict, watermarkOf_evict, if_neg h, if_neg h]
    exact ⟨rfl, rfl⟩
  · exact ⟨rfl, rfl⟩

lemma makeRoom_of_evicted {w : Window α} (hi : WindowInvariant w) (input : Event α) :
    (w.makeRoom input).eventsOf (w.evictFor input) = [] ∧
      (w.makeRoom input).watermarkOf (w.evictFor input) = 0 := by
  unfold Window.makeRoom
  split
  · rw [eventsOf_evict, watermarkOf_evict, if_pos rfl, if_pos rfl]
    exact ⟨rfl, rfl⟩
  · rename_i h
    rw [not_not.mp h]
    have hun : [] ∉ w.watermark := fun h => hi.named [] h rfl
    have hev : [] ∉ w.byEntity := fun h => hun ((hi.tracked_iff []).mp h)
    unfold Window.eventsOf Window.watermarkOf
    rw [AList.lookup_eq_none.mpr hun, AList.lookup_eq_none.mpr hev]
    exact ⟨rfl, rfl⟩

lemma makeRoom_seen (w : Window α) (input : Event α) : (w.makeRoom input).seen ⊆ w.seen := by
  unfold Window.makeRoom
  split
  · exact Finset.sdiff_subset
  · exact Finset.Subset.refl _

/-- After making room there is a place for the entity of the event. -/
lemma makeRoom_room {w : Window α} (hi : WindowInvariant w) (input : Event α) :
    (((w.makeRoom input).watermark.erase input.entityID).keys.length : Int) + 1 ≤ w.maxEntities := by
  have hb := hi.entity_bound
  have herase := length_keys_erase w.watermark input.entityID
  unfold Window.makeRoom
  by_cases hknown : input.entityID ∈ w.watermark
  · have hev : w.evictFor input = [] := by
      unfold Window.evictFor
      rw [if_neg (fun h => h.1 hknown)]
    rw [hev, if_neg (by simp)]
    rw [if_pos hknown] at herase
    have hpos : 0 < w.watermark.keys.length := List.length_pos_of_mem (AList.mem_keys.mp hknown)
    omega
  · rw [if_neg hknown] at herase
    by_cases hfull : w.maxEntities ≤ w.watermark.keys.length
    · have hev := evictFor_ne_nil hi hknown hfull
      obtain ⟨hin, -, -⟩ := evictFor_tracked hi hev
      rw [if_pos hev]
      change (((w.watermark.erase (w.evictFor input)).erase input.entityID).keys.length : Int) + 1 ≤ _
      have h1 := length_keys_erase w.watermark (w.evictFor input)
      have h2 := length_keys_erase (w.watermark.erase (w.evictFor input)) input.entityID
      rw [if_pos hin] at h1
      have hpos : 0 < w.watermark.keys.length := List.length_pos_of_mem (AList.mem_keys.mp hin)
      omega
    · have hev : w.evictFor input = [] := by
        unfold Window.evictFor
        rw [if_neg (fun h => hfull h.2)]
      rw [hev, if_neg (by simp)]
      omega

lemma makeRoom_eventCount (w : Window α) (input : Event α) :
    w.projectedEventCount input = (w.makeRoom input).eventCount - w.firstLive input +
      (if w.cutoff input ≤ input.occurredAt then 1 else 0) := by
  unfold Window.projectedEventCount Window.makeRoom
  split
  · change _ = w.eventCount - _ - _ + _
    omega
  · omega

def liveEvents (w : Window α) (input : Event α) : List (WindowEvent α) :=
  (w.eventsOf input.entityID).filter (fun x => decide (w.cutoff input ≤ x.at_))

def deadEvents (w : Window α) (input : Event α) : List (WindowEvent α) :=
  (w.eventsOf input.entityID).filter (fun x => !decide (w.cutoff input ≤ x.at_))

/-- Binary search finds the cut between expired and live events because the list is sorted. -/
lemma firstLive_split {w : Window α} (hi : WindowInvariant w) (input : Event α) :
    w.firstLive input = (deadEvents w input).length ∧
      (w.eventsOf input.entityID).take (w.firstLive input) = deadEvents w input ∧
      (w.eventsOf input.entityID).drop (w.firstLive input) = liveEvents w input := by
  apply searchList_split
  apply (hi.sorted input.entityID).imp
  intro a b hab ha
  simp only [decide_eq_true_eq] at ha ⊢
  omega

lemma nextEvents_eq {w : Window α} (hi : WindowInvariant w) (input : Event α) :
    w.nextEvents input = if w.cutoff input ≤ input.occurredAt then
      stableSort WindowEvent.at_ (liveEvents w input ++ [input.retained]) else liveEvents w input := by
  unfold Window.nextEvents
  rw [(firstLive_split hi input).2.2]

lemma nextEvents_perm {w : Window α} (hi : WindowInvariant w) (input : Event α) :
    (w.nextEvents input).Perm
      (liveEvents w input ++ if w.cutoff input ≤ input.occurredAt then [input.retained] else []) := by
  rw [nextEvents_eq hi]
  split
  · exact stableSort_perm _ _
  · rw [List.append_nil]

lemma length_eventsOf (w : Window α) (input : Event α) :
    (w.eventsOf input.entityID).length = (liveEvents w input).length + (deadEvents w input).length := by
  unfold liveEvents deadEvents
  rw [← List.length_append, (List.filter_append_perm _ _).length_eq]

lemma length_nextEvents {w : Window α} (hi : WindowInvariant w) (input : Event α) :
    ((w.nextEvents input).length : Int) = (liveEvents w input).length +
      if w.cutoff input ≤ input.occurredAt then 1 else 0 := by
  rw [(nextEvents_perm hi input).length_eq, List.length_append]
  split <;> simp

lemma watermark_le_next (w : Window α) (input : Event α) :
    w.watermarkOf input.entityID ≤ w.nextWatermark input ∧ input.occurredAt ≤ w.nextWatermark input := by
  unfold Window.nextWatermark
  split <;> omega

lemma nextEvents_sorted {w : Window α} (hi : WindowInvariant w) (input : Event α) :
    SortedBy WindowEvent.at_ (w.nextEvents input) := by
  rw [nextEvents_eq hi]
  split
  · exact stableSort_sorted _ _
  · exact (hi.sorted input.entityID).filter _

lemma nextEvents_in_window {w : Window α} (hi : WindowInvariant w) (input : Event α)
    (x : WindowEvent α) (hx : x ∈ w.nextEvents input) :
    w.nextWatermark input - w.duration ≤ x.at_ ∧ x.at_ ≤ w.nextWatermark input := by
  have hw := watermark_le_next w input
  rw [(nextEvents_perm hi input).mem_iff, List.mem_append] at hx
  rcases hx with hx | hx
  · obtain ⟨hmem, hcut⟩ := List.mem_filter.mp hx
    have hold := (hi.in_window _ x hmem).2
    exact ⟨of_decide_eq_true hcut, by omega⟩
  · split at hx
    · rename_i hcut
      rw [List.mem_singleton.mp hx]
      exact ⟨hcut, hw.2⟩
    · exact absurd hx List.not_mem_nil

lemma eventsOf_advance (w : Window α) (input : Event α) (e : GoString) :
    (w.advance input).eventsOf e =
      if e = input.entityID then w.nextEvents input else (w.makeRoom input).eventsOf e := by
  change (((w.makeRoom input).byEntity.insert input.entityID (w.nextEvents input)).lookup e).getD [] = _
  rw [lookup_insert_ite]
  split <;> rfl

lemma watermarkOf_advance (w : Window α) (input : Event α) (e : GoString) :
    (w.advance input).watermarkOf e =
      if e = input.entityID then w.nextWatermark input else (w.makeRoom input).watermarkOf e := by
  change (((w.makeRoom input).watermark.insert input.entityID (w.nextWatermark input)).lookup e).getD 0 = _
  rw [lookup_insert_ite]
  split <;> rfl

lemma validEvent_fields {ar : Arithmetic α} {input : Event α} (h : validEvent ar input = true) :
    input.id ≠ [] ∧ input.entityID ≠ [] ∧ 0 ≤ input.partition ∧
      input.partition < maxTrackedPartitions := by
  unfold validEvent at h
  simp only [Bool.and_eq_true, decide_eq_true_eq] at h
  tauto

/-- The ids outside the entity of the event, after room was made. -/
def otherIds (w : Window α) (input : Event α) : List GoString :=
  (concat ((w.makeRoom input).byEntity.erase input.entityID)).map WindowEvent.id

/-- The ids retained before the event: expired, surviving, and those of other entities. -/
lemma retainedIds_makeRoom {w : Window α} (hi : WindowInvariant w) (input : Event α) :
    (retainedIds (w.makeRoom input)).Perm ((deadEvents w input).map WindowEvent.id ++
      ((liveEvents w input).map WindowEvent.id ++ otherIds w input)) := by
  apply (retainedIds_perm (w.makeRoom input) input.entityID).trans
  rw [(makeRoom_entity hi input).1, ← List.append_assoc]
  apply List.Perm.append_right
  rw [← List.map_append]
  exact ((List.perm_append_comm.trans (List.filter_append_perm _ _)).map _).symm

lemma retainedIds_advance {w : Window α} (hi : WindowInvariant w) (input : Event α) :
    (retainedIds (w.advance input)).Perm ((if w.cutoff input ≤ input.occurredAt then [input.id] else []) ++
      ((liveEvents w input).map WindowEvent.id ++ otherIds w input)) := by
  have hconcat : retainedIds (w.advance input) =
      (w.nextEvents input).map WindowEvent.id ++ otherIds w input := by
    change (concat ((w.makeRoom input).byEntity.insert input.entityID (w.nextEvents input))).map _ = _
    rw [concat_insert, List.map_append]
    rfl
  rw [hconcat, ← List.append_assoc]
  apply List.Perm.append_right
  apply ((nextEvents_perm hi input).map WindowEvent.id).trans
  rw [List.map_append]
  split
  · exact List.perm_append_comm
  · simp

/-- The ids that stay in `seen` when the expired ones leave. -/
lemma seen_sdiff_expiredIds {w : Window α} (hi : WindowInvariant w) (input : Event α) :
    (w.makeRoom input).seen \ (w.expiredIds input).toFinset =
      ((liveEvents w input).map WindowEvent.id ++ otherIds w input).toFinset := by
  have hv := makeRoom_invariant hi input
  have hbefore := retainedIds_makeRoom hi input
  have hdisj := List.disjoint_of_nodup_append (hbefore.nodup_iff.mp hv.ids_nodup)
  have hdead : w.expiredIds input = (deadEvents w input).map WindowEvent.id := by
    unfold Window.expiredIds
    rw [(firstLive_split hi input).2.1]
  rw [hdead, hv.seen_eq, List.toFinset_eq_of_perm _ _ hbefore, List.toFinset_append]
  exact Finset.union_sdiff_cancel_left (List.disjoint_toFinset_iff_disjoint.mpr hdisj)

theorem advance_invariant {ar : Arithmetic α} {w : Window α} {input : Event α} {features : Features α}
    (hi : WindowInvariant w) (ha : Accepts ar w input features) : WindowInvariant (w.advance input) := by
  obtain ⟨-, hentity, hpart⟩ := validEvent_fields ha.valid
  have hv := makeRoom_invariant hi input
  have hbefore := retainedIds_makeRoom hi input
  have hafter := retainedIds_advance hi input
  have hnodup := hbefore.nodup_iff.mp hv.ids_nodup
  have hfresh : input.id ∉ (liveEvents w input).map WindowEvent.id ++ otherIds w input := by
    intro h
    apply ha.fresh
    apply makeRoom_seen w input
    rw [hv.seen_eq, List.mem_toFinset, hbefore.mem_iff]
    exact List.mem_append_right _ h
  have hsplit := firstLive_split hi input
  have hlen := length_nextEvents hi input
  have hold := length_eventsOf w input
  exact {
    duration_pos := hv.duration_pos
    entities_pos := hv.entities_pos
    tracked_iff := fun e => by
      change e ∈ (w.makeRoom input).byEntity.insert _ _ ↔ e ∈ (w.makeRoom input).watermark.insert _ _
      rw [AList.mem_insert, AList.mem_insert, hv.tracked_iff]
    lastActive_eq := fun e => by
      change ((w.makeRoom input).lastActive.insert _ _).lookup e =
        ((w.makeRoom input).watermark.insert _ _).lookup e
      rw [lookup_insert_ite, lookup_insert_ite, hv.lastActive_eq]
    entity_bound := by
      change (((w.makeRoom input).watermark.insert _ _).keys.length : Int) ≤ (w.makeRoom input).maxEntities
      rw [length_keys_insert, (makeRoom_limits w input).1]
      have hroom := makeRoom_room hi input
      omega
    named := fun e he => by
      rcases (AList.mem_insert _).mp he with rfl | he
      · exact hentity
      · exact hv.named e he
    sorted := fun e => by
      rw [eventsOf_advance]
      split
      · exact nextEvents_sorted hi input
      · exact hv.sorted e
    in_window := fun e x hx => by
      rw [eventsOf_advance] at hx
      rw [watermarkOf_advance]
      change _ - (w.makeRoom input).duration ≤ _ ∧ _
      split at hx
      · rename_i he
        rw [if_pos he, makeRoom_duration]
        exact nextEvents_in_window hi input x hx
      · rename_i he
        rw [if_neg he]
        exact hv.in_window e x hx
    ids_nodup := by
      rw [hafter.nodup_iff]
      have hkept := (List.nodup_append.mp hnodup).2.1
      split
      · exact List.nodup_cons.mpr ⟨hfresh, hkept⟩
      · exact hkept
    seen_eq := by
      change (if w.cutoff input ≤ input.occurredAt then _ else _) = _
      rw [seen_sdiff_expiredIds hi input, List.toFinset_eq_of_perm _ _ hafter]
      split
      · rw [List.singleton_append, List.toFinset_cons]
      · rw [List.nil_append]
    count_eq := by
      change (w.makeRoom input).eventCount + _ - _ =
        ((concat ((w.makeRoom input).byEntity.insert _ _)).length : Int)
      have hcount := hv.count_eq
      have hconcat := length_concat_split (w.makeRoom input) input.entityID
      rw [concat_insert, List.length_append]
      omega
    count_bound := by
      change (w.makeRoom input).eventCount + _ - _ ≤ (w.makeRoom input).maxEvents
      have hcap := ha.capacity
      rw [makeRoom_eventCount] at hcap
      rw [(makeRoom_limits w input).2, (makeRoom_entity hi input).1]
      omega
    partitions := fun p hp => by
      rcases (AList.mem_insert _).mp hp with rfl | hp
      · exact hpart
      · exact hi.partitions p hp }

/-- One call on a window; a sink may be nil and its `Put` may fail. -/
inductive WindowCall (σ α : Type) where
  | apply (input : Event α)
  | applyAndMaterialize (input : Event α) (sink : Option (Materializer σ α))

def WindowCall.run (ar : Arithmetic α) : WindowCall σ α → Window α × σ → Window α × σ
  | .apply input, (w, state) => ((FraudDetection.apply ar w input).2, state)
  | .applyAndMaterialize input sink, (w, state) =>
    (FraudDetection.applyAndMaterialize ar w input sink state).2

def runCalls (ar : Arithmetic α) (calls : List (WindowCall σ α)) (start : Window α × σ) : Window α × σ :=
  calls.foldl (fun s call => call.run ar s) start

def WindowCall.input : WindowCall σ α → Event α
  | .apply input => input
  | .applyAndMaterialize input _ => input

/-- Whatever the call and its sink, the window stays or advances by an accepted event. -/
lemma WindowCall.run_window (ar : Arithmetic α) (call : WindowCall σ α) (s : Window α × σ) :
    (call.run ar s).1 = s.1 ∨
      ∃ features, Accepts ar s.1 call.input features ∧ (call.run ar s).1 = s.1.advance call.input := by
  obtain ⟨w, state⟩ := s
  cases call with
  | apply input =>
    obtain ⟨err, -, he⟩ | ⟨he, -⟩ | ⟨features, ha, he⟩ := apply_outcome ar w input
    · exact .inl (congrArg Prod.snd he)
    · exact .inl (congrArg Prod.snd he)
    · exact .inr ⟨features, ha, congrArg Prod.snd he⟩
  | applyAndMaterialize input sink =>
    cases sink with
    | none => exact .inl rfl
    | some put =>
      obtain ⟨err, -, he⟩ | ⟨he, -⟩ | ⟨features, ha, ⟨-, err, -, he⟩ | ⟨-, -, he⟩ | ⟨-, he⟩⟩ :=
        materialize_outcome ar w input put state
      · exact .inl (congrArg (fun r => r.2.1) he)
      · exact .inl (congrArg (fun r => r.2.1) he)
      · exact .inl (congrArg (fun r => r.2.1) he)
      · exact .inr ⟨features, ha, congrArg (fun r => r.2.1) he⟩
      · exact .inr ⟨features, ha, congrArg (fun r => r.2.1) he⟩

lemma runCalls_induction {ar : Arithmetic α} {P : Window α → Prop} (calls : List (WindowCall σ α))
    (start : Window α × σ) (h : P start.1)
    (hstep : ∀ call ∈ calls, ∀ w features, P w → Accepts ar w call.input features → P (w.advance call.input)) :
    P (runCalls ar calls start).1 := by
  induction calls generalizing start with
  | nil => exact h
  | cons call calls ih =>
    refine ih (call.run ar start) ?_ fun call' hcall' => hstep call' (List.mem_cons_of_mem _ hcall')
    rcases call.run_window ar start with hw | ⟨features, ha, hw⟩
    · rw [hw]
      exact h
    · rw [hw]
      exact hstep call List.mem_cons_self _ features h ha

lemma runCalls_invariant {ar : Arithmetic α} (calls : List (WindowCall σ α)) (start : Window α × σ)
    (hi : WindowInvariant start.1) : WindowInvariant (runCalls ar calls start).1 :=
  runCalls_induction calls start hi fun _ _ _ _ hw ha => advance_invariant hw ha

/-- The redundant state of a window, field by field. -/
structure WindowConsistent (w : Window α) : Prop where
  byEntity_keys : ∀ e, e ∈ w.byEntity ↔ e ∈ w.watermark
  lastActive_keys : ∀ e, e ∈ w.lastActive ↔ e ∈ w.watermark
  entities : (w.watermark.keys.length : Int) ≤ w.maxEntities
  lastActive_eq : ∀ e, w.lastActive.lookup e = w.watermark.lookup e
  sorted : ∀ e events, w.byEntity.lookup e = some events → SortedBy WindowEvent.at_ events
  in_window : ∀ e events t, w.byEntity.lookup e = some events → w.watermark.lookup e = some t →
    ∀ x ∈ events, t - w.duration ≤ x.at_ ∧ x.at_ ≤ t
  ids_distinct : ((concat w.byEntity).map WindowEvent.id).Nodup
  seen_exact : w.seen = ((concat w.byEntity).map WindowEvent.id).toFinset
  count_exact : w.eventCount = ((w.byEntity.entries.map (fun e => e.2.length)).sum : Nat)
  count_bound : w.eventCount ≤ w.maxEvents
  partitions : (w.offsets.keys.length : Int) ≤ maxTrackedPartitions

lemma WindowInvariant.consistent {w : Window α} (hi : WindowInvariant w) : WindowConsistent w where
  byEntity_keys := hi.tracked_iff
  lastActive_keys e := by rw [mem_iff_lookup, mem_iff_lookup, hi.lastActive_eq]
  entities := hi.entity_bound
  lastActive_eq := hi.lastActive_eq
  sorted e events he := by
    have hs := hi.sorted e
    unfold Window.eventsOf at hs
    rwa [he] at hs
  in_window e events t he ht x hx := by
    have hw := hi.in_window e x
    unfold Window.eventsOf Window.watermarkOf at hw
    rw [he, ht] at hw
    exact hw hx
  ids_distinct := hi.ids_nodup
  seen_exact := hi.seen_eq
  count_exact := by rw [hi.count_eq, length_concat]
  count_bound := hi.count_bound
  partitions := by
    have hsub : w.offsets.keys.toFinset ⊆ Finset.Ico 0 maxTrackedPartitions := by
      intro p hp
      exact Finset.mem_Ico.mpr (hi.partitions p (AList.mem_keys.mpr (List.mem_toFinset.mp hp)))
    have hcard := Finset.card_le_card hsub
    rw [List.toFinset_card_of_nodup w.offsets.keys_nodup, Int.card_Ico] at hcard
    unfold maxTrackedPartitions at *
    omega

/-- Every window that calls can produce from `NewWithLimits` is consistent, for every
arithmetic on amounts, every events and every behaviour of the sinks. -/
theorem window_consistent (ar : Arithmetic α) (duration maxEntities maxEvents : Int)
    (calls : List (WindowCall σ α)) (state : σ) :
    WindowConsistent (runCalls ar calls (newWithLimits duration maxEntities maxEvents, state)).1 :=
  (runCalls_invariant calls _ (newWithLimits_invariant duration maxEntities maxEvents)).consistent

end FraudDetection.Proofs
