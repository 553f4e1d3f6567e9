import FraudDetection.Window

/-!
# What one call does to a window

`apply_outcome` and `materialize_outcome` list the outcomes of a call; every later property of
runs is derived from them. `oldestEntityLocked_spec` is the specification of the eviction scan.
-/

namespace FraudDetection.Proofs
open FraudDetection.Library

variable {α σ : Type}

/-- The event passes every check of `prepareLocked` and its aggregate is `features`. -/
structure Accepts (ar : Arithmetic α) (w : Window α) (input : Event α) (features : Features α) :
    Prop where
  valid : validEvent ar input = true
  fresh : input.id ∉ w.seen
  current : w.stale input = false
  capacity : w.projectedEventCount input ≤ w.maxEvents
  aggregate : accumulate ar (w.nextEvents input)
    ⟨input.entityID, (w.nextEvents input).length, ar.zero, ar.zero, w.nextWatermark input⟩ = .ok features

@[simp]
lemma makeRoom_duration (w : Window α) (input : Event α) :
    (w.makeRoom input).duration = w.duration := by
  unfold Window.makeRoom
  split <;> rfl

@[simp]
lemma makeRoom_offsets (w : Window α) (input : Event α) :
    (w.makeRoom input).offsets = w.offsets := by
  unfold Window.makeRoom
  split <;> rfl

@[simp]
lemma makeRoom_limits (w : Window α) (input : Event α) :
    (w.makeRoom input).maxEntities = w.maxEntities ∧ (w.makeRoom input).maxEvents = w.maxEvents := by
  unfold Window.makeRoom
  split <;> exact ⟨rfl, rfl⟩

/-- What `prepareLocked` returns: an error, an ignored event, or a complete update. -/
lemma prepareLocked_outcome (ar : Arithmetic α) (w : Window α) (input : Event α) :
    (∃ err, prepareLocked ar w input = .error err) ∨
    (prepareLocked ar w input = .ok (PendingUpdate.empty ar) ∧ validEvent ar input = true ∧
      (input.id ∈ w.seen ∨ w.stale input = true)) ∨
    ∃ features, Accepts ar w input features ∧
      prepareLocked ar w input = .ok ⟨true, w.updates input, features, w.nextEvents input,
        w.nextWatermark input, w.expiredIds input, w.evictFor input⟩ := by
  unfold prepareLocked
  by_cases hv : validEvent ar input = true
  · by_cases hs : input.id ∈ w.seen
    · exact .inr (.inl ⟨by simp [hv, hs], hv, .inl hs⟩)
    · by_cases ho : w.stale input = true
      · exact .inr (.inl ⟨by simp [hv, hs, ho], hv, .inr ho⟩)
      · by_cases hc : w.maxEvents < w.projectedEventCount input
        · exact .inl ⟨errStateCapacity, by simp [hv, hs, ho, hc]⟩
        · cases ha : accumulate ar (w.nextEvents input) ⟨input.entityID, (w.nextEvents input).length,
            ar.zero, ar.zero, w.nextWatermark input⟩ with
          | error err => exact .inl ⟨err, by simp [hv, hs, ho, hc, Bind.bind, Except.bind]⟩
          | ok features =>
            refine .inr (.inr ⟨features, ⟨hv, hs, by simpa using ho, not_lt.mp hc, ha⟩, ?_⟩)
            simp only [hv, hs, ho, hc, Bind.bind, Except.bind, Bool.not_true, Bool.false_eq_true, if_false]
            rfl
  · exact .inl ⟨errInvalidEvent, by simp [hv]⟩

lemma prepareLocked_of_accepts {ar : Arithmetic α} {w : Window α} {input : Event α}
    {features : Features α} (h : Accepts ar w input features) :
    prepareLocked ar w input = .ok ⟨true, w.updates input, features, w.nextEvents input,
      w.nextWatermark input, w.expiredIds input, w.evictFor input⟩ := by
  unfold prepareLocked
  simp only [h.valid, h.fresh, h.current, not_lt.mpr h.capacity, h.aggregate, Bind.bind, Except.bind,
    Bool.not_true, Bool.false_eq_true, if_false]
  rfl

lemma accepts_iff (ar : Arithmetic α) (w : Window α) (input : Event α) :
    accepts ar w input = true ↔ ∃ features, Accepts ar w input features := by
  constructor
  · intro h
    unfold accepts at h
    obtain ⟨err, he⟩ | ⟨he, -⟩ | ⟨features, ha, -⟩ := prepareLocked_outcome ar w input
    · rw [he] at h
      exact absurd h Bool.false_ne_true
    · rw [he] at h
      exact absurd h Bool.false_ne_true
    · exact ⟨features, ha⟩
  · rintro ⟨features, ha⟩
    unfold accepts
    rw [prepareLocked_of_accepts ha]

lemma commitLocked_advance (w : Window α) (input : Event α) (features : Features α) :
    commitLocked w input ⟨true, w.updates input, features, w.nextEvents input,
      w.nextWatermark input, w.expiredIds input, w.evictFor input⟩ = w.advance input := by
  unfold commitLocked Window.advance
  have hd : w.nextWatermark input - (w.makeRoom input).duration = w.cutoff input := by
    rw [makeRoom_duration]
    rfl
  have ho : (w.makeRoom input).offsets = w.offsets := makeRoom_offsets w input
  unfold Window.makeRoom at hd ho
  simp only [hd, ho, Window.makeRoom]

/-- A call of `Apply` fails, ignores the event, or accepts it and advances the window. -/
theorem apply_outcome (ar : Arithmetic α) (w : Window α) (input : Event α) :
    (∃ err, prepareLocked ar w input = .error err ∧ apply ar w input = (.error err, w)) ∨
    (apply ar w input = (.ok (Features.empty ar, false), w) ∧ validEvent ar input = true ∧
      (input.id ∈ w.seen ∨ w.stale input = true)) ∨
    ∃ features, Accepts ar w input features ∧
      apply ar w input = (.ok (features, w.updates input), w.advance input) := by
  unfold apply
  obtain ⟨err, he⟩ | ⟨he, hv, hs⟩ | ⟨features, ha, he⟩ := prepareLocked_outcome ar w input
  · exact .inl ⟨err, he, by rw [he]⟩
  · exact .inr (.inl ⟨by rw [he]; rfl, hv, hs⟩)
  · refine .inr (.inr ⟨features, ha, ?_⟩)
    rw [he, ← commitLocked_advance w input features]
    rfl

lemma apply_of_accepts {ar : Arithmetic α} {w : Window α} {input : Event α} {features : Features α}
    (h : Accepts ar w input features) :
    apply ar w input = (.ok (features, w.updates input), w.advance input) := by
  unfold apply
  rw [prepareLocked_of_accepts h, ← commitLocked_advance w input features]
  rfl

/-- A call with a sink changes the window exactly when the event is accepted and its vector,
if it changed, was put. -/
theorem materialize_outcome (ar : Arithmetic α) (w : Window α) (input : Event α)
    (put : Materializer σ α) (state : σ) :
    (∃ err, prepareLocked ar w input = .error err ∧
      applyAndMaterialize ar w input (some put) state = (.error err, w, state)) ∨
    (applyAndMaterialize ar w input (some put) state = (.ok (Features.empty ar, false), w, state) ∧
      validEvent ar input = true ∧ (input.id ∈ w.seen ∨ w.stale input = true)) ∨
    ∃ features, Accepts ar w input features ∧
      ((w.updates input = true ∧ ∃ err, (put state features).1 = some err ∧
        applyAndMaterialize ar w input (some put) state = (.error err, w, (put state features).2)) ∨
      (w.updates input = true ∧ (put state features).1 = none ∧
        applyAndMaterialize ar w input (some put) state =
          (.ok (features, true), w.advance input, (put state features).2)) ∨
      (w.updates input = false ∧
        applyAndMaterialize ar w input (some put) state =
          (.ok (features, false), w.advance input, state))) := by
  unfold applyAndMaterialize
  obtain ⟨err, he⟩ | ⟨he, hv, hs⟩ | ⟨features, ha, he⟩ := prepareLocked_outcome ar w input
  · exact .inl ⟨err, he, by rw [he]⟩
  · exact .inr (.inl ⟨by rw [he]; rfl, hv, hs⟩)
  · refine .inr (.inr ⟨features, ha, ?_⟩)
    have hc := commitLocked_advance w input features
    cases hu : w.updates input with
    | false =>
      refine .inr (.inr ⟨rfl, ?_⟩)
      rw [hu] at he hc
      rw [he, ← hc]
      rfl
    | true =>
      rw [hu] at he hc
      cases hp : (put state features).1 with
      | some err =>
        refine .inl ⟨rfl, err, rfl, ?_⟩
        have hp' : put state features = (some err, (put state features).2) := Prod.ext hp rfl
        rw [he]
        simp only [Bool.not_true, Bool.false_eq_true, if_false, if_true]
        rw [hp']
      | none =>
        refine .inr (.inl ⟨rfl, rfl, ?_⟩)
        have hp' : put state features = (none, (put state features).2) := Prod.ext hp rfl
        rw [he, ← hc]
        simp only [Bool.not_true, Bool.false_eq_true, if_false, if_true]
        rw [hp']

lemma accumulate_keeps (ar : Arithmetic α) (events : List (WindowEvent α)) (start features : Features α)
    (h : accumulate ar events start = .ok features) :
    features.entityID = start.entityID ∧ features.windowEnd = start.windowEnd := by
  induction events generalizing start with
  | nil =>
    rw [accumulate] at h
    rw [Except.ok.inj h]
    exact ⟨rfl, rfl⟩
  | cons item rest ih =>
    rw [accumulate] at h
    split at h
    · cases h
    · have hrest := ih _ h
      exact hrest

lemma accepts_windowEnd {ar : Arithmetic α} {w : Window α} {input : Event α} {features : Features α}
    (ha : Accepts ar w input features) :
    features.entityID = input.entityID ∧ features.windowEnd = w.nextWatermark input :=
  accumulate_keeps ar _ _ _ ha.aggregate

lemma apply_of_duplicate {ar : Arithmetic α} {w : Window α} {input : Event α}
    (hv : validEvent ar input = true) (h : input.id ∈ w.seen) :
    apply ar w input = (.ok (Features.empty ar, false), w) := by
  unfold apply prepareLocked
  simp only [hv, h, Bool.not_true, Bool.false_eq_true, if_false, if_true]
  rfl

section oldest

def StrictlyOlder (x y : GoString × Int) : Prop :=
  x.2 < y.2 ∨ (x.2 = y.2 ∧ x.1 < y.1)

lemma StrictlyOlder.trans {x y z : GoString × Int} (hxy : StrictlyOlder x y)
    (hyz : StrictlyOlder y z) : StrictlyOlder x z := by
  unfold StrictlyOlder at *
  rcases hxy with h | ⟨h, hn⟩
  · rcases hyz with h' | ⟨h', -⟩
    · exact .inl (h.trans h')
    · exact .inl (h' ▸ h)
  · rcases hyz with h' | ⟨h', hn'⟩
    · exact .inl (h ▸ h')
    · exact .inr ⟨h.trans h', List.lt_trans hn hn'⟩

lemma StrictlyOlder.connected {x y : GoString × Int} (hxy : ¬StrictlyOlder x y)
    (hyx : ¬StrictlyOlder y x) : x = y := by
  unfold StrictlyOlder at hxy hyx
  push Not at hxy hyx
  have ht : x.2 = y.2 := le_antisymm hyx.1 hxy.1
  have hn : x.1 = y.1 := List.le_antisymm (List.not_lt.mp (hyx.2 ht.symm)) (List.not_lt.mp (hxy.2 ht))
  exact Prod.ext hn ht

/-- The scan keeps a pair it has met, and nothing it has met is strictly older. -/
lemma oldest_fold (l : List (Sigma fun _ : GoString => Int)) (hl : ∀ e ∈ l, e.1 ≠ [])
    (best : GoString × Int) (hbest : best.1 ≠ []) :
    let r := l.foldl (fun best e => olderEntity best e.1 e.2) best
    (r = best ∨ ⟨r.1, r.2⟩ ∈ l) ∧ ¬StrictlyOlder best r ∧ ∀ e ∈ l, ¬StrictlyOlder (e.1, e.2) r := by
  induction l generalizing best with
  | nil =>
    refine ⟨.inl rfl, ?_, by simp⟩
    simp [StrictlyOlder]
  | cons e l ih =>
    have hl' : ∀ x ∈ l, x.1 ≠ [] := fun x hx => hl x (List.mem_cons_of_mem e hx)
    have he : e.1 ≠ [] := hl e List.mem_cons_self
    rw [List.foldl_cons]
    by_cases hnew : e.2 < best.2 ∨ (e.2 = best.2 ∧ e.1 < best.1)
    · have hstep : olderEntity best e.1 e.2 = (e.1, e.2) := by
        unfold olderEntity
        rw [if_pos (.inr hnew)]
      rw [hstep]
      obtain ⟨hin, hhead, hrest⟩ := ih hl' (e.1, e.2) he
      refine ⟨.inr ?_, ?_, ?_⟩
      · rcases hin with h | h
        · rw [h]
          exact List.mem_cons_self
        · exact List.mem_cons_of_mem e h
      · intro h
        exact hhead (StrictlyOlder.trans hnew h)
      · intro x hx
        rcases List.mem_cons.mp hx with rfl | hx
        · exact hhead
        · exact hrest x hx
    · have hstep : olderEntity best e.1 e.2 = best := by
        unfold olderEntity
        rw [if_neg (by tauto)]
      rw [hstep]
      obtain ⟨hin, hhead, hrest⟩ := ih hl' best hbest
      refine ⟨hin.imp_right (List.mem_cons_of_mem e), hhead, ?_⟩
      intro x hx
      rcases List.mem_cons.mp hx with rfl | hx
      · intro h
        -- an entry that did not replace the best one is not older than a later result either
        by_cases heq : (x.1, x.2) = best
        · exact hhead (heq ▸ h)
        · have hbx : StrictlyOlder best (x.1, x.2) := by
            by_contra hb
            exact heq (StrictlyOlder.connected hnew hb)
          exact hhead (hbx.trans h)
      · exact hrest x hx

/-- `oldestEntityLocked` returns a tracked entity with the least last activity, ties broken by
name, whatever the iteration order of the map. -/
theorem oldestEntityLocked_spec (m : FMap GoString Int) (hnames : ∀ e ∈ m, e ≠ [])
    (hne : m.keys ≠ []) :
    ∃ t, m.lookup (oldestEntityLocked m) = some t ∧
      ∀ e t', m.lookup e = some t' → ¬StrictlyOlder (e, t') (oldestEntityLocked m, t) := by
  have hl : ∀ e ∈ m.entries, e.1 ≠ [] := by
    intro e he
    exact hnames e.1 (AList.mem_keys.mpr (List.mem_map_of_mem he))
  obtain ⟨first, rest, hentries⟩ : ∃ first rest, m.entries = first :: rest := by
    cases h : m.entries with
    | nil => exact absurd (by unfold AList.keys; rw [h]; rfl) hne
    | cons first rest => exact ⟨first, rest, rfl⟩
  rw [hentries] at hl
  obtain ⟨hin, hhead, hrest⟩ := oldest_fold rest (fun e he => hl e (List.mem_cons_of_mem first he))
    (first.1, first.2) (hl first List.mem_cons_self)
  have hfold : m.entries.foldl (fun best e => olderEntity best e.1 e.2) ([], 0) =
      rest.foldl (fun best e => olderEntity best e.1 e.2) (first.1, first.2) := by
    rw [hentries, List.foldl_cons]
    rfl
  unfold oldestEntityLocked
  rw [hfold]
  generalize rest.foldl (fun best e => olderEntity best e.1 e.2) (first.1, first.2) = r at hin hhead hrest
  refine ⟨r.2, AList.mem_lookup_iff.mpr ?_, ?_⟩
  · rw [hentries]
    rcases hin with h | h
    · rw [h]
      exact List.mem_cons_self
    · exact List.mem_cons_of_mem first h
  · intro e t' he
    have hmem : ⟨e, t'⟩ ∈ first :: rest := hentries ▸ AList.mem_lookup_iff.mp he
    rcases List.mem_cons.mp hmem with h | h
    · rw [← h] at hhead
      exact hhead
    · exact hrest ⟨e, t'⟩ h

/-- The iteration order of the map does not show in the evicted entity. -/
theorem oldestEntityLocked_order_independent (m m' : FMap GoString Int)
    (hnames : ∀ e ∈ m, e ≠ []) (hne : m.keys ≠ []) (h : ∀ e, m.lookup e = m'.lookup e) :
    oldestEntityLocked m = oldestEntityLocked m' := by
  have hmem : ∀ e, e ∈ m ↔ e ∈ m' := fun e => by rw [mem_iff_lookup, mem_iff_lookup, h]
  have hne' : m'.keys ≠ [] := by
    intro hk
    exact hne (List.perm_nil.mp (hk ▸ keys_perm_of_mem_iff m m' hmem))
  obtain ⟨t, ht, hmin⟩ := oldestEntityLocked_spec m hnames hne
  obtain ⟨t', ht', hmin'⟩ := oldestEntityLocked_spec m' (fun e he => hnames e ((hmem e).mpr he)) hne'
  have heq := StrictlyOlder.connected (hmin' _ t (h _ ▸ ht)) (hmin _ t' ((h _).symm ▸ ht'))
  exact (Prod.mk.inj heq).1

end oldest

end FraudDetection.Proofs
