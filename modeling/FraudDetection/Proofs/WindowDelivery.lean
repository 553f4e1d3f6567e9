import Mathlib.Algebra.Field.Rat
import Mathlib.Algebra.Order.Ring.Rat
import FraudDetection.Proofs.WindowInvariant

/-!
# Deliveries of a stream

A sink is observed through the sequence of vectors it stored. `Delivery` describes an
at-least-once delivery: an event whose `Put` failed is tried again before the next one, and
an event that was accepted may come again at any time. Its effect is that of delivering every
event once.
-/

namespace FraudDetection.Proofs
open FraudDetection.Library

variable {α : Type}

/-- One call of `ApplyAndMaterialize` and the error its `Put` returns if it is called. -/
structure Attempt (α : Type) where
  input : Event α
  outcome : Option GoError

/-- A sink that keeps what it stored; a failing `Put` stores nothing. -/
def loggingSink (outcome : Option GoError) : Materializer (List (Features α)) α :=
  fun log features => match outcome with
    | none => (none, log ++ [features])
    | some err => (some err, log)

abbrev Stream (α : Type) := Window α × List (Features α)

def Attempt.run (ar : Arithmetic α) (s : Stream α) (a : Attempt α) : Stream α :=
  (applyAndMaterialize ar s.1 a.input (some (loggingSink a.outcome)) s.2).2

def Attempt.result (ar : Arithmetic α) (s : Stream α) (a : Attempt α) : ApplyResult α :=
  (applyAndMaterialize ar s.1 a.input (some (loggingSink a.outcome)) s.2).1

def attemptRun (ar : Arithmetic α) (s : Stream α) (attempts : List (Attempt α)) : Stream α :=
  attempts.foldl (Attempt.run ar) s

def Attempt.putFails (ar : Arithmetic α) (s : Stream α) (a : Attempt α) : Bool :=
  accepts ar s.1 a.input && s.1.updates a.input && a.outcome.isSome

/-- An attempt either leaves everything unchanged, with an error unless the event is ignored, or
commits an accepted event and stores its vector exactly when the vector changed. -/
lemma attempt_outcome (ar : Arithmetic α) (s : Stream α) (a : Attempt α) :
    (a.run ar s = s ∧ (a.putFails ar s = true ∨ accepts ar s.1 a.input = false)) ∨
    ∃ features, Accepts ar s.1 a.input features ∧ a.putFails ar s = false ∧
      (∃ changed, a.result ar s = .ok (features, changed)) ∧
      a.run ar s = (s.1.advance a.input, if s.1.updates a.input then s.2 ++ [features] else s.2) := by
  unfold Attempt.run Attempt.result Attempt.putFails
  obtain ⟨err, hp, he⟩ | ⟨he, hv, hs⟩ | ⟨features, ha, hput⟩ :=
    materialize_outcome ar s.1 a.input (loggingSink a.outcome) s.2
  · refine .inl ⟨by rw [he], .inr ?_⟩
    unfold accepts
    rw [hp]
  · refine .inl ⟨by rw [he], .inr ?_⟩
    rw [Bool.eq_false_iff, ne_eq, accepts_iff]
    rintro ⟨features, ha⟩
    rcases hs with hs | hs
    · exact ha.fresh hs
    · exact absurd (ha.current.symm.trans hs) Bool.false_ne_true
  · have hacc : accepts ar s.1 a.input = true := (accepts_iff ar s.1 a.input).mpr ⟨features, ha⟩
    obtain ⟨hu, err, hp, he⟩ | ⟨hu, hp, he⟩ | ⟨hu, he⟩ := hput
    · cases ho : a.outcome with
      | none => simp [loggingSink, ho] at hp
      | some err' =>
        rw [ho] at he
        exact .inl ⟨by rw [he]; rfl, .inl (by simp [hacc, hu])⟩
    · cases ho : a.outcome with
      | none =>
        rw [ho] at he
        refine .inr ⟨features, ha, by simp, ⟨true, by rw [he]⟩, ?_⟩
        rw [he, hu, if_pos rfl]
        rfl
      | some err' => simp [loggingSink, ho] at hp
    · refine .inr ⟨features, ha, by simp [hu], ⟨false, by rw [he]⟩, ?_⟩
      rw [he, hu, if_neg Bool.false_ne_true]

lemma attempt_error (ar : Arithmetic α) (s : Stream α) (a : Attempt α)
    (h : ∃ err, a.result ar s = .error err) : a.run ar s = s := by
  obtain ⟨hs, -⟩ | ⟨features, -, -, ⟨changed, hr⟩, -⟩ := attempt_outcome ar s a
  · exact hs
  · obtain ⟨err, he⟩ := h
    rw [hr] at he
    cases he

/-- At-least-once delivery of `pending`. An attempt that returned an error may be repeated; one
whose `Put` failed must be. Records that were `accepted` may come again at any point, told by
id, partition and offset. -/
inductive Delivery (ar : Arithmetic α) :
    Stream α → List (Event α) → List (Event α) → List (Attempt α) → Prop where
  | done {s : Stream α} {accepted : List (Event α)} : Delivery ar s accepted [] []
  | retry {s : Stream α} {accepted pending : List (Event α)} {attempts : List (Attempt α)}
      {a : Attempt α} (failed : ∃ err, a.result ar s = .error err)
      (next : Delivery ar (a.run ar s) accepted (a.input :: pending) attempts) :
      Delivery ar s accepted (a.input :: pending) (a :: attempts)
  | accept {s : Stream α} {accepted pending : List (Event α)} {attempts : List (Attempt α)}
      {a : Attempt α} (ok : accepts ar s.1 a.input = true) (put : a.putFails ar s = false)
      (next : Delivery ar (a.run ar s) (a.input :: accepted) pending attempts) :
      Delivery ar s accepted (a.input :: pending) (a :: attempts)
  | skip {s : Stream α} {accepted pending : List (Event α)} {attempts : List (Attempt α)}
      {a : Attempt α} (refused : accepts ar s.1 a.input = false)
      (next : Delivery ar (a.run ar s) accepted pending attempts) :
      Delivery ar s accepted (a.input :: pending) (a :: attempts)
  | redeliver {s : Stream α} {accepted pending : List (Event α)} {attempts : List (Attempt α)}
      {a : Attempt α} {original : Event α} (known : original ∈ accepted)
      (same : a.input.id = original.id ∧ a.input.partition = original.partition ∧
        a.input.offset = original.offset)
      (next : Delivery ar (a.run ar s) accepted pending attempts) :
      Delivery ar s accepted pending (a :: attempts)

def Recorded (w : Window α) (events : List (Event α)) : Prop :=
  ∀ e ∈ events, ∃ high, w.offsets.lookup e.partition = some high ∧ e.offset ≤ high

lemma advance_offsets (w : Window α) (input : Event α) (p : Int) :
    (w.advance input).offsets.lookup p =
      if p = input.partition then some input.offset else w.offsets.lookup p :=
  lookup_insert_ite w.offsets p input.partition input.offset

lemma advance_recorded {ar : Arithmetic α} {w : Window α} {input : Event α} {features : Features α}
    (ha : Accepts ar w input features) {events : List (Event α)} (h : Recorded w events) :
    Recorded (w.advance input) (input :: events) := by
  intro e he
  rw [advance_offsets]
  rcases List.mem_cons.mp he with rfl | he
  · exact ⟨e.offset, by rw [if_pos rfl], le_rfl⟩
  · obtain ⟨high, hhigh, hle⟩ := h e he
    by_cases hp : e.partition = input.partition
    · refine ⟨input.offset, by rw [if_pos hp], ?_⟩
      have hc := ha.current
      unfold Window.stale at hc
      rw [← hp, hhigh] at hc
      simp only [Option.any_some, decide_eq_false_iff_not] at hc
      omega
    · exact ⟨high, by rw [if_neg hp, hhigh], hle⟩

lemma attempt_recorded (ar : Arithmetic α) (s : Stream α) (a : Attempt α) {events : List (Event α)}
    (h : Recorded s.1 events) : Recorded (a.run ar s).1 events := by
  obtain ⟨hs, -⟩ | ⟨features, ha, -, -, hs⟩ := attempt_outcome ar s a
  · rw [hs]
    exact h
  · rw [hs]
    intro e he
    exact advance_recorded ha h e (List.mem_cons_of_mem _ he)

/-- A redelivered record changes nothing: it is a duplicate or stale. -/
lemma redelivery_ignored (ar : Arithmetic α) (s : Stream α) (a : Attempt α) {events : List (Event α)}
    (h : Recorded s.1 events) {original : Event α} (known : original ∈ events)
    (same : a.input.partition = original.partition ∧ a.input.offset = original.offset) :
    a.run ar s = s := by
  obtain ⟨hs, -⟩ | ⟨features, ha, -, -, -⟩ := attempt_outcome ar s a
  · exact hs
  · obtain ⟨high, hhigh, hle⟩ := h original known
    have hc := ha.current
    unfold Window.stale at hc
    rw [same.1, hhigh] at hc
    simp only [Option.any_some, decide_eq_false_iff_not] at hc
    omega

def deliverOnce (ar : Arithmetic α) (s : Stream α) (events : List (Event α)) : Stream α :=
  attemptRun ar s (events.map (fun e => ⟨e, none⟩))

/-- When `Put` does not fail in it, an attempt does what a delivery to a sound sink does. -/
lemma attempt_eq_once (ar : Arithmetic α) (s : Stream α) (a : Attempt α)
    (h : a.putFails ar s = false) : a.run ar s = Attempt.run ar s ⟨a.input, none⟩ := by
  have hnone : Attempt.putFails ar s ⟨a.input, none⟩ = false := by simp [Attempt.putFails]
  obtain ⟨hs, hf | hr⟩ | ⟨features, ha, -, -, hs⟩ := attempt_outcome ar s a
  · exact absurd (h.symm.trans hf) Bool.false_ne_true
  · obtain ⟨hs', -⟩ | ⟨features, ha, -, -, -⟩ := attempt_outcome ar s ⟨a.input, none⟩
    · rw [hs, hs']
    · exact absurd (hr.symm.trans ((accepts_iff ar s.1 a.input).mpr ⟨features, ha⟩)) Bool.false_ne_true
  · obtain ⟨-, hf | hr⟩ | ⟨features', ha', -, -, hs'⟩ := attempt_outcome ar s ⟨a.input, none⟩
    · exact absurd (hnone.symm.trans hf) Bool.false_ne_true
    · exact absurd (hr.symm.trans ((accepts_iff ar s.1 a.input).mpr ⟨features, ha⟩)) Bool.false_ne_true
    · have heq : features = features' := Except.ok.inj (ha.aggregate.symm.trans ha'.aggregate)
      rw [hs, hs', heq]

lemma delivery_effect (ar : Arithmetic α) {s : Stream α} {accepted pending : List (Event α)}
    {attempts : List (Attempt α)} (h : Delivery ar s accepted pending attempts)
    (hrec : Recorded s.1 accepted) : attemptRun ar s attempts = deliverOnce ar s pending := by
  induction h with
  | done => rfl
  | @retry s accepted pending attempts a failed next ih =>
    have hs := attempt_error ar s a failed
    rw [hs] at ih
    change attemptRun ar (a.run ar s) attempts = _
    rw [hs]
    exact ih hrec
  | @accept s accepted pending attempts a ok put next ih =>
    obtain ⟨features, ha⟩ := (accepts_iff ar s.1 a.input).mp ok
    have hadv : (a.run ar s).1 = s.1.advance a.input := by
      obtain ⟨-, hf | hr⟩ | ⟨_, -, -, -, hs⟩ := attempt_outcome ar s a
      · exact absurd (put.symm.trans hf) Bool.false_ne_true
      · exact absurd (hr.symm.trans ok) Bool.false_ne_true
      · rw [hs]
    have hnext := ih (by rw [hadv]; exact advance_recorded ha hrec)
    change attemptRun ar (a.run ar s) attempts = deliverOnce ar (Attempt.run ar s ⟨a.input, none⟩) pending
    rw [hnext, attempt_eq_once ar s a put]
  | @skip s accepted pending attempts a refused next ih =>
    have hput : a.putFails ar s = false := by simp [Attempt.putFails, refused]
    change attemptRun ar (a.run ar s) attempts = deliverOnce ar (Attempt.run ar s ⟨a.input, none⟩) pending
    rw [ih (attempt_recorded ar s a hrec), attempt_eq_once ar s a hput]
  | @redeliver s accepted pending attempts a original known same next ih =>
    have hs := redelivery_ignored ar s a hrec known same.2
    rw [hs] at ih
    change attemptRun ar (a.run ar s) attempts = _
    rw [hs]
    exact ih hrec

/-- At-least-once delivery has exactly-once effect: the final window and the vectors stored are
those of delivering each event once to a sink that never fails. No order on the offsets of the
stream is needed, since an accepted offset is above the mark of its partition. -/
theorem delivery_exactly_once (ar : Arithmetic α) (w : Window α) (log : List (Features α))
    (events : List (Event α)) (attempts : List (Attempt α))
    (h : Delivery ar (w, log) [] events attempts) :
    attemptRun ar (w, log) attempts = deliverOnce ar (w, log) events :=
  delivery_effect ar h (fun _ he => absurd he List.not_mem_nil)

def eventA : Event ℚ := ⟨[49], [97], 10, 100, 0, 1⟩
def eventB : Event ℚ := ⟨[50], [98], 5, 200, 1, 1⟩

/-- The first event fails at the sink, succeeds, and comes again after its entity was evicted. -/
theorem delivery_exactly_once_evicting :
    let start : Stream ℚ := (newWithLimits 60 1 10, [])
    let attempts := [⟨eventA, some ⟨"timeout"⟩⟩, ⟨eventA, none⟩, ⟨eventB, none⟩, ⟨eventA, none⟩]
    Delivery (exactArithmetic 1000000) start [] [eventA, eventB] attempts ∧
      attemptRun (exactArithmetic 1000000) start attempts =
        deliverOnce (exactArithmetic 1000000) start [eventA, eventB] := by
  intro start attempts
  have h : Delivery (exactArithmetic 1000000) start [] [eventA, eventB] attempts := by
    refine Delivery.retry (a := ⟨eventA, some ⟨"timeout"⟩⟩) ⟨⟨"timeout"⟩, by decide +kernel⟩ ?_
    refine Delivery.accept (a := ⟨eventA, none⟩) (by decide +kernel) (by decide +kernel) ?_
    refine Delivery.accept (a := ⟨eventB, none⟩) (by decide +kernel) (by decide +kernel) ?_
    exact Delivery.redeliver (List.mem_cons_of_mem _ List.mem_cons_self) ⟨rfl, rfl, rfl⟩ Delivery.done
  exact ⟨h, delivery_exactly_once _ _ _ _ _ h⟩

section forward

/-- The vectors stored for one entity never move its window end back. -/
def ForwardOnly (log : List (Features α)) : Prop :=
  log.Pairwise (fun f g => f.entityID = g.entityID → f.windowEnd ≤ g.windowEnd)

/-- The attempt commits the return of an untracked entity at a time before a vector that the
sink already holds for it. -/
def Attempt.lateReturn (ar : Arithmetic α) (s : Stream α) (a : Attempt α) : Prop :=
  accepts ar s.1 a.input = true ∧ a.putFails ar s = false ∧ a.input.entityID ∉ s.1.watermark ∧
    ∃ f ∈ s.2, f.entityID = a.input.entityID ∧ max a.input.occurredAt 0 < f.windowEnd

def NoLateReturn (ar : Arithmetic α) : Stream α → List (Attempt α) → Prop
  | _, [] => True
  | s, a :: attempts => ¬a.lateReturn ar s ∧ NoLateReturn ar (a.run ar s) attempts

structure Fenced (s : Stream α) : Prop where
  window : WindowInvariant s.1
  forward : ForwardOnly s.2
  fence : ∀ f ∈ s.2, f.entityID ∈ s.1.watermark → f.windowEnd ≤ s.1.watermarkOf f.entityID

/-- Every stored vector of the event's entity ends at or before its next watermark. -/
lemma stored_le_next {ar : Arithmetic α} {s : Stream α} {a : Attempt α} (hf : Fenced s)
    (hacc : accepts ar s.1 a.input = true) (hput : a.putFails ar s = false)
    (hlate : ¬a.lateReturn ar s) (f : Features α) (hmem : f ∈ s.2)
    (he : f.entityID = a.input.entityID) : f.windowEnd ≤ s.1.nextWatermark a.input := by
  by_cases ht : a.input.entityID ∈ s.1.watermark
  · have hfence := hf.fence f hmem (he ▸ ht)
    rw [he] at hfence
    exact hfence.trans (watermark_le_next s.1 a.input).1
  · have hle : f.windowEnd ≤ max a.input.occurredAt 0 := by
      by_contra hlt
      exact hlate ⟨hacc, hput, ht, f, hmem, he, not_le.mp hlt⟩
    have hzero : s.1.watermarkOf a.input.entityID = 0 := by
      unfold Window.watermarkOf
      rw [AList.lookup_eq_none.mpr ht]
      rfl
    have hnext := watermark_le_next s.1 a.input
    omega

lemma attempt_fenced {ar : Arithmetic α} {s : Stream α} {a : Attempt α} (hf : Fenced s)
    (hlate : ¬a.lateReturn ar s) : Fenced (a.run ar s) := by
  obtain ⟨hs, -⟩ | ⟨features, ha, hput, -, hs⟩ := attempt_outcome ar s a
  · rw [hs]
    exact hf
  · have hacc : accepts ar s.1 a.input = true := (accepts_iff ar s.1 a.input).mpr ⟨features, ha⟩
    have hold := stored_le_next hf hacc hput hlate
    obtain ⟨hentity, hend⟩ := accepts_windowEnd ha
    have hlog : ∀ f ∈ (a.run ar s).2, f ∈ s.2 ∨ f = features := by
      intro f hmem
      rw [hs] at hmem
      change f ∈ (if _ then _ else _) at hmem
      split at hmem
      · simpa using hmem
      · exact .inl hmem
    refine ⟨?_, ?_, ?_⟩
    · rw [hs]
      exact advance_invariant hf.window ha
    · rw [hs]
      change ForwardOnly (if _ then _ else _)
      split
      · refine List.pairwise_append.mpr ⟨hf.forward, List.pairwise_singleton _ _, ?_⟩
        intro f hmem g hg he
        rw [List.mem_singleton.mp hg] at he ⊢
        rw [hend]
        exact hold f hmem (he.trans hentity)
      · exact hf.forward
    · intro f hmem ht
      have hcases := hlog f hmem
      rw [hs] at ht ⊢
      change f.entityID ∈ (s.1.makeRoom a.input).watermark.insert _ _ at ht
      change f.windowEnd ≤ (s.1.advance a.input).watermarkOf f.entityID
      rw [watermarkOf_advance]
      by_cases he : f.entityID = a.input.entityID
      · rw [if_pos he]
        rcases hcases with hmem | rfl
        · exact hold f hmem he
        · exact hend.le
      · rw [if_neg he]
        rcases hcases with hmem | rfl
        · rw [AList.mem_insert, makeRoom_watermark_mem hf.window] at ht
          obtain ⟨hev, ht⟩ := ht.resolve_left he
          rw [(makeRoom_of_ne a.input hev).2]
          exact hf.fence f hmem ht
        · exact absurd hentity he

lemma attemptRun_fenced {ar : Arithmetic α} {s : Stream α} (attempts : List (Attempt α))
    (hf : Fenced s) (hlate : NoLateReturn ar s attempts) : Fenced (attemptRun ar s attempts) := by
  induction attempts generalizing s with
  | nil => exact hf
  | cons a attempts ih => exact ih (attempt_fenced hf hlate.1) hlate.2

/-- As long as no evicted entity returns at a time before a vector stored for it, the stored
windows of every entity only move forward. -/
theorem materialized_forward (ar : Arithmetic α) (duration maxEntities maxEvents : Int)
    (attempts : List (Attempt α))
    (h : NoLateReturn ar (newWithLimits duration maxEntities maxEvents, []) attempts) :
    ForwardOnly (attemptRun ar (newWithLimits duration maxEntities maxEvents, []) attempts).2 := by
  have hstart : Fenced ((newWithLimits duration maxEntities maxEvents, []) : Stream α) :=
    ⟨newWithLimits_invariant duration maxEntities maxEvents, List.Pairwise.nil,
      fun _ hf => absurd hf List.not_mem_nil⟩
  exact (attemptRun_fenced attempts hstart h).forward

def eventAOld : Event ℚ := ⟨[51], [97], 10, 50, 2, 1⟩

/-- The evicted entity returns at its own last window end: nothing moves back. -/
theorem materialized_forward_return :
    let attempts : List (Attempt ℚ) := [⟨eventA, none⟩, ⟨eventB, none⟩, ⟨{ eventAOld with occurredAt := 100 }, none⟩]
    NoLateReturn (exactArithmetic 1000000) (newWithLimits 60 1 10, []) attempts ∧
      ForwardOnly (attemptRun (exactArithmetic 1000000) (newWithLimits 60 1 10, []) attempts).2 := by
  intro attempts
  have h : NoLateReturn (exactArithmetic 1000000) (newWithLimits 60 1 10, []) attempts := by
    unfold attempts NoLateReturn NoLateReturn NoLateReturn NoLateReturn Attempt.lateReturn
    decide +kernel
  exact ⟨h, materialized_forward _ _ _ _ _ h⟩

/-- The evicted entity returns with an older event, and the window stored for it moves back. -/
theorem materialized_not_forward :
    ¬ForwardOnly (attemptRun (exactArithmetic (1000000 : ℚ)) (newWithLimits 60 1 10, [])
      [⟨eventA, none⟩, ⟨eventB, none⟩, ⟨eventAOld, none⟩]).2 := by
  unfold ForwardOnly
  decide +kernel

end forward

end FraudDetection.Proofs
