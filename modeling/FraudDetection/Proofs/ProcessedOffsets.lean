import FraudDetection.Proofs.WindowDelivery

/-!
# Processed offsets

An event whose call of `Apply` returned no error has been processed. Its offset stays processed if
it was accepted or stale, since the high-water mark of its partition has then passed it. An event
that was ignored for its id alone leaves no trace of its offset, and the window forgets the id.
-/

namespace FraudDetection.Proofs
open FraudDetection.Library

variable {α : Type} {ar : Arithmetic α} {w : Window α} {input : Event α}

def Ignores (ar : Arithmetic α) (w : Window α) (input : Event α) : Prop :=
  apply ar w input = (.ok (Features.empty ar, false), w)

/-- After any further calls, every valid event of the partition at or below the offset is ignored. -/
def StaysProcessed (ar : Arithmetic α) (w : Window α) (input : Event α) : Prop :=
  ∀ later event, validEvent ar event = true → event.partition = input.partition → event.offset ≤ input.offset →
    Ignores ar (applyRun ar w later).2 event

/-- The id check ignores the event while the high-water mark of its partition is below its offset. -/
def DuplicateAhead (w : Window α) (input : Event α) : Prop :=
  input.id ∈ w.seen ∧ w.stale input = false

/-- Some id that the validation admits is not in `seen`. -/
def FreshIdLeft (ar : Arithmetic α) (w : Window α) : Prop :=
  ∃ event, validEvent ar event = true ∧ event.id ∉ w.seen

lemma ignores_of_valid (hv : validEvent ar input = true) (h : input.id ∈ w.seen ∨ w.stale input = true) :
    Ignores ar w input := by
  obtain ⟨err, hp, -⟩ | ⟨he, -⟩ | ⟨features, ha, -⟩ := apply_outcome ar w input
  · unfold prepareLocked at hp
    rcases h with h | h
    · simp [hv, h] at hp
    · simp only [hv, h, Bool.not_true, Bool.false_eq_true, if_false, if_true] at hp
      split at hp <;> cases hp
  · exact he
  · rcases h with h | h
    · exact absurd h ha.fresh
    · exact absurd (ha.current.symm.trans h) Bool.false_ne_true

lemma stale_of_recorded (h : Recorded w [input]) {event : Event α} (hp : event.partition = input.partition)
    (ho : event.offset ≤ input.offset) : w.stale event = true := by
  obtain ⟨high, hhigh, hle⟩ := h input List.mem_cons_self
  unfold Window.stale
  rw [hp, hhigh]
  simp only [Option.any_some, decide_eq_true_eq]
  omega

lemma applyRun_recorded {events : List (Event α)} (h : Recorded w events) (later : List (Event α)) :
    Recorded (applyRun ar w later).2 events := by
  induction later generalizing w with
  | nil => exact h
  | cons input later ih =>
    have hnext : Recorded (apply ar w input).2 events → Recorded (applyRun ar w (input :: later)).2 events := ih
    apply hnext
    obtain ⟨err, -, he⟩ | ⟨he, -⟩ | ⟨features, ha, he⟩ := apply_outcome ar w input
    · rw [he]
      exact h
    · rw [he]
      exact h
    · rw [he]
      exact fun e hmem => advance_recorded ha h e (List.mem_cons_of_mem _ hmem)

lemma staysProcessed_of_recorded (h : Recorded w [input]) : StaysProcessed ar w input := by
  intro later event hv hp ho
  exact ignores_of_valid hv (.inr (stale_of_recorded (applyRun_recorded h later) hp ho))

lemma applyRun_of_all_seen (h : ∀ event, validEvent ar event = true → event.id ∈ w.seen) (later : List (Event α)) :
    (applyRun ar w later).2 = w := by
  induction later with
  | nil => rfl
  | cons input later ih =>
    have hw : (apply ar w input).2 = w := by
      obtain ⟨err, -, he⟩ | ⟨he, -⟩ | ⟨features, ha, he⟩ := apply_outcome ar w input
      · rw [he]
      · rw [he]
      · exact absurd (h input ha.valid) ha.fresh
    change (applyRun ar (apply ar w input).2 later).2 = w
    rw [hw, ih]

lemma validEvent_withId {event : Event α} (hv : validEvent ar input = true) (he : validEvent ar event = true) :
    validEvent ar { input with id := event.id } = true := by
  unfold validEvent at hv he ⊢
  simp only [Bool.and_eq_true] at hv he ⊢
  tauto

/-- An event that is neither a duplicate nor stale is refused or accepted, not ignored. -/
lemma not_ignores (hfresh : input.id ∉ w.seen) (hcurrent : w.stale input = false) :
    ¬ Ignores ar w input := by
  intro h
  obtain ⟨err, -, he⟩ | ⟨-, -, hs | hs⟩ | ⟨features, ha, he⟩ := apply_outcome ar w input
  · cases h.symm.trans he
  · exact hfresh hs
  · exact absurd (hcurrent.symm.trans hs) Bool.false_ne_true
  · have hresult : features = Features.empty ar := by
      have := congrArg Prod.fst (h.symm.trans he)
      simp only [Except.ok.injEq, Prod.mk.injEq] at this
      exact this.1.symm
    have hentity := (accepts_windowEnd ha).1
    rw [hresult] at hentity
    exact (validEvent_fields ha.valid).2.1 hentity.symm

/-- A processed offset stays processed exactly when its event was not ignored for its id alone (as
long as the window can meet a new id at all). -/
theorem processed_offset_iff (ar : Arithmetic α) (w : Window α) (input : Event α)
    (h : ∃ result, (apply ar w input).1 = .ok result) :
    StaysProcessed ar (apply ar w input).2 input ↔ ¬ (DuplicateAhead w input ∧ FreshIdLeft ar w) := by
  obtain ⟨result, hresult⟩ := h
  obtain ⟨err, -, he⟩ | ⟨he, hv, hs⟩ | ⟨features, ha, he⟩ := apply_outcome ar w input
  · rw [he] at hresult
    cases hresult
  · rw [he]
    constructor
    · rintro hstays ⟨⟨-, hcurrent⟩, event, hevent, hfresh⟩
      -- the same record with an id that is not in use
      have hignored := hstays [] { input with id := event.id } (validEvent_withId hv hevent) rfl le_rfl
      have hnot : ¬ Ignores ar w { input with id := event.id } := not_ignores hfresh hcurrent
      exact hnot hignored
    · intro hnot
      by_cases hstale : w.stale input = true
      · refine staysProcessed_of_recorded fun e hmem => ?_
        rw [List.mem_singleton.mp hmem]
        unfold Window.stale at hstale
        cases hhigh : w.offsets.lookup input.partition with
        | none => simp [hhigh] at hstale
        | some high => exact ⟨high, rfl, by simpa [hhigh] using hstale⟩
      · have hdup : DuplicateAhead w input := ⟨hs.resolve_right hstale, Bool.eq_false_iff.mpr hstale⟩
        have hseen : ∀ event, validEvent ar event = true → event.id ∈ w.seen := by
          intro event hevent
          by_contra hfresh
          exact hnot ⟨hdup, event, hevent, hfresh⟩
        intro later event hevent _ _
        rw [applyRun_of_all_seen hseen]
        exact ignores_of_valid hevent (.inl (hseen event hevent))
  · rw [he]
    refine iff_of_true (staysProcessed_of_recorded ?_) fun hdup => ha.fresh hdup.1.1
    exact advance_recorded ha fun _ hmem => absurd hmem List.not_mem_nil

def eventACopy : Event ℚ := { eventA with partition := 1, offset := 7 }

theorem processed_offset_iff_accepted :
    StaysProcessed (exactArithmetic 1000000) (apply (exactArithmetic 1000000) (newWithLimits 60 1 10) eventA).2
      eventA := by
  have hok : ∃ result, (apply (exactArithmetic 1000000) (newWithLimits 60 1 10) eventA).1 = .ok result :=
    ⟨(⟨[97], 1, 10, 10, 100⟩, true), by decide +kernel⟩
  refine (processed_offset_iff _ _ eventA hok).mpr ?_
  rintro ⟨⟨hseen, -⟩, -⟩
  exact absurd hseen (by decide)

/-- The copy is ignored without an error. After the entity was evicted, the redelivery of that very
record is accepted and changes the window. -/
theorem processed_offset_reopened :
    let ar := exactArithmetic (1000000 : ℚ)
    let w := (applyRun ar (newWithLimits 60 1 10) [eventA]).2
    let w' := (applyRun ar (apply ar w eventACopy).2 [{ eventB with partition := 2 }]).2
    Ignores ar w eventACopy ∧ (apply ar w' eventACopy).1 = .ok (⟨[97], 1, 10, 10, 100⟩, true) ∧
      ¬ StaysProcessed ar (apply ar w eventACopy).2 eventACopy := by
  intro ar w w'
  have haccepted : (apply ar w' eventACopy).1 = .ok (⟨[97], 1, 10, 10, 100⟩, true) := by decide +kernel
  refine ⟨apply_of_duplicate (by decide +kernel) (by decide +kernel), haccepted, fun h => ?_⟩
  have hignored := congrArg Prod.fst (h [{ eventB with partition := 2 }] eventACopy (by decide +kernel) rfl le_rfl)
  cases haccepted.symm.trans hignored

end FraudDetection.Proofs
