import FraudDetection.Proofs.RingGhost

/-!
# Ownership of the users of `SharedRing`

`try_produce`, `try_consume` and `complete` step by step: what their caller owns meanwhile, and
that they do to the ring only what an owner may. Parties that call them directly keep lists of the
positions they produced and of the slots they obtained.
-/

namespace FraudDetection.Proofs
open FraudDetection.Library
open FraudDetection.Ring

variable {cfg : Config} {dc : DaemonConfig} {t : Party} {g g' : Ghost} {m m' : Shared} {label : Label}

section produce

/-- The positions that the party has published and may release. -/
def HeldBy (g : Ghost) (t : Party) (held : List Nat) : Prop :=
  ∀ p ∈ held, g.claimant p = some t ∧ g.handed p = false ∧ 2 ≤ (g.stage p).rank

def ProduceOwn (cfg : Config) (t : Party) (g : Ghost) (m : Shared) : ProducePC → Prop
  | .loadEnqueue | .loadSequence _ => True
  | .compareExchange p => p ≤ m.sequence (p % cfg.slotCount)
  | .writing p _ | .storeSequence p => g.claimant p = some t ∧ g.handed p = false ∧ g.stage p = .claimed
  | .addReady p => HeldBy g t [p]

lemma heldBy_progress {held : List Nat} (hp : Progress g m g' m')
    (hhanded : ∀ p, g.claimant p = some t → g'.handed p = true → g.handed p = true)
    (h : HeldBy g t held) : HeldBy g' t held := by
  intro p hmem
  obtain ⟨hc, hh, hrank⟩ := h p hmem
  refine ⟨hp.claimant p t hc, ?_, hrank.trans (hp.stage p)⟩
  exact Bool.eq_false_iff.mpr fun hx => Bool.eq_false_iff.mp hh (hhanded p hc hx)

lemma produceOwn_stable (hr : Rely cfg t g m g' m') {pc : ProducePC} (h : ProduceOwn cfg t g m pc) :
    ProduceOwn cfg t g' m' pc := by
  cases pc with
  | loadEnqueue | loadSequence => trivial
  | compareExchange p => exact h.trans (hr.sequence _)
  | writing p | storeSequence p =>
    obtain ⟨hc, hh, hs⟩ := h
    refine ⟨hr.claimant p t hc, ?_, hr.held p hc hs⟩
    exact Bool.eq_false_iff.mpr fun hx => Bool.eq_false_iff.mp hh (hr.handed_only p hc hx)
  | addReady p => exact heldBy_progress hr.toProgress hr.handed_only h

def ProduceNext (cfg : Config) (t : Party) (g : Ghost) (m : Shared) : ProducePC ⊕ Option Nat → Prop
  | .inl pc => ProduceOwn cfg t g m pc
  | .inr none => True
  | .inr (some p) => HeldBy g t [p]

theorem produce_step {args : Produce} {pc : ProducePC} {next : ProducePC ⊕ Option Nat}
    (ht : t.produces = true) (hg : RingGuard cfg dc g m) (ho : ProduceOwn cfg t g m pc)
    (h : produceStep cfg args m pc = (next, m', label)) :
    Effect cfg dc t g m label m' ∧ (g.record cfg.slotCount (t, label)).handed = g.handed ∧
      ProduceNext cfg t (g.record cfg.slotCount (t, label)) m' next := by
  cases pc with
  | loadEnqueue =>
    simp only [produceStep] at h
    split at h <;> cases h <;> exact ⟨effect_quiet, rfl, trivial⟩
  | loadSequence p =>
    simp only [produceStep] at h
    split at h
    · cases h
      have hobserved : p ≤ m.sequence (slotAt cfg p) := by omega
      exact ⟨effect_quiet, rfl, hobserved⟩
    · split at h <;> cases h <;> exact ⟨effect_quiet, rfl, trivial⟩
  | compareExchange p =>
    simp only [produceStep] at h
    split at h <;> cases h
    · rename_i he
      subst he
      have hfree := hg.free_of_observed ho
      exact ⟨.claim ht ho, rfl, Function.update_self .., hg.unhanded hfree, Function.update_self ..⟩
    · exact ⟨effect_quiet, rfl, trivial⟩
  | writing p todo =>
    simp only [produceStep] at h
    split at h <;> cases h
    · exact ⟨.write p _ (.inl ⟨ho.1, ho.2.2⟩), rfl, ho⟩
    · exact ⟨effect_quiet, rfl, ho⟩
  | storeSequence p =>
    cases h
    refine ⟨.publish p ho.1 ho.2.2, rfl, fun q hq => ?_⟩
    rw [List.mem_singleton.mp hq]
    refine ⟨ho.1, ho.2.1, ?_⟩
    simp only [Ghost.record, Nat.add_sub_cancel, Function.update_self]
    decide
  | addReady p =>
    cases h
    exact ⟨effect_ready 1, rfl, ho⟩

def ProducerOwn (cfg : Config) (t : Party) (g : Ghost) (m : Shared) : ProducerPC → Prop
  | .idle held => HeldBy g t held
  | .producing held _ pc => HeldBy g t held ∧ ProduceOwn cfg t g m pc
  | .checking held p => HeldBy g t held ∧ p ∈ held
  | .releasing held p => HeldBy g t held ∧ p ∈ held ∧ g.stage p = .completed

lemma heldBy_stable (hr : Rely cfg t g m g' m') {held : List Nat} (h : HeldBy g t held) :
    HeldBy g' t held :=
  heldBy_progress hr.toProgress hr.handed_only h

theorem producerOwn_stable (hr : Rely cfg t g m g' m') {pc : ProducerPC} (h : ProducerOwn cfg t g m pc) :
    ProducerOwn cfg t g' m' pc := by
  cases pc with
  | idle held => exact heldBy_stable hr h
  | producing held args pc => exact ⟨heldBy_stable hr h.1, produceOwn_stable hr h.2⟩
  | checking held p => exact ⟨heldBy_stable hr h.1, h.2⟩
  | releasing held p =>
    obtain ⟨hheld, hmem, hs⟩ := h
    obtain ⟨hc, hh, -⟩ := hheld p hmem
    exact ⟨heldBy_stable hr hheld, hmem, hr.completed (holder_of_unhanded hc hh) hs⟩

theorem producer_step {pc pc' : ProducerPC} {choice : ProducerChoice} (ht : t.produces = true)
    (hg : RingGuard cfg dc g m)
    (ho : ProducerOwn cfg t g m pc) (h : producerStep cfg pc m choice = some (pc', m', label)) :
    Effect cfg dc t g m label m' ∧ ProducerOwn cfg t (g.record cfg.slotCount (t, label)) m' pc' := by
  cases pc with
  | idle held =>
    simp only [producerStep] at h
    split at h
    · cases h
      exact ⟨effect_quiet, ho, trivial⟩
    · split at h <;> cases h
      exact ⟨effect_quiet, ho, ‹_›⟩
    · cases h
  | producing held args pc =>
    simp only [producerStep] at h
    generalize hstep : produceStep cfg args m pc = out at h
    obtain ⟨next, m₁, label₁⟩ := out
    obtain ⟨heffect, hhanded, hnext⟩ := produce_step ht hg ho.2 hstep
    have hheld := heldBy_progress (t := t) (effect_progress hg heffect)
      (fun p _ hp => by rwa [hhanded] at hp) ho.1
    rcases next with pc₁ | _ | p <;> cases h
    · exact ⟨heffect, hheld, hnext⟩
    · exact ⟨heffect, hheld⟩
    · refine ⟨heffect, fun q hq => ?_⟩
      rcases List.mem_cons.mp hq with rfl | hq
      · exact hnext q (List.mem_singleton_self q)
      · exact hheld q hq
  | checking held p =>
    simp only [producerStep] at h
    split at h <;> cases h
    · rename_i hword
      -- a position that was released before has the word of a later lap
      have hN := four_le_slotCount cfg
      refine ⟨effect_quiet, ho.1, ho.2, completed_of_word hg (ho.1 p ho.2).2.2 (fun hreleased => ?_) hword⟩
      have hle := hg.ring.released_word (by omega) hreleased
      rw [show m.sequence (p % cfg.slotCount) = p + 2 from hword] at hle
      omega
    · exact ⟨effect_quiet, ho.1⟩
  | releasing held p =>
    cases h
    obtain ⟨hheld, hmem, hs⟩ := ho
    have heffect : Effect cfg dc t g m (.release (p % cfg.slotCount) (p + cfg.slotCount))
        (m.setSequence (p % cfg.slotCount) (p + cfg.slotCount)) :=
      .release p (holder_of_unhanded (hheld p hmem).1 (hheld p hmem).2.1) hs
    exact ⟨heffect, heldBy_progress (effect_progress hg heffect) (fun _ _ hp => hp) hheld⟩

end produce

section consume

/-- The slot serves a position that the party has taken, with the data that was published. -/
def TakenSlot (cfg : Config) (t : Party) (g : Ghost) (m : Shared) (i : Nat) : Prop :=
  ∃ p, p % cfg.slotCount = i ∧ g.taker p = some t ∧ g.stage p = .taken ∧ g.published p = some (m.data i)

structure TakenSlots (cfg : Config) (t : Party) (g : Ghost) (m : Shared) (slots : List Nat) : Prop where
  nodup : slots.Nodup
  taken : ∀ i ∈ slots, TakenSlot cfg t g m i

def ConsumeOwn (cfg : Config) (t : Party) (g : Ghost) (m : Shared) (slots : List Nat) : ConsumePC → Prop
  | .loadDequeue | .loadSequence _ => TakenSlots cfg t g m slots
  | .compareExchange p => TakenSlots cfg t g m slots ∧ p + 1 ≤ m.sequence (p % cfg.slotCount)
  | .takeReady p => TakenSlots cfg t g m (slotAt cfg p :: slots)

def ConsumeNext (cfg : Config) (t : Party) (g : Ghost) (m : Shared) (slots : List Nat) :
    ConsumePC ⊕ Option Nat → Prop
  | .inl pc => ConsumeOwn cfg t g m slots pc
  | .inr none => TakenSlots cfg t g m slots
  | .inr (some slot) => TakenSlots cfg t g m (slot :: slots)

lemma takenSlot_progress {i : Nat} (hp : Progress g m g' m')
    (hkeep : ∀ p, p % cfg.slotCount = i → g.taker p = some t → g.stage p = .taken →
      g'.stage p = .taken ∧ m'.data i = m.data i)
    (h : TakenSlot cfg t g m i) : TakenSlot cfg t g' m' i := by
  obtain ⟨p, hi, ht, hs, hpub⟩ := h
  obtain ⟨hs', hdata⟩ := hkeep p hi ht hs
  refine ⟨p, hi, hp.taker p t ht, hs', ?_⟩
  rw [hp.published p (by rw [hs]; decide), hdata]
  exact hpub

lemma takenSlot_stable (hr : Rely cfg t g m g' m') {i : Nat} (h : TakenSlot cfg t g m i) :
    TakenSlot cfg t g' m' i :=
  takenSlot_progress hr.toProgress (fun p hi ht hs => hi ▸ hr.taken p ht hs) h

lemma takenSlots_stable (hr : Rely cfg t g m g' m') {slots : List Nat} (h : TakenSlots cfg t g m slots) :
    TakenSlots cfg t g' m' slots :=
  ⟨h.nodup, fun i hi => takenSlot_stable hr (h.taken i hi)⟩

lemma takenSlots_ready {slots : List Nat} (delta : Nat) (h : TakenSlots cfg t g m slots) :
    TakenSlots cfg t g (m.addReady delta) slots :=
  ⟨h.nodup, h.taken⟩

lemma consumeOwn_stable (hr : Rely cfg t g m g' m') {slots : List Nat} {pc : ConsumePC}
    (h : ConsumeOwn cfg t g m slots pc) : ConsumeOwn cfg t g' m' slots pc := by
  cases pc with
  | loadDequeue | loadSequence | takeReady => exact takenSlots_stable hr h
  | compareExchange p => exact ⟨takenSlots_stable hr h.1, h.2.trans (hr.sequence _)⟩

/-- The exchange on the dequeue cursor gives its winner the slot of the published position. -/
lemma takenSlots_consume {slots : List Nat} (ht : t.consumes = true) (hg : RingGuard cfg dc g m)
    (h : TakenSlots cfg t g m slots) (hobserved : m.dequeue + 1 ≤ m.sequence (m.dequeue % cfg.slotCount)) :
    TakenSlots cfg t (g.record cfg.slotCount (t, .consume m.dequeue)) { m with dequeue := m.dequeue + 1 }
      (slotAt cfg m.dequeue :: slots) := by
  have hpub := hg.published_of_observed hobserved
  have hprogress := effect_progress hg (Effect.consume (t := t) ht hobserved)
  have hother : ∀ p, g.stage p = .taken → p ≠ m.dequeue := by
    rintro p hp rfl
    cases hp.symm.trans hpub
  refine ⟨List.nodup_cons.mpr ⟨fun hmem => ?_, h.nodup⟩, fun i hi => ?_⟩
  · obtain ⟨p, hi, -, hs, -⟩ := h.taken _ hmem
    exact hg.slots_differ (hpub.trans_ne Stage.noConfusion) (hpub.trans_ne Stage.noConfusion)
      (hs.trans_ne Stage.noConfusion) (hs.trans_ne Stage.noConfusion) (hother p hs) hi
  · rcases List.mem_cons.mp hi with rfl | hi
    · exact ⟨m.dequeue, rfl, Function.update_self .., Function.update_self .., hg.published _ hpub⟩
    · refine takenSlot_progress hprogress (fun p _ _ hs => ⟨?_, rfl⟩) (h.taken i hi)
      exact (Function.update_of_ne (hother p hs) _ _).trans hs

theorem consume_step {slots : List Nat} {pc : ConsumePC} {next : ConsumePC ⊕ Option Nat}
    (ht : t.consumes = true) (hg : RingGuard cfg dc g m) (ho : ConsumeOwn cfg t g m slots pc)
    (h : consumeStep cfg m pc = (next, m', label)) :
    Effect cfg dc t g m label m' ∧ ConsumeNext cfg t (g.record cfg.slotCount (t, label)) m' slots next := by
  cases pc with
  | loadDequeue =>
    cases h
    exact ⟨effect_quiet, ho⟩
  | loadSequence p =>
    simp only [consumeStep] at h
    split at h
    · cases h
      have hobserved : p + 1 ≤ m.sequence (slotAt cfg p) := by omega
      exact ⟨effect_quiet, ho, hobserved⟩
    · split at h <;> cases h <;> exact ⟨effect_quiet, ho⟩
  | compareExchange p =>
    simp only [consumeStep] at h
    split at h <;> cases h
    · rename_i he
      subst he
      exact ⟨.consume ht ho.2, takenSlots_consume ht hg ho.1 ho.2⟩
    · exact ⟨effect_quiet, ho.1⟩
  | takeReady p =>
    cases h
    exact ⟨effect_ready (2 ^ 64 - 1), takenSlots_ready (2 ^ 64 - 1) ho⟩

end consume

section complete

/-- What a call of `complete` knows: its position is taken, and its writes give the response. The
daemon computes the response from what was published. -/
structure CompletingOwn (cfg : Config) (dc : DaemonConfig) (t : Party) (g : Ghost) (m : Shared)
    (c : Completing) : Prop where
  slot : c.slot = c.position % cfg.slotCount
  taker : g.taker c.position = some t
  stage : g.stage c.position = .taken
  writes : (c.todo.foldl FieldWrite.apply (m.data c.slot)).response = c.response
  computed : t = .daemon → ∃ data, g.published c.position = some data ∧ Computed cfg dc data c.response

lemma completingOwn_progress {c : Completing} (hp : Progress g m g' m')
    (hkeep : g'.stage c.position = .taken ∧ m'.data c.slot = m.data c.slot)
    (h : CompletingOwn cfg dc t g m c) : CompletingOwn cfg dc t g' m' c where
  slot := h.slot
  taker := hp.taker _ _ h.taker
  stage := hkeep.1
  writes := by
    rw [hkeep.2]
    exact h.writes
  computed := by
    rw [hp.published _ (by rw [h.stage]; decide)]
    exact h.computed

lemma completingOwn_stable (hr : Rely cfg t g m g' m') {c : Completing} (h : CompletingOwn cfg dc t g m c) :
    CompletingOwn cfg dc t g' m' c := by
  refine completingOwn_progress hr.toProgress ?_ h
  rw [h.slot]
  exact hr.taken _ h.taker h.stage

/-- The sequence word of a taken slot is one above its position. -/
lemma takenSlot_sequence (hg : RingGuard cfg dc g m) {p i : Nat} (hi : p % cfg.slotCount = i)
    (hs : g.stage p = .taken) : m.sequence i = p + 1 := by
  rw [← hi]
  exact hg.word_of hs Stage.noConfusion Stage.noConfusion

lemma completingOwn_start (hg : RingGuard cfg dc g m) {slot : Nat} (h : TakenSlot cfg t g m slot)
    (response : Response) (hcomputed : t = .daemon → Computed cfg dc (m.data slot) response) :
    CompletingOwn cfg dc t g m (Completing.start slot (m.sequence slot - 1) response) := by
  obtain ⟨p, hi, ht, hs, hpub⟩ := h
  rw [takenSlot_sequence hg hi hs, Nat.add_sub_cancel]
  exact ⟨hi.symm, ht, hs, rfl, fun hd => ⟨_, hpub, hcomputed hd⟩⟩

/-- A step of `complete` touches its own slot only. -/
theorem complete_step {c : Completing} {next : Option Completing}
    (ho : CompletingOwn cfg dc t g m c) (h : completeStep m c = (next, m', label)) :
    Effect cfg dc t g m label m' ∧
      (∀ c', next = some c' →
        c'.slot = c.slot ∧ CompletingOwn cfg dc t (g.record cfg.slotCount (t, label)) m' c') ∧
      ∀ p, p % cfg.slotCount ≠ c.slot → g.stage p = .taken →
        (g.record cfg.slotCount (t, label)).stage p = .taken ∧
          m'.data (p % cfg.slotCount) = m.data (p % cfg.slotCount) := by
  obtain ⟨slot, position, response, todo⟩ := c
  obtain ⟨hslot, htaker, hstage, hwrites, hcomputed⟩ := ho
  dsimp only at hslot htaker hstage hwrites hcomputed
  subst hslot
  unfold completeStep at h
  cases todo with
  | cons write rest =>
    cases h
    refine ⟨.write position _ (.inr ⟨htaker, hstage⟩), fun c' he => ?_, fun p hp hs => ⟨hs, ?_⟩⟩
    · cases he
      refine ⟨rfl, rfl, htaker, hstage, ?_, hcomputed⟩
      rw [setData_data, Function.update_self]
      exact hwrites
    · rw [setData_data, Function.update_of_ne hp]
  | nil =>
    cases h
    refine ⟨.complete position response htaker hstage hwrites hcomputed, fun _ he => (by cases he),
      fun p hp hs => ⟨?_, ?_⟩⟩
    · simp only [Ghost.record, Nat.add_sub_cancel]
      rw [Function.update_of_ne (fun he => hp (by rw [he]))]
      exact hs
    · rw [setSequence_data]

end complete

section consumer

lemma TakenSlots.perm {xs ys : List Nat} (h : TakenSlots cfg t g m xs) (hp : ys.Perm xs) :
    TakenSlots cfg t g m ys :=
  ⟨hp.nodup_iff.mpr h.nodup, fun i hi => h.taken i (hp.mem_iff.mp hi)⟩

def ConsumerOwn (cfg : Config) (dc : DaemonConfig) (t : Party) (g : Ghost) (m : Shared) : ConsumerPC → Prop
  | .idle held => TakenSlots cfg t g m held
  | .consuming held pc => ConsumeOwn cfg t g m held pc
  | .locating held slot _ => TakenSlots cfg t g m (slot :: held)
  | .completing held c => TakenSlots cfg t g m held ∧ c.slot ∉ held ∧ CompletingOwn cfg dc t g m c

theorem consumerOwn_stable (hr : Rely cfg t g m g' m') {pc : ConsumerPC} (h : ConsumerOwn cfg dc t g m pc) :
    ConsumerOwn cfg dc t g' m' pc := by
  cases pc with
  | idle | locating => exact takenSlots_stable hr h
  | consuming => exact consumeOwn_stable hr h
  | completing => exact ⟨takenSlots_stable hr h.1, h.2.1, completingOwn_stable hr h.2.2⟩

theorem consumer_step {pc pc' : ConsumerPC} {choice : ConsumerChoice} (ht : t.consumes = true)
    (hdaemon : t ≠ .daemon) (hg : RingGuard cfg dc g m) (ho : ConsumerOwn cfg dc t g m pc)
    (h : consumerStep cfg pc m choice = some (pc', m', label)) :
    Effect cfg dc t g m label m' ∧ ConsumerOwn cfg dc t (g.record cfg.slotCount (t, label)) m' pc' := by
  cases pc with
  | idle held =>
    simp only [consumerStep] at h
    split at h
    · cases h
      exact ⟨effect_quiet, ho⟩
    · split at h <;> cases h
      rename_i hmem
      exact ⟨effect_quiet, TakenSlots.perm ho (List.perm_cons_erase hmem).symm⟩
    · cases h
  | consuming held pc =>
    simp only [consumerStep] at h
    generalize hstep : consumeStep cfg m pc = out at h
    obtain ⟨next, m₁, label₁⟩ := out
    obtain ⟨heffect, hnext⟩ := consume_step ht hg ho hstep
    rcases next with pc₁ | _ | slot <;> cases h <;> exact ⟨heffect, hnext⟩
  | locating held slot response =>
    cases h
    have hnodup := List.nodup_cons.mp ho.nodup
    exact ⟨effect_quiet, ⟨hnodup.2, fun i hi => ho.taken i (List.mem_cons_of_mem _ hi)⟩, hnodup.1,
      completingOwn_start hg (ho.taken slot List.mem_cons_self) response fun hd => absurd hd hdaemon⟩
  | completing held c =>
    obtain ⟨hheld, hnot, hc⟩ := ho
    simp only [consumerStep] at h
    generalize hstep : completeStep m c = out at h
    obtain ⟨next, m₁, label₁⟩ := out
    obtain ⟨heffect, hnext, hothers⟩ := complete_step hc hstep
    have hkeep : TakenSlots cfg t (g.record cfg.slotCount (t, label₁)) m₁ held := by
      refine ⟨hheld.nodup, fun i hi => ?_⟩
      refine takenSlot_progress (effect_progress hg heffect) (fun p hp _ hs => ?_) (hheld.taken i hi)
      subst hp
      exact hothers p (fun he => hnot (he ▸ hi)) hs
    cases next with
    | none =>
      cases h
      exact ⟨heffect, hkeep⟩
    | some c' =>
      cases h
      obtain ⟨hslot, hown⟩ := hnext c' rfl
      exact ⟨heffect, hkeep, by rw [hslot]; exact hnot, hown⟩

end consumer

end FraudDetection.Proofs
