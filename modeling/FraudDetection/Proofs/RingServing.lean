import FraudDetection.Proofs.DaemonResponses
import FraudDetection.Proofs.ReclaimLists

/-!
# A serving daemon

What holds in every run of the gateway and the daemon in which the daemon is not told to stop: it
has not left its loop, each position that was consumed and not answered is in its hands, and an
enqueue time in the segment is one that the deadline of a batch can follow.
-/

namespace FraudDetection.Proofs
open FraudDetection.Library
open FraudDetection.Ring

variable {cfg : Config} {dc : DaemonConfig} {t : Party} {g : Ghost} {m m' : Shared} {label : Label}
  {s s' : System} {trace : Trace}

section times

/-- The deadline of a batch that was enqueued at this time does not overflow the clock. -/
def TimelyNs (dc : DaemonConfig) (ns : UInt64) : Prop := ns.toNat + dc.slaDeadlineNs.toNat < 2 ^ 64

lemma timelyNs_zero (dc : DaemonConfig) : TimelyNs dc 0 := by
  have hlt := dc.slaDeadlineNs.toNat_lt
  rw [TimelyNs, UInt64.toNat_zero]
  omega

def TimelyWrite (dc : DaemonConfig) : FieldWrite → Prop
  | .enqueueNs value => TimelyNs dc value
  | _ => True

structure SegmentServes (dc : DaemonConfig) (m : Shared) : Prop where
  accepting : m.shutdown = false
  timely : ∀ i, TimelyNs dc (m.data i).enqueueNs

lemma live_congr (h : SegmentServes dc m) (hshutdown : m'.shutdown = m.shutdown) (hdata : m'.data = m.data) :
    SegmentServes dc m' :=
  ⟨hshutdown.trans h.accepting, by rw [hdata]; exact h.timely⟩

lemma live_ready (h : SegmentServes dc m) (delta : Nat) : SegmentServes dc (m.addReady delta) := ⟨h.accepting, h.timely⟩

lemma live_sequence (h : SegmentServes dc m) (i value : Nat) : SegmentServes dc (m.setSequence i value) :=
  live_congr h rfl (setSequence_data m i value)

lemma live_write (h : SegmentServes dc m) (i : Nat) {w : FieldWrite} (hw : TimelyWrite dc w) :
    SegmentServes dc (m.setData i (w.apply (m.data i))) := by
  refine ⟨h.accepting, fun j => ?_⟩
  rw [setData_data]
  by_cases hj : j = i
  · subst hj
    rw [Function.update_self]
    cases w with
    | enqueueNs value => exact hw
    | _ => exact h.timely j
  · rw [Function.update_of_ne hj]
    exact h.timely j

end times

section submit

def SubmitTimely (dc : DaemonConfig) : SubmitPC → Prop
  | .reserveReady r | .loadEnqueue r | .loadSequence r _ | .compareExchange r _ | .reserveDeadline r =>
    TimelyNs dc r.enqueueNs
  | .serializing v | .publishDeadline v _ _ => TimelyNs dc v.enqueueNs
  | .publishing _ todo _ => ∀ w ∈ todo, TimelyWrite dc w
  | _ => True

/-- The clock reading of a new request leaves room for the deadline. -/
def TimelyChoice (dc : DaemonConfig) : SubmitChoice → Prop
  | .prepared _ enqueueNs => TimelyNs dc enqueueNs
  | _ => True

lemma publicationWrites_timely {ns : UInt64} (h : TimelyNs dc ns) (offset size status : UInt32) (requestId : UInt64) :
    ∀ w ∈ publicationWrites offset size status requestId ns, TimelyWrite dc w := by
  intro w hw
  simp only [publicationWrites, List.mem_cons, List.not_mem_nil, or_false] at hw
  rcases hw with rfl | rfl | rfl | rfl | rfl | rfl | rfl | rfl
  · trivial
  · trivial
  · trivial
  · trivial
  · trivial
  · trivial
  · exact h
  · trivial

variable {pc pc' : SubmitPC} {choice : SubmitChoice} (hchoice : TimelyChoice dc choice) (hm : SegmentServes dc m)
  (hpc : SubmitTimely dc pc)
include hchoice hm hpc

omit hm in
lemma reserveStep_live (hm : SegmentServes dc m) (h : reserveStep cfg pc m choice = some (pc', m', label)) :
    SubmitTimely dc pc' ∧ SegmentServes dc m' := by
  unfold reserveStep at h
  split at h
  · cases h
    exact ⟨trivial, hm⟩
  · cases h
    exact ⟨trivial, hm⟩
  · cases h
    exact ⟨trivial, hm⟩
  · split at h <;> cases h <;> exact ⟨trivial, hm⟩
  · cases h
    exact ⟨trivial, hm⟩
  · cases h
    exact ⟨hchoice, hm⟩
  · split at h <;> cases h
    · exact ⟨trivial, hm⟩
    · exact ⟨hpc, hm⟩
  · cases h
    exact ⟨hpc, hm⟩
  · dsimp only at h
    split_ifs at h <;> cases h
    · exact ⟨hpc, hm⟩
    · exact ⟨trivial, hm⟩
    · exact ⟨hpc, hm⟩
  · split at h <;> cases h
    · exact ⟨hpc, live_congr hm rfl rfl⟩
    · exact ⟨hpc, hm⟩
  · split at h <;> cases h
    · exact ⟨trivial, hm⟩
    · exact ⟨hpc, hm⟩
  · cases h

lemma publishStep_live (h : publishStep cfg pc m choice = some (pc', m', label)) :
    SubmitTimely dc pc' ∧ SegmentServes dc m' := by
  unfold publishStep at h
  split at h
  · dsimp only at h
    split at h <;> cases h
    exact ⟨hpc, live_write hm _ trivial⟩
  · split at h <;> cases h
    · exact ⟨hpc, hm⟩
    · exact ⟨publicationWrites_timely hpc _ _ _ _, hm⟩
  · cases h
    exact ⟨publicationWrites_timely hpc _ _ _ _, hm⟩
  · cases h
    exact ⟨publicationWrites_timely hpc _ _ _ _, hm⟩
  · split at h <;> cases h <;> exact ⟨publicationWrites_timely hpc _ _ _ _, hm⟩
  · dsimp only at h
    split at h <;> cases h
    · exact ⟨fun w hw => hpc w (List.mem_cons_of_mem _ hw), live_write hm _ (hpc _ List.mem_cons_self)⟩
    · exact ⟨trivial, hm⟩
  · cases h
    exact ⟨trivial, live_sequence hm _ _⟩
  · split at h <;> cases h <;> exact ⟨trivial, live_ready hm 1⟩
  · cases h

omit hchoice hpc in
lemma finishStep_live (h : finishStep cfg pc m choice = some (pc', m', label)) :
    SubmitTimely dc pc' ∧ SegmentServes dc m' := by
  unfold finishStep at h
  split at h
  · split at h <;> cases h <;> exact ⟨trivial, hm⟩
  · split at h <;> cases h <;> exact ⟨trivial, hm⟩
  · split at h <;> cases h <;> exact ⟨trivial, hm⟩
  · split_ifs at h <;> cases h
    · exact ⟨trivial, hm⟩
    · exact ⟨trivial, live_congr hm rfl rfl⟩
    · exact ⟨trivial, hm⟩
  · split at h <;> cases h <;> exact ⟨trivial, hm⟩
  · split at h <;> cases h <;> exact ⟨trivial, hm⟩
  · dsimp only at h
    split at h <;> cases h <;> exact ⟨trivial, hm⟩
  · cases h
    exact ⟨trivial, hm⟩
  · cases h
    exact ⟨trivial, hm⟩
  · cases h
    exact ⟨trivial, live_sequence hm _ _⟩
  · cases h

theorem submitStep_live (h : submitStep cfg pc m choice = some (pc', m', label)) :
    SubmitTimely dc pc' ∧ SegmentServes dc m' := by
  unfold submitStep at h
  rcases Option.or_eq_some_iff.mp h with hreserve | ⟨-, hrest⟩
  · exact reserveStep_live hchoice hpc hm hreserve
  · rcases Option.or_eq_some_iff.mp hrest with hpublish | ⟨-, hfinish⟩
    · exact publishStep_live hchoice hm hpc hpublish
    · exact finishStep_live hm hfinish

end submit

lemma reclaimerStep_live {pc pc' : ReclaimerPC} (hm : SegmentServes dc m) (h : reclaimerStep cfg pc m = (pc', m', label)) :
    SegmentServes dc m' := by
  cases pc with
  | swap outstanding =>
    cases h
    exact live_congr hm rfl rfl
  | scan outstanding index =>
    simp only [reclaimerStep] at h
    split at h
    · cases h
      exact hm
    · split at h <;> cases h <;> exact hm
  | store outstanding index position =>
    cases h
    exact live_sequence hm _ _
  | remove outstanding index =>
    cases h
    exact hm

section daemon

/-- The daemon has not left its loop, and the times it carries are timely. -/
def DaemonServes (dc : DaemonConfig) : DaemonPC → Prop
  | .loop b | .poll b | .consuming b _ | .stage b _ | .decide b => TimelyNs dc b.oldestEnqueueNs
  | .decoding h _ | .launching h _ | .preparing h _ _ _ _ | .synchronizing h _ _ _ _ => h.flushing = false
  | .completing h todo => h.flushing = false ∧ ∀ c ∈ todo, ∀ w ∈ c.todo, TimelyWrite dc w
  | .stopping _ | .flushing _ | .finished _ => False

lemma consumeStep_live {pc : ConsumePC} {next : ConsumePC ⊕ Option Nat} (hm : SegmentServes dc m)
    (h : consumeStep cfg m pc = (next, m', label)) : SegmentServes dc m' := by
  cases pc with
  | loadDequeue =>
    cases h
    exact hm
  | loadSequence p =>
    simp only [consumeStep] at h
    split_ifs at h <;> cases h <;> exact hm
  | compareExchange p =>
    simp only [consumeStep] at h
    split at h <;> cases h
    · exact live_congr hm rfl rfl
    · exact hm
  | takeReady p =>
    cases h
    exact live_ready hm _

lemma completeStep_live {c : Completing} {next : Option Completing} (hm : SegmentServes dc m)
    (hc : ∀ w ∈ c.todo, TimelyWrite dc w) (h : completeStep m c = (next, m', label)) :
    (∀ c' ∈ next, ∀ w ∈ c'.todo, TimelyWrite dc w) ∧ SegmentServes dc m' := by
  obtain ⟨slot, position, response, todo⟩ := c
  unfold completeStep at h
  cases todo with
  | cons w rest =>
    cases h
    refine ⟨fun c' hc' w' hw' => ?_, live_write hm slot (hc w List.mem_cons_self)⟩
    cases hc'
    exact hc w' (List.mem_cons_of_mem _ hw')
  | nil =>
    cases h
    exact ⟨fun _ h => (by cases h), live_sequence hm _ _⟩

lemma completions_timely (h : Handling) (views : List (Option TransactionView)) (status : UInt32) (syncFailed : Bool)
    (positions : List Nat) :
    ∀ c ∈ completions h views status syncFailed positions, ∀ w ∈ c.todo, TimelyWrite dc w := by
  intro c hc w hw
  obtain ⟨x, -, rfl⟩ := List.mem_map.mp hc
  simp only [Completing.start, List.mem_cons, List.not_mem_nil, or_false] at hw
  rcases hw with rfl | rfl | rfl | rfl <;> trivial

variable {pc pc' : DaemonPC} {choice : DaemonChoice} (hm : SegmentServes dc m) (hpc : DaemonServes dc pc)
include hm hpc

lemma pollStep_live (hchoice : choice ≠ .stop) (h : pollStep cfg dc pc m choice = some (pc', m', label)) :
    DaemonServes dc pc' ∧ SegmentServes dc m' := by
  unfold pollStep at h
  split at h
  · exact absurd rfl hchoice
  · rw [if_neg (Bool.eq_false_iff.mp hm.accepting)] at h
    split at h <;> cases h <;> exact ⟨hpc, hm⟩
  · split at h <;> cases h <;> exact ⟨hpc, hm⟩
  · rename_i b pc
    generalize hstep : consumeStep cfg m pc = out at h
    obtain ⟨next, m₁, label₁⟩ := out
    have hm₁ := consumeStep_live hm hstep
    rcases next with pc₁ | _ | slot <;> cases h
    · exact ⟨hpc, hm₁⟩
    · refine ⟨?_, hm₁⟩
      split <;> exact hpc
    · exact ⟨hpc, hm₁⟩
  · rename_i b slot
    cases h
    refine ⟨?_, hm⟩
    change TimelyNs dc (if b.staged.length = 0 then _ else _)
    split
    · exact hm.timely slot
    · exact hpc
  · dsimp only at h
    split at h <;> cases h
    · exact ⟨hpc, hm⟩
    · exact ⟨rfl, hm⟩
  · exact hpc.elim
  · exact hpc.elim
  · cases h

lemma handleStep_live (h : handleStep cfg dc pc m choice = some (pc', m', label)) :
    DaemonServes dc pc' ∧ SegmentServes dc m' := by
  unfold handleStep at h
  split at h
  · split at h <;> cases h <;> exact ⟨hpc, hm⟩
  · split at h <;> cases h <;> exact ⟨hpc, hm⟩
  · split at h <;> cases h <;> exact ⟨hpc, hm⟩
  · cases h
    exact ⟨⟨hpc, completions_timely _ _ _ _ _⟩, hm⟩
  · split at h
    · rename_i handling c rest
      generalize hstep : completeStep m c = out at h
      obtain ⟨next, m₁, label₁⟩ := out
      obtain ⟨hnext, hm₁⟩ := completeStep_live hm (hpc.2 c List.mem_cons_self) hstep
      have hrest : ∀ d ∈ rest, ∀ w ∈ d.todo, TimelyWrite dc w := fun d hd => hpc.2 d (List.mem_cons_of_mem _ hd)
      cases next <;> cases h
      · exact ⟨⟨hpc.1, hrest⟩, hm₁⟩
      · exact ⟨⟨hpc.1, List.forall_mem_cons.mpr ⟨hnext _ rfl, hrest⟩⟩, hm₁⟩
    · rename_i handling
      cases h
      refine ⟨?_, hm⟩
      rw [if_neg (Bool.eq_false_iff.mp hpc.1)]
      exact timelyNs_zero dc
  · cases h

theorem daemonStep_live (hchoice : choice ≠ .stop) (h : daemonStep cfg dc pc m choice = some (pc', m', label)) :
    DaemonServes dc pc' ∧ SegmentServes dc m' := by
  unfold daemonStep at h
  rcases Option.or_eq_some_iff.mp h with hpoll | ⟨-, hhandle⟩
  · exact pollStep_live hm hpc hchoice hpoll
  · exact handleStep_live hm hpc hhandle

end daemon

section hands

/-- The slots that the daemon is still to complete. -/
def slotsInHand (cfg : Config) : DaemonPC → List Nat
  | .loop b | .poll b | .decide b | .stopping b | .flushing b | .finished b => b.staged
  | .consuming b (.takeReady p) => slotAt cfg p :: b.staged
  | .consuming b _ => b.staged
  | .stage b slot => slot :: b.staged
  | .decoding h _ | .launching h _ | .preparing h _ _ _ _ | .synchronizing h _ _ _ _ => h.batcher.staged
  | .completing _ todo => todo.map Completing.slot

/-- Every position that was taken and not completed is in the daemon's hands. -/
def InHands (cfg : Config) (g : Ghost) (pc : DaemonPC) : Prop :=
  ∀ p, g.stage p = .taken → p % cfg.slotCount ∈ slotsInHand cfg pc

lemma taken_of_effect (h : Effect cfg dc t g m label m') (ht : t.consumes = false) {p : Nat}
    (hp : (g.record cfg.slotCount (t, label)).stage p = .taken) : g.stage p = .taken := by
  cases h with
  | consume hconsumes => cases hconsumes.symm.trans ht
  | claim | publish | complete | release =>
    simp only [Ghost.record, Function.update_apply] at hp
    split at hp
    · cases hp
    · exact hp
  | _ => exact hp

def slotsAfter (cfg : Config) (b : Batcher) : ConsumePC ⊕ Option Nat → List Nat
  | .inl pc => slotsInHand cfg (.consuming b pc)
  | .inr none => b.staged
  | .inr (some slot) => slot :: b.staged

lemma consumeStep_hands {b : Batcher} {pc : ConsumePC} {next : ConsumePC ⊕ Option Nat}
    (hh : InHands cfg g (.consuming b pc)) (h : consumeStep cfg m pc = (next, m', label)) {p : Nat}
    (hp : (g.record cfg.slotCount (.daemon, label)).stage p = .taken) :
    p % cfg.slotCount ∈ slotsAfter cfg b next := by
  cases pc with
  | loadDequeue =>
    cases h
    exact hh p hp
  | loadSequence position =>
    simp only [consumeStep] at h
    split_ifs at h <;> cases h <;> exact hh p hp
  | compareExchange position =>
    simp only [consumeStep] at h
    split at h <;> cases h
    · simp only [Ghost.record, Function.update_apply] at hp
      split at hp
      · rename_i he
        rw [he]
        exact List.mem_cons_self
      · exact List.mem_cons_of_mem _ (hh p hp)
    · exact hh p hp
  | takeReady position =>
    cases h
    exact hh p hp

/-- The store of `complete` is what takes a slot out of the daemon's hands. -/
lemma completeStep_hands {h : Handling} {c : Completing} {rest : List Completing} {next : Option Completing}
    (hg : RingGuard cfg dc g m) (hc : CompletingOwn cfg dc .daemon g m c)
    (hh : InHands cfg g (.completing h (c :: rest))) (hstep : completeStep m c = (next, m', label)) :
    InHands cfg (g.record cfg.slotCount (.daemon, label)) (.completing h (next.toList ++ rest)) := by
  obtain ⟨slot, position, response, todo⟩ := c
  unfold completeStep at hstep
  cases todo with
  | cons w todo =>
    cases hstep
    exact hh
  | nil =>
    cases hstep
    intro p hp
    simp only [Ghost.record, Function.update_apply, Nat.add_sub_cancel] at hp
    split at hp
    · cases hp
    · rename_i hne
      rcases List.mem_cons.mp (hh p hp) with he | hmem
      · have hslot : slot = position % cfg.slotCount := hc.slot
        have hs : g.stage position = .taken := hc.stage
        exact absurd (he.trans hslot) (hg.slots_differ (hs.trans_ne Stage.noConfusion)
          (hs.trans_ne Stage.noConfusion) (hp.trans_ne Stage.noConfusion) (hp.trans_ne Stage.noConfusion) hne)
      · exact hmem

variable {pc pc' : DaemonPC} {choice : DaemonChoice}

lemma pollStep_hands (hh : InHands cfg g pc) (h : pollStep cfg dc pc m choice = some (pc', m', label)) :
    InHands cfg (g.record cfg.slotCount (.daemon, label)) pc' := by
  unfold pollStep at h
  split at h
  · cases h
    exact hh
  · split_ifs at h <;> cases h <;> exact hh
  · split at h <;> cases h <;> exact hh
  · rename_i b pc
    generalize hstep : consumeStep cfg m pc = out at h
    obtain ⟨next, m₁, label₁⟩ := out
    have hnext := fun p hp => consumeStep_hands (p := p) hh hstep hp
    rcases next with pc₁ | _ | slot <;> cases h
    · exact hnext
    · split <;> exact hnext
    · exact hnext
  · rename_i b slot
    cases h
    intro p hp
    exact (List.perm_append_singleton slot b.staged).mem_iff.mpr (hh p hp)
  · dsimp only at h
    split at h <;> cases h <;> exact hh
  · cases h
    exact hh
  · split at h <;> cases h <;> exact hh
  · cases h

lemma completions_slots (h : Handling) (status : UInt32) (syncFailed : Bool) :
    (completions h (h.batcher.staged.map (decodedAt cfg dc m)) status syncFailed
      (h.batcher.staged.map (positionAt m))).map Completing.slot = h.batcher.staged := by
  rw [completions_eq, List.map_map]
  exact List.map_id _

lemma handleStep_hands (hg : RingGuard cfg dc g m) (ho : DaemonOwn cfg dc g m pc) (hh : InHands cfg g pc)
    (h : handleStep cfg dc pc m choice = some (pc', m', label)) :
    InHands cfg (g.record cfg.slotCount (.daemon, label)) pc' := by
  unfold handleStep at h
  split at h
  · split at h <;> cases h <;> exact hh
  · split at h <;> cases h <;> exact hh
  · split at h <;> cases h <;> exact hh
  · obtain ⟨-, rfl, rfl⟩ := ho
    cases h
    intro p hp
    rw [slotsInHand, completions_slots]
    exact hh p hp
  · split at h
    · rename_i handling c rest
      generalize hstep : completeStep m c = out at h
      obtain ⟨next, m₁, label₁⟩ := out
      have hnext := completeStep_hands hg (ho.own c List.mem_cons_self) hh hstep
      cases next <;> cases h <;> exact hnext
    · cases h
      split <;> exact hh
  · cases h

theorem daemonStep_hands (hg : RingGuard cfg dc g m) (ho : DaemonOwn cfg dc g m pc) (hh : InHands cfg g pc)
    (h : daemonStep cfg dc pc m choice = some (pc', m', label)) :
    InHands cfg (g.record cfg.slotCount (.daemon, label)) pc' := by
  unfold daemonStep at h
  rcases Option.or_eq_some_iff.mp h with hpoll | ⟨-, hhandle⟩
  · exact pollStep_hands hh hpoll
  · exact handleStep_hands hg ho hh hhandle

end hands

section cursor

/-- The position that the daemon looks at is the dequeue cursor: nobody else moves it. -/
def AtCursor (m : Shared) : DaemonPC → Prop
  | .consuming _ (.loadSequence p) | .consuming _ (.compareExchange p) => p = m.dequeue
  | _ => True

lemma dequeue_of_effect (h : Effect cfg dc t g m label m') (ht : t.consumes = false) : m'.dequeue = m.dequeue := by
  cases h with
  | quiet m' henqueue hdequeue => exact hdequeue
  | consume hconsumes => cases hconsumes.symm.trans ht
  | _ => rfl

lemma enqueue_of_effect (h : Effect cfg dc t g m label m') (ht : t.produces = false) : m'.enqueue = m.enqueue := by
  cases h with
  | quiet m' henqueue => exact henqueue
  | claim hproduces => cases hproduces.symm.trans ht
  | _ => rfl

lemma atCursor_congr {pc : DaemonPC} (h : AtCursor m pc) (hdequeue : m'.dequeue = m.dequeue) : AtCursor m' pc := by
  cases pc with
  | consuming b pc =>
    cases pc with
    | loadSequence p => exact Eq.trans h hdequeue.symm
    | compareExchange p => exact Eq.trans h hdequeue.symm
    | _ => trivial
  | _ => trivial

lemma consumeStep_cursor {b : Batcher} {pc pc' : ConsumePC} (hc : AtCursor m (.consuming b pc))
    (h : consumeStep cfg m pc = (.inl pc', m', label)) : AtCursor m' (.consuming b pc') := by
  cases pc with
  | loadDequeue =>
    cases h
    rfl
  | loadSequence p =>
    simp only [consumeStep] at h
    split_ifs at h <;> cases h
    · exact hc
    · trivial
  | compareExchange p =>
    simp only [consumeStep] at h
    split at h <;> cases h
    · trivial
    · rfl
  | takeReady p => cases h

theorem daemonStep_cursor {pc pc' : DaemonPC} {choice : DaemonChoice} (hc : AtCursor m pc)
    (h : daemonStep cfg dc pc m choice = some (pc', m', label)) : AtCursor m' pc' := by
  unfold daemonStep at h
  rcases Option.or_eq_some_iff.mp h with hpoll | ⟨-, hhandle⟩
  · unfold pollStep at hpoll
    split at hpoll
    · cases hpoll
      trivial
    · split_ifs at hpoll <;> cases hpoll <;> trivial
    · split at hpoll <;> cases hpoll <;> trivial
    · rename_i b pc
      generalize hstep : consumeStep cfg m pc = out at hpoll
      obtain ⟨next, m₁, label₁⟩ := out
      rcases next with pc₁ | _ | slot <;> cases hpoll
      · exact consumeStep_cursor hc hstep
      · split <;> trivial
      · trivial
    · cases hpoll
      trivial
    · dsimp only at hpoll
      split at hpoll <;> cases hpoll <;> trivial
    · cases hpoll
      trivial
    · split at hpoll <;> cases hpoll <;> trivial
    · cases hpoll
  · unfold handleStep at hhandle
    split at hhandle
    · split at hhandle <;> cases hhandle <;> trivial
    · split at hhandle <;> cases hhandle <;> trivial
    · split at hhandle <;> cases hhandle <;> trivial
    · cases hhandle
      trivial
    · split at hhandle
      · rename_i handling c rest
        generalize completeStep m c = out at hhandle
        obtain ⟨next, m₁, label₁⟩ := out
        cases next <;> cases hhandle <;> trivial
      · cases hhandle
        split <;> trivial
    · cases hhandle

end cursor

section runs

/-- An action of the gateway or the daemon, other than the signal that stops the daemon; the clock
reading of a request leaves room for the deadline. -/
def Orderly (dc : DaemonConfig) : Action → Prop
  | ⟨.submit _, choice⟩ => TimelyChoice dc choice
  | ⟨.reclaimer, _⟩ => True
  | ⟨.daemon, choice⟩ => choice ≠ DaemonChoice.stop
  | ⟨.producer _, _⟩ | ⟨.consumer _, _⟩ => False

structure InService (cfg : Config) (dc : DaemonConfig) (s : System) (trace : Trace) : Prop where
  reached : Reached cfg dc s trace
  parties : ∀ e ∈ trace, e.1.deployed = true
  live : SegmentServes dc s.shared
  calls : ∀ call, SubmitTimely dc (s.locals (.submit call))
  serves : DaemonServes dc (s.locals .daemon)
  hands : InHands cfg (ghostOf cfg trace) (s.locals .daemon)
  cursor : AtCursor s.shared (s.locals .daemon)

lemma Orderly.deployed {a : Action} (h : Orderly dc a) : a.1.deployed = true := by
  obtain ⟨_ | _ | _ | _ | _, _⟩ := a
  · rfl
  · rfl
  · rfl
  · exact h.elim
  · exact h.elim

theorem inService_step (hs : InService cfg dc s trace) {a : Action} {event : Party × Label} (ha : Orderly dc a)
    (h : stepThread (program cfg dc) s a = some (s', event)) : InService cfg dc s' (trace ++ [event]) := by
  obtain ⟨hparty, heffect, hreached⟩ := reached_step hs.reached h
  have hghost : ghostOf cfg (trace ++ [event]) = (ghostOf cfg trace).record cfg.slotCount event := replay_snoc ..
  obtain ⟨next, shared, label, hp, rfl, rfl⟩ := stepThread_eq h
  have hparties : ∀ e ∈ trace ++ [(a.1, label)], e.1.deployed = true := by
    intro e he
    rcases List.mem_append.mp he with he | he
    · exact hs.parties e he
    · rw [List.mem_singleton.mp he]
      exact ha.deployed
  have hkept : a.1.consumes = false → InHands cfg (ghostOf cfg (trace ++ [(a.1, label)])) (s.locals .daemon) := by
    intro hconsumes p hp
    rw [hghost] at hp
    exact hs.hands p (taken_of_effect heffect hconsumes hp)
  have hcursor : a.1.consumes = false → AtCursor shared (s.locals .daemon) := fun hconsumes =>
    atCursor_congr hs.cursor (dequeue_of_effect heffect hconsumes)
  obtain ⟨t, choice⟩ := a
  cases t with
  | submit call =>
    obtain ⟨hpc, hlive⟩ := submitStep_live ha hs.live (hs.calls call) hp
    refine ⟨hreached, hparties, hlive, fun c => ?_, hs.serves, hkept rfl, hcursor rfl⟩
    dsimp only
    by_cases hc : Party.submit c = Party.submit call
    · cases hc
      rw [Function.update_self]
      exact hpc
    · rw [Function.update_of_ne hc]
      exact hs.calls c
  | reclaimer =>
    exact ⟨hreached, hparties, reclaimerStep_live hs.live (Option.some.inj hp), hs.calls, hs.serves, hkept rfl,
      hcursor rfl⟩
  | daemon =>
    obtain ⟨hpc, hlive⟩ := daemonStep_live hs.live hs.serves ha hp
    refine ⟨hreached, hparties, hlive, hs.calls, hpc, ?_, daemonStep_cursor hs.cursor hp⟩
    rw [hghost]
    exact daemonStep_hands hs.reached.guard (hs.reached.own .daemon) hs.hands hp
  | producer k => exact ha.elim
  | consumer k => exact ha.elim

lemma inService_initial (cfg : Config) (dc : DaemonConfig) : InService cfg dc (System.initial cfg) [] where
  reached := by
    have hrun : runThreads (program cfg dc) (System.initial cfg) [] = some (System.initial cfg, []) := rfl
    exact run_reached hrun
  parties _ h := absurd h List.not_mem_nil
  live := ⟨rfl, fun _ => timelyNs_zero dc⟩
  calls _ := trivial
  serves := timelyNs_zero dc
  hands _ h := by cases h
  cursor := trivial

theorem run_inService (hs : InService cfg dc s trace) {actions : List Action} {new : Trace}
    (horderly : ∀ a ∈ actions, Orderly dc a) (h : runThreads (program cfg dc) s actions = some (s', new)) :
    InService cfg dc s' (trace ++ new) := by
  have hstep : ∀ s trace a s' event, InService cfg dc s trace →
      stepThread (program cfg dc) s a = some (s', event) →
        InService cfg dc s' (trace ++ [event]) ∨ ¬Orderly dc a := by
    intro s trace a s' event hs hrun
    by_cases ha : Orderly dc a
    · exact .inl (inService_step hs ha hrun)
    · exact .inr ha
  rcases runThreads_until hstep trace hs actions h with hend | ⟨past, a, later, -, -, rfl, -, hnot⟩
  · exact hend
  · exact absurd (horderly a (List.mem_append_right _ List.mem_cons_self)) hnot

end runs

end FraudDetection.Proofs
