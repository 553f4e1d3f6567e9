import FraudDetection.Proofs.BatcherStaging

/-!
# The deadline of a staged batch

`poll_once` compares the clock with `oldest_enqueue_ns_`, which is read once, from the slot that was
staged first. Slots are staged in ring order, and `submit` reads its clock before it races for a
position, so the first staged request need not be the oldest one. Whenever `poll_once` returns
without a batch, all staged requests are within their deadline exactly if none of them is older
than the first, as far as the clock can still reach its deadline.
-/

namespace FraudDetection.Proofs
open FraudDetection.Library
open FraudDetection.Ring

variable {cfg : Config} {dc : DaemonConfig} {g g' : Ghost} {m m' : Shared} {label : Label}

section oldest

def collecting : DaemonPC → Option Batcher
  | .loop b | .poll b | .consuming b _ | .stage b _ | .decide b | .stopping b | .flushing b | .finished b => some b
  | .decoding _ _ | .launching _ _ | .preparing _ _ _ _ _ | .synchronizing _ _ _ _ _ | .completing _ _ => none

/-- What `oldest_enqueue_ns_` holds: the stamp of the slot that was staged first. -/
def OldestIsFirst (m : Shared) (pc : DaemonPC) : Prop :=
  ∀ b first, collecting pc = some b → b.staged.head? = some first →
    b.oldestEnqueueNs = (m.data first).enqueueNs

lemma oldestIsFirst_congr {pc pc' : DaemonPC} (h : OldestIsFirst m pc) (hdata : m'.data = m.data)
    (hpc : collecting pc' = collecting pc) : OldestIsFirst m' pc' := by
  intro b first hb hfirst
  rw [hdata]
  exact h b first (hpc ▸ hb) hfirst

lemma oldestIsFirst_handling {pc : DaemonPC} (hpc : collecting pc = none) : OldestIsFirst m pc := by
  intro b first hb
  rw [hpc] at hb
  cases hb

lemma oldestIsFirst_stage {b : Batcher} {slot : Nat} (h : OldestIsFirst m (.stage b slot)) :
    OldestIsFirst m (.poll { b with
      staged := b.staged ++ [slot]
      oldestEnqueueNs := if b.staged.length = 0 then (m.data slot).enqueueNs else b.oldestEnqueueNs }) := by
  intro b' first hb hfirst
  cases hb
  dsimp only at hfirst ⊢
  cases hs : b.staged with
  | nil =>
    rw [hs] at hfirst
    cases hfirst
    rfl
  | cons x xs =>
    rw [hs] at hfirst
    cases hfirst
    exact h b first rfl (by rw [hs]; rfl)

lemma addReady_data (delta : Nat) : (m.addReady delta).data = m.data := rfl

lemma consume_data {pc : ConsumePC} {next : ConsumePC ⊕ Option Nat} (h : consumeStep cfg m pc = (next, m', label)) :
    m'.data = m.data := by
  unfold consumeStep at h
  split at h
  · cases h
    rfl
  · dsimp only at h
    split at h
    · cases h
      rfl
    · split at h <;> cases h <;> rfl
  · split at h <;> cases h <;> rfl
  · cases h
    exact addReady_data _

theorem poll_oldest {pc pc' : DaemonPC} {choice : DaemonChoice} (ho : OldestIsFirst m pc)
    (h : pollStep cfg dc pc m choice = some (pc', m', label)) : OldestIsFirst m' pc' := by
  unfold pollStep at h
  split at h
  · cases h
    exact oldestIsFirst_congr ho rfl rfl
  · split at h
    · cases h
      exact oldestIsFirst_congr ho rfl rfl
    · split at h <;> cases h <;> exact oldestIsFirst_congr ho rfl rfl
  · split at h <;> cases h <;> exact oldestIsFirst_congr ho rfl rfl
  · rename_i b pc
    generalize hstep : consumeStep cfg m pc = out at h
    obtain ⟨next, m₁, label₁⟩ := out
    have hdata := consume_data hstep
    rcases next with pc₁ | _ | slot <;> cases h
    · exact oldestIsFirst_congr ho hdata rfl
    · split <;> exact oldestIsFirst_congr ho hdata rfl
    · exact oldestIsFirst_congr ho hdata rfl
  · cases h
    exact oldestIsFirst_stage ho
  · dsimp only at h
    split at h <;> cases h
    · exact oldestIsFirst_congr ho rfl rfl
    · exact oldestIsFirst_handling rfl
  · cases h
    exact oldestIsFirst_congr ho rfl rfl
  · split at h <;> cases h
    · exact oldestIsFirst_congr ho rfl rfl
    · exact oldestIsFirst_handling rfl
  · cases h

theorem handle_oldest {pc pc' : DaemonPC} {choice : DaemonChoice}
    (h : handleStep cfg dc pc m choice = some (pc', m', label)) : OldestIsFirst m' pc' := by
  unfold handleStep at h
  split at h
  · split at h <;> cases h <;> exact oldestIsFirst_handling rfl
  · split at h <;> cases h <;> exact oldestIsFirst_handling rfl
  · split at h <;> cases h <;> exact oldestIsFirst_handling rfl
  · cases h
    exact oldestIsFirst_handling rfl
  · rename_i handling todo
    cases todo with
    | cons c rest =>
      dsimp only at h
      generalize hstep : completeStep m c = out at h
      obtain ⟨next, m₁, label₁⟩ := out
      cases next <;> cases h <;> exact oldestIsFirst_handling rfl
    | nil =>
      cases h
      intro b first hb hfirst
      split at hb <;> cases hb <;> cases hfirst
  · cases h

theorem batcher_oldest {pc pc' : DaemonPC} {choice : BatcherChoice} (ho : OldestIsFirst m pc)
    (h : batcherStep cfg dc pc m choice = some (pc', m', label)) : OldestIsFirst m' pc' := by
  cases choice with
  | daemon choice =>
    rcases Option.or_eq_some_iff.mp h with hpoll | ⟨-, hhandle⟩
    · exact poll_oldest ho hpoll
    · exact handle_oldest hhandle
  | flush =>
    simp only [batcherStep] at h
    split at h <;> cases h <;> exact oldestIsFirst_congr ho rfl rfl
  | pollOnce =>
    simp only [batcherStep] at h
    split at h
    · split at h <;> cases h <;> exact oldestIsFirst_congr ho rfl rfl
    · split at h <;> cases h <;> exact oldestIsFirst_congr ho rfl rfl
    · cases h

lemma daemonOwn_staged {pc : DaemonPC} (ho : DaemonOwn cfg dc g m pc) {b : Batcher} (hb : collecting pc = some b)
    {slot : Nat} (hslot : slot ∈ b.staged) : TakenSlot cfg .daemon g m slot := by
  cases pc with
  | loop | poll | decide | stopping | flushing | finished =>
    cases hb
    exact ho.taken slot hslot
  | consuming b' pc =>
    cases hb
    cases pc with
    | loadDequeue | loadSequence => exact ho.taken slot hslot
    | compareExchange => exact ho.1.taken slot hslot
    | takeReady => exact ho.taken slot (List.mem_cons_of_mem _ hslot)
  | stage =>
    cases hb
    exact ho.taken slot (List.mem_cons_of_mem _ hslot)
  | decoding | launching | preparing | synchronizing | completing => cases hb

/-- Nobody else writes to a staged slot. -/
lemma oldestIsFirst_stable (hr : Rely cfg .daemon g m g' m') {pc : DaemonPC} (ho : DaemonOwn cfg dc g m pc)
    (h : OldestIsFirst m pc) : OldestIsFirst m' pc := by
  intro b first hb hfirst
  obtain ⟨p, rfl, ht, hs, -⟩ := daemonOwn_staged ho hb (List.mem_of_mem_head? hfirst)
  rw [(hr.taken p ht hs).2]
  exact h b _ hb hfirst

theorem run_oldestIsFirst (hmin : 1 ≤ dc.maxBatchSize) {s : BatcherSystem} {trace : Trace}
    {actions : List ((t : Party) × BatcherChoices t)}
    (h : runThreads (batcherProgram cfg dc) (BatcherSystem.initial cfg) actions = some (s, trace)) :
    (∃ g, BatcherReached cfg dc s trace g) ∧ OldestIsFirst s.shared (s.locals .daemon).pc := by
  refine runThreads_induction (P := fun s trace => (∃ g, BatcherReached cfg dc s trace g) ∧
    OldestIsFirst s.shared (s.locals .daemon).pc) ?_ [] ?_ actions h
  · rintro s trace a s' event ⟨⟨g, hr⟩, ho⟩ hstep
    refine ⟨⟨_, batcherReached_step hmin hr hstep⟩, ?_⟩
    obtain ⟨next, shared, label, hp, rfl, rfl⟩ := stepThread_eq hstep
    obtain ⟨t, choice⟩ := a
    by_cases ht : t = .daemon
    · subst ht
      obtain ⟨⟨pc, m₁, label₁⟩, hbatcher, he⟩ := Option.map_eq_some_iff.mp hp
      cases he
      dsimp only
      rw [Function.update_self]
      exact batcher_oldest ho hbatcher
    · obtain ⟨heffect, -⟩ := batcherOwn_step t hr.guard (hr.own t) hp
      dsimp only
      rw [Function.update_of_ne (Ne.symm ht)]
      exact oldestIsFirst_stable (effect_rely hr.guard heffect (Ne.symm ht)) (hr.own .daemon) ho
  · refine ⟨⟨_, batcherReached_initial cfg dc⟩, fun b first hb hfirst => ?_⟩
    cases hb
    cases hfirst

end oldest

section deadline

def age (now : UInt64) (data : SlotData) : Int := (now.toNat : Int) - data.enqueueNs.toNat

/-- `poll_once` reads `now` and returns false with its slots still staged. -/
def ReturnsFalse (cfg : Config) (dc : DaemonConfig) (m : Shared) (b : Batcher) (now : UInt64) : Prop :=
  batcherStep cfg dc (.decide b) m (.daemon (.clock now)) = some (.loop b, m, .quiet)

lemma returnsFalse_iff {b : Batcher} {now : UInt64} : ReturnsFalse cfg dc m b now ↔
    b.staged.length ≠ dc.maxBatchSize ∧ now.toNat < b.oldestEnqueueNs.toNat + dc.slaDeadlineNs.toNat := by
  have hoverdue : (b.oldestEnqueueNs ≤ now ∧ dc.slaDeadlineNs ≤ now - b.oldestEnqueueNs) ↔
      b.oldestEnqueueNs.toNat + dc.slaDeadlineNs.toNat ≤ now.toNat := by
    constructor
    · rintro ⟨hle, hsla⟩
      rw [UInt64.le_iff_toNat_le] at hle
      rw [UInt64.le_iff_toNat_le, UInt64.toNat_sub_of_le _ _ (UInt64.le_iff_toNat_le.mpr hle)] at hsla
      omega
    · intro hle
      have hfirst : b.oldestEnqueueNs ≤ now := UInt64.le_iff_toNat_le.mpr (by omega)
      refine ⟨hfirst, ?_⟩
      rw [UInt64.le_iff_toNat_le, UInt64.toNat_sub_of_le _ _ hfirst]
      omega
  unfold ReturnsFalse
  simp only [batcherStep, daemonStep, pollStep]
  by_cases hfull : b.staged.length = dc.maxBatchSize
  · simp [hfull]
  · by_cases hdue : b.oldestEnqueueNs ≤ now ∧ dc.slaDeadlineNs ≤ now - b.oldestEnqueueNs
    · simp [hfull, hdue, hoverdue.mp hdue]
    · have hahead := Nat.not_le.mp (mt hoverdue.mpr hdue)
      have hnotdue : b.oldestEnqueueNs ≤ now → now - b.oldestEnqueueNs < dc.slaDeadlineNs :=
        fun hle => UInt64.not_le.mp fun hsla => hdue ⟨hle, hsla⟩
      simp +contextual [hfull, hahead, hnotdue]

/-- In every reachable state in which `poll_once` has staged requests and reads the clock, not before
`last`: whenever it returns false all staged requests are younger than the deadline, if and only if
the batch is full, or no staged request is older than the first one with a deadline that the clock
can reach before `poll_once` sees the first one overdue. -/
theorem sla_deadline_iff (cfg : Config) (dc : DaemonConfig) (hmin : 1 ≤ dc.maxBatchSize)
    (actions : List ((t : Party) × BatcherChoices t)) (s : BatcherSystem) (trace : Trace)
    (hrun : runThreads (batcherProgram cfg dc) (BatcherSystem.initial cfg) actions = some (s, trace))
    (b : Batcher) (hpc : (s.locals .daemon).pc = .decide b) (last : UInt64) :
    (∀ now, last ≤ now → ReturnsFalse cfg dc s.shared b now →
      ∀ slot ∈ b.staged, age now (s.shared.data slot) < dc.slaDeadlineNs.toNat) ↔
    b.staged.length = dc.maxBatchSize ∨ ∀ first ∈ b.staged.head?, ∀ slot ∈ b.staged,
      (s.shared.data first).enqueueNs ≤ (s.shared.data slot).enqueueNs ∨
      2 ^ 64 ≤ (s.shared.data slot).enqueueNs.toNat + dc.slaDeadlineNs.toNat ∨
      (s.shared.data first).enqueueNs.toNat + dc.slaDeadlineNs.toNat ≤ last.toNat := by
  obtain ⟨-, ho⟩ := run_oldestIsFirst hmin hrun
  rw [hpc] at ho
  simp only [returnsFalse_iff, UInt64.le_iff_toNat_le, age]
  constructor
  · intro hall
    by_contra hnot
    obtain ⟨hfull, hfirst⟩ := not_or.mp hnot
    push Not at hfirst
    obtain ⟨first, hhead, slot, hslot, holder, hfits, hlast⟩ := hfirst
    have holdest := ho b first rfl hhead
    -- a reading that makes this request overdue and the first one not
    have hlt : max last.toNat ((s.shared.data slot).enqueueNs.toNat + dc.slaDeadlineNs.toNat) < 2 ^ 64 :=
      max_lt last.toNat_lt hfits
    have hnow : (UInt64.ofNatLT _ hlt).toNat = _ := UInt64.toNat_ofNatLT
    have hage := hall (UInt64.ofNatLT _ hlt) (by omega) ⟨hfull, by rw [holdest]; omega⟩ slot hslot
    omega
  · rintro (hfull | hfirst) now hlast ⟨hnotfull, hahead⟩ slot hslot
    · exact absurd hfull hnotfull
    · obtain ⟨first, rest, hstaged⟩ := List.exists_cons_of_ne_nil (List.ne_nil_of_mem hslot)
      have hhead : b.staged.head? = some first := by rw [hstaged]; rfl
      rw [ho b first rfl hhead] at hahead
      have hnow := now.toNat_lt
      rcases hfirst first hhead slot hslot with hle | hfits | hdue
      · omega
      · omega
      · omega

def tripleBatches : DaemonConfig := ⟨3, 50, false, fun _ => some ⟨7, 12000000⟩⟩

/-- One request stamped 0 is staged. -/
def stagedRun : List ((t : Party) × BatcherChoices t) :=
  publishChoices.map (fun choice => ⟨.submit 0, choice⟩) ++
    (⟨.daemon, BatcherChoice.pollOnce⟩ :: List.replicate 9 ⟨.daemon, .daemon .next⟩)

theorem sla_deadline_iff_staged : ∃ (s : BatcherSystem) (trace : Trace),
    runThreads (batcherProgram fourSlots tripleBatches) (BatcherSystem.initial fourSlots) stagedRun =
        some (s, trace) ∧
      (s.locals .daemon).pc = .decide ⟨[0], 0, 0, 0, 0⟩ ∧
      ReturnsFalse fourSlots tripleBatches s.shared ⟨[0], 0, 0, 0, 0⟩ 20 ∧ age 20 (s.shared.data 0) < 50 := by
  have hpc : (runThreads (batcherProgram fourSlots tripleBatches) (BatcherSystem.initial fourSlots) stagedRun).map
      (fun x => (x.1.locals .daemon).pc) = some (.decide ⟨[0], 0, 0, 0, 0⟩) := by rfl
  obtain ⟨⟨s, trace⟩, hrun, hpc⟩ := Option.map_eq_some_iff.mp hpc
  have hyoung := (sla_deadline_iff fourSlots tripleBatches (by decide) stagedRun s trace hrun _ hpc 0).mpr
    (.inr fun first hhead slot hslot => by
      cases hhead
      rw [List.mem_singleton.mp hslot]
      exact .inl (UInt64.le_refl _))
  exact ⟨s, trace, hrun, hpc, rfl, hyoung 20 (by decide) rfl 0 (List.mem_singleton_self 0)⟩

/-- The first call of `submit` stamps its request 0 and stops before its reservation; the second
stamps 100, takes the first position and is published, then the first call goes on. The batcher
stages both and is about to read the clock. -/
def overtakingRun : List ((t : Party) × BatcherChoices t) :=
  let submit (call : Nat) (choices : List SubmitChoice) : List ((t : Party) × BatcherChoices t) :=
    choices.map fun choice => ⟨.submit call, choice⟩
  submit 0 (publishChoices.take 4) ++
  submit 1 (publishChoices.set 3 (.prepared 8 100)) ++
  submit 0 (publishChoices.drop 4) ++
  (⟨.daemon, BatcherChoice.pollOnce⟩ :: List.replicate 15 ⟨.daemon, .daemon .next⟩)

def overtakenBatcher : Batcher := ⟨[0, 1], 100, 0, 0, 0⟩

/-- The second staged request is 120 ns old, and `poll_once` returns false. -/
theorem sla_deadline_missed : ∃ (s : BatcherSystem) (trace : Trace),
    runThreads (batcherProgram fourSlots tripleBatches) (BatcherSystem.initial fourSlots) overtakingRun =
        some (s, trace) ∧
      (s.locals .daemon).pc = .decide overtakenBatcher ∧
      ReturnsFalse fourSlots tripleBatches s.shared overtakenBatcher 120 ∧
      ∃ slot ∈ overtakenBatcher.staged, ¬ age 120 (s.shared.data slot) < tripleBatches.slaDeadlineNs.toNat := by
  have hrun : (runThreads (batcherProgram fourSlots tripleBatches) (BatcherSystem.initial fourSlots)
      overtakingRun).map (fun x => ((x.1.locals .daemon).pc, (x.1.shared.data 1).enqueueNs)) =
      some (.decide overtakenBatcher, 0) := by rfl
  obtain ⟨⟨s, trace⟩, hrun, he⟩ := Option.map_eq_some_iff.mp hrun
  have hsecond : (s.shared.data 1).enqueueNs = 0 := congrArg Prod.snd he
  refine ⟨s, trace, hrun, congrArg Prod.fst he, rfl, 1, by decide, ?_⟩
  rw [age, hsecond]
  decide

end deadline

end FraudDetection.Proofs
