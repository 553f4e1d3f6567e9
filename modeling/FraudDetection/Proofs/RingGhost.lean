import Mathlib.Data.List.Nodup
import FraudDetection.Library.SequencedRing
import FraudDetection.RingSystem

/-!
# Ownership in the ring

`Ghost` follows a trace: the stage of every position, who claimed and who took it, whether its
release was handed to the reclaimer, and what was published and answered. `Effect` lists what a
thread may do to the shared state, with the ownership it needs; `Rely` is what this leaves to the
other threads.
-/

namespace FraudDetection.Proofs
open FraudDetection.Library
open FraudDetection.Ring

structure Ghost where
  stage : Nat → Stage
  claimant : Nat → Option Party
  taker : Nat → Option Party
  handed : Nat → Bool
  published : Nat → Option SlotData
  answered : Nat → Option Response

def Ghost.initial : Ghost :=
  ⟨fun _ => .free, fun _ => none, fun _ => none, fun _ => false, fun _ => none, fun _ => none⟩

/-- The position of a sequence store is read off the stored value. -/
def Ghost.record (N : Nat) (g : Ghost) (event : Party × Label) : Ghost :=
  match event.2 with
  | .quiet | .write _ => g
  | .claim p => { g with
      stage := Function.update g.stage p .claimed
      claimant := Function.update g.claimant p (some event.1) }
  | .publish _ value data => { g with
      stage := Function.update g.stage (value - 1) .published
      published := Function.update g.published (value - 1) (some data) }
  | .consume p => { g with
      stage := Function.update g.stage p .taken
      taker := Function.update g.taker p (some event.1) }
  | .complete _ value response => { g with
      stage := Function.update g.stage (value - 2) .completed
      answered := Function.update g.answered (value - 2) (some response) }
  | .release _ value => { g with stage := Function.update g.stage (value - N) .released }
  | .handoff p => { g with handed := Function.update g.handed p true }

/-- The one party that may release the position. -/
def Ghost.holder (g : Ghost) (p : Nat) : Option Party :=
  if g.handed p then some .reclaimer else g.claimant p

def Computed (cfg : Config) (dc : DaemonConfig) (data : SlotData) (response : Response) : Prop :=
  ∃ status syncFailed now, response = respond (decodeTransaction cfg dc data) status syncFailed now

variable (cfg : Config) (dc : DaemonConfig)

structure RingGuard (g : Ghost) (m : Shared) : Prop where
  ring : RingInvariant cfg.slotCount m.enqueue m.dequeue m.sequence g.stage
  unclaimed : ∀ p, g.stage p = .free ↔ g.claimant p = none
  untaken : ∀ p, (g.stage p).rank < 3 ↔ g.taker p = none
  handed : ∀ p, g.handed p = true → 2 ≤ (g.stage p).rank
  published : ∀ p, g.stage p = .published → g.published p = some (m.data (p % cfg.slotCount))
  answered : ∀ p, g.stage p = .completed → g.answered p = some (m.data (p % cfg.slotCount)).response
  computed : ∀ p, g.taker p = some .daemon → 4 ≤ (g.stage p).rank → ∃ data response,
    g.published p = some data ∧ g.answered p = some response ∧ Computed cfg dc data response
  pending_nodup : m.pending.Nodup
  pending_handed : ∀ p ∈ m.pending, g.handed p = true

/-- What thread `t` may do to the shared state. -/
inductive Effect (t : Party) (g : Ghost) (m : Shared) : Label → Shared → Prop where
  | quiet (m' : Shared) (henqueue : m'.enqueue = m.enqueue) (hdequeue : m'.dequeue = m.dequeue)
      (hslots : m'.slots = m.slots) (hpending : m'.pending = m.pending) : Effect t g m .quiet m'
  | claim (ht : t.produces = true) (hobserved : m.enqueue ≤ m.sequence (m.enqueue % cfg.slotCount)) :
      Effect t g m (.claim m.enqueue) { m with enqueue := m.enqueue + 1 }
  | write (p : Nat) (data : SlotData)
      (howner : g.claimant p = some t ∧ g.stage p = .claimed ∨ g.taker p = some t ∧ g.stage p = .taken) :
      Effect t g m (.write (p % cfg.slotCount)) (m.setData (p % cfg.slotCount) data)
  | publish (p : Nat) (howner : g.claimant p = some t) (hstage : g.stage p = .claimed) :
      Effect t g m (.publish (p % cfg.slotCount) (p + 1) (m.data (p % cfg.slotCount)))
        (m.setSequence (p % cfg.slotCount) (p + 1))
  | consume (ht : t.consumes = true)
      (hobserved : m.dequeue + 1 ≤ m.sequence (m.dequeue % cfg.slotCount)) :
      Effect t g m (.consume m.dequeue) { m with dequeue := m.dequeue + 1 }
  | complete (p : Nat) (response : Response) (howner : g.taker p = some t) (hstage : g.stage p = .taken)
      (hdata : (m.data (p % cfg.slotCount)).response = response)
      (hcomputed : t = .daemon → ∃ data, g.published p = some data ∧ Computed cfg dc data response) :
      Effect t g m (.complete (p % cfg.slotCount) (p + 2) response)
        (m.setSequence (p % cfg.slotCount) (p + 2))
  | release (p : Nat) (howner : g.holder p = some t) (hstage : g.stage p = .completed) :
      Effect t g m (.release (p % cfg.slotCount) (p + cfg.slotCount))
        (m.setSequence (p % cfg.slotCount) (p + cfg.slotCount))
  | handoff (p : Nat) (howner : g.claimant p = some t) (hhanded : g.handed p = false)
      (hstage : 2 ≤ (g.stage p).rank) (hreleased : g.stage p ≠ .released) :
      Effect t g m (.handoff p) { m with pending := m.pending ++ [p] }
  | swap (pending : List Nat) (ht : t = .reclaimer) (hnodup : pending.Nodup)
      (hhanded : ∀ p ∈ pending, g.handed p = true) :
      Effect t g m .quiet { m with pending := pending }

/-- What every step keeps. -/
structure Progress (g : Ghost) (m : Shared) (g' : Ghost) (m' : Shared) : Prop where
  claimant : ∀ p x, g.claimant p = some x → g'.claimant p = some x
  taker : ∀ p x, g.taker p = some x → g'.taker p = some x
  sequence : ∀ i, m.sequence i ≤ m'.sequence i
  stage : ∀ p, (g.stage p).rank ≤ (g'.stage p).rank
  handed : ∀ p, g.handed p = true → g'.handed p = true
  published : ∀ p, 2 ≤ (g.stage p).rank → g'.published p = g.published p
  answered : ∀ p, 4 ≤ (g.stage p).rank → g'.answered p = g.answered p

/-- What thread `u` may expect of a step of another thread. -/
structure Rely (u : Party) (g : Ghost) (m : Shared) (g' : Ghost) (m' : Shared) : Prop extends
    Progress g m g' m' where
  claimant_only : ∀ p, g'.claimant p = some u → g.claimant p = some u
  held : ∀ p, g.claimant p = some u → g.stage p = .claimed → g'.stage p = .claimed
  taken : ∀ p, g.taker p = some u → g.stage p = .taken →
    g'.stage p = .taken ∧ m'.data (p % cfg.slotCount) = m.data (p % cfg.slotCount)
  kept : ∀ p, g.holder p = some u → g'.stage p = .released → g.stage p = .released
  handed_only : ∀ p, g.claimant p = some u → g'.handed p = true → g.handed p = true
  pending : u = .reclaimer → m'.pending = m.pending ∧ g'.handed = g.handed ∨
    ∃ p, m'.pending = m.pending ++ [p] ∧ g.handed p = false ∧ g'.stage p ≠ .released ∧
      g'.handed = Function.update g.handed p true

section memory

variable (m : Shared) (i : Nat)

@[simp]
lemma setSequence_sequence (value : Nat) :
    (m.setSequence i value).sequence = Function.update m.sequence i value := by
  funext j
  simp only [Shared.sequence, Shared.setSequence, Function.update_apply]
  split <;> rfl

@[simp]
lemma setSequence_data (value : Nat) : (m.setSequence i value).data = m.data := by
  funext j
  simp only [Shared.data, Shared.setSequence, Function.update_apply]
  split
  · rename_i h
    rw [h]
  · rfl

@[simp]
lemma setData_sequence (data : SlotData) : (m.setData i data).sequence = m.sequence := by
  funext j
  simp only [Shared.sequence, Shared.setData, Function.update_apply]
  split
  · rename_i h
    rw [h]
  · rfl

@[simp]
lemma setData_data (data : SlotData) : (m.setData i data).data = Function.update m.data i data := by
  funext j
  simp only [Shared.data, Shared.setData, Function.update_apply]
  split <;> rfl

end memory

lemma sequence_congr {m m' : Shared} (h : m'.slots = m.slots) : m'.sequence = m.sequence := by
  funext i
  rw [Shared.sequence, Shared.sequence, h]

lemma data_congr {m m' : Shared} (h : m'.slots = m.slots) : m'.data = m.data := by
  funext i
  rw [Shared.data, Shared.data, h]

lemma four_le_slotCount : 4 ≤ cfg.slotCount :=
  Nat.pow_le_pow_right Nat.two_pos cfg.two_le

variable {cfg dc} {t u : Party} {g : Ghost} {m m' : Shared} {label : Label}

lemma RingGuard.slots_differ (hg : RingGuard cfg dc g m) {p q : Nat} (hp : g.stage p ≠ .free)
    (hp' : g.stage p ≠ .released) (hq : g.stage q ≠ .free) (hq' : g.stage q ≠ .released) (hne : q ≠ p) :
    q % cfg.slotCount ≠ p % cfg.slotCount :=
  fun hmod => hne (hg.ring.serving_unique (hg.ring.serving hq hq') (hg.ring.serving hp hp') hmod)

lemma RingGuard.word (hg : RingGuard cfg dc g m) {p : Nat} (hp : g.stage p ≠ .free)
    (hp' : g.stage p ≠ .released) : m.sequence (p % cfg.slotCount) = (g.stage p).word p :=
  hg.ring.words p (hg.ring.serving hp hp')

lemma RingGuard.word_of (hg : RingGuard cfg dc g m) {p : Nat} {st : Stage} (hstage : g.stage p = st)
    (hfree : st ≠ .free) (hreleased : st ≠ .released) : m.sequence (p % cfg.slotCount) = st.word p := by
  subst hstage
  exact hg.word hfree hreleased

/-- What a successful exchange on the enqueue cursor has claimed was free. -/
lemma RingGuard.free_of_observed (hg : RingGuard cfg dc g m)
    (hobserved : m.enqueue ≤ m.sequence (m.enqueue % cfg.slotCount)) : g.stage m.enqueue = .free := by
  have hN := four_le_slotCount cfg
  exact (hg.ring.claimable (by omega) hobserved).1

/-- What a successful exchange on the dequeue cursor has taken was published. -/
lemma RingGuard.published_of_observed (hg : RingGuard cfg dc g m)
    (hobserved : m.dequeue + 1 ≤ m.sequence (m.dequeue % cfg.slotCount)) :
    g.stage m.dequeue = .published := by
  have hN := four_le_slotCount cfg
  exact hg.ring.consumable (by omega) hobserved

/-- Recording a new stage for `p` keeps the guard where `p` itself is consistent and the data of
the other positions in use stays. -/
lemma guard_update (hg : RingGuard cfg dc g m) {p : Nat} {g' : Ghost}
    (hring : RingInvariant cfg.slotCount m'.enqueue m'.dequeue m'.sequence g'.stage)
    (hothers : ∀ q ≠ p, g'.stage q = g.stage q ∧ g'.claimant q = g.claimant q ∧ g'.taker q = g.taker q ∧
      g'.published q = g.published q ∧ g'.answered q = g.answered q)
    (hhanded : g'.handed = g.handed) (hpending : m'.pending = m.pending)
    (hdata : ∀ q ≠ p, g.stage q ≠ .free → g.stage q ≠ .released →
      m'.data (q % cfg.slotCount) = m.data (q % cfg.slotCount))
    (hfree : g'.stage p ≠ .free) (hclaimant : g'.claimant p ≠ none)
    (htaker : (g'.stage p).rank < 3 ↔ g'.taker p = none)
    (hrank : (g.stage p).rank ≤ (g'.stage p).rank)
    (hpublished : g'.stage p = .published → g'.published p = some (m'.data (p % cfg.slotCount)))
    (hanswered : g'.stage p = .completed → g'.answered p = some (m'.data (p % cfg.slotCount)).response)
    (hcomputed : g'.taker p = some .daemon → 4 ≤ (g'.stage p).rank → ∃ data response,
      g'.published p = some data ∧ g'.answered p = some response ∧ Computed cfg dc data response) :
    RingGuard cfg dc g' m' := by
  refine ⟨hring, fun q => ?_, fun q => ?_, fun q hq => ?_, fun q hq => ?_, fun q hq => ?_,
    fun q hq hr => ?_, ?_, ?_⟩
  · by_cases he : q = p
    · rw [he]
      exact iff_of_false hfree hclaimant
    · obtain ⟨hs, hc, -⟩ := hothers q he
      rw [hs, hc, hg.unclaimed]
  · by_cases he : q = p
    · rw [he]
      exact htaker
    · obtain ⟨hs, -, ht, -⟩ := hothers q he
      rw [hs, ht, hg.untaken]
  · rw [hhanded] at hq
    have hold := hg.handed q hq
    by_cases he : q = p
    · rw [he] at hold ⊢
      omega
    · rw [(hothers q he).1]
      exact hold
  · by_cases he : q = p
    · rw [he] at hq ⊢
      exact hpublished hq
    · obtain ⟨hs, -, -, hp, -⟩ := hothers q he
      rw [hs] at hq
      rw [hp, hdata q he (hq.trans_ne Stage.noConfusion) (hq.trans_ne Stage.noConfusion)]
      exact hg.published q hq
  · by_cases he : q = p
    · rw [he] at hq ⊢
      exact hanswered hq
    · obtain ⟨hs, -, -, -, ha⟩ := hothers q he
      rw [hs] at hq
      rw [ha, hdata q he (hq.trans_ne Stage.noConfusion) (hq.trans_ne Stage.noConfusion)]
      exact hg.answered q hq
  · by_cases he : q = p
    · rw [he] at hq hr ⊢
      exact hcomputed hq hr
    · obtain ⟨hs, -, ht, hp, ha⟩ := hothers q he
      rw [hp, ha]
      exact hg.computed q (ht ▸ hq) (hs ▸ hr)
  · rw [hpending]
    exact hg.pending_nodup
  · rw [hpending, hhanded]
    exact hg.pending_handed

/-- The guard reads the positions, the slots and the pending list of the shared memory. -/
lemma guard_congr (hg : RingGuard cfg dc g m) (henqueue : m'.enqueue = m.enqueue) (hdequeue : m'.dequeue = m.dequeue)
    (hslots : m'.slots = m.slots) (hpending : m'.pending = m.pending) : RingGuard cfg dc g m' := by
  have hsequence := sequence_congr hslots
  have hdata := data_congr hslots
  refine ⟨?_, hg.unclaimed, hg.untaken, hg.handed, ?_, ?_, hg.computed, ?_, ?_⟩
  · rw [henqueue, hdequeue, hsequence]
    exact hg.ring
  · rw [hdata]
    exact hg.published
  · rw [hdata]
    exact hg.answered
  · rw [hpending]
    exact hg.pending_nodup
  · rw [hpending]
    exact hg.pending_handed

lemma guard_handoff {p : Nat} (hg : RingGuard cfg dc g m) (hhanded : g.handed p = false)
    (hstage : 2 ≤ (g.stage p).rank) :
    RingGuard cfg dc { g with handed := Function.update g.handed p true } { m with pending := m.pending ++ [p] } := by
  refine ⟨hg.ring, hg.unclaimed, hg.untaken, fun q hq => ?_, hg.published, hg.answered, hg.computed, ?_, ?_⟩
  · by_cases he : q = p
    · rw [he]
      exact hstage
    · refine hg.handed q ?_
      simpa only [Function.update_of_ne he] using hq
  · refine List.nodup_append.mpr ⟨hg.pending_nodup, List.nodup_singleton p, ?_⟩
    rintro a ha b hb rfl
    have := hg.pending_handed a ha
    rw [List.mem_singleton.mp hb, hhanded] at this
    cases this
  · intro q hq
    simp only [Function.update_apply]
    split
    · rfl
    · rename_i hne
      rcases List.mem_append.mp hq with hq | hq
      · exact hg.pending_handed q hq
      · exact absurd (List.mem_singleton.mp hq) hne

theorem effect_guard (hg : RingGuard cfg dc g m) (h : Effect cfg dc t g m label m') :
    RingGuard cfg dc (g.record cfg.slotCount (t, label)) m' := by
  have hN := four_le_slotCount cfg
  cases h with
  | quiet m' henqueue hdequeue hslots hpending =>
    exact guard_congr hg henqueue hdequeue hslots hpending
  | claim ht hobserved =>
    have hfree := hg.free_of_observed hobserved
    have htaker := (hg.untaken m.enqueue).mp (by rw [hfree]; decide)
    refine guard_update (p := m.enqueue) hg (hg.ring.claim (by omega) hobserved) (fun q hq => ?_) rfl rfl
      (fun _ _ _ _ => rfl) ?_ ?_ ?_ ?_ ?_ ?_ ?_
    · exact ⟨Function.update_of_ne hq _ _, Function.update_of_ne hq _ _, rfl, rfl, rfl⟩
    all_goals simp only [Ghost.record, Function.update_self, hfree]
    · exact Stage.noConfusion
    · exact Option.some_ne_none t
    · exact iff_of_true (by decide) htaker
    · decide
    · exact fun hx => Stage.noConfusion hx
    · exact fun hx => Stage.noConfusion hx
    · exact fun _ hx => absurd hx (by decide)
  | write p data howner =>
    have hp : g.stage p = .claimed ∨ g.stage p = .taken := howner.imp (fun h => h.2) (fun h => h.2)
    have hused : g.stage p ≠ .free ∧ g.stage p ≠ .released := by
      rcases hp with hp | hp <;> rw [hp] <;> exact ⟨Stage.noConfusion, Stage.noConfusion⟩
    refine guard_update (p := p) hg ?_ (fun q _ => ⟨rfl, rfl, rfl, rfl, rfl⟩) rfl rfl ?_ hused.1
      (mt (hg.unclaimed p).mpr hused.1) (hg.untaken p) le_rfl ?_ ?_ (hg.computed p)
    · rw [setData_sequence]
      exact hg.ring
    · intro q hq hqf hqr
      rw [setData_data, Function.update_of_ne (hg.slots_differ hused.1 hused.2 hqf hqr hq)]
    · intro hx
      rcases hp with hp | hp <;> cases hp.symm.trans hx
    · intro hx
      rcases hp with hp | hp <;> cases hp.symm.trans hx
  | publish p howner hstage =>
    have hadvance := hg.ring.advance (p := p) .published (hstage.trans_ne Stage.noConfusion)
      (hstage.trans_ne Stage.noConfusion) Stage.noConfusion Stage.noConfusion (by rw [hstage]; decide)
    refine guard_update (p := p) hg ?_ (fun q hq => ?_) rfl rfl ?_ ?_ ?_ ?_ ?_ ?_ ?_ ?_
    · simp only [Ghost.record, Nat.add_sub_cancel, setSequence_sequence]
      exact hadvance
    all_goals simp only [Ghost.record, Nat.add_sub_cancel, setSequence_data, Function.update_self]
    · exact ⟨Function.update_of_ne hq _ _, trivial, trivial, Function.update_of_ne hq _ _, trivial⟩
    · exact fun _ _ _ _ => trivial
    · exact Stage.noConfusion
    · rw [howner]
      exact Option.some_ne_none t
    · exact iff_of_true (by decide) ((hg.untaken p).mp (by rw [hstage]; decide))
    · rw [hstage]
      decide
    · exact fun _ => trivial
    · exact fun hx => Stage.noConfusion hx
    · exact fun _ hx => absurd hx (by decide)
  | consume ht hobserved =>
    have hpub := hg.published_of_observed hobserved
    refine guard_update (p := m.dequeue) hg (hg.ring.consume (by omega) hobserved) (fun q hq => ?_) rfl rfl
      (fun _ _ _ _ => rfl) ?_ (mt (hg.unclaimed _).mpr (hpub.trans_ne Stage.noConfusion)) ?_ ?_ ?_ ?_ ?_
    · exact ⟨Function.update_of_ne hq _ _, rfl, Function.update_of_ne hq _ _, rfl, rfl⟩
    all_goals simp only [Ghost.record, Function.update_self, hpub]
    · exact Stage.noConfusion
    · exact iff_of_false (by decide) (Option.some_ne_none t)
    · decide
    · exact fun hx => Stage.noConfusion hx
    · exact fun hx => Stage.noConfusion hx
    · exact fun _ hx => absurd hx (by decide)
  | complete p response howner hstage hdata hcomputed =>
    have hadvance := hg.ring.advance (p := p) .completed (hstage.trans_ne Stage.noConfusion)
      (hstage.trans_ne Stage.noConfusion) Stage.noConfusion Stage.noConfusion (by rw [hstage]; decide)
    refine guard_update (p := p) hg ?_ (fun q hq => ?_) rfl rfl ?_ ?_ ?_ ?_ ?_ ?_ ?_ ?_
    · simp only [Ghost.record, Nat.add_sub_cancel, setSequence_sequence]
      exact hadvance
    all_goals simp only [Ghost.record, Nat.add_sub_cancel, setSequence_data, Function.update_self]
    · exact ⟨Function.update_of_ne hq _ _, trivial, trivial, trivial, Function.update_of_ne hq _ _⟩
    · exact fun _ _ _ _ => trivial
    · exact Stage.noConfusion
    · exact mt (hg.unclaimed p).mpr (hstage.trans_ne Stage.noConfusion)
    · exact iff_of_false (by decide) (mt (hg.untaken p).mpr (by rw [hstage]; decide))
    · rw [hstage]
      decide
    · exact fun hx => Stage.noConfusion hx
    · exact fun _ => congrArg some hdata.symm
    · intro htaker _
      rw [howner] at htaker
      obtain ⟨data, hpub, hc⟩ := hcomputed (Option.some.inj htaker)
      exact ⟨data, response, hpub, rfl, hc⟩
  | release p howner hstage =>
    refine guard_update (p := p) hg ?_ (fun q hq => ?_) rfl rfl ?_ ?_ ?_ ?_ ?_ ?_ ?_ ?_
    · simp only [Ghost.record, Nat.add_sub_cancel, setSequence_sequence]
      exact hg.ring.release hstage
    all_goals simp only [Ghost.record, Nat.add_sub_cancel, setSequence_data, Function.update_self]
    · exact ⟨Function.update_of_ne hq _ _, trivial, trivial, trivial, trivial⟩
    · exact fun _ _ _ _ => trivial
    · exact Stage.noConfusion
    · exact mt (hg.unclaimed p).mpr (hstage.trans_ne Stage.noConfusion)
    · exact iff_of_false (by decide) (mt (hg.untaken p).mpr (by rw [hstage]; decide))
    · rw [hstage]
      decide
    · exact fun hx => Stage.noConfusion hx
    · exact fun hx => Stage.noConfusion hx
    · exact fun htaker _ => hg.computed p htaker (by rw [hstage]; decide)
  | handoff p howner hhanded hstage hreleased =>
    exact guard_handoff hg hhanded hstage
  | swap pending ht hnodup hhanded =>
    exact ⟨hg.ring, hg.unclaimed, hg.untaken, hg.handed, hg.published, hg.answered, hg.computed, hnodup, hhanded⟩

lemma progress_update {p : Nat} {g' : Ghost}
    (hothers : ∀ q ≠ p, g'.stage q = g.stage q ∧ g'.claimant q = g.claimant q ∧ g'.taker q = g.taker q ∧
      g'.published q = g.published q ∧ g'.answered q = g.answered q)
    (hhanded : g'.handed = g.handed) (hsequence : ∀ i, m.sequence i ≤ m'.sequence i)
    (hrank : (g.stage p).rank ≤ (g'.stage p).rank)
    (hclaimant : g'.claimant p = g.claimant p ∨ g.claimant p = none)
    (htaker : g'.taker p = g.taker p ∨ g.taker p = none)
    (hpublished : 2 ≤ (g.stage p).rank → g'.published p = g.published p)
    (hanswered : 4 ≤ (g.stage p).rank → g'.answered p = g.answered p) : Progress g m g' m' := by
  refine ⟨fun q x hq => ?_, fun q x hq => ?_, hsequence, fun q => ?_,
    fun q hq => by rw [hhanded]; exact hq, fun q hq => ?_, fun q hq => ?_⟩
  all_goals by_cases he : q = p
  · rw [he] at hq ⊢
    rcases hclaimant with hsame | hnone
    · rw [hsame, hq]
    · cases hnone.symm.trans hq
  · rw [(hothers q he).2.1, hq]
  · rw [he] at hq ⊢
    rcases htaker with hsame | hnone
    · rw [hsame, hq]
    · cases hnone.symm.trans hq
  · rw [(hothers q he).2.2.1, hq]
  · exact he ▸ hrank
  · rw [(hothers q he).1]
  · rw [he] at hq ⊢
    exact hpublished hq
  · exact (hothers q he).2.2.2.1
  · rw [he] at hq ⊢
    exact hanswered hq
  · exact (hothers q he).2.2.2.2

lemma setSequence_mono {i value : Nat} (h : m.sequence i ≤ value) (j : Nat) :
    m.sequence j ≤ (m.setSequence i value).sequence j := by
  rw [setSequence_sequence, Function.update_apply]
  split
  · rename_i hj
    exact hj ▸ h
  · exact le_rfl

lemma RingGuard.word_le (hg : RingGuard cfg dc g m) {p : Nat} {st : Stage} (hstage : g.stage p = st)
    (hfree : st ≠ .free) (hreleased : st ≠ .released) (value : Nat) (hle : st.word p ≤ value) (i : Nat) :
    m.sequence i ≤ (m.setSequence (p % cfg.slotCount) value).sequence i := by
  exact setSequence_mono ((hg.word_of hstage hfree hreleased).trans_le hle) i

lemma effect_progress (hg : RingGuard cfg dc g m) (h : Effect cfg dc t g m label m') :
    Progress g m (g.record cfg.slotCount (t, label)) m' := by
  have hN := four_le_slotCount cfg
  cases h with
  | quiet m' henqueue hdequeue hslots hpending =>
    refine progress_update (p := 0) (fun _ _ => ⟨rfl, rfl, rfl, rfl, rfl⟩) rfl (fun i => ?_) le_rfl (.inl rfl)
      (.inl rfl) (fun _ => rfl) (fun _ => rfl)
    rw [sequence_congr hslots]
  | claim ht hobserved =>
    have hfree := hg.free_of_observed hobserved
    refine progress_update (p := m.enqueue) (fun q hq => ?_) rfl (fun _ => le_rfl) ?_
      (.inr ((hg.unclaimed _).mp hfree)) (.inl rfl) (fun _ => rfl) (fun _ => rfl)
    · exact ⟨Function.update_of_ne hq _ _, Function.update_of_ne hq _ _, rfl, rfl, rfl⟩
    · rw [hfree]
      exact Nat.zero_le _
  | write p data howner =>
    refine progress_update (p := p) (fun _ _ => ⟨rfl, rfl, rfl, rfl, rfl⟩) rfl (fun i => ?_) le_rfl (.inl rfl)
      (.inl rfl) (fun _ => rfl) (fun _ => rfl)
    rw [setData_sequence]
  | publish p howner hstage =>
    refine progress_update (p := p) (fun q hq => ?_) rfl (hg.word_le hstage Stage.noConfusion
      Stage.noConfusion (p + 1) (Nat.le_succ p)) ?_ (.inl rfl) (.inl rfl) ?_ (fun _ => rfl)
    · exact ⟨Function.update_of_ne hq _ _, rfl, rfl, Function.update_of_ne hq _ _, rfl⟩
    all_goals simp only [Ghost.record, Nat.add_sub_cancel, Function.update_self, hstage]
    · decide
    · exact fun hs => absurd hs (by decide)
  | consume ht hobserved =>
    have hpub := hg.published_of_observed hobserved
    refine progress_update (p := m.dequeue) (fun q hq => ?_) rfl (fun _ => le_rfl) ?_ (.inl rfl)
      (.inr ((hg.untaken _).mp (by rw [hpub]; decide))) (fun _ => rfl) (fun _ => rfl)
    · exact ⟨Function.update_of_ne hq _ _, rfl, Function.update_of_ne hq _ _, rfl, rfl⟩
    · simp only [Ghost.record, Function.update_self, hpub]
      decide
  | complete p response howner hstage hdata hcomputed =>
    refine progress_update (p := p) (fun q hq => ?_) rfl (hg.word_le hstage Stage.noConfusion
      Stage.noConfusion (p + 2) (Nat.le_succ (p + 1))) ?_ (.inl rfl) (.inl rfl) (fun _ => rfl) ?_
    · exact ⟨Function.update_of_ne hq _ _, rfl, rfl, rfl, Function.update_of_ne hq _ _⟩
    all_goals simp only [Ghost.record, Nat.add_sub_cancel, Function.update_self, hstage]
    · decide
    · exact fun hs => absurd hs (by decide)
  | release p howner hstage =>
    refine progress_update (p := p) (fun q hq => ?_) rfl (hg.word_le hstage Stage.noConfusion
      Stage.noConfusion (p + cfg.slotCount) ?_) ?_ (.inl rfl) (.inl rfl) (fun _ => rfl) (fun _ => rfl)
    · simp only [Ghost.record, Nat.add_sub_cancel]
      exact ⟨Function.update_of_ne hq _ _, trivial, trivial, trivial, trivial⟩
    · simp only [Stage.word]
      omega
    · simp only [Ghost.record, Nat.add_sub_cancel, Function.update_self, hstage]
      decide
  | handoff p howner hhanded hstage hreleased =>
    refine ⟨fun _ _ hs => hs, fun _ _ hs => hs, fun _ => le_rfl, fun _ => le_rfl, fun q hq => ?_,
      fun _ _ => rfl, fun _ _ => rfl⟩
    simp only [Ghost.record, Function.update_apply]
    split
    · rfl
    · exact hq
  | swap pending ht hnodup hhanded =>
    exact ⟨fun _ _ hs => hs, fun _ _ hs => hs, fun _ => le_rfl, fun _ => le_rfl, fun _ hq => hq,
      fun _ _ => rfl, fun _ _ => rfl⟩

lemma rely_update {p : Nat} {g' : Ghost} (hprogress : Progress g m g' m')
    (hothers : ∀ q ≠ p, g'.stage q = g.stage q ∧ g'.claimant q = g.claimant q)
    (hhanded : g'.handed = g.handed) (hpending : m'.pending = m.pending)
    (hdata : ∀ q ≠ p, g.stage q = .taken → m'.data (q % cfg.slotCount) = m.data (q % cfg.slotCount))
    (hclaimant : g'.claimant p = some u → g.claimant p = some u)
    (hheld : g.claimant p = some u → g.stage p = .claimed → g'.stage p = .claimed)
    (htaken : g.taker p = some u → g.stage p = .taken →
      g'.stage p = .taken ∧ m'.data (p % cfg.slotCount) = m.data (p % cfg.slotCount))
    (hkept : g'.stage p = .released → g.holder p = some u → g.stage p = .released) :
    Rely cfg u g m g' m' := by
  refine ⟨hprogress, fun q hq => ?_, fun q hc hq => ?_, fun q ht hq => ?_, fun q hh hq => ?_,
    fun q _ hq => by rwa [hhanded] at hq, fun _ => .inl ⟨hpending, hhanded⟩⟩
  all_goals by_cases he : q = p
  · rw [he] at hq ⊢
    exact hclaimant hq
  · rwa [(hothers q he).2] at hq
  · rw [he] at hc hq ⊢
    exact hheld hc hq
  · rw [(hothers q he).1, hq]
  · rw [he] at ht hq ⊢
    exact htaken ht hq
  · rw [(hothers q he).1]
    exact ⟨hq, hdata q he hq⟩
  · rw [he] at hh hq ⊢
    exact hkept hq hh
  · rw [(hothers q he).1] at hq
    exact hq

theorem effect_rely (hg : RingGuard cfg dc g m) (h : Effect cfg dc t g m label m') (hu : u ≠ t) :
    Rely cfg u g m (g.record cfg.slotCount (t, label)) m' := by
  have hN := four_le_slotCount cfg
  have hprogress := effect_progress hg h
  have hother : ∀ {x : Option Party}, x = some t → x ≠ some u := by
    rintro x rfl hx
    exact hu (Option.some.inj hx).symm
  cases h with
  | quiet m' henqueue hdequeue hslots hpending =>
    have hdata := data_congr hslots
    exact rely_update (p := 0) hprogress (fun _ _ => ⟨rfl, rfl⟩) rfl hpending (fun q _ _ => by rw [hdata])
      (fun hs => hs) (fun _ hs => hs) (fun _ hs => ⟨hs, by rw [hdata]⟩) (fun hs _ => hs)
  | claim ht hobserved =>
    have hfree := hg.free_of_observed hobserved
    refine rely_update (p := m.enqueue) hprogress (fun q hq => ?_) rfl rfl (fun _ _ _ => rfl) ?_ ?_ ?_ ?_
    · exact ⟨Function.update_of_ne hq _ _, Function.update_of_ne hq _ _⟩
    all_goals simp only [Ghost.record, Function.update_self, hfree]
    · exact fun hx => absurd hx (hother rfl)
    · exact fun _ hx => Stage.noConfusion hx
    · exact fun _ hx => Stage.noConfusion hx
    · exact fun hx => Stage.noConfusion hx
  | write p data howner =>
    have hp : g.stage p = .claimed ∨ g.stage p = .taken := howner.imp (fun h => h.2) (fun h => h.2)
    have hused : g.stage p ≠ .free ∧ g.stage p ≠ .released := by
      rcases hp with hp | hp <;> rw [hp] <;> exact ⟨Stage.noConfusion, Stage.noConfusion⟩
    refine rely_update (p := p) hprogress (fun _ _ => ⟨rfl, rfl⟩) rfl rfl ?_ (fun hs => hs) (fun _ hs => hs) ?_
      (fun hs _ => hs)
    · intro q hq hqt
      have hslot := hg.slots_differ hused.1 hused.2 (hqt.trans_ne Stage.noConfusion)
        (hqt.trans_ne Stage.noConfusion) hq
      rw [setData_data, Function.update_of_ne hslot]
    · intro htaker hs
      rcases howner with ⟨-, hc⟩ | ⟨ht, -⟩
      · cases hc.symm.trans hs
      · exact absurd htaker (hother ht)
  | publish p howner hstage =>
    refine rely_update (p := p) hprogress (fun q hq => ⟨Function.update_of_ne hq _ _, rfl⟩) rfl rfl ?_
      (fun hs => hs) ?_ ?_ ?_
    all_goals simp only [Ghost.record, Nat.add_sub_cancel, setSequence_data, Function.update_self]
    · exact fun _ _ _ => trivial
    · exact fun hc => absurd hc (hother howner)
    · exact fun _ hs => Stage.noConfusion (hstage.symm.trans hs)
    · exact fun hs => Stage.noConfusion hs
  | consume ht hobserved =>
    have hpub := hg.published_of_observed hobserved
    refine rely_update (p := m.dequeue) hprogress (fun q hq => ⟨Function.update_of_ne hq _ _, rfl⟩) rfl rfl
      (fun _ _ _ => rfl) (fun hs => hs) ?_ ?_ ?_
    all_goals simp only [Ghost.record, Function.update_self, hpub]
    · exact fun _ hx => Stage.noConfusion hx
    · exact fun _ hx => Stage.noConfusion hx
    · exact fun hx => Stage.noConfusion hx
  | complete p response howner hstage hdata hcomputed =>
    refine rely_update (p := p) hprogress (fun q hq => ⟨Function.update_of_ne hq _ _, rfl⟩) rfl rfl ?_
      (fun hs => hs) ?_ ?_ ?_
    all_goals simp only [Ghost.record, Nat.add_sub_cancel, setSequence_data, Function.update_self]
    · exact fun _ _ _ => trivial
    · exact fun _ hs => Stage.noConfusion (hstage.symm.trans hs)
    · exact fun ht => absurd ht (hother howner)
    · exact fun hs => Stage.noConfusion hs
  | release p howner hstage =>
    refine rely_update (p := p) hprogress (fun q hq => ?_) rfl rfl ?_ (fun hs => hs) ?_ ?_ ?_
    all_goals simp only [Ghost.record, Nat.add_sub_cancel, setSequence_data, Function.update_self]
    · exact ⟨Function.update_of_ne hq _ _, trivial⟩
    · exact fun _ _ _ => trivial
    · exact fun _ hs => Stage.noConfusion (hstage.symm.trans hs)
    · exact fun _ hs => Stage.noConfusion (hstage.symm.trans hs)
    · exact fun _ hh => absurd hh (hother howner)
  | handoff p howner hhanded hstage hreleased =>
    refine ⟨hprogress, fun _ hs => hs, fun _ _ hs => hs, fun _ _ hs => ⟨hs, rfl⟩, fun _ _ hs => hs,
      fun q hc hq => ?_, fun _ => .inr ⟨p, rfl, hhanded, hreleased, rfl⟩⟩
    have hne : q ≠ p := fun he => hother howner (he ▸ hc)
    exact (Function.update_of_ne hne _ g.handed).symm.trans hq
  | swap pending ht hnodup hhanded =>
    exact ⟨hprogress, fun _ hs => hs, fun _ _ hs => hs, fun _ _ hs => ⟨hs, rfl⟩, fun _ _ hs => hs,
      fun _ _ hq => hq, fun he => absurd (he.trans ht.symm) hu⟩

lemma RingGuard.unhanded (hg : RingGuard cfg dc g m) {p : Nat} (hp : g.stage p = .free) :
    g.handed p = false := by
  by_contra hh
  have hrank := hg.handed p (by simpa using hh)
  rw [hp] at hrank
  exact absurd hrank (by decide)

lemma holder_of_unhanded {p : Nat} (hc : g.claimant p = some t) (hh : g.handed p = false) :
    g.holder p = some t := by
  simp only [Ghost.holder, hh, Bool.false_eq_true, if_false]
  exact hc

lemma Rely.completed {g' : Ghost} (hr : Rely cfg u g m g' m') {p : Nat} (hh : g.holder p = some u)
    (hp : g.stage p = .completed) : g'.stage p = .completed := by
  have hle := hr.stage p
  rw [hp] at hle
  cases hs : g'.stage p with
  | completed => rfl
  | released => cases hp.symm.trans (hr.kept p hh hs)
  | _ =>
    rw [hs] at hle
    exact absurd hle (by decide)

lemma Progress.released {g' : Ghost} (hp : Progress g m g' m') {p : Nat} (h : g.stage p = .released) :
    g'.stage p = .released := by
  have hle := hp.stage p
  rw [h] at hle
  exact Stage.eq_released hle

lemma effect_quiet : Effect cfg dc t g m .quiet m := .quiet m rfl rfl rfl rfl

lemma effect_ready (delta : Nat) : Effect cfg dc t g m .quiet (m.addReady delta) := .quiet _ rfl rfl rfl rfl

/-- A slot whose word is `p + 2` has the answer to position `p`. -/
lemma completed_of_word (hg : RingGuard cfg dc g m) {p : Nat} (hrank : 2 ≤ (g.stage p).rank)
    (hp : g.stage p ≠ .released) (hword : m.sequence (p % cfg.slotCount) = p + 2) :
    g.stage p = .completed := by
  have hfree : g.stage p ≠ .free := by
    intro hfree
    rw [hfree] at hrank
    exact absurd hrank (by decide)
  have hw := hg.word hfree hp
  rw [hword] at hw
  cases hs : g.stage p with
  | completed => rfl
  | released => exact absurd hs hp
  | free | claimed =>
    rw [hs] at hrank
    exact absurd hrank (by decide)
  | published | taken =>
    rw [hs] at hw
    simp only [Stage.word] at hw
    omega

end FraudDetection.Proofs
