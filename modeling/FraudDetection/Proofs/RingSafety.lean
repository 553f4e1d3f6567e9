import FraudDetection.Proofs.RingHistory

/-!
# Safety of the ring

For every run: each position has one producer and one consumer, sequence words move in order and
slots are written by their owner; a response that `submit` returns answers its own request; no
position is lost or released twice.
-/

namespace FraudDetection.Proofs
open FraudDetection.Library
open FraudDetection.Ring

variable {cfg : Config} {dc : DaemonConfig} {t : Party} {g g' : Ghost} {m m' : Shared} {label : Label}
  {s : System} {actions : List Action} {trace : Trace}

section ownership

/-- The thread owns the slot: it claimed the position that the slot is to publish, or consumed the
one that it has published. -/
def OwnsSlot (cfg : Config) (trace : Trace) (m : Shared) (t : Party) (i : Nat) : Prop :=
  ∃ p, p % cfg.slotCount = i ∧
    ((t, .claim p) ∈ trace ∧ m.sequence i = p ∨ (t, .consume p) ∈ trace ∧ m.sequence i = p + 1)

/-- Which thread changes a sequence word, and how. -/
lemma effect_word (hg : RingGuard cfg dc g m) (h : Effect cfg dc t g m label m') (i : Nat) :
    m'.sequence i = m.sequence i ∨ ∃ p, p % cfg.slotCount = i ∧
      (g.claimant p = some t ∧ m.sequence i = p ∧ m'.sequence i = p + 1 ∨
        g.taker p = some t ∧ m.sequence i = p + 1 ∧ m'.sequence i = p + 2 ∨
        m.sequence i = p + 2 ∧ m'.sequence i = p + cfg.slotCount) := by
  have hstore : ∀ {p value : Nat}, p % cfg.slotCount ≠ i →
      (m.setSequence (p % cfg.slotCount) value).sequence i = m.sequence i := by
    intro p value hne
    rw [setSequence_sequence, Function.update_of_ne hne.symm]
  cases h with
  | quiet m' henqueue hdequeue hslots hpending =>
    left
    rw [sequence_congr hslots]
  | claim | consume | handoff | swap => exact .inl rfl
  | write p data howner =>
    left
    rw [setData_sequence]
  | publish p howner hstage =>
    by_cases hi : p % cfg.slotCount = i
    · subst hi
      refine .inr ⟨p, rfl, .inl ⟨howner, hg.word_of hstage Stage.noConfusion Stage.noConfusion, ?_⟩⟩
      rw [setSequence_sequence, Function.update_self]
    · exact .inl (hstore hi)
  | complete p response howner hstage =>
    by_cases hi : p % cfg.slotCount = i
    · subst hi
      refine .inr ⟨p, rfl, .inr (.inl ⟨howner, hg.word_of hstage Stage.noConfusion Stage.noConfusion, ?_⟩)⟩
      rw [setSequence_sequence, Function.update_self]
    · exact .inl (hstore hi)
  | release p howner hstage =>
    by_cases hi : p % cfg.slotCount = i
    · subst hi
      refine .inr ⟨p, rfl, .inr (.inr ⟨hg.word_of hstage Stage.noConfusion Stage.noConfusion, ?_⟩)⟩
      rw [setSequence_sequence, Function.update_self]
    · exact .inl (hstore hi)

/-- Which thread writes the data of a slot. -/
lemma effect_data (hg : RingGuard cfg dc g m) (h : Effect cfg dc t g m label m') {i : Nat}
    (hwrite : label = .write i ∨ m'.data i ≠ m.data i) :
    ∃ p, p % cfg.slotCount = i ∧
      (g.claimant p = some t ∧ m.sequence i = p ∨ g.taker p = some t ∧ m.sequence i = p + 1) := by
  cases h with
  | write p data howner =>
    have hi : p % cfg.slotCount = i := by
      rcases hwrite with he | hne
      · cases he
        rfl
      · by_contra hi
        rw [setData_data, Function.update_of_ne (Ne.symm hi)] at hne
        exact hne rfl
    subst hi
    refine ⟨p, rfl, ?_⟩
    rcases howner with ⟨hc, hs⟩ | ⟨hc, hs⟩
    · exact .inl ⟨hc, hg.word_of hs Stage.noConfusion Stage.noConfusion⟩
    · exact .inr ⟨hc, hg.word_of hs Stage.noConfusion Stage.noConfusion⟩
  | quiet m' henqueue hdequeue hslots hpending =>
    rcases hwrite with he | hne
    · cases he
    · exact absurd (by rw [data_congr hslots]) hne
  | publish | complete | release =>
    rcases hwrite with he | hne
    · cases he
    · exact absurd (by rw [setSequence_data]) hne
  | _ =>
    rcases hwrite with he | hne
    · cases he
    · exact absurd rfl hne

lemma ownsSlot_unique (hr : Reached cfg dc s trace) {t u : Party} {i : Nat}
    (ht : OwnsSlot cfg trace s.shared t i) (hu : OwnsSlot cfg trace s.shared u i) : t = u := by
  have hlap : ∀ {p : Nat}, (p + 1) % cfg.slotCount ≠ p % cfg.slotCount := by
    intro p he
    have hN := four_le_slotCount cfg
    have hzero : 1 % cfg.slotCount = 0 % cfg.slotCount :=
      Nat.ModEq.add_left_cancel (Nat.ModEq.refl p) (show p + 1 ≡ p + 0 [MOD cfg.slotCount] from he)
    rw [Nat.mod_eq_of_lt (by omega), Nat.zero_mod] at hzero
    cases hzero
  obtain ⟨p, hp, ⟨hmem, hseq⟩ | ⟨hmem, hseq⟩⟩ := ht <;> obtain ⟨q, hq, ⟨hmem', hseq'⟩ | ⟨hmem', hseq'⟩⟩ := hu
  · obtain rfl : p = q := by omega
    exact Option.some.inj (((hr.history.claims t p).mp hmem).symm.trans ((hr.history.claims u p).mp hmem'))
  · obtain rfl : p = q + 1 := by omega
    exact absurd (hp.trans hq.symm) hlap
  · obtain rfl : q = p + 1 := by omega
    exact absurd (hq.trans hp.symm) hlap
  · obtain rfl : p = q := by omega
    exact Option.some.inj (((hr.history.consumes t p).mp hmem).symm.trans ((hr.history.consumes u p).mp hmem'))

/-- In every run each position is claimed once and consumed once, the enqueue cursor is at most one
lap ahead, and a slot has at most one owner. Whatever step comes next, a sequence word only moves
from `p` to `p + 1` by the claimant of `p`, to `p + 2` by its consumer, and to `p + N`; and the
data of a slot is written by its owner only. -/
theorem ring_ownership (cfg : Config) (dc : DaemonConfig) (actions : List Action) (s : System) (trace : Trace)
    (hrun : runThreads (program cfg dc) (System.initial cfg) actions = some (s, trace)) :
    (trace.filterMap fun e => e.2.claimed).Nodup ∧ (trace.filterMap fun e => e.2.consumed).Nodup ∧
    s.shared.dequeue ≤ s.shared.enqueue ∧ s.shared.enqueue ≤ s.shared.dequeue + cfg.slotCount ∧
    (∀ t u i, OwnsSlot cfg trace s.shared t i → OwnsSlot cfg trace s.shared u i → t = u) ∧
    ∀ a s' event, stepThread (program cfg dc) s a = some (s', event) → ∀ i,
      (s'.shared.sequence i = s.shared.sequence i ∨ ∃ p, p % cfg.slotCount = i ∧
        ((a.1, .claim p) ∈ trace ∧ s.shared.sequence i = p ∧ s'.shared.sequence i = p + 1 ∨
          (a.1, .consume p) ∈ trace ∧ s.shared.sequence i = p + 1 ∧ s'.shared.sequence i = p + 2 ∨
          s.shared.sequence i = p + 2 ∧ s'.shared.sequence i = p + cfg.slotCount)) ∧
      (event.2 = .write i ∨ s'.shared.data i ≠ s.shared.data i → OwnsSlot cfg trace s.shared a.1 i) := by
  have hr : Reached cfg dc s trace := run_reached hrun
  refine ⟨hr.history.claims_nodup, hr.history.consumes_nodup, hr.guard.ring.dequeue_le,
    hr.guard.ring.enqueue_le, fun t u i => ownsSlot_unique hr, fun a s' event hstep i => ?_⟩
  obtain ⟨-, heffect, -⟩ := reached_step hr hstep
  simp only [OwnsSlot, hr.history.claims, hr.history.consumes]
  exact ⟨effect_word hr.guard heffect i, effect_data hr.guard heffect⟩

def fourSlots : Config := ⟨2, 128, by decide, by decide, by decide⟩

def singleBatches : DaemonConfig := ⟨1, 0, false, fun _ => some ⟨7, 12000000⟩⟩

def peersRun : List Action :=
  (⟨.producer 0, .produce ⟨[1, 2], 3, 4⟩⟩ :: List.replicate 15 ⟨.producer 0, .next⟩) ++
  (⟨.consumer 0, .consume⟩ :: List.replicate 4 ⟨.consumer 0, .next⟩) ++
  (⟨.consumer 0, .complete 0 ⟨200, 0, 0, 9⟩⟩ :: List.replicate 6 ⟨.consumer 0, .next⟩) ++
  [⟨.producer 0, .release 0⟩, ⟨.producer 0, .next⟩, ⟨.producer 0, .next⟩]

theorem ring_ownership_peers : ∃ (s : System) (trace : Trace),
    runThreads (program fourSlots singleBatches) (System.initial fourSlots) peersRun = some (s, trace) ∧
      s.shared.sequence 0 = 4 ∧ (trace.filterMap fun e => e.2.claimed).Nodup ∧
      (trace.filterMap fun e => e.2.consumed).Nodup := by
  have hsome : (runThreads (program fourSlots singleBatches) (System.initial fourSlots) peersRun).isSome := by rfl
  obtain ⟨⟨s, trace⟩, hrun⟩ := Option.isSome_iff_exists.mp hsome
  have hword : (runThreads (program fourSlots singleBatches) (System.initial fourSlots) peersRun).map
      (fun x => x.1.shared.sequence 0) = some 4 := by rfl
  rw [hrun] at hword
  obtain ⟨hclaims, hconsumes, -⟩ := ring_ownership fourSlots singleBatches peersRun s trace hrun
  exact ⟨s, trace, hrun, Option.some.inj hword, hclaims, hconsumes⟩

end ownership

section deployed

variable (hrun : runThreads (program cfg dc) (System.initial cfg) actions = some (s, trace))
  (hdeployed : ∀ a ∈ actions, a.1.deployed = true)
include hrun hdeployed

lemma deployed_claim {p : Nat} (h : (t, .claim p) ∈ trace) : ∃ call, t = .submit call := by
  obtain ⟨a, ha, he⟩ := runThreads_party hrun h
  have hd := hdeployed a ha
  have hp := (run_reached hrun).history.claims_by t p h
  rw [he] at hd
  cases t with
  | submit call => exact ⟨call, rfl⟩
  | reclaimer | daemon => cases hp
  | producer | consumer => cases hd

lemma deployed_consume {p : Nat} (h : (t, .consume p) ∈ trace) : t = .daemon := by
  obtain ⟨a, ha, he⟩ := runThreads_party hrun h
  have hd := hdeployed a ha
  have hc := (run_reached hrun).history.consumes_by t p h
  rw [he] at hd
  cases t with
  | daemon => rfl
  | submit | reclaimer => cases hc
  | producer | consumer => cases hd

end deployed

section response

/-- If a call of `submit` returns a response, then the call claimed one position, which no other
thread claimed and which it published once; the daemon completed that position, once, with the
values of the response, and computed them from the data that the call published. -/
theorem response_integrity (cfg : Config) (dc : DaemonConfig) (actions : List Action) (s : System)
    (trace : Trace) (hrun : runThreads (program cfg dc) (System.initial cfg) actions = some (s, trace))
    (hdeployed : ∀ a ∈ actions, a.1.deployed = true) (call : Nat) (response : InferenceResponse)
    (hreturned : s.locals (.submit call) = SubmitPC.returned (.ok response)) :
    ∃ p data r, (∀ t q, (t, .claim q) ∈ trace → (t = .submit call ↔ q = p)) ∧
      (.submit call, .claim p) ∈ trace ∧
      (.submit call, .publish (p % cfg.slotCount) (p + 1) data) ∈ trace ∧
      storeCount (p % cfg.slotCount) (p + 1) trace = 1 ∧
      (.daemon, .complete (p % cfg.slotCount) (p + 2) r) ∈ trace ∧
      storeCount (p % cfg.slotCount) (p + 2) trace = 1 ∧
      r = ⟨response.status.asU32, response.decision, response.score, response.completedNs⟩ ∧
      ∃ status syncFailed now, r = respond (decodeTransaction cfg dc data) status syncFailed now := by
  have hr : Reached cfg dc s trace := run_reached hrun
  have hown : SubmitOwn cfg (.submit call) (ghostOf cfg trace) s.shared (s.locals (.submit call)) :=
    hr.own (.submit call)
  rw [hreturned] at hown
  obtain ⟨p, hclaim, honly, hrank, r, hanswered, hstatus, hdecision, hscore, hns⟩ := hown.2 response rfl
  have htaker : (ghostOf cfg trace).taker p = some .daemon := by
    obtain ⟨u, hu⟩ := Option.ne_none_iff_exists'.mp (mt (hr.guard.untaken p).mpr (by omega))
    rw [hu, deployed_consume hrun hdeployed ((hr.history.consumes u p).mpr hu)]
  obtain ⟨data, r', hpublished, hanswered', hcomputed⟩ := hr.guard.computed p htaker hrank
  obtain rfl := Option.some.inj (hanswered.symm.trans hanswered')
  refine ⟨p, data, r, fun t q hq => ?_, (hr.history.claims _ p).mpr hclaim, ?_, ?_, ?_, ?_, ?_, hcomputed⟩
  · rw [hr.history.claims] at hq
    constructor
    · rintro rfl
      exact honly q hq
    · rintro rfl
      exact Option.some.inj (hq.symm.trans hclaim)
  · exact (hr.history.publishes _ _ _ _).mpr ⟨p, rfl, rfl, hclaim, by omega, hpublished⟩
  · exact (hr.history.stores p .published 1 rfl).trans (if_pos (le_trans (by decide) hrank))
  · exact (hr.history.completes _ _ _ _).mpr ⟨p, rfl, rfl, htaker, hrank, hanswered⟩
  · exact (hr.history.stores p .completed 2 rfl).trans (if_pos hrank)
  · rw [← hstatus, ← hdecision, ← hscore, ← hns]

def submitActions (call : Nat) (choices : List SubmitChoice) : List Action :=
  choices.map fun choice => ⟨.submit call, choice⟩

def daemonActions (choices : List DaemonChoice) : List Action :=
  choices.map fun choice => ⟨.daemon, choice⟩

def publishChoices : List SubmitChoice :=
  [SubmitChoice.next, .next, .next, .prepared 7 0, .next, .next, .next, .exchange false, .builderWrite 0 [1],
    .serialized 0 1, .clock false] ++ List.replicate 11 SubmitChoice.next

def batchChoices : List DaemonChoice :=
  List.replicate 8 DaemonChoice.next ++ [DaemonChoice.clock 5, .next, .next, .cuda true, .next, .next, .cuda true] ++
    List.replicate 6 DaemonChoice.next

def answeredRun : List Action :=
  submitActions 0 publishChoices ++ daemonActions batchChoices ++ submitActions 0 (List.replicate 7 .next)

theorem response_integrity_answered : ∃ (s : System) (trace : Trace),
    runThreads (program fourSlots singleBatches) (System.initial fourSlots) answeredRun = some (s, trace) ∧
      s.locals (.submit 0) = SubmitPC.returned (.ok ⟨7, .scored, 1, 0x3F666666, 5⟩) ∧
      ∃ p r, (.submit 0, .claim p) ∈ trace ∧ (.daemon, .complete (p % 4) (p + 2) r) ∈ trace ∧
        r = ⟨200, 1, 0x3F666666, 5⟩ := by
  have hsome : (runThreads (program fourSlots singleBatches) (System.initial fourSlots) answeredRun).isSome := by
    rfl
  obtain ⟨⟨s, trace⟩, hrun⟩ := Option.isSome_iff_exists.mp hsome
  have hlocal : (runThreads (program fourSlots singleBatches) (System.initial fourSlots) answeredRun).map
      (fun x => x.1.locals (.submit 0)) = some (SubmitPC.returned (.ok ⟨7, .scored, 1, 0x3F666666, 5⟩)) := by rfl
  rw [hrun] at hlocal
  have hreturned := Option.some.inj hlocal
  obtain ⟨p, -, r, -, hclaim, -, -, hcomplete, -, hr, -⟩ :=
    response_integrity fourSlots singleBatches answeredRun s trace hrun (by decide +kernel) 0 _ hreturned
  exact ⟨s, trace, hrun, hreturned, p, r, hclaim, hcomplete, hr⟩

end response

section release

/-- The word of the next lap is stored by the holder of a completed position. -/
lemma effect_release (h : Effect cfg dc t g m label m') {p : Nat}
    (hstored : label.stored = some (p % cfg.slotCount, p + cfg.slotCount)) :
    g.holder p = some t ∧ g.stage p = .completed := by
  have hsame : ∀ {q k} (st : Stage), storedOffset cfg.slotCount st = some k →
      some (q % cfg.slotCount, q + k) = some (p % cfg.slotCount, p + cfg.slotCount) →
      q = p ∧ st = .released := by
    intro q k st hk he
    simp only [Option.some.injEq, Prod.mk.injEq] at he
    exact storedOffset_injective (four_le_slotCount cfg) hk rfl he.1 he.2
  cases h with
  | publish q => cases (hsame .published rfl hstored).2
  | complete q => cases (hsame .completed rfl hstored).2
  | release q howner hstage =>
    obtain ⟨rfl, -⟩ := hsame .released rfl hstored
    exact ⟨howner, hstage⟩
  | _ => cases hstored

section waiting

variable (hr : Reached cfg dc s trace)
include hr

lemma released_iff_stored (p : Nat) : storeCount (p % cfg.slotCount) (p + cfg.slotCount) trace = 0 ↔
    (ghostOf cfg trace).stage p ≠ .released := by
  rw [hr.history.stores p .released cfg.slotCount rfl]
  constructor
  · intro h hx
    rw [hx, if_pos le_rfl] at h
    cases h
  · intro hx
    exact if_neg fun hle => hx (Stage.eq_released hle)

/-- A call that has returned has published what it claimed, and released or handed it over. -/
lemma returned_published {call p : Nat} {result : Except GatewayError InferenceResponse}
    (hclaim : (.submit call, .claim p) ∈ trace) (hreturned : s.locals (.submit call) = SubmitPC.returned result) :
    2 ≤ ((ghostOf cfg trace).stage p).rank ∧
      ((ghostOf cfg trace).handed p = true ∨ (ghostOf cfg trace).stage p = .released) := by
  have hown : SubmitOwn cfg (.submit call) (ghostOf cfg trace) s.shared (s.locals (.submit call)) :=
    hr.own (.submit call)
  rw [hreturned] at hown
  have hdone := hown.1 p ((hr.history.claims _ p).mp hclaim)
  refine ⟨?_, hdone⟩
  rcases hdone with hhanded | hreleased
  · exact hr.guard.handed p hhanded
  · rw [hreleased]
    decide

/-- The reclaimer's private list holds the positions on its account, and at most one more that it
has just released. -/
lemma outstanding_perm : ∃ done live, s.outstanding.Perm (done ++ live) ∧
    Accounted (ghostOf cfg trace) s.shared live ∧ ∀ p ∈ done, (ghostOf cfg trace).stage p = .released := by
  have hown : ReclaimerOwn (ghostOf cfg trace) s.shared (s.locals .reclaimer) := hr.own .reclaimer
  unfold System.outstanding
  generalize s.locals .reclaimer = pc at hown
  cases pc with
  | swap outstanding => exact ⟨[], outstanding, .refl _, hown, List.forall_mem_nil _⟩
  | scan outstanding index => exact ⟨[], outstanding, .refl _, hown, List.forall_mem_nil _⟩
  | store outstanding index position => exact ⟨[], outstanding, .refl _, hown.1, List.forall_mem_nil _⟩
  | remove outstanding index =>
    obtain ⟨ha, position, hget, hreleased⟩ := hown
    exact ⟨[position], swapRemove outstanding index, swapRemove_perm hget, ha,
      List.forall_mem_singleton.mpr hreleased⟩

/-- The two lists of the reclaimer hold a position that waits for it exactly once. -/
lemma count_waiting {p : Nat} (hhanded : (ghostOf cfg trace).handed p = true)
    (hlive : (ghostOf cfg trace).stage p ≠ .released) : (s.shared.pending ++ s.outstanding).count p = 1 := by
  obtain ⟨done, live, hperm, ha, hdone⟩ := outstanding_perm hr
  have hp : p ∉ done := fun hmem => hlive (hdone p hmem)
  have hcount := List.count_eq_one_of_mem ha.nodup ((ha.mem p).mpr ⟨hhanded, hlive⟩)
  rw [List.count_append] at hcount
  rwa [List.count_append, hperm.count_eq, List.count_append, List.count_eq_zero_of_not_mem hp, Nat.zero_add]

end waiting

/-- No position is lost or released twice in the deployed system. A call of `submit` that claimed
`p` has stored `p + 1` exactly once when it returns. The store of `p + N` happens at most once, by
the reclaimer or by the call that claimed `p`, after the daemon stored `p + 2`. When no call is in
progress, the reclaimer's two lists hold every claimed position that is not released exactly once;
if they are empty, every slot is free for one of the next `N` positions. -/
theorem release_exactly_once (cfg : Config) (dc : DaemonConfig) (actions : List Action) (s : System)
    (trace : Trace) (hrun : runThreads (program cfg dc) (System.initial cfg) actions = some (s, trace))
    (hdeployed : ∀ a ∈ actions, a.1.deployed = true) :
    (∀ call p result, (.submit call, .claim p) ∈ trace → s.locals (.submit call) = SubmitPC.returned result →
      storeCount (p % cfg.slotCount) (p + 1) trace = 1) ∧
    (∀ p, storeCount (p % cfg.slotCount) (p + cfg.slotCount) trace ≤ 1) ∧
    (∀ p before event after, trace = before ++ event :: after →
      event.2.stored = some (p % cfg.slotCount, p + cfg.slotCount) →
      (event.1 = .reclaimer ∨ (event.1, .claim p) ∈ before) ∧
        ∃ r, (.daemon, .complete (p % cfg.slotCount) (p + 2) r) ∈ before) ∧
    (s.settled → ∀ t p, (t, .claim p) ∈ trace →
      storeCount (p % cfg.slotCount) (p + cfg.slotCount) trace = 0 →
      (s.shared.pending ++ s.outstanding).count p = 1) ∧
    (s.settled → s.shared.pending = [] → s.outstanding = [] → ∀ i < cfg.slotCount,
      ∃ q, q % cfg.slotCount = i ∧ s.shared.enqueue ≤ q ∧ q < s.shared.enqueue + cfg.slotCount ∧
        s.shared.sequence i = q) := by
  have hr : Reached cfg dc s trace := run_reached hrun
  have hwaiting : s.settled → ∀ t p, (t, .claim p) ∈ trace →
      storeCount (p % cfg.slotCount) (p + cfg.slotCount) trace = 0 →
      (s.shared.pending ++ s.outstanding).count p = 1 := by
    intro hsettled t p hclaim hstored
    have hlive := (released_iff_stored hr p).mp hstored
    obtain ⟨call, rfl⟩ := deployed_claim hrun hdeployed hclaim
    rcases hsettled call with hidle | ⟨result, hreturned⟩
    · have hown : SubmitOwn cfg (.submit call) (ghostOf cfg trace) s.shared (s.locals (.submit call)) :=
        hr.own (.submit call)
      rw [hidle] at hown
      exact absurd ((hr.history.claims _ p).mp hclaim) (hown p)
    · exact count_waiting hr ((returned_published hr hclaim hreturned).2.resolve_right hlive) hlive
  refine ⟨fun call p result hclaim hreturned => ?_, fun p => ?_, fun p before event after htrace hstored => ?_,
    hwaiting, fun hsettled hpending houtstanding i hi => ?_⟩
  · exact (hr.history.stores p .published 1 rfl).trans
      (if_pos (returned_published hr hclaim hreturned).1)
  · rw [hr.history.stores p .released cfg.slotCount rfl]
    split <;> omega
  · subst htrace
    obtain ⟨actions₁, a, actions₂, s₁, s₂, rfl, hrun₁, hstep⟩ := runThreads_split hrun
    have hr₁ : Reached cfg dc s₁ before := run_reached hrun₁
    obtain ⟨hparty, heffect, -⟩ := reached_step hr₁ hstep
    obtain ⟨hholder, hstage⟩ := effect_release heffect hstored
    rw [hparty]
    constructor
    · unfold Ghost.holder at hholder
      split at hholder
      · exact .inl (Option.some.inj hholder).symm
      · exact .inr ((hr₁.history.claims _ p).mpr hholder)
    · have hrank : 4 ≤ ((ghostOf cfg before).stage p).rank := by
        rw [hstage]
        decide
      obtain ⟨u, hu⟩ := Option.ne_none_iff_exists'.mp (mt (hr₁.guard.untaken p).mpr (by omega))
      obtain rfl := deployed_consume hrun₁ (fun b hb => hdeployed b (List.mem_append_left _ hb))
        ((hr₁.history.consumes u p).mpr hu)
      exact ⟨_, (hr₁.history.completes _ _ _ _).mpr
        ⟨p, rfl, rfl, hu, hrank, hr₁.guard.answered p hstage⟩⟩
  · refine hr.guard.ring.free_of_released (fun p hp => ?_) hi
    by_contra hlive
    obtain ⟨u, hu⟩ := Option.ne_none_iff_exists'.mp
      (mt (hr.guard.unclaimed p).mpr ((hr.guard.ring.claimed p).mpr hp))
    have hcount := hwaiting hsettled u p ((hr.history.claims u p).mpr hu) ((released_iff_stored hr p).mpr hlive)
    rw [hpending, houtstanding] at hcount
    cases hcount

/-- The call times out after its publication, and the reclaimer releases its position. -/
def timedOutRun : List Action :=
  submitActions 0 (publishChoices ++ [.next, .clock true, .next, .next]) ++ daemonActions batchChoices ++
    List.replicate 4 ⟨.reclaimer, ()⟩

theorem release_exactly_once_timeout : ∃ (s : System) (trace : Trace),
    runThreads (program fourSlots singleBatches) (System.initial fourSlots) timedOutRun = some (s, trace) ∧
      s.locals (.submit 0) = SubmitPC.returned (.error .timeout) ∧ s.shared.sequence 0 = 4 ∧
      storeCount 0 4 trace ≤ 1 := by
  have hsome : (runThreads (program fourSlots singleBatches) (System.initial fourSlots) timedOutRun).isSome := by
    rfl
  obtain ⟨⟨s, trace⟩, hrun⟩ := Option.isSome_iff_exists.mp hsome
  have hlocal : (runThreads (program fourSlots singleBatches) (System.initial fourSlots) timedOutRun).map
      (fun x => x.1.locals (.submit 0)) = some (SubmitPC.returned (.error .timeout)) := by rfl
  have hword : (runThreads (program fourSlots singleBatches) (System.initial fourSlots) timedOutRun).map
      (fun x => x.1.shared.sequence 0) = some 4 := by rfl
  rw [hrun] at hlocal hword
  obtain ⟨-, hrelease, -⟩ :=
    release_exactly_once fourSlots singleBatches timedOutRun s trace hrun (by decide +kernel)
  exact ⟨s, trace, hrun, Option.some.inj hlocal, Option.some.inj hword, hrelease 0⟩

end release

end FraudDetection.Proofs
