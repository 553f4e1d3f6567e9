import Mathlib.Data.List.Perm.Basic
import FraudDetection.Proofs.RingGhost

/-!
# Ownership of a call of `submit` and of the reclaimer

What a call of `submit` owns at each of its program counters: nothing until its exchange on the
enqueue cursor succeeds, then its one position until it is released or handed to the reclaimer.
The reclaimer owns the release of every position that was handed over.
-/

namespace FraudDetection.Proofs
open FraudDetection.Library
open FraudDetection.Ring
open scoped List

variable {cfg : Config} {dc : DaemonConfig} {t : Party} {g g' : Ghost} {m m' : Shared} {label : Label}

lemma slotIndex_eq (cfg : Config) (position : Nat) : slotIndex cfg position = position % cfg.slotCount :=
  Nat.and_two_pow_sub_one_eq_mod position cfg.exponent

lemma tryFrom_eq_ok {value : UInt32} {status : DaemonResponseStatus}
    (h : DaemonResponseStatus.tryFrom value = .ok status) : value = status.asU32 := by
  unfold DaemonResponseStatus.tryFrom at h
  split at h
  · cases h
    assumption
  · split at h
    · cases h
      assumption
    · split at h
      · cases h
        assumption
      · split at h <;> cases h

def Unclaimed (g : Ghost) (t : Party) : Prop := ∀ p, g.claimant p ≠ some t

/-- The thread has claimed `p` alone and may release it. -/
structure Holds (g : Ghost) (t : Party) (p : Nat) : Prop where
  claimant : g.claimant p = some t
  only : ∀ q, g.claimant q = some t → q = p
  kept : g.handed p = false

lemma Holds.not_pending {p : Nat} (h : Holds g t p) (hg : RingGuard cfg dc g m) : p ∉ m.pending := by
  intro hmem
  have hhanded := hg.pending_handed p hmem
  rw [h.kept] at hhanded
  cases hhanded

def Matches (g : Ghost) (p : Nat) (response : InferenceResponse) : Prop :=
  ∃ r, g.answered p = some r ∧ r.status = response.status.asU32 ∧ r.decision = response.decision ∧
    r.score = response.score ∧ r.completeNs = response.completedNs

def SubmitOwn (cfg : Config) (t : Party) (g : Ghost) (m : Shared) : SubmitPC → Prop
  | .idle | .checkBody | .checkReady | .prepare | .reserveReady _ | .loadEnqueue _ | .loadSequence _ _
  | .reserveDeadline _ => Unclaimed g t
  | .compareExchange _ position => Unclaimed g t ∧ position ≤ m.sequence (position % cfg.slotCount)
  | .serializing v | .publishDeadline v _ _ | .publishing v _ _ | .publishStore v _ =>
    Holds g t v.position ∧ g.stage v.position = .claimed
  | .publishReady v _ | .waitLoad v | .waitDeadline v | .handoffLoad v _ | .handoffPush v _ =>
    Holds g t v.position ∧ 2 ≤ (g.stage v.position).rank ∧ g.stage v.position ≠ .released
  | .readRequestId v | .readStatus v => Holds g t v.position ∧ g.stage v.position = .completed
  | .readScore v status => Holds g t v.position ∧ g.stage v.position = .completed ∧
    ∃ r, g.answered v.position = some r ∧ r.status = status.asU32
  | .readDecision v status score => Holds g t v.position ∧ g.stage v.position = .completed ∧
    ∃ r, g.answered v.position = some r ∧ r.status = status.asU32 ∧ r.score = score
  | .readCompleteNs v status score decision => Holds g t v.position ∧ g.stage v.position = .completed ∧
    ∃ r, g.answered v.position = some r ∧ r.status = status.asU32 ∧ r.score = score ∧ r.decision = decision
  | .releaseStore v result => Holds g t v.position ∧ g.stage v.position = .completed ∧
    ∀ response, result = .ok response → Matches g v.position response
  | .returned result => (∀ p, g.claimant p = some t → g.handed p = true ∨ g.stage p = .released) ∧
    ∀ response, result = .ok response →
      ∃ p, g.claimant p = some t ∧ (∀ q, g.claimant q = some t → q = p) ∧ 4 ≤ (g.stage p).rank ∧
        Matches g p response

section stability

variable {u : Party} (hr : Rely cfg u g m g' m')
include hr

lemma unclaimed_stable (h : Unclaimed g u) : Unclaimed g' u :=
  fun p hp => h p (hr.claimant_only p hp)

lemma holds_stable {p : Nat} (h : Holds g u p) : Holds g' u p where
  claimant := hr.claimant p u h.claimant
  only q hq := h.only q (hr.claimant_only q hq)
  kept := Bool.eq_false_iff.mpr fun hp => Bool.eq_false_iff.mp h.kept (hr.handed_only p h.claimant hp)

lemma holds_unreleased {p : Nat} (h : Holds g u p) (hp : g.stage p ≠ .released) :
    g'.stage p ≠ .released :=
  fun hx => hp (hr.kept p (holder_of_unhanded h.claimant h.kept) hx)

lemma holds_completed {p : Nat} (h : Holds g u p) (hp : g.stage p = .completed) :
    g'.stage p = .completed :=
  hr.completed (holder_of_unhanded h.claimant h.kept) hp

lemma matches_stable {p : Nat} {response : InferenceResponse} (hp : 4 ≤ (g.stage p).rank)
    (h : Matches g p response) : Matches g' p response := by
  unfold Matches
  rw [hr.answered p hp]
  exact h

theorem submitOwn_stable {pc : SubmitPC} (h : SubmitOwn cfg u g m pc) : SubmitOwn cfg u g' m' pc := by
  have hcompleted : ∀ {p}, g.stage p = .completed → 4 ≤ (g.stage p).rank := by
    intro p hp
    rw [hp]
    decide
  cases pc with
  | idle | checkBody | checkReady | prepare | reserveReady | loadEnqueue | loadSequence | reserveDeadline =>
    exact unclaimed_stable hr h
  | compareExchange r position => exact ⟨unclaimed_stable hr h.1, h.2.trans (hr.sequence _)⟩
  | serializing v | publishDeadline v | publishing v | publishStore v =>
    exact ⟨holds_stable hr h.1, hr.held _ h.1.claimant h.2⟩
  | publishReady v | waitLoad v | waitDeadline v | handoffLoad v | handoffPush v =>
    exact ⟨holds_stable hr h.1, h.2.1.trans (hr.stage _), holds_unreleased hr h.1 h.2.2⟩
  | readRequestId v | readStatus v => exact ⟨holds_stable hr h.1, holds_completed hr h.1 h.2⟩
  | readScore v | readDecision v | readCompleteNs v =>
    obtain ⟨hh, hc, r, ha, hm⟩ := h
    exact ⟨holds_stable hr hh, holds_completed hr hh hc, r, (hr.answered _ (hcompleted hc)).trans ha, hm⟩
  | releaseStore v result =>
    obtain ⟨hh, hc, hm⟩ := h
    exact ⟨holds_stable hr hh, holds_completed hr hh hc,
      fun response he => matches_stable hr (hcompleted hc) (hm response he)⟩
  | returned result =>
    refine ⟨fun p hp => ?_, fun response he => ?_⟩
    · rcases h.1 p (hr.claimant_only p hp) with hh | hx
      · exact .inl (hr.handed p hh)
      · exact .inr (hr.released hx)
    · obtain ⟨p, hc, honly, hrank, hm⟩ := h.2 response he
      exact ⟨p, hr.claimant p u hc, fun q hq => honly q (hr.claimant_only q hq), hrank.trans (hr.stage p),
        matches_stable hr hrank hm⟩

end stability

section step

lemma returned_of_unclaimed (h : Unclaimed g t) (err : GatewayError) :
    SubmitOwn cfg t g m (.returned (.error err)) :=
  ⟨fun p hp => absurd hp (h p), fun _ he => by cases he⟩

lemma holds_claim {p : Nat} (h : Unclaimed g t) (hp : g.handed p = false) :
    Holds (g.record cfg.slotCount (t, .claim p)) t p where
  claimant := Function.update_self ..
  only q hq := by
    by_contra hne
    exact h q ((Function.update_of_ne hne _ g.claimant).symm.trans hq)
  kept := hp

theorem reserve_step {pc pc' : SubmitPC} {choice : SubmitChoice} (ht : t.produces = true)
    (hg : RingGuard cfg dc g m)
    (ho : SubmitOwn cfg t g m pc) (h : reserveStep cfg pc m choice = some (pc', m', label)) :
    Effect cfg dc t g m label m' ∧ SubmitOwn cfg t (g.record cfg.slotCount (t, label)) m' pc' := by
  unfold reserveStep at h
  simp only [slotIndex_eq] at h
  split at h
  · cases h
    exact ⟨effect_quiet, ho⟩
  · cases h
    exact ⟨effect_quiet, returned_of_unclaimed ho _⟩
  · cases h
    exact ⟨effect_quiet, ho⟩
  · split at h <;> cases h
    · exact ⟨effect_quiet, returned_of_unclaimed ho _⟩
    · exact ⟨effect_quiet, ho⟩
  · cases h
    exact ⟨effect_quiet, returned_of_unclaimed ho _⟩
  · cases h
    exact ⟨effect_quiet, ho⟩
  · split at h <;> cases h
    · exact ⟨effect_quiet, returned_of_unclaimed ho _⟩
    · exact ⟨effect_quiet, ho⟩
  · cases h
    exact ⟨effect_quiet, ho⟩
  · split at h
    · rename_i hzero
      cases h
      exact ⟨effect_quiet, ho, by omega⟩
    · split at h <;> cases h
      · exact ⟨effect_quiet, returned_of_unclaimed ho _⟩
      · exact ⟨effect_quiet, ho⟩
  · rename_i r position spurious
    split at h <;> cases h
    · rename_i hexchange
      obtain ⟨-, rfl⟩ : spurious = false ∧ m.enqueue = position := by simpa using hexchange
      have hfree := hg.free_of_observed ho.2
      exact ⟨.claim ht ho.2, holds_claim ho.1 (hg.unhanded hfree), Function.update_self ..⟩
    · exact ⟨effect_quiet, ho.1⟩
  · split at h <;> cases h
    · exact ⟨effect_quiet, returned_of_unclaimed ho _⟩
    · exact ⟨effect_quiet, ho⟩
  · cases h

theorem publish_step {pc pc' : SubmitPC} {choice : SubmitChoice}
    (ho : SubmitOwn cfg t g m pc) (h : publishStep cfg pc m choice = some (pc', m', label)) :
    Effect cfg dc t g m label m' ∧ SubmitOwn cfg t (g.record cfg.slotCount (t, label)) m' pc' := by
  unfold publishStep at h
  simp only [slotIndex_eq] at h
  split at h
  · split at h <;> cases h
    exact ⟨.write _ _ (.inl ⟨ho.1.claimant, ho.2⟩), ho⟩
  · split at h <;> cases h
    · exact ⟨effect_quiet, ho⟩
    · exact ⟨effect_quiet, ho⟩
  · cases h
    exact ⟨effect_quiet, ho⟩
  · cases h
    exact ⟨effect_quiet, ho⟩
  · split at h <;> cases h
    · exact ⟨effect_quiet, ho⟩
    · exact ⟨effect_quiet, ho⟩
  · split at h <;> cases h
    · exact ⟨.write _ _ (.inl ⟨ho.1.claimant, ho.2⟩), ho⟩
    · exact ⟨effect_quiet, ho⟩
  · cases h
    rename_i v failure
    have hstage : (g.record cfg.slotCount (t, .publish (v.position % cfg.slotCount) (v.position + 1)
        (m.data (v.position % cfg.slotCount)))).stage v.position = .published :=
      Function.update_self ..
    refine ⟨.publish _ ho.1.claimant ho.2, ⟨ho.1.claimant, ho.1.only, ho.1.kept⟩, ?_, ?_⟩
    · rw [hstage]
      decide
    · rw [hstage]
      exact Stage.noConfusion
  · split at h <;> cases h
    · exact ⟨effect_ready 1, ho⟩
    · exact ⟨effect_ready 1, ho⟩
  · cases h

/-- After its release store a call has released all it claimed, and its response is the answer. -/
lemma returned_of_release {p : Nat} {result : Except GatewayError InferenceResponse}
    (hh : Holds g t p) (hm : ∀ response, result = .ok response → Matches g p response) :
    SubmitOwn cfg t (g.record cfg.slotCount (t, .release (p % cfg.slotCount) (p + cfg.slotCount))) m
      (.returned result) := by
  have hstage : (g.record cfg.slotCount (t, .release (p % cfg.slotCount) (p + cfg.slotCount))).stage p =
      .released := by
    simp only [Ghost.record, Nat.add_sub_cancel]
    exact Function.update_self ..
  refine ⟨fun q hq => .inr ?_, fun response he => ⟨p, hh.claimant, hh.only, ?_, hm response he⟩⟩
  · rw [hh.only q hq]
    exact hstage
  · rw [hstage]
    decide

lemma returned_of_handoff {p : Nat} {err : GatewayError} (hh : Holds g t p) :
    SubmitOwn cfg t (g.record cfg.slotCount (t, .handoff p)) m (.returned (.error err)) := by
  refine ⟨fun q hq => .inl ?_, fun _ he => by cases he⟩
  rw [hh.only q hq]
  exact Function.update_self ..

theorem finish_step {pc pc' : SubmitPC} {choice : SubmitChoice} (hg : RingGuard cfg dc g m)
    (ho : SubmitOwn cfg t g m pc) (h : finishStep cfg pc m choice = some (pc', m', label)) :
    Effect cfg dc t g m label m' ∧ SubmitOwn cfg t (g.record cfg.slotCount (t, label)) m' pc' := by
  unfold finishStep at h
  simp only [slotIndex_eq] at h
  split at h
  · split at h <;> cases h
    · rename_i hword
      exact ⟨effect_quiet, ho.1, completed_of_word hg ho.2.1 ho.2.2 hword⟩
    · exact ⟨effect_quiet, ho⟩
  · split at h <;> cases h
    · exact ⟨effect_quiet, ho⟩
    · exact ⟨effect_quiet, ho⟩
  · split at h <;> cases h
    · rename_i hword
      exact ⟨effect_quiet, ho.1, completed_of_word hg ho.2.1 ho.2.2 hword, fun _ he => by cases he⟩
    · exact ⟨effect_quiet, ho⟩
  · split at h
    · rename_i hmem
      exact absurd hmem (ho.1.not_pending hg)
    · split at h <;> cases h
      · exact ⟨.handoff _ ho.1.claimant ho.1.kept ho.2.1 ho.2.2, returned_of_handoff ho.1⟩
      · exact ⟨effect_quiet, ho⟩
  · split at h <;> cases h
    · exact ⟨effect_quiet, ho.1, ho.2, fun _ he => by cases he⟩
    · exact ⟨effect_quiet, ho⟩
  · split at h <;> cases h
    · exact ⟨effect_quiet, ho.1, ho.2, fun _ he => by cases he⟩
    · rename_i hstatus
      exact ⟨effect_quiet, ho.1, ho.2, _, hg.answered _ ho.2, tryFrom_eq_ok hstatus⟩
  · obtain ⟨hh, hc, r, ha, hstatus⟩ := ho
    obtain rfl := Option.some.inj (ha.symm.trans (hg.answered _ hc))
    split at h <;> cases h
    · exact ⟨effect_quiet, hh, hc, _, ha, hstatus, rfl⟩
    · exact ⟨effect_quiet, hh, hc, fun _ he => by cases he⟩
  · obtain ⟨hh, hc, r, ha, hstatus, hscore⟩ := ho
    obtain rfl := Option.some.inj (ha.symm.trans (hg.answered _ hc))
    cases h
    exact ⟨effect_quiet, hh, hc, _, ha, hstatus, hscore, rfl⟩
  · obtain ⟨hh, hc, r, ha, hstatus, hscore, hdecision⟩ := ho
    obtain rfl := Option.some.inj (ha.symm.trans (hg.answered _ hc))
    cases h
    refine ⟨effect_quiet, hh, hc, fun response he => ?_⟩
    cases he
    exact ⟨_, ha, hstatus, hdecision, hscore, rfl⟩
  · obtain ⟨hh, hc, hm⟩ := ho
    simp only [releaseSlot, slotIndex_eq] at h
    cases h
    exact ⟨.release _ (holder_of_unhanded hh.claimant hh.kept) hc, returned_of_release hh hm⟩
  · cases h

/-- A step of `submit` has one of the permitted effects and keeps the assertion. -/
theorem submit_step {pc pc' : SubmitPC} {choice : SubmitChoice} (ht : t.produces = true)
    (hg : RingGuard cfg dc g m)
    (ho : SubmitOwn cfg t g m pc) (h : submitStep cfg pc m choice = some (pc', m', label)) :
    Effect cfg dc t g m label m' ∧ SubmitOwn cfg t (g.record cfg.slotCount (t, label)) m' pc' := by
  unfold submitStep at h
  rcases Option.or_eq_some_iff.mp h with hreserve | ⟨-, hrest⟩
  · exact reserve_step ht hg ho hreserve
  · rcases Option.or_eq_some_iff.mp hrest with hpublish | ⟨-, hfinish⟩
    · exact publish_step ho hpublish
    · exact finish_step hg ho hfinish

end step

section reclaimer

lemma swapRemove_perm {xs : List Nat} {index x : Nat} (h : xs[index]? = some x) :
    xs.Perm (x :: swapRemove xs index) := by
  obtain ⟨hlt, rfl⟩ := List.getElem?_eq_some_iff.mp h
  rcases List.eq_nil_or_concat xs with rfl | ⟨ys, last, rfl⟩
  · exact absurd hlt (Nat.not_lt_zero _)
  · simp only [List.concat_eq_append, swapRemove, List.getLast?_concat] at hlt ⊢
    by_cases hy : index < ys.length
    · rw [List.set_append_left _ _ hy, List.dropLast_concat, List.getElem_append_left hy]
      have hset := List.set_perm_cons_eraseIdx hy last
      have hget := List.getElem_cons_eraseIdx_perm hy
      calc ys ++ [last]
        _ ~ last :: ys := List.perm_append_singleton last ys
        _ ~ last :: ys[index] :: ys.eraseIdx index := hget.symm.cons last
        _ ~ ys[index] :: last :: ys.eraseIdx index := List.Perm.swap ..
        _ ~ ys[index] :: ys.set index last := hset.symm.cons _
    · have hlast : index = ys.length := by
        rw [List.length_append, List.length_singleton] at hlt
        omega
      subst hlast
      rw [List.set_append_right _ _ le_rfl, Nat.sub_self, List.set_cons_zero, List.dropLast_concat,
        List.getElem_concat_length rfl]
      exact List.perm_append_singleton last ys

/-- The two lists hold the positions that wait for the reclaimer, each once. -/
structure Accounted (g : Ghost) (m : Shared) (outstanding : List Nat) : Prop where
  nodup : (m.pending ++ outstanding).Nodup
  mem : ∀ p, p ∈ m.pending ++ outstanding ↔ g.handed p = true ∧ g.stage p ≠ .released

/-- What the reclaimer knows. A position leaves its account with the release store. -/
def ReclaimerOwn (g : Ghost) (m : Shared) : ReclaimerPC → Prop
  | .swap outstanding | .scan outstanding _ => Accounted g m outstanding
  | .store outstanding index position =>
    Accounted g m outstanding ∧ outstanding[index]? = some position ∧ g.stage position = .completed
  | .remove outstanding index => Accounted g m (swapRemove outstanding index) ∧
    ∃ position, outstanding[index]? = some position ∧ g.stage position = .released

lemma holder_of_handed {p : Nat} (hp : g.handed p = true) : g.holder p = some .reclaimer := by
  rw [Ghost.holder, if_pos hp]

lemma released_iff (hr : Rely cfg .reclaimer g m g' m') {p : Nat} (hp : g.handed p = true) :
    g'.stage p = .released ↔ g.stage p = .released :=
  ⟨hr.kept p (holder_of_handed hp), hr.released⟩

lemma accounted_stable (hr : Rely cfg .reclaimer g m g' m') {outstanding : List Nat}
    (h : Accounted g m outstanding) : Accounted g' m' outstanding := by
  rcases hr.pending rfl with ⟨hpending, hhanded⟩ | ⟨p, hpending, hp, hlive, hhanded⟩
  · refine ⟨by rw [hpending]; exact h.nodup, fun q => ?_⟩
    rw [hpending, h.mem, hhanded]
    exact and_congr_right fun hq => not_congr (released_iff hr hq).symm
  · have hnew : p ∉ m.pending ++ outstanding := by
      intro hmem
      rw [((h.mem p).mp hmem).1] at hp
      cases hp
    have hperm : (m.pending ++ [p] ++ outstanding).Perm (p :: (m.pending ++ outstanding)) := by
      rw [List.append_assoc]
      exact List.perm_middle
    refine ⟨?_, fun q => ?_⟩
    · rw [hpending, hperm.nodup_iff]
      exact List.nodup_cons.mpr ⟨hnew, h.nodup⟩
    · rw [hpending, hperm.mem_iff, List.mem_cons, hhanded]
      by_cases hq : q = p
      · rw [hq, Function.update_self]
        exact ⟨fun _ => ⟨rfl, hlive⟩, fun _ => .inl rfl⟩
      · rw [Function.update_of_ne hq, or_iff_right hq, h.mem]
        exact and_congr_right fun hx => not_congr (released_iff hr hx).symm

theorem reclaimerOwn_stable (hr : Rely cfg .reclaimer g m g' m') {pc : ReclaimerPC}
    (h : ReclaimerOwn g m pc) : ReclaimerOwn g' m' pc := by
  cases pc with
  | swap | scan => exact accounted_stable hr h
  | remove outstanding index =>
    obtain ⟨ha, position, hget, hx⟩ := h
    exact ⟨accounted_stable hr ha, position, hget, hr.released hx⟩
  | store outstanding index position =>
    obtain ⟨ha, hget, hc⟩ := h
    have hmem := (ha.mem position).mp (List.mem_append_right _ (List.mem_of_getElem? hget))
    exact ⟨accounted_stable hr ha, hget, hr.completed (holder_of_handed hmem.1) hc⟩

lemma accounted_release {outstanding : List Nat} {index p : Nat} (h : Accounted g m outstanding)
    (hget : outstanding[index]? = some p) {t : Party} {slot value : Nat} :
    Accounted (g.record cfg.slotCount (t, .release slot (p + cfg.slotCount))) (m.setSequence slot value)
      (swapRemove outstanding index) := by
  have hperm : (m.pending ++ outstanding).Perm (p :: (m.pending ++ swapRemove outstanding index)) :=
    ((swapRemove_perm hget).append_left _).trans List.perm_middle
  have hnodup := List.nodup_cons.mp (hperm.nodup_iff.mp h.nodup)
  refine ⟨hnodup.2, fun q => ?_⟩
  have hmem := h.mem q
  rw [hperm.mem_iff, List.mem_cons] at hmem
  simp only [Ghost.record, Nat.add_sub_cancel]
  by_cases hq : q = p
  · rw [hq, Function.update_self]
    exact ⟨fun hx => absurd hx hnodup.1, fun hx => absurd rfl hx.2⟩
  · rw [or_iff_right hq] at hmem
    rw [Function.update_of_ne hq]
    exact hmem

/-- A step of the reclaimer has one of the permitted effects and keeps the assertion. -/
theorem reclaimer_step {pc pc' : ReclaimerPC} (hg : RingGuard cfg dc g m) (ho : ReclaimerOwn g m pc)
    (h : reclaimerStep cfg pc m = (pc', m', label)) :
    Effect cfg dc .reclaimer g m label m' ∧
      ReclaimerOwn (g.record cfg.slotCount (.reclaimer, label)) m' pc' := by
  cases pc with
  | swap outstanding =>
    cases h
    have hperm : (outstanding ++ m.pending).Perm (m.pending ++ outstanding) := List.perm_append_comm
    refine ⟨.swap outstanding rfl (List.nodup_append.mp ho.nodup).2.1 fun p hp =>
      ((ho.mem p).mp (List.mem_append_right _ hp)).1, hperm.nodup_iff.mpr ho.nodup, fun p => ?_⟩
    exact hperm.mem_iff.trans (ho.mem p)
  | scan outstanding index =>
    simp only [reclaimerStep, slotIndex_eq] at h
    split at h
    · cases h
      exact ⟨effect_quiet, ho⟩
    · rename_i position hget
      split at h <;> cases h
      · rename_i hword
        have hmem := (ho.mem position).mp (List.mem_append_right _ (List.mem_of_getElem? hget))
        exact ⟨effect_quiet, ho, hget, completed_of_word hg (hg.handed _ hmem.1) hmem.2 hword⟩
      · exact ⟨effect_quiet, ho⟩
  | store outstanding index position =>
    obtain ⟨ha, hget, hc⟩ := ho
    simp only [reclaimerStep, releaseSlot, slotIndex_eq] at h
    cases h
    have hmem := (ha.mem position).mp (List.mem_append_right _ (List.mem_of_getElem? hget))
    refine ⟨.release position (holder_of_handed hmem.1) hc, accounted_release ha hget, position, hget, ?_⟩
    simp only [Ghost.record, Nat.add_sub_cancel]
    exact Function.update_self ..
  | remove outstanding index =>
    cases h
    exact ⟨effect_quiet, ho.1⟩

end reclaimer

end FraudDetection.Proofs
