import Mathlib.Data.List.Induction
import FraudDetection.Proofs.RingSafety

/-!
# The lists of the reclaimer

A position that `submit` hands over goes to the intake list `pending`, and alternates between it
and the reclaimer's private list until it is released. The ring bounds both lists: positions in
use lie in different slots. A position is loaded by the first pass of the loop that finds it in
the intake list, which is one of any two passes in a row.
-/

namespace FraudDetection.Proofs
open FraudDetection.Library
open FraudDetection.Ring

variable {cfg : Config} {dc : DaemonConfig} {g : Ghost} {m m' : Shared} {label : Label}
  {s s' : System} {trace : Trace}

/-- The release store of the position has not happened. -/
def unreleased (cfg : Config) (trace : Trace) (p : Nat) : Bool :=
  storeCount (p % cfg.slotCount) (p + cfg.slotCount) trace = 0

def HandedOff (trace : Trace) (p : Nat) : Prop := ∃ t, (t, .handoff p) ∈ trace

lemma handed_snoc (g : Ghost) (N p : Nat) (event : Party × Label) :
    (g.record N event).handed p = true ↔ g.handed p = true ∨ event.2 = .handoff p := by
  obtain ⟨t, label⟩ := event
  cases label with
  | handoff q =>
    by_cases hq : p = q
    · rw [hq]
      exact ⟨fun _ => .inr rfl, fun _ => Function.update_self ..⟩
    · have hsame : (g.record N (t, .handoff q)).handed p = g.handed p := Function.update_of_ne hq ..
      rw [hsame]
      exact ⟨.inl, fun h => h.resolve_right fun he => hq (Label.handoff.inj he).symm⟩
  | _ => exact ⟨.inl, fun h => h.resolve_right (by rintro ⟨⟩)⟩

lemma handed_iff (cfg : Config) (trace : Trace) (p : Nat) :
    (ghostOf cfg trace).handed p = true ↔ HandedOff trace p := by
  induction trace using List.reverseRecOn with
  | nil => exact ⟨fun h => absurd h Bool.false_ne_true, fun ⟨_, h⟩ => absurd h List.not_mem_nil⟩
  | append_singleton trace event ih =>
    have hsnoc : ghostOf cfg (trace ++ [event]) = (ghostOf cfg trace).record cfg.slotCount event := replay_snoc ..
    rw [hsnoc, handed_snoc, ih]
    constructor
    · rintro (⟨t, ht⟩ | he)
      · exact ⟨t, List.mem_append_left _ ht⟩
      · exact ⟨event.1, List.mem_append_right _ (List.mem_singleton.mpr (by rw [← he]))⟩
    · rintro ⟨t, ht⟩
      rcases List.mem_append.mp ht with hold | hnew
      · exact .inl ⟨t, hold⟩
      · exact .inr (by rw [← List.mem_singleton.mp hnew])

section bounds

lemma accounted_use (hg : RingGuard cfg dc g m) {outstanding : List Nat} (h : Accounted g m outstanding) {p : Nat}
    (hp : p ∈ m.pending ++ outstanding) : g.stage p ≠ .free ∧ g.stage p ≠ .released := by
  obtain ⟨hhanded, hlive⟩ := (h.mem p).mp hp
  refine ⟨fun hfree => ?_, hlive⟩
  rw [hg.unhanded hfree] at hhanded
  cases hhanded

lemma slotCount_pos (cfg : Config) : 0 < cfg.slotCount := Nat.lt_of_lt_of_le (by decide) (four_le_slotCount cfg)

variable (hr : Reached cfg dc s trace)
include hr

lemma unreleased_iff (p : Nat) : unreleased cfg trace p = true ↔ (ghostOf cfg trace).stage p ≠ .released := by
  rw [unreleased, decide_eq_true_eq, released_iff_stored hr]

/-- The unreleased entries of the two lists are the account of the reclaimer. -/
lemma waiting_perm : ∃ live, Accounted (ghostOf cfg trace) s.shared live ∧
    ((s.shared.pending ++ s.outstanding).filter (unreleased cfg trace)).Perm (s.shared.pending ++ live) := by
  obtain ⟨done, live, hperm, ha, hdone⟩ := outstanding_perm hr
  have hnone : done.filter (unreleased cfg trace) = [] := by
    refine List.filter_eq_nil_iff.mpr fun p hp => ?_
    rw [unreleased_iff hr]
    exact not_not_intro (hdone p hp)
  have hall : (s.shared.pending ++ live).filter (unreleased cfg trace) = s.shared.pending ++ live :=
    List.filter_eq_self.mpr fun p hp => (unreleased_iff hr p).mpr ((ha.mem p).mp hp).2
  refine ⟨live, ha, ?_⟩
  rw [List.filter_append] at hall ⊢
  have hfilter := hperm.filter (unreleased cfg trace)
  rw [List.filter_append, hnone, List.nil_append] at hfilter
  rw [← hall]
  exact hfilter.append_left _

lemma pending_mem {p : Nat} (hp : p ∈ s.shared.pending) :
    (ghostOf cfg trace).stage p ≠ .free ∧ (ghostOf cfg trace).stage p ≠ .released := by
  obtain ⟨-, live, -, ha, -⟩ := outstanding_perm hr
  exact accounted_use hr.guard ha (List.mem_append_left _ hp)

lemma pending_le : s.shared.pending.length ≤ cfg.slotCount :=
  hr.guard.ring.length_le (slotCount_pos cfg) hr.guard.pending_nodup fun _ hp => pending_mem hr hp

lemma push_room {call : Nat} {v : Reservation} {err : GatewayError}
    (hpc : s.locals (.submit call) = SubmitPC.handoffPush v err) :
    v.position ∉ s.shared.pending ∧ s.shared.pending.length < cfg.slotCount := by
  have hown : SubmitOwn cfg (.submit call) (ghostOf cfg trace) s.shared (s.locals (.submit call)) :=
    hr.own (.submit call)
  rw [hpc] at hown
  obtain ⟨hholds, hrank, hlive⟩ := hown
  have hnew := hholds.not_pending hr.guard
  have hfree : (ghostOf cfg trace).stage v.position ≠ .free := by
    intro hfree
    rw [hfree] at hrank
    exact absurd hrank (by decide)
  -- the position itself is in use too
  have hle := hr.guard.ring.length_le (slotCount_pos cfg)
    (List.nodup_cons.mpr ⟨hnew, hr.guard.pending_nodup⟩)
    (List.forall_mem_cons.mpr ⟨⟨hfree, hlive⟩, fun _ hp => pending_mem hr hp⟩)
  exact ⟨hnew, hle⟩

lemma mem_waiting {p : Nat} (hlive : unreleased cfg trace p = true) :
    p ∈ s.shared.pending ++ s.outstanding ↔ HandedOff trace p := by
  obtain ⟨live, ha, hperm⟩ := waiting_perm hr
  rw [← handed_iff cfg, ← and_iff_left (a := (ghostOf cfg trace).handed p = true)
    ((unreleased_iff hr p).mp hlive), ← ha.mem, ← hperm.mem_iff, List.mem_filter, and_iff_left hlive]

end bounds

section moves

inductive ReclaimerMove (m : Shared) : ReclaimerPC → ReclaimerPC → List Nat → Prop where
  | swap (outstanding : List Nat) : ReclaimerMove m (.swap outstanding) (.scan m.pending 0) outstanding
  | finish {outstanding : List Nat} {index : Nat} (hend : outstanding.length ≤ index) :
      ReclaimerMove m (.scan outstanding index) (.swap outstanding) m.pending
  | found {outstanding : List Nat} {index position : Nat} (hget : outstanding[index]? = some position) :
      ReclaimerMove m (.scan outstanding index) (.store outstanding index position) m.pending
  | keep {outstanding : List Nat} {index position : Nat} (hget : outstanding[index]? = some position) :
      ReclaimerMove m (.scan outstanding index) (.scan outstanding (index + 1)) m.pending
  | release (outstanding : List Nat) (index position : Nat) :
      ReclaimerMove m (.store outstanding index position) (.remove outstanding index) m.pending
  | remove (outstanding : List Nat) (index : Nat) :
      ReclaimerMove m (.remove outstanding index) (.scan (swapRemove outstanding index) index) m.pending

lemma reclaimerStep_move {pc pc' : ReclaimerPC} (h : reclaimerStep cfg pc m = (pc', m', label)) :
    ReclaimerMove m pc pc' m'.pending := by
  cases pc with
  | swap outstanding =>
    cases h
    exact .swap outstanding
  | scan outstanding index =>
    unfold reclaimerStep at h
    cases hget : outstanding[index]? with
    | none =>
      simp only [hget] at h
      cases h
      exact .finish (List.getElem?_eq_none_iff.mp hget)
    | some position =>
      simp only [hget] at h
      by_cases hword : m.sequence (slotIndex cfg position) = position + 2
      · rw [if_pos hword] at h
        cases h
        exact .found hget
      · rw [if_neg hword] at h
        cases h
        exact .keep hget
  | store outstanding index position =>
    cases h
    exact .release outstanding index position
  | remove outstanding index =>
    cases h
    exact .remove outstanding index

/-- A step of the system is a step of the reclaimer, or leaves its private state and its intake
list but for one new entry. -/
lemma reclaimer_moves (hr : Reached cfg dc s trace) {a : Action} {event : Party × Label}
    (h : stepThread (program cfg dc) s a = some (s', event)) :
    a = ⟨.reclaimer, ()⟩ ∧
        ReclaimerMove s.shared (s.locals .reclaimer) (s'.locals .reclaimer) s'.shared.pending ∨
      a.1 ≠ .reclaimer ∧ s'.locals .reclaimer = s.locals .reclaimer ∧ s.shared.pending ⊆ s'.shared.pending := by
  obtain ⟨t, choice⟩ := a
  by_cases ht : t = .reclaimer
  · subst ht
    obtain ⟨next, shared, label, hp, rfl, rfl⟩ := stepThread_eq h
    refine .inl ⟨rfl, ?_⟩
    dsimp only
    rw [Function.update_self]
    exact reclaimerStep_move (Option.some.inj hp)
  · have heffect := (reached_step hr h).2.1
    obtain ⟨next, shared, label, hp, rfl, rfl⟩ := stepThread_eq h
    refine .inr ⟨ht, Function.update_of_ne (Ne.symm ht) .., ?_⟩
    rcases (effect_rely hr.guard heffect (Ne.symm ht)).pending rfl with ⟨hsame, -⟩ | ⟨p, hnew, -⟩
    · rw [hsame]
      exact List.Subset.refl _
    · rw [hnew]
      exact List.subset_append_left _ _

lemma swapRemove_length (xs : List Nat) (index : Nat) : (swapRemove xs index).length = xs.length - 1 := by
  unfold swapRemove
  cases hlast : xs.getLast? with
  | none =>
    rw [List.getLast?_eq_none_iff.mp hlast]
    rfl
  | some last => rw [List.length_dropLast, List.length_set]

lemma outstanding_le_step (hr : Reached cfg dc s trace) (hle : s.outstanding.length ≤ cfg.slotCount)
    {a : Action} {event : Party × Label} (h : stepThread (program cfg dc) s a = some (s', event)) :
    s'.outstanding.length ≤ cfg.slotCount := by
  have hpending := pending_le hr
  have hmoves := reclaimer_moves hr h
  unfold System.outstanding at hle ⊢
  rcases hmoves with ⟨-, hmove⟩ | ⟨-, hsame, -⟩
  · generalize s.locals .reclaimer = pc at hle hmove
    generalize s'.locals .reclaimer = pc' at hmove ⊢
    generalize s'.shared.pending = pending at hmove
    cases hmove with
    | swap => exact hpending
    | remove outstanding index =>
      dsimp only at hle ⊢
      rw [swapRemove_length]
      exact Nat.le_trans (Nat.sub_le _ _) hle
    | _ => exact hle
  · rw [hsame]
    exact hle

/-- The private list is what the last swap took from the intake list, less what was removed. -/
theorem run_outstanding_le {actions : List Action}
    (h : runThreads (program cfg dc) (System.initial cfg) actions = some (s, trace)) :
    s.outstanding.length ≤ cfg.slotCount := by
  have hinitial : runThreads (program cfg dc) (System.initial cfg) [] = some (System.initial cfg, []) := rfl
  have hinv := runThreads_induction
    (P := fun (s : System) trace => Reached cfg dc s trace ∧ s.outstanding.length ≤ cfg.slotCount)
    (fun s trace a s' event hs hstep => ⟨(reached_step hs.1 hstep).2.2, outstanding_le_step hs.1 hs.2 hstep⟩)
    [] ⟨run_reached hinitial, Nat.zero_le _⟩ actions h
  exact hinv.2

end moves

section ticks

def examining : ReclaimerPC → Option Nat
  | .scan outstanding index => outstanding[index]?
  | _ => none

/-- The positions that the pass at hand has yet to load. -/
def ahead : ReclaimerPC → List Nat
  | .swap _ => []
  | .scan outstanding index => outstanding.drop index
  | .store outstanding index _ | .remove outstanding index => outstanding.drop (index + 1)

/-- The last entry takes the place of the removed one, ahead of the scan. -/
lemma swapRemove_drop {xs : List Nat} {index x : Nat} (h : xs[index]? = some x) :
    ((swapRemove xs index).drop index).Perm (xs.drop (index + 1)) := by
  obtain ⟨hlt, rfl⟩ := List.getElem?_eq_some_iff.mp h
  rcases List.eq_nil_or_concat xs with rfl | ⟨ys, last, rfl⟩
  · exact absurd hlt (Nat.not_lt_zero _)
  · simp only [List.concat_eq_append, swapRemove, List.getLast?_concat] at hlt ⊢
    by_cases hy : index < ys.length
    · rw [List.set_append_left _ _ hy, List.dropLast_concat, List.drop_append_of_le_length (by omega)]
      have hset : (ys.set index last).drop index = last :: ys.drop (index + 1) := by
        rw [List.drop_eq_getElem_cons (by rwa [List.length_set]), List.getElem_set_self,
          List.drop_set_of_lt (Nat.lt_succ_self _)]
      rw [hset]
      exact (List.perm_append_singleton last _).symm
    · have hlast : index = ys.length := by
        rw [List.length_append, List.length_singleton] at hlt
        omega
      subst hlast
      rw [List.drop_eq_nil_of_le (by simp), List.drop_eq_nil_of_le (by simp)]

lemma ahead_move {pc pc' : ReclaimerPC} {pending : List Nat} (ho : ReclaimerOwn g m pc)
    (h : ReclaimerMove m pc pc' pending) {p : Nat} (hp : p ∈ ahead pc) :
    p ∈ ahead pc' ∨ examining pc = some p := by
  cases h with
  | swap => exact absurd hp List.not_mem_nil
  | finish hend =>
    rw [ahead, List.drop_eq_nil_of_le hend] at hp
    exact absurd hp List.not_mem_nil
  | found hget | keep hget =>
    obtain ⟨hlt, rfl⟩ := List.getElem?_eq_some_iff.mp hget
    rw [ahead, List.drop_eq_getElem_cons hlt] at hp
    rcases List.mem_cons.mp hp with rfl | hrest
    · exact .inr hget
    · exact .inl hrest
  | release => exact .inl hp
  | remove outstanding index =>
    obtain ⟨-, position, hget, -⟩ := ho
    exact .inl ((swapRemove_drop hget).mem_iff.mpr hp)

/-- The position waits to be loaded by the pass at hand or by the next one. -/
def Awaits (s : System) (p : Nat) : Prop := p ∈ s.shared.pending ∨ p ∈ ahead (s.locals .reclaimer)

section step

variable (hr : Reached cfg dc s trace) {a : Action} {event : Party × Label}
  (h : stepThread (program cfg dc) s a = some (s', event))
include hr h

lemma ahead_step {p : Nat} (hp : p ∈ ahead (s.locals .reclaimer)) : p ∈ ahead (s'.locals .reclaimer) ∨
    a = ⟨.reclaimer, ()⟩ ∧ examining (s.locals .reclaimer) = some p := by
  rcases reclaimer_moves hr h with ⟨ha, hmove⟩ | ⟨-, hsame, -⟩
  · exact (ahead_move (hr.own .reclaimer) hmove hp).imp_right fun he => ⟨ha, he⟩
  · rw [hsame]
    exact .inl hp

lemma pending_step {p : Nat} (hp : p ∈ s.shared.pending) : Awaits s' p := by
  rcases reclaimer_moves hr h with ⟨-, hmove⟩ | ⟨-, -, hsub⟩
  · unfold Awaits
    generalize s.locals .reclaimer = pc at hmove
    generalize s'.locals .reclaimer = pc' at hmove ⊢
    generalize s'.shared.pending = pending at hmove ⊢
    cases hmove with
    | swap => exact .inr hp
    | _ => exact .inl hp
  · exact .inl (hsub hp)

lemma handedOff_step {p : Nat} (hp : HandedOff (trace ++ [event]) p) :
    HandedOff trace p ∨ p ∈ s'.shared.pending := by
  obtain ⟨t, ht⟩ := hp
  rcases List.mem_append.mp ht with hold | hnew
  · exact .inl ⟨t, hold⟩
  · obtain ⟨-, heffect, -⟩ := reached_step hr h
    rw [← List.mem_singleton.mp hnew] at heffect
    right
    generalize s'.shared = m' at heffect
    cases heffect
    exact List.mem_append_right _ List.mem_cons_self

lemma awaits_step {p : Nat} (hp : HandedOff trace p → Awaits s p) :
    (HandedOff (trace ++ [event]) p → Awaits s' p) ∨
      a = ⟨.reclaimer, ()⟩ ∧ examining (s.locals .reclaimer) = some p := by
  by_cases hold : HandedOff trace p
  · rcases hp hold with hpending | hahead
    · exact .inl fun _ => pending_step hr h hpending
    · exact (ahead_step hr h hahead).imp_left fun hnext _ => .inr hnext
  · exact .inl fun hnew => .inl ((handedOff_step hr h hnew).resolve_left hold)

end step

/-- Some step of the run loads the sequence word of the position. -/
def Examined (cfg : Config) (dc : DaemonConfig) (s : System) (actions : List Action) (p : Nat) : Prop :=
  ∃ past later s₁ before, actions = past ++ ⟨.reclaimer, ()⟩ :: later ∧
    runThreads (program cfg dc) s past = some (s₁, before) ∧ examining (s₁.locals .reclaimer) = some p

/-- A run from a swap of the reclaimer to where it is about to swap again: one pass of its loop or
several, with the steps of the other threads in between. -/
structure Ticks (cfg : Config) (dc : DaemonConfig) (s : System) (actions : List Action) (s' : System)
    (trace : Trace) : Prop where
  run : runThreads (program cfg dc) s actions = some (s', trace)
  swaps : ∃ rest, actions = ⟨.reclaimer, ()⟩ :: rest
  starts : ∃ outstanding, s.locals .reclaimer = .swap outstanding
  ends : ∃ outstanding, s'.locals .reclaimer = .swap outstanding

section passes

variable {first second : List Action} {s₁ s₂ s₃ : System} {trace₁ trace₂ : Trace} {p : Nat}

lemma Examined.append_right (h : Examined cfg dc s first p) : Examined cfg dc s (first ++ second) p := by
  obtain ⟨past, later, s₁, before, rfl, hpast, hp⟩ := h
  exact ⟨past, later ++ second, s₁, before, List.append_assoc .., hpast, hp⟩

lemma Examined.append_left (hrun : runThreads (program cfg dc) s first = some (s₁, trace₁))
    (h : Examined cfg dc s₁ second p) : Examined cfg dc s (first ++ second) p := by
  obtain ⟨past, later, s₂, before, rfl, hpast, hp⟩ := h
  exact ⟨first ++ past, later, s₂, trace₁ ++ before, (List.append_assoc ..).symm,
    runThreads_trans hrun hpast, hp⟩

/-- What is unreleased when the reclaimer swaps is in one of the lists that trade places. -/
lemma awaits_swap (hr : Reached cfg dc s trace) {outstanding : List Nat} (hpc : s.locals .reclaimer = .swap outstanding)
    (hlive : unreleased cfg trace p = true) {event : Party × Label}
    (h : stepThread (program cfg dc) s ⟨.reclaimer, ()⟩ = some (s', event)) :
    HandedOff (trace ++ [event]) p → Awaits s' p := by
  intro hhanded
  rcases handedOff_step hr h hhanded with hold | hpending
  · have hmem := (mem_waiting hr hlive).mpr hold
    unfold System.outstanding at hmem
    rw [hpc] at hmem
    rcases List.mem_append.mp hmem with hpending | hprivate
    · exact pending_step hr h hpending
    · obtain ⟨next, shared, label, hstep, rfl, rfl⟩ := stepThread_eq h
      rw [hpc] at hstep
      cases hstep
      exact .inl hprivate
  · exact .inl hpending

/-- What the swap establishes and each step keeps, unless it loads the position. -/
lemma Ticks.until {P : System → Trace → Prop} (hr : Reached cfg dc s trace) (h : Ticks cfg dc s first s' trace₁)
    (hstart : ∀ s₁ event, stepThread (program cfg dc) s ⟨.reclaimer, ()⟩ = some (s₁, event) → P s₁ (trace ++ [event]))
    (hkeep : ∀ s trace a s' event, Reached cfg dc s trace → P s trace →
      stepThread (program cfg dc) s a = some (s', event) →
        P s' (trace ++ [event]) ∨ a = ⟨.reclaimer, ()⟩ ∧ examining (s.locals .reclaimer) = some p) :
    Reached cfg dc s' (trace ++ trace₁) ∧ P s' (trace ++ trace₁) ∨ Examined cfg dc s first p := by
  obtain ⟨hrun, ⟨rest, rfl⟩, -, -⟩ := h
  obtain ⟨s₁, event, after, hstep, hrest, rfl⟩ := runThreads_cons.mp hrun
  have huntil := runThreads_until (P := fun s trace => Reached cfg dc s trace ∧ P s trace)
    (fun s trace a s' event hs hstep =>
      (hkeep s trace a s' event hs.1 hs.2 hstep).imp_left fun hnext => ⟨(reached_step hs.1 hstep).2.2, hnext⟩)
    _ ⟨(reached_step hr hstep).2.2, hstart s₁ event hstep⟩ rest hrest
  rcases huntil with hend | ⟨past, a, later, s₂, before, rfl, hpast, rfl, hp⟩
  · rw [List.append_assoc] at hend
    exact .inl hend
  · exact .inr ⟨⟨.reclaimer, ()⟩ :: past, later, s₂, event :: before, rfl,
      runThreads_cons.mpr ⟨s₁, event, before, hstep, hpast, rfl⟩, hp⟩

lemma examined_of_pending (hr : Reached cfg dc s trace) (h : Ticks cfg dc s first s' trace₁)
    (hp : p ∈ s.shared.pending) : Examined cfg dc s first p := by
  obtain ⟨outstanding, hpc⟩ := h.starts
  obtain ⟨outstanding', hend⟩ := h.ends
  have hstart : ∀ s₁ event, stepThread (program cfg dc) s ⟨.reclaimer, ()⟩ = some (s₁, event) →
      p ∈ ahead (s₁.locals .reclaimer) := by
    intro s₁ event hstep
    obtain ⟨next, shared, label, hswap, rfl, rfl⟩ := stepThread_eq hstep
    rw [hpc] at hswap
    cases hswap
    dsimp only
    rw [Function.update_self]
    exact hp
  have huntil := h.until (P := fun s _ => p ∈ ahead (s.locals .reclaimer)) hr hstart
    fun s trace a s' event hs hahead hstep => ahead_step hs hstep hahead
  refine huntil.resolve_left fun hlast => ?_
  rw [hend] at hlast
  exact List.not_mem_nil hlast.2

theorem examined_of_ticks (hr : Reached cfg dc s trace) (h₁ : Ticks cfg dc s first s₂ trace₁)
    (h₂ : Ticks cfg dc s₂ second s₃ trace₂) (hlive : unreleased cfg trace p = true)
    (hhanded : HandedOff (trace ++ trace₁) p) : Examined cfg dc s (first ++ second) p := by
  obtain ⟨outstanding, hpc⟩ := h₁.starts
  obtain ⟨outstanding', hend⟩ := h₁.ends
  have huntil := h₁.until (P := fun s trace => HandedOff trace p → Awaits s p) hr
    (fun s₁ event hstep => awaits_swap hr hpc hlive hstep)
    fun s trace a s' event hs hawaits hstep => awaits_step hs hstep hawaits
  rcases huntil with ⟨hr₂, hawaits⟩ | hexamined
  · refine .append_left h₁.run (examined_of_pending hr₂ h₂ ?_)
    refine (hawaits hhanded).resolve_right fun hahead => ?_
    rw [hend] at hahead
    exact List.not_mem_nil hahead
  · exact hexamined.append_right

/-- A bound on the steps of the reclaimer up to its next swap. -/
def passSteps : ReclaimerPC → Nat
  | .swap _ => 0
  | .scan outstanding index => 3 * (outstanding.length - index) + 1
  | .store outstanding index _ => 3 * (outstanding.length - index)
  | .remove outstanding index => 3 * (outstanding.length - index) - 1

lemma passSteps_move {pc pc' : ReclaimerPC} {pending : List Nat} (ho : ReclaimerOwn g m pc)
    (h : ReclaimerMove m pc pc' pending) :
    (∃ outstanding, pc = .swap outstanding) ∨ passSteps pc' < passSteps pc := by
  cases h with
  | swap => exact .inl ⟨_, rfl⟩
  | finish => exact .inr (Nat.succ_pos _)
  | found => exact .inr (Nat.lt_succ_self _)
  | keep hget =>
    obtain ⟨hlt, -⟩ := List.getElem?_eq_some_iff.mp hget
    right
    simp only [passSteps]
    omega
  | release outstanding index position =>
    obtain ⟨hlt, -⟩ := List.getElem?_eq_some_iff.mp ho.2.1
    right
    simp only [passSteps]
    omega
  | remove outstanding index =>
    obtain ⟨-, position, hget, -⟩ := ho
    obtain ⟨hlt, -⟩ := List.getElem?_eq_some_iff.mp hget
    right
    simp only [passSteps, swapRemove_length]
    omega

lemma passSteps_le (hle : s.outstanding.length ≤ cfg.slotCount) :
    passSteps (s.locals .reclaimer) ≤ 3 * cfg.slotCount + 1 := by
  unfold System.outstanding at hle
  generalize s.locals .reclaimer = pc at hle
  cases pc <;> simp only [passSteps] at hle ⊢ <;> omega

def reclaimerSteps (trace : Trace) : Nat := trace.countP fun e => e.1 = .reclaimer

lemma passSteps_step (hr : Reached cfg dc s trace) {a : Action} {event : Party × Label}
    (h : stepThread (program cfg dc) s a = some (s', event)) :
    passSteps (s'.locals .reclaimer) + reclaimerSteps [event] ≤ passSteps (s.locals .reclaimer) ∨
      a = ⟨.reclaimer, ()⟩ ∧ ∃ outstanding, s.locals .reclaimer = .swap outstanding := by
  obtain ⟨hparty, -⟩ := reached_step hr h
  have hsteps : reclaimerSteps [event] = if a.1 = .reclaimer then 1 else 0 := by
    rw [reclaimerSteps, List.countP_singleton, hparty]
    simp only [decide_eq_true_eq]
  rcases reclaimer_moves hr h with ⟨rfl, hmove⟩ | ⟨ha, hsame, -⟩
  · rw [hsteps, if_pos rfl]
    rcases passSteps_move (hr.own .reclaimer) hmove with hswap | hlt
    · exact .inr ⟨rfl, hswap⟩
    · exact .inl hlt
  · rw [hsteps, if_neg ha, hsame]
    exact .inl le_rfl

/-- A pass takes at most three steps for each entry of its list, a swap and one step to end. -/
theorem pass_ends (hr : Reached cfg dc s trace) (hle : s.outstanding.length ≤ cfg.slotCount)
    (h : runThreads (program cfg dc) s first = some (s', trace₁))
    (hsteps : 3 * cfg.slotCount + 2 ≤ reclaimerSteps trace₁) :
    ∃ past later s₁ before outstanding, first = past ++ ⟨.reclaimer, ()⟩ :: later ∧
      runThreads (program cfg dc) s past = some (s₁, before) ∧ s₁.locals .reclaimer = .swap outstanding := by
  have hkeep : ∀ (s : System) (trace' : Trace) (a : Action) (s' : System) (event : Party × Label),
      (Reached cfg dc s trace' ∧ passSteps (s.locals .reclaimer) + reclaimerSteps trace' ≤
        3 * cfg.slotCount + 1 + reclaimerSteps trace) →
      stepThread (program cfg dc) s a = some (s', event) →
      (Reached cfg dc s' (trace' ++ [event]) ∧ passSteps (s'.locals .reclaimer) +
        reclaimerSteps (trace' ++ [event]) ≤ 3 * cfg.slotCount + 1 + reclaimerSteps trace) ∨
      a = ⟨.reclaimer, ()⟩ ∧ ∃ outstanding, s.locals .reclaimer = .swap outstanding := by
    intro s trace' a s' event hs hstep
    have happend : reclaimerSteps (trace' ++ [event]) = reclaimerSteps trace' + reclaimerSteps [event] :=
      List.countP_append
    refine (passSteps_step hs.1 hstep).imp_left fun hbound => ⟨(reached_step hs.1 hstep).2.2, ?_⟩
    have hold := hs.2
    omega
  rcases runThreads_until hkeep trace ⟨hr, Nat.add_le_add_right (passSteps_le hle) _⟩ first h with
    ⟨-, hbound⟩ | ⟨past, a, later, s₁, before, rfl, hpast, rfl, outstanding, hswap⟩
  · have happend : reclaimerSteps (trace ++ trace₁) = reclaimerSteps trace + reclaimerSteps trace₁ :=
      List.countP_append
    omega
  · exact ⟨past, later, s₁, before, outstanding, rfl, hpast, hswap⟩

end passes

end ticks

section lists

lemma waiting_step (hr : Reached cfg dc s trace) {a : Action} {event : Party × Label}
    (h : stepThread (program cfg dc) s a = some (s', event)) {p : Nat}
    (hp : p ∈ s.shared.pending ++ s.outstanding) (hlive : unreleased cfg (trace ++ [event]) p = true) :
    p ∈ s'.shared.pending ++ s'.outstanding := by
  have hbefore : unreleased cfg trace p = true := by
    unfold unreleased at hlive ⊢
    rw [decide_eq_true_eq, storeCount_snoc] at hlive
    exact decide_eq_true (Nat.eq_zero_of_add_eq_zero_right hlive)
  obtain ⟨t, ht⟩ := (mem_waiting hr hbefore).mp hp
  exact (mem_waiting (reached_step hr h).2.2 hlive).mpr ⟨t, List.mem_append_left _ ht⟩

lemma push_inserts (hr : Reached cfg dc s trace) {call : Nat} {v : Reservation} {err : GatewayError}
    (hpc : s.locals (.submit call) = SubmitPC.handoffPush v err) :
    ∃ s', stepThread (program cfg dc) s ⟨.submit call, .next⟩ = some (s', .submit call, .handoff v.position) ∧
      s'.shared.pending = s.shared.pending ++ [v.position] := by
  obtain ⟨hnew, hroom⟩ := push_room hr hpc
  have hstep : submitStep cfg (.handoffPush v err) s.shared .next = some (.returned (.error err),
      { s.shared with pending := s.shared.pending ++ [v.position] }, .handoff v.position) := by
    simp only [submitStep, reserveStep, publishStep, finishStep, if_neg hnew, if_pos hroom, Option.none_or]
  refine ⟨⟨{ s.shared with pending := s.shared.pending ++ [v.position] },
    Function.update s.locals (.submit call) (.returned (.error err))⟩, ?_, rfl⟩
  rw [← hpc] at hstep
  exact Option.map_eq_some_iff.mpr ⟨_, hstep, rfl⟩

/-- The lists of the reclaimer, in every state that any interleaving reaches. The unreleased
entries of the two lists lie in different slots; `pending` has no others, and each list has at
most `slot_count` entries. A call that is to push its position finds it new and the list not
full, and inserts it in its next step. A position that was handed over and is not released is in
the two lists exactly once, and no step drops it. From a swap on, a position that is unreleased
then and is handed over by the time of the next one is loaded in the two passes, and a pass takes
a bounded number of steps of the reclaimer. -/
theorem reclaim_lists_bounded (cfg : Config) (dc : DaemonConfig) (actions : List Action) (s : System)
    (trace : Trace) (hrun : runThreads (program cfg dc) (System.initial cfg) actions = some (s, trace)) :
    (((s.shared.pending ++ s.outstanding).filter (unreleased cfg trace)).map (· % cfg.slotCount)).Nodup ∧
    (∀ p ∈ s.shared.pending, unreleased cfg trace p = true) ∧
    s.shared.pending.length ≤ cfg.slotCount ∧ s.outstanding.length ≤ cfg.slotCount ∧
    (∀ call v err, s.locals (.submit call) = SubmitPC.handoffPush v err →
      v.position ∉ s.shared.pending ∧ s.shared.pending.length < cfg.slotCount ∧
      ∃ s', stepThread (program cfg dc) s ⟨.submit call, .next⟩ = some (s', .submit call, .handoff v.position) ∧
        s'.shared.pending = s.shared.pending ++ [v.position]) ∧
    (∀ p, unreleased cfg trace p = true →
      (HandedOff trace p ↔ (s.shared.pending ++ s.outstanding).count p = 1)) ∧
    (∀ (a : Action) (s' : System) event, stepThread (program cfg dc) s a = some (s', event) →
      ∀ p ∈ s.shared.pending ++ s.outstanding, unreleased cfg (trace ++ [event]) p = true →
        p ∈ s'.shared.pending ++ s'.outstanding) ∧
    (∀ first second s₂ s₃ trace₁ trace₂ p, Ticks cfg dc s first s₂ trace₁ → Ticks cfg dc s₂ second s₃ trace₂ →
      unreleased cfg trace p = true → HandedOff (trace ++ trace₁) p → Examined cfg dc s (first ++ second) p) ∧
    (∀ later s' trace', runThreads (program cfg dc) s later = some (s', trace') →
      3 * cfg.slotCount + 2 ≤ reclaimerSteps trace' →
      ∃ past rest s₁ before outstanding, later = past ++ ⟨.reclaimer, ()⟩ :: rest ∧
        runThreads (program cfg dc) s past = some (s₁, before) ∧ s₁.locals .reclaimer = .swap outstanding) := by
  have hr : Reached cfg dc s trace := run_reached hrun
  have houtstanding := run_outstanding_le hrun
  refine ⟨?_, fun p hp => (unreleased_iff hr p).mpr (pending_mem hr hp).2, pending_le hr, houtstanding, ?_, ?_, ?_, ?_,
    ?_⟩
  · obtain ⟨live, ha, hperm⟩ := waiting_perm hr
    rw [(hperm.map _).nodup_iff]
    exact hr.guard.ring.slots_nodup ha.nodup fun p hp => accounted_use hr.guard ha hp
  · intro call v err hpc
    obtain ⟨hnew, hroom⟩ := push_room hr hpc
    exact ⟨hnew, hroom, push_inserts hr hpc⟩
  · intro p hlive
    constructor
    · intro hhanded
      exact count_waiting hr ((handed_iff cfg trace p).mpr hhanded) ((unreleased_iff hr p).mp hlive)
    · intro hcount
      exact (mem_waiting hr hlive).mp (List.count_pos_iff.mp (by omega))
  · intro a s' event hstep p hp hlive
    exact waiting_step hr hstep hp hlive
  · intro first second s₂ s₃ trace₁ trace₂ p h₁ h₂ hlive hhanded
    exact examined_of_ticks hr h₁ h₂ hlive hhanded
  · intro later s' trace' hlater hsteps
    exact pass_ends hr houtstanding hlater hsteps

/-- The call times out before the daemon takes its position, and hands it over. -/
def handedOverRun : List Action :=
  submitActions 0 (publishChoices ++ [.next, .clock true, .next, .next])

/-- The first pass finds the position incomplete, the second one is over the other list. -/
def firstPass : List Action := List.replicate 3 ⟨.reclaimer, ()⟩

def secondPass : List Action := List.replicate 2 ⟨.reclaimer, ()⟩

def reclaimerAfter (actions : List Action) : Option (List Nat × ReclaimerPC) :=
  (runThreads (program fourSlots singleBatches) (System.initial fourSlots) actions).map
    fun x => (x.1.shared.pending, x.1.locals .reclaimer)

lemma reclaimerAfter_eq {actions : List Action} (pending : List Nat) (pc : ReclaimerPC)
    (hrun : runThreads (program fourSlots singleBatches) (System.initial fourSlots) actions = some (s, trace))
    (h : reclaimerAfter actions = some (pending, pc)) :
    s.shared.pending = pending ∧ s.locals .reclaimer = pc := by
  rw [reclaimerAfter, hrun] at h
  cases h
  exact ⟨rfl, rfl⟩

theorem reclaim_lists_incomplete_position : ∃ (s : System) (trace : Trace),
    runThreads (program fourSlots singleBatches) (System.initial fourSlots) handedOverRun = some (s, trace) ∧
      s.shared.pending = [0] ∧ unreleased fourSlots trace 0 = true ∧
      Examined fourSlots singleBatches s (firstPass ++ secondPass) 0 := by
  have hsome : (runThreads (program fourSlots singleBatches) (System.initial fourSlots)
      (handedOverRun ++ (firstPass ++ secondPass))).isSome := by rfl
  obtain ⟨⟨s₃, trace₃⟩, hrun⟩ := Option.isSome_iff_exists.mp hsome
  obtain ⟨s, trace, rest, hhanded, hpasses, -⟩ := runThreads_append hrun
  obtain ⟨s₂, trace₁, trace₂, hfirst, hsecond, -⟩ := runThreads_append hpasses
  obtain ⟨hpending, hpc⟩ := reclaimerAfter_eq [0] (.swap []) hhanded (by rfl)
  obtain ⟨-, hpc₂⟩ := reclaimerAfter_eq [] (.swap [0]) (runThreads_trans hhanded hfirst) (by rfl)
  obtain ⟨-, hpc₃⟩ := reclaimerAfter_eq [0] (.swap []) hrun (by rfl)
  obtain ⟨-, hall, -, -, -, hcount, -, hexamined, -⟩ :=
    reclaim_lists_bounded fourSlots singleBatches handedOverRun s trace hhanded
  have hlive : unreleased fourSlots trace 0 = true := hall 0 (by rw [hpending]; exact List.mem_cons_self)
  obtain ⟨t, ht⟩ : HandedOff trace 0 := by
    refine (hcount 0 hlive).mpr ?_
    unfold System.outstanding
    rw [hpending, hpc]
    rfl
  exact ⟨s, trace, hhanded, hpending, hlive, hexamined firstPass secondPass s₂ s₃ trace₁ trace₂ 0
    ⟨hfirst, ⟨_, rfl⟩, ⟨_, hpc⟩, _, hpc₂⟩ ⟨hsecond, ⟨_, rfl⟩, ⟨_, hpc₂⟩, _, hpc₃⟩ hlive
    ⟨t, List.mem_append_left _ ht⟩⟩

end lists

end FraudDetection.Proofs
