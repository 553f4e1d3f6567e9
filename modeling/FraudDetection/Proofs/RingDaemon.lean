import FraudDetection.Proofs.RingPeers

/-!
# Ownership of the daemon

The daemon owns the slots it has staged until it completes them. While they are staged their data
and sequence words do not change, so what `process_batch` decodes and the positions it derives
from the sequence words belong to what was published.
-/

namespace FraudDetection.Proofs
open FraudDetection.Library
open FraudDetection.Ring

variable {cfg : Config} {dc : DaemonConfig} {t : Party} {g g' : Ghost} {m m' : Shared} {label : Label}

section gathered

variable {α : Type} {f f' : Nat → α} {slots : List Nat} {xs : List α}

/-- The values of `f` at the first slots, as a loop over them collects them. -/
def Gathered (f : Nat → α) (slots : List Nat) (xs : List α) : Prop :=
  xs = (slots.take xs.length).map f

lemma gathered_snoc (h : Gathered f slots xs) {i : Nat} (hi : slots[xs.length]? = some i) :
    Gathered f slots (xs ++ [f i]) := by
  unfold Gathered at h ⊢
  rw [List.length_append, List.length_singleton, List.take_add_one, hi, List.map_append, ← h]
  rfl

lemma gathered_all (h : Gathered f slots xs) (hi : slots[xs.length]? = none) : xs = slots.map f := by
  refine h.trans ?_
  rw [List.take_of_length_le (List.getElem?_eq_none_iff.mp hi)]

lemma gathered_congr (hf : ∀ i ∈ slots, f' i = f i) (h : Gathered f slots xs) : Gathered f' slots xs :=
  h.trans (List.map_congr_left fun i hi => (hf i (List.mem_of_mem_take hi)).symm)

end gathered

def decodedAt (cfg : Config) (dc : DaemonConfig) (m : Shared) (i : Nat) : Option TransactionView :=
  decodeTransaction cfg dc (m.data i)

def positionAt (m : Shared) (i : Nat) : Nat := m.sequence i - 1

/-- The calls of `complete` of a batch, for different slots. -/
structure CompletingAll (cfg : Config) (dc : DaemonConfig) (g : Ghost) (m : Shared)
    (todo : List Completing) : Prop where
  nodup : (todo.map Completing.slot).Nodup
  own : ∀ c ∈ todo, CompletingOwn cfg dc .daemon g m c

def DaemonOwn (cfg : Config) (dc : DaemonConfig) (g : Ghost) (m : Shared) : DaemonPC → Prop
  | .loop b | .poll b | .decide b | .stopping b | .flushing b | .finished b =>
    TakenSlots cfg .daemon g m b.staged
  | .consuming b pc => ConsumeOwn cfg .daemon g m b.staged pc
  | .stage b slot => TakenSlots cfg .daemon g m (slot :: b.staged)
  | .decoding h views => TakenSlots cfg .daemon g m h.batcher.staged ∧
    Gathered (decodedAt cfg dc m) h.batcher.staged views
  | .launching h views => TakenSlots cfg .daemon g m h.batcher.staged ∧
    views = h.batcher.staged.map (decodedAt cfg dc m)
  | .preparing h views _ _ positions => TakenSlots cfg .daemon g m h.batcher.staged ∧
    views = h.batcher.staged.map (decodedAt cfg dc m) ∧ Gathered (positionAt m) h.batcher.staged positions
  | .synchronizing h views _ _ positions => TakenSlots cfg .daemon g m h.batcher.staged ∧
    views = h.batcher.staged.map (decodedAt cfg dc m) ∧ positions = h.batcher.staged.map (positionAt m)
  | .completing _ todo => CompletingAll cfg dc g m todo

section stability

variable (hr : Rely cfg .daemon g m g' m')
include hr

lemma decodedAt_stable {i : Nat} (h : TakenSlot cfg .daemon g m i) :
    decodedAt cfg dc m' i = decodedAt cfg dc m i := by
  obtain ⟨p, rfl, ht, hs, -⟩ := h
  rw [decodedAt, decodedAt, (hr.taken p ht hs).2]

lemma positionAt_stable (hg : RingGuard cfg dc g m) (hg' : RingGuard cfg dc g' m') {i : Nat}
    (h : TakenSlot cfg .daemon g m i) : positionAt m' i = positionAt m i := by
  obtain ⟨p, hi, ht, hs, -⟩ := h
  rw [positionAt, positionAt, takenSlot_sequence hg hi hs, takenSlot_sequence hg' hi (hr.taken p ht hs).1]

theorem daemonOwn_stable (hg : RingGuard cfg dc g m) (hg' : RingGuard cfg dc g' m') {pc : DaemonPC}
    (h : DaemonOwn cfg dc g m pc) : DaemonOwn cfg dc g' m' pc := by
  cases pc with
  | loop | poll | decide | stopping | flushing | finished | stage => exact takenSlots_stable hr h
  | consuming => exact consumeOwn_stable hr h
  | decoding handling views =>
    exact ⟨takenSlots_stable hr h.1, gathered_congr (fun i hi => decodedAt_stable hr (h.1.taken i hi)) h.2⟩
  | launching handling views =>
    refine ⟨takenSlots_stable hr h.1, h.2.trans (List.map_congr_left fun i hi => ?_)⟩
    exact (decodedAt_stable hr (h.1.taken i hi)).symm
  | preparing handling views status launched positions =>
    obtain ⟨hs, hviews, hpos⟩ := h
    refine ⟨takenSlots_stable hr hs, hviews.trans (List.map_congr_left fun i hi => ?_),
      gathered_congr (fun i hi => positionAt_stable hr hg hg' (hs.taken i hi)) hpos⟩
    exact (decodedAt_stable hr (hs.taken i hi)).symm
  | synchronizing handling views status launched positions =>
    obtain ⟨hs, hviews, hpos⟩ := h
    refine ⟨takenSlots_stable hr hs, hviews.trans (List.map_congr_left fun i hi => ?_),
      hpos.trans (List.map_congr_left fun i hi => ?_)⟩
    · exact (decodedAt_stable hr (hs.taken i hi)).symm
    · exact (positionAt_stable hr hg hg' (hs.taken i hi)).symm
  | completing handling todo => exact ⟨h.nodup, fun c hc => completingOwn_stable hr (h.own c hc)⟩

end stability

section step

theorem poll_step {pc pc' : DaemonPC} {choice : DaemonChoice} (hg : RingGuard cfg dc g m)
    (ho : DaemonOwn cfg dc g m pc) (h : pollStep cfg dc pc m choice = some (pc', m', label)) :
    Effect cfg dc .daemon g m label m' ∧ DaemonOwn cfg dc (g.record cfg.slotCount (.daemon, label)) m' pc' := by
  unfold pollStep at h
  split at h
  · cases h
    exact ⟨effect_quiet, ho⟩
  · split at h
    · cases h
      exact ⟨effect_quiet, ho⟩
    · split at h <;> cases h <;> exact ⟨effect_quiet, ho⟩
  · split at h <;> cases h <;> exact ⟨effect_quiet, ho⟩
  · rename_i b pc
    generalize hstep : consumeStep cfg m pc = out at h
    obtain ⟨next, m₁, label₁⟩ := out
    obtain ⟨heffect, hnext⟩ := consume_step rfl hg ho hstep
    rcases next with pc₁ | _ | slot <;> cases h
    · exact ⟨heffect, hnext⟩
    · refine ⟨heffect, ?_⟩
      split <;> exact hnext
    · exact ⟨heffect, hnext⟩
  · cases h
    exact ⟨effect_quiet, TakenSlots.perm ho (List.perm_append_singleton _ _)⟩
  · dsimp only at h
    split at h <;> cases h
    · exact ⟨effect_quiet, ho⟩
    · exact ⟨effect_quiet, ho, rfl⟩
  · cases h
    exact ⟨.quiet _ rfl rfl rfl rfl, ho.nodup, ho.taken⟩
  · split at h <;> cases h
    · exact ⟨effect_quiet, ho⟩
    · exact ⟨effect_quiet, ho, rfl⟩
  · cases h

/-- The calls of `complete` that `process_batch` makes for a decoded batch. -/
lemma completingAll_completions (hg : RingGuard cfg dc g m) {handling : Handling}
    (ht : TakenSlots cfg .daemon g m handling.batcher.staged) (status : UInt32) (syncFailed : Bool) :
    CompletingAll cfg dc g m (completions handling (handling.batcher.staged.map (decodedAt cfg dc m)) status
      syncFailed (handling.batcher.staged.map (positionAt m))) := by
  have he : completions handling (handling.batcher.staged.map (decodedAt cfg dc m)) status syncFailed
      (handling.batcher.staged.map (positionAt m)) =
      handling.batcher.staged.map fun i => Completing.start i (m.sequence i - 1)
        (respond (decodedAt cfg dc m i) status syncFailed handling.now) := by
    unfold completions
    rw [← List.map_id handling.batcher.staged, List.map_map, List.map_map, List.zip_map', List.zip_map',
      List.map_map, List.map_map]
    rfl
  rw [he]
  refine ⟨?_, fun c hc => ?_⟩
  · rw [List.map_map]
    exact (List.map_id _).symm ▸ ht.nodup
  · obtain ⟨i, hi, rfl⟩ := List.mem_map.mp hc
    exact completingOwn_start hg (ht.taken i hi) _ fun _ => ⟨status, syncFailed, handling.now, rfl⟩

lemma completingAll_step {c : Completing} {rest : List Completing} {next : Option Completing}
    (hg : RingGuard cfg dc g m) (ho : CompletingAll cfg dc g m (c :: rest))
    (h : completeStep m c = (next, m', label)) :
    Effect cfg dc .daemon g m label m' ∧
      CompletingAll cfg dc (g.record cfg.slotCount (.daemon, label)) m' (next.toList ++ rest) := by
  obtain ⟨heffect, hnext, hothers⟩ := complete_step (ho.own c List.mem_cons_self) h
  have hnodup := List.nodup_cons.mp ho.nodup
  have hrest : ∀ d ∈ rest, CompletingOwn cfg dc .daemon (g.record cfg.slotCount (.daemon, label)) m' d := by
    intro d hd
    have hown := ho.own d (List.mem_cons_of_mem _ hd)
    refine completingOwn_progress (effect_progress hg heffect) ?_ hown
    have hslot : d.slot ≠ c.slot := fun he => hnodup.1 (he ▸ List.mem_map_of_mem hd)
    rw [hown.slot] at hslot ⊢
    exact hothers d.position hslot hown.stage
  refine ⟨heffect, ?_⟩
  cases next with
  | none => exact ⟨hnodup.2, hrest⟩
  | some c' =>
    obtain ⟨hslot, hown⟩ := hnext c' rfl
    refine ⟨?_, fun d hd => ?_⟩
    · simp only [Option.toList_some, List.singleton_append, List.map_cons, hslot]
      exact ho.nodup
    · rcases List.mem_cons.mp hd with rfl | hd
      · exact hown
      · exact hrest d hd

theorem handle_step {pc pc' : DaemonPC} {choice : DaemonChoice} (hg : RingGuard cfg dc g m)
    (ho : DaemonOwn cfg dc g m pc) (h : handleStep cfg dc pc m choice = some (pc', m', label)) :
    Effect cfg dc .daemon g m label m' ∧ DaemonOwn cfg dc (g.record cfg.slotCount (.daemon, label)) m' pc' := by
  unfold handleStep at h
  split at h
  · split at h <;> cases h
    · exact ⟨effect_quiet, ho.1, gathered_snoc ho.2 ‹_›⟩
    · exact ⟨effect_quiet, ho.1, gathered_all ho.2 ‹_›⟩
  · split at h <;> cases h <;> exact ⟨effect_quiet, ho.1, ho.2, rfl⟩
  · split at h <;> cases h
    · exact ⟨effect_quiet, ho.1, ho.2.1, gathered_snoc ho.2.2 ‹_›⟩
    · exact ⟨effect_quiet, ho.1, ho.2.1, gathered_all ho.2.2 ‹_›⟩
  · obtain ⟨hs, rfl, rfl⟩ := ho
    cases h
    exact ⟨effect_quiet, completingAll_completions hg hs _ _⟩
  · split at h
    · rename_i c rest
      generalize hstep : completeStep m c = out at h
      obtain ⟨next, m₁, label₁⟩ := out
      obtain ⟨heffect, hall⟩ := completingAll_step hg ho hstep
      cases next <;> cases h <;> exact ⟨heffect, hall⟩
    · cases h
      refine ⟨effect_quiet, ?_⟩
      split <;> exact ⟨List.nodup_nil, fun i hi => absurd hi List.not_mem_nil⟩
  · cases h

/-- A step of the daemon has one of the permitted effects and keeps the assertion. -/
theorem daemon_step {pc pc' : DaemonPC} {choice : DaemonChoice} (hg : RingGuard cfg dc g m)
    (ho : DaemonOwn cfg dc g m pc) (h : daemonStep cfg dc pc m choice = some (pc', m', label)) :
    Effect cfg dc .daemon g m label m' ∧ DaemonOwn cfg dc (g.record cfg.slotCount (.daemon, label)) m' pc' := by
  unfold daemonStep at h
  rcases Option.or_eq_some_iff.mp h with hpoll | ⟨-, hhandle⟩
  · exact poll_step hg ho hpoll
  · exact handle_step hg ho hhandle

end step

end FraudDetection.Proofs
