import Mathlib.Data.List.Perm.Basic
import Mathlib.Data.List.Nodup
import FraudDetection.Scheduler

/-!
# The ledger of admitted items

What the scheduler is for, without goroutines: items are admitted to a queue, received into a
batch, and from there either dropped, expired and answered, or claimed, passed to the handler
and answered. `Ledger.Move` lists the moves, `LedgerInvariant` what they keep.
-/

namespace FraudDetection.Proofs
open FraudDetection.Scheduler

/-- `waiting` items of the batch are undecided, `active` ones claimed for the handler, `owed`
ones still to be answered. -/
structure Ledger where
  queue : List CallId
  admitted : List CallId
  received : List CallId
  waiting : List CallId
  active : List CallId
  owed : List CallId
  handled : List CallId
  replied : List CallId
  word : CallId → ItemState

inductive Ledger.Move (maxBatch : Nat) (l : Ledger) : Ledger → Prop where
  | enter (c : CallId) (h : c ∉ l.admitted) (hw : l.word c ≠ .dispatched) :
      Move maxBatch l { l with queue := l.queue ++ [c], admitted := l.admitted ++ [c] }
  | giveUp (c : CallId) (hw : l.word c = .queued) :
      Move maxBatch l { l with word := Function.update l.word c .expired }
  | take (c : CallId) (rest : List CallId) (hq : l.queue = c :: rest)
      (hroom : (l.active ++ l.waiting).length < maxBatch) :
      Move maxBatch l { l with
        queue := rest, received := l.received ++ [c], waiting := l.waiting ++ [c] }
  | drop (c : CallId) (before after : List CallId) (h : l.waiting = before ++ c :: after)
      (hw : l.word c ≠ .queued) : Move maxBatch l { l with waiting := before ++ after }
  | expire (c : CallId) (rest : List CallId) (h : l.waiting = c :: rest) (hw : l.word c = .queued) :
      Move maxBatch l { l with
        waiting := rest, owed := l.owed ++ [c], word := Function.update l.word c .expired }
  | claim (c : CallId) (rest : List CallId) (h : l.waiting = c :: rest) (hw : l.word c = .queued) :
      Move maxBatch l { l with
        waiting := rest, active := l.active ++ [c], word := Function.update l.word c .dispatched }
  | invoke (h : l.waiting = []) :
      Move maxBatch l { l with
        active := [], owed := l.owed ++ l.active, handled := l.handled ++ l.active }
  | answer (c : CallId) (rest : List CallId) (h : l.owed = c :: rest) :
      Move maxBatch l { l with owed := rest, replied := l.replied ++ [c] }

structure LedgerInvariant (maxBatch : Nat) (l : Ledger) : Prop where
  nodup : l.admitted.Nodup
  split : l.admitted = l.received ++ l.queue
  order : (l.handled ++ l.active ++ l.waiting).Sublist l.received
  once : (l.replied ++ l.owed ++ l.active ++ l.waiting).Nodup
  answered_received : ∀ c ∈ l.replied ++ l.owed, c ∈ l.received
  size : (l.active ++ l.waiting).length ≤ maxBatch
  claimed : ∀ c ∈ l.handled ++ l.active, l.word c = .dispatched
  unclaimed : ∀ c ∈ l.waiting ++ l.queue, l.word c ≠ .dispatched
  answered : ∀ c ∈ l.replied ++ l.owed, l.word c ≠ .queued
  handled_answered : ∀ c ∈ l.handled, c ∈ l.replied ++ l.owed
  settled : ∀ c ∈ l.received, c ∈ l.waiting ∨ c ∈ l.active ∨ c ∈ l.replied ++ l.owed ∨ l.word c = .expired

namespace LedgerInvariant

variable {maxBatch : Nat} {l : Ledger}

lemma received_admitted (h : LedgerInvariant maxBatch l) {c : CallId} (hc : c ∈ l.received) :
    c ∈ l.admitted := by
  rw [h.split]
  exact List.mem_append_left _ hc

lemma live_received (h : LedgerInvariant maxBatch l) {c : CallId}
    (hc : c ∈ l.handled ++ l.active ++ l.waiting) : c ∈ l.received :=
  h.order.subset hc

lemma head_fresh (h : LedgerInvariant maxBatch l) {c : CallId} {rest : List CallId}
    (hq : l.queue = c :: rest) : c ∉ l.received := by
  have hn := h.nodup
  rw [h.split, hq] at hn
  exact fun hc => (List.nodup_append.mp hn).2.2 c hc c List.mem_cons_self rfl

end LedgerInvariant


section moves

variable {maxBatch : Nat} {l : Ledger} (h : LedgerInvariant maxBatch l)
include h

lemma giveUp_invariant {c : CallId} (hw : l.word c = .queued) :
    LedgerInvariant maxBatch { l with word := Function.update l.word c .expired } := by
  have hclaimed := h.claimed
  have hunclaimed := h.unclaimed
  have hanswered := h.answered
  have hsettled := h.settled
  refine ⟨h.nodup, h.split, h.order, h.once, h.answered_received, h.size, ?_, ?_, ?_,
    h.handled_answered, ?_⟩
  all_goals
    clear h
    dsimp only
    simp only [Function.update_apply]
    grind

lemma enter_invariant {c : CallId} (hc : c ∉ l.admitted) (hw : l.word c ≠ .dispatched) :
    LedgerInvariant maxBatch { l with queue := l.queue ++ [c], admitted := l.admitted ++ [c] } := by
  refine { h with nodup := ?_, split := ?_, unclaimed := ?_ }
  · rw [List.nodup_append]
    refine ⟨h.nodup, List.nodup_singleton c, ?_⟩
    rintro a ha b hb rfl
    exact hc (List.mem_singleton.mp hb ▸ ha)
  · rw [h.split, List.append_assoc]
  · intro c' hc'
    rw [← List.append_assoc] at hc'
    rcases List.mem_append.mp hc' with hold | hnew
    · exact h.unclaimed c' hold
    · exact List.mem_singleton.mp hnew ▸ hw

lemma take_invariant {c : CallId} {rest : List CallId} (hq : l.queue = c :: rest)
    (hroom : (l.active ++ l.waiting).length < maxBatch) :
    LedgerInvariant maxBatch { l with
      queue := rest, received := l.received ++ [c], waiting := l.waiting ++ [c] } := by
  have hfresh := h.head_fresh hq
  have hreceived := h.answered_received
  have hsettled := h.settled
  refine { h with
    split := ?_, order := ?_, once := ?_, answered_received := ?_, size := ?_, unclaimed := ?_, settled := ?_ }
  · rw [h.split, hq, List.append_assoc, List.singleton_append]
  · rw [← List.append_assoc]
    exact h.order.append (List.Sublist.refl [c])
  · rw [← List.append_assoc, List.nodup_append]
    refine ⟨h.once, List.nodup_singleton c, ?_⟩
    rintro a ha b hb rfl
    rw [List.mem_singleton.mp hb, List.append_assoc] at ha
    rcases List.mem_append.mp ha with hans | hlive
    · exact hfresh (h.answered_received c hans)
    · refine hfresh (h.live_received ?_)
      rw [List.append_assoc]
      exact List.mem_append_right _ hlive
  · exact fun c' hc' => List.mem_append_left _ (h.answered_received c' hc')
  · rw [← List.append_assoc, List.length_append]
    exact hroom
  · intro c' hc'
    apply h.unclaimed
    rw [hq]
    simpa using hc'
  · clear h
    grind

lemma drop_invariant {c : CallId} {before after : List CallId}
    (hwaiting : l.waiting = before ++ c :: after) (hw : l.word c ≠ .queued) :
    LedgerInvariant maxBatch { l with waiting := before ++ after } := by
  have hsub : (before ++ after).Sublist l.waiting := by
    rw [hwaiting]
    exact (List.Sublist.refl before).append (List.sublist_cons_self c after)
  have hexpired : l.word c = .expired := by
    have hun := h.unclaimed c (by simp [hwaiting])
    cases hword : l.word c with
    | queued => exact absurd hword hw
    | dispatched => exact absurd hword hun
    | expired => rfl
  refine { h with order := ?_, once := ?_, size := ?_, unclaimed := ?_, settled := ?_ }
  · exact ((List.Sublist.refl _).append hsub).trans h.order
  · exact h.once.sublist ((List.Sublist.refl _).append hsub)
  · exact (((List.Sublist.refl _).append hsub).length_le).trans h.size
  · exact fun c' hc' => h.unclaimed c' ((hsub.append (List.Sublist.refl _)).subset hc')
  · have hsettled := h.settled
    clear h
    grind

lemma expire_invariant {c : CallId} {rest : List CallId} (hwaiting : l.waiting = c :: rest)
    (hw : l.word c = .queued) :
    LedgerInvariant maxBatch { l with
      waiting := rest, owed := l.owed ++ [c], word := Function.update l.word c .expired } := by
  have hword := giveUp_invariant h hw
  have hsub : rest.Sublist l.waiting := hwaiting ▸ List.sublist_cons_self c rest
  have hperm : (l.replied ++ (l.owed ++ [c]) ++ l.active ++ rest).Perm
      (l.replied ++ l.owed ++ l.active ++ l.waiting) := by
    rw [hwaiting]
    simp only [List.append_assoc, List.singleton_append, List.perm_append_left_iff]
    exact List.perm_middle.symm
  have hmem : c ∈ l.received := h.live_received (by simp [hwaiting])
  have hanswered : ∀ c' ∈ l.replied ++ (l.owed ++ [c]), c' ∈ l.replied ++ l.owed ∨ c' = c := by
    intro c' hc'
    rw [← List.append_assoc] at hc'
    exact (List.mem_append.mp hc').imp_right List.mem_singleton.mp
  have hkept : ∀ c' ∈ l.replied ++ l.owed, c' ∈ l.replied ++ (l.owed ++ [c]) := by
    intro c' hc'
    rw [← List.append_assoc]
    exact List.mem_append_left _ hc'
  refine { hword with
    order := ?_, once := hperm.nodup_iff.mpr h.once, answered_received := ?_, size := ?_, unclaimed := ?_,
    answered := ?_, handled_answered := fun c' hc' => hkept c' (h.handled_answered c' hc'), settled := ?_ }
  · exact ((List.Sublist.refl _).append hsub).trans h.order
  · intro c' hc'
    rcases hanswered c' hc' with hold | rfl
    · exact h.answered_received c' hold
    · exact hmem
  · exact (((List.Sublist.refl _).append hsub).length_le).trans h.size
  · exact fun c' hc' => hword.unclaimed c' ((hsub.append (List.Sublist.refl _)).subset hc')
  · intro c' hc'
    rcases hanswered c' hc' with hold | rfl
    · exact hword.answered c' hold
    · dsimp only
      rw [Function.update_self]
      exact nofun
  · intro c' hc'
    rcases hword.settled c' hc' with hwaits | hactive | hreplied | hexpired
    · rcases List.mem_cons.mp (hwaiting ▸ hwaits : c' ∈ c :: rest) with rfl | hrest
      · exact .inr (.inr (.inl (by simp)))
      · exact .inl hrest
    · exact .inr (.inl hactive)
    · exact .inr (.inr (.inl (hkept c' hreplied)))
    · exact .inr (.inr (.inr hexpired))

lemma claim_invariant {c : CallId} {rest : List CallId} (hwaiting : l.waiting = c :: rest) :
    LedgerInvariant maxBatch { l with
      waiting := rest, active := l.active ++ [c], word := Function.update l.word c .dispatched } := by
  have hlist : l.active ++ [c] ++ rest = l.active ++ l.waiting := by
    rw [hwaiting, List.append_assoc, List.singleton_append]
  have hne : ∀ c' ∈ rest ++ l.queue, c' ≠ c := by
    have hn : (c :: rest ++ l.queue).Nodup := by
      have hn := h.nodup
      rw [h.split] at hn
      refine hn.sublist ((?_ : (c :: rest).Sublist l.received).append (List.Sublist.refl _))
      exact hwaiting ▸ (List.sublist_append_right _ _).trans h.order
    exact fun c' hc' he => (List.nodup_cons.mp hn).1 (he ▸ hc')
  refine { h with
    order := ?_, once := ?_, size := ?_, claimed := ?_, unclaimed := ?_, answered := ?_, settled := ?_ }
  · rw [List.append_assoc, hlist, ← List.append_assoc]
    exact h.order
  · rw [List.append_assoc, hlist, ← List.append_assoc]
    exact h.once
  · rw [hlist]
    exact h.size
  · have hclaimed := h.claimed
    clear h
    simp only [Function.update_apply]
    grind
  · intro c' hc'
    change Function.update l.word c .dispatched c' ≠ .dispatched
    rw [Function.update_of_ne (hne c' hc')]
    apply h.unclaimed
    rw [hwaiting]
    exact List.mem_cons_of_mem c hc'
  · have hanswered := h.answered
    clear h
    simp only [Function.update_apply]
    grind
  · have hsettled := h.settled
    clear h
    simp only [Function.update_apply]
    grind

lemma invoke_invariant (hwaiting : l.waiting = []) :
    LedgerInvariant maxBatch { l with
      active := [], owed := l.owed ++ l.active, handled := l.handled ++ l.active } := by
  have horder := h.order
  have honce := h.once
  rw [hwaiting, List.append_nil] at horder honce
  have hlive := fun c => h.live_received (c := c)
  refine { h with
    order := ?_, once := ?_, answered_received := ?_, size := ?_, claimed := ?_, answered := ?_,
    handled_answered := ?_, settled := ?_ }
  · rw [hwaiting]
    simpa using horder
  · rw [hwaiting]
    simpa using honce
  · have hreceived := h.answered_received
    clear h
    grind
  · rw [hwaiting]
    exact Nat.zero_le _
  · simpa using h.claimed
  · have hanswered := h.answered
    have hclaimed := h.claimed
    clear h
    grind
  · have hhandled := h.handled_answered
    clear h
    grind
  · have hsettled := h.settled
    clear h
    grind

lemma answer_invariant {c : CallId} {rest : List CallId} (howed : l.owed = c :: rest) :
    LedgerInvariant maxBatch { l with owed := rest, replied := l.replied ++ [c] } := by
  have hlist : l.replied ++ [c] ++ rest = l.replied ++ l.owed := by
    rw [howed, List.append_assoc, List.singleton_append]
  refine { h with once := ?_, answered_received := ?_, answered := ?_, handled_answered := ?_, settled := ?_ }
  all_goals rw [hlist]
  · exact h.once
  · exact h.answered_received
  · exact h.answered
  · exact h.handled_answered
  · exact h.settled

end moves

theorem move_invariant {maxBatch : Nat} {l l' : Ledger} (h : LedgerInvariant maxBatch l)
    (hm : l.Move maxBatch l') : LedgerInvariant maxBatch l' := by
  cases hm with
  | enter c hc hw => exact enter_invariant h hc hw
  | giveUp c hw => exact giveUp_invariant h hw
  | take c rest hq hroom => exact take_invariant h hq hroom
  | drop c before after hwaiting hw => exact drop_invariant h hwaiting hw
  | expire c rest hwaiting hw => exact expire_invariant h hwaiting hw
  | claim c rest hwaiting _ => exact claim_invariant h hwaiting
  | invoke hwaiting => exact invoke_invariant h hwaiting
  | answer c rest howed => exact answer_invariant h howed

end FraudDetection.Proofs
