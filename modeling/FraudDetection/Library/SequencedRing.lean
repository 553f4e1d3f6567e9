import Mathlib.Data.List.Nodup
import Mathlib.Data.List.Perm.Subperm
import Mathlib.Data.Nat.ModEq
import Mathlib.Logic.Function.Basic

/-!
# Bounded rings with a sequence word per slot

Position `p` of a ring with `N` slots uses slot `p % N`. It is claimed by a producer, published,
taken by a consumer, completed and released, in this order; the sequence word of its slot is `p`
until it is published, then `p + 1`, `p + 2` once it is completed, and `p + N`, the word of the
next lap, when it is released. `RingInvariant` relates the words and the two cursors to the
stages of all positions; for at least three slots the words of different laps never collide.
-/

namespace FraudDetection.Library

inductive Stage where
  | free
  | claimed
  | published
  | taken
  | completed
  | released
  deriving DecidableEq, Repr

def Stage.rank : Stage → Nat
  | .free => 0
  | .claimed => 1
  | .published => 2
  | .taken => 3
  | .completed => 4
  | .released => 5

def Stage.word (p : Nat) : Stage → Nat
  | .free | .claimed => p
  | .published | .taken => p + 1
  | .completed | .released => p + 2

lemma Stage.rank_injective {a b : Stage} (h : a.rank = b.rank) : a = b := by
  cases a <;> cases b <;> first | rfl | cases h

lemma Stage.eq_released {st : Stage} (h : 5 ≤ st.rank) : st = .released := by
  cases st <;> first | rfl | exact absurd h (by decide)

/-- The position that its slot serves at the moment. -/
def Serving (N : Nat) (stage : Nat → Stage) (p : Nat) : Prop :=
  stage p ≠ .released ∧ (N ≤ p → stage (p - N) = .released)

/-- Changing the stage of a used position within its slot leaves what other positions are served. -/
lemma serving_update {N p q : Nat} {stage : Nat → Stage} {st : Stage} (hst : st ≠ .released)
    (hp : stage p ≠ .released) : Serving N (Function.update stage p st) q ↔ Serving N stage q := by
  have hsame : ∀ r, Function.update stage p st r = .released ↔ stage r = .released := by
    intro r
    by_cases hr : r = p
    · rw [hr, Function.update_self]
      exact ⟨fun h => absurd h hst, fun h => absurd h hp⟩
    · rw [Function.update_of_ne hr]
  unfold Serving
  rw [ne_eq, hsame, hsame]

structure RingInvariant (N enqueue dequeue : Nat) (sequence : Nat → Nat) (stage : Nat → Stage) : Prop where
  claimed : ∀ p, stage p ≠ .free ↔ p < enqueue
  consumed : ∀ p, 3 ≤ (stage p).rank ↔ p < dequeue
  words : ∀ p, Serving N stage p → sequence (p % N) = (stage p).word p
  previous : ∀ p, N ≤ p → stage p ≠ .free → stage (p - N) = .released

lemma RingInvariant.initial (N : Nat) {sequence : Nat → Nat} (h : ∀ i < N, sequence i = i) :
    RingInvariant N 0 0 sequence (fun _ => .free) where
  claimed p := by simp
  consumed p := by simp [Stage.rank]
  words p hp := by
    have hlt : p < N := by
      by_contra hge
      exact absurd (hp.2 (by omega)) (by simp)
    rw [Nat.mod_eq_of_lt hlt, h p hlt]
    rfl
  previous p _ hp := absurd rfl hp

section invariant

variable {N enqueue dequeue : Nat} {sequence : Nat → Nat} {stage : Nat → Stage}
  (h : RingInvariant N enqueue dequeue sequence stage)
include h

lemma RingInvariant.dequeue_le : dequeue ≤ enqueue := by
  by_contra hlt
  have htaken := (h.consumed enqueue).mpr (by omega)
  have hfree : stage enqueue = .free := by
    by_contra hne
    exact absurd ((h.claimed enqueue).mp hne) (lt_irrefl _)
  rw [hfree] at htaken
  exact absurd htaken (by decide)

lemma RingInvariant.enqueue_le : enqueue ≤ dequeue + N := by
  by_contra hlt
  have hclaimed : stage (dequeue + N) ≠ .free := (h.claimed _).mpr (by omega)
  have hreleased := h.previous (dequeue + N) (by omega) hclaimed
  rw [Nat.add_sub_cancel] at hreleased
  have hconsumed := (h.consumed dequeue).mp (by rw [hreleased]; decide)
  omega

lemma RingInvariant.serving {p : Nat} (hfree : stage p ≠ .free) (hreleased : stage p ≠ .released) :
    Serving N stage p :=
  ⟨hreleased, fun hp => h.previous p hp hfree⟩

lemma RingInvariant.released_before {p k : Nat} (hp : stage (p + k * N) = .released) :
    stage p = .released := by
  induction k with
  | zero => simpa using hp
  | succ k ih =>
    apply ih
    have hprev := h.previous (p + (k + 1) * N) (by rw [Nat.succ_mul]; omega) (hp.trans_ne Stage.noConfusion)
    have he : p + (k + 1) * N - N = p + k * N := by rw [Nat.succ_mul]; omega
    rwa [he] at hprev

lemma RingInvariant.serving_unique {p q : Nat} (hp : Serving N stage p) (hq : Serving N stage q)
    (hmod : p % N = q % N) : p = q := by
  by_contra hne
  wlog hlt : p < q generalizing p q
  · exact this hq hp hmod.symm (Ne.symm hne) (by omega)
  obtain ⟨k, hk⟩ : ∃ k, q = p + k * N := by
    obtain ⟨k, hk⟩ := (Nat.modEq_iff_dvd' hlt.le).mp hmod
    exact ⟨k, by rw [Nat.mul_comm]; omega⟩
  obtain ⟨j, rfl⟩ : ∃ j, k = j + 1 := by
    cases k with
    | zero => exact absurd hk (by omega)
    | succ j => exact ⟨j, rfl⟩
  have hprev := hq.2 (by rw [hk, Nat.succ_mul]; omega)
  have he : q - N = p + j * N := by rw [hk, Nat.succ_mul]; omega
  rw [he] at hprev
  exact hp.1 (h.released_before hprev)

lemma RingInvariant.slots_nodup {xs : List Nat} (hnodup : xs.Nodup)
    (huse : ∀ p ∈ xs, stage p ≠ .free ∧ stage p ≠ .released) : (xs.map (· % N)).Nodup := by
  refine List.Nodup.map_on (fun p hp q hq hmod => ?_) hnodup
  exact h.serving_unique (h.serving (huse p hp).1 (huse p hp).2) (h.serving (huse q hq).1 (huse q hq).2) hmod

lemma RingInvariant.length_le (hN : 0 < N) {xs : List Nat} (hnodup : xs.Nodup)
    (huse : ∀ p ∈ xs, stage p ≠ .free ∧ stage p ≠ .released) : xs.length ≤ N := by
  have hrange : xs.map (· % N) ⊆ List.range N := by
    intro i hi
    obtain ⟨p, -, rfl⟩ := List.mem_map.mp hi
    exact List.mem_range.mpr (Nat.mod_lt p hN)
  have hle := ((h.slots_nodup hnodup huse).subperm hrange).length_le
  rwa [List.length_map, List.length_range] at hle

lemma RingInvariant.released_word (hN : 0 < N) {p : Nat} (hp : stage p = .released) :
    p + N ≤ sequence (p % N) := by
  -- induction on the distance to the enqueue cursor, which released positions never reach
  induction hd : enqueue - p using Nat.strong_induction_on generalizing p with
  | _ d ih =>
    have hlt : p < enqueue := (h.claimed p).mp (hp.trans_ne Stage.noConfusion)
    by_cases hnext : stage (p + N) = .released
    · have hle := ih (enqueue - (p + N)) (by omega) hnext rfl
      rw [Nat.add_mod_right] at hle
      omega
    · have hword := h.words (p + N) ⟨hnext, fun _ => by rw [Nat.add_sub_cancel]; exact hp⟩
      rw [Nat.add_mod_right] at hword
      rw [hword]
      cases stage (p + N) <;> simp only [Stage.word] <;> omega

/-- The word of the next position to claim is at most that position, and equal to it only when
the slot is free. -/
lemma RingInvariant.claimable (hN : 3 ≤ N) (hobserved : enqueue ≤ sequence (enqueue % N)) :
    stage enqueue = .free ∧ Serving N stage enqueue ∧ sequence (enqueue % N) = enqueue := by
  have hfree : stage enqueue = .free := by
    by_contra hne
    exact absurd ((h.claimed enqueue).mp hne) (lt_irrefl _)
  have hserving : Serving N stage enqueue := by
    refine ⟨by rw [hfree]; exact Stage.noConfusion, fun hle => ?_⟩
    by_contra hne
    have hused : stage (enqueue - N) ≠ .free := (h.claimed _).mpr (by omega)
    have hword := h.words _ (h.serving hused hne)
    rw [show (enqueue - N) % N = enqueue % N from (Nat.mod_eq_sub_mod hle).symm] at hword
    cases hs : stage (enqueue - N) <;> rw [hs] at hword <;> simp only [Stage.word] at hword <;> omega
  have hword := h.words _ hserving
  rw [hfree] at hword
  exact ⟨hfree, hserving, hword⟩

/-- The word of the next position to take exceeds that position only when it is published. -/
lemma RingInvariant.consumable (hN : 3 ≤ N) (hobserved : dequeue + 1 ≤ sequence (dequeue % N)) :
    stage dequeue = .published := by
  have hrank : (stage dequeue).rank < 3 := by
    by_contra hge
    exact absurd ((h.consumed dequeue).mp (by omega)) (lt_irrefl _)
  cases hs : stage dequeue with
  | free =>
    -- nothing is published: the cursors are equal, and the slot is at most free
    have henq : enqueue = dequeue := by
      have hle := h.dequeue_le
      by_contra hne
      exact absurd hs ((h.claimed dequeue).mpr (by omega))
    have hclaimable := h.claimable hN (by rw [henq]; omega)
    rw [henq] at hclaimable
    omega
  | claimed =>
    have hword := h.words dequeue (h.serving (hs.trans_ne Stage.noConfusion)
      (hs.trans_ne Stage.noConfusion))
    rw [hs] at hword
    simp only [Stage.word] at hword
    omega
  | published => rfl
  | taken | completed | released =>
    rw [hs] at hrank
    exact absurd hrank (by decide)

lemma RingInvariant.free_of_released (hreleased : ∀ p < enqueue, stage p = .released) {i : Nat} (hi : i < N) :
    ∃ q, q % N = i ∧ enqueue ≤ q ∧ q < enqueue + N ∧ sequence i = q := by
  obtain ⟨q, hq, hle, hlt⟩ : ∃ q, q % N = i ∧ enqueue ≤ q ∧ q < enqueue + N := by
    have hmod := Nat.mod_lt enqueue (show 0 < N by omega)
    refine ⟨enqueue + (i + N - enqueue % N) % N, ?_, by omega, ?_⟩
    · rw [Nat.add_mod_mod, ← Nat.mod_add_mod, Nat.add_sub_cancel' (by omega), Nat.add_mod_right,
        Nat.mod_eq_of_lt hi]
    · have hlt := Nat.mod_lt (i + N - enqueue % N) (show 0 < N by omega)
      omega
  have hfree : stage q = .free := by
    by_contra hne
    exact absurd ((h.claimed q).mp hne) (by omega)
  have hword := h.words q ⟨by rw [hfree]; exact Stage.noConfusion, fun hN => hreleased (q - N) (by omega)⟩
  rw [hfree, hq] at hword
  exact ⟨q, hq, hle, hlt, hword⟩

theorem RingInvariant.claim (hN : 3 ≤ N) (hobserved : enqueue ≤ sequence (enqueue % N)) :
    RingInvariant N (enqueue + 1) dequeue sequence (Function.update stage enqueue .claimed) := by
  obtain ⟨hfree, hserving, hword⟩ := h.claimable hN hobserved
  have hne : stage enqueue ≠ .released := hserving.1
  refine ⟨fun p => ?_, fun p => ?_, fun p hp => ?_, fun p hle hp => ?_⟩
  · by_cases he : p = enqueue
    · rw [he, Function.update_self]
      exact ⟨fun _ => by omega, fun _ => Stage.noConfusion⟩
    · rw [Function.update_of_ne he, h.claimed]
      omega
  · by_cases he : p = enqueue
    · have hle := h.dequeue_le
      rw [he, Function.update_self]
      exact ⟨fun hr => absurd hr (by decide), fun hr => by omega⟩
    · rw [Function.update_of_ne he, h.consumed]
  · rw [serving_update Stage.noConfusion hne] at hp
    by_cases he : p = enqueue
    · rw [he, Function.update_self, hword]
      rfl
    · rw [Function.update_of_ne he, h.words p hp]
  · have hnot : p - N ≠ enqueue := by
      intro heq
      by_cases he : p = enqueue
      · omega
      · rw [Function.update_of_ne he] at hp
        have := (h.claimed p).mp hp
        omega
    rw [Function.update_of_ne hnot]
    by_cases he : p = enqueue
    · rw [he] at hle ⊢
      exact hserving.2 hle
    · rw [Function.update_of_ne he] at hp
      exact h.previous p hle hp

theorem RingInvariant.consume (hN : 3 ≤ N) (hobserved : dequeue + 1 ≤ sequence (dequeue % N)) :
    RingInvariant N enqueue (dequeue + 1) sequence (Function.update stage dequeue .taken) := by
  have hpub := h.consumable hN hobserved
  have hne : stage dequeue ≠ .released := by rw [hpub]; exact Stage.noConfusion
  refine ⟨fun p => ?_, fun p => ?_, fun p hp => ?_, fun p hle hp => ?_⟩
  · by_cases he : p = dequeue
    · rw [he, Function.update_self, ← h.claimed, hpub]
      exact ⟨fun _ => Stage.noConfusion, fun _ => Stage.noConfusion⟩
    · rw [Function.update_of_ne he, h.claimed]
  · by_cases he : p = dequeue
    · rw [he, Function.update_self]
      exact ⟨fun _ => by omega, fun _ => by decide⟩
    · rw [Function.update_of_ne he, h.consumed]
      omega
  · rw [serving_update Stage.noConfusion hne] at hp
    rw [h.words p hp]
    by_cases he : p = dequeue
    · rw [he, Function.update_self, hpub]
      rfl
    · rw [Function.update_of_ne he]
  · have hused : stage p ≠ .free := by
      by_cases he : p = dequeue
      · rw [he, hpub]
        exact Stage.noConfusion
      · rwa [Function.update_of_ne he] at hp
    have hprev := h.previous p hle hused
    have hnot : p - N ≠ dequeue := fun he => hne (by rw [← he, hprev])
    rw [Function.update_of_ne hnot]
    exact hprev

/-- Publication and completion: the stage moves on within the same side of the dequeue cursor, and
the word follows. -/
theorem RingInvariant.advance {p : Nat} (st : Stage) (hfree : stage p ≠ .free)
    (hreleased : stage p ≠ .released) (hst : st ≠ .free) (hst' : st ≠ .released)
    (hside : 3 ≤ st.rank ↔ 3 ≤ (stage p).rank) :
    RingInvariant N enqueue dequeue (Function.update sequence (p % N) (st.word p))
      (Function.update stage p st) := by
  have hp := h.serving hfree hreleased
  refine ⟨fun q => ?_, fun q => ?_, fun q hq => ?_, fun q hle hq => ?_⟩
  · by_cases he : q = p
    · rw [he, Function.update_self, ← h.claimed]
      exact ⟨fun _ => hfree, fun _ => hst⟩
    · rw [Function.update_of_ne he, h.claimed]
  · by_cases he : q = p
    · rw [he, Function.update_self, hside, h.consumed]
    · rw [Function.update_of_ne he, h.consumed]
  · rw [serving_update hst' hreleased] at hq
    by_cases he : q = p
    · rw [he, Function.update_self, Function.update_self]
    · have hslot : q % N ≠ p % N := fun hmod => he (h.serving_unique hq hp hmod)
      rw [Function.update_of_ne he, Function.update_of_ne hslot, h.words q hq]
  · have hused : stage q ≠ .free := by
      by_cases he : q = p
      · rwa [he]
      · rwa [Function.update_of_ne he] at hq
    have hprev := h.previous q hle hused
    have hnot : q - N ≠ p := fun he => hreleased (by rw [← he, hprev])
    rw [Function.update_of_ne hnot]
    exact hprev

theorem RingInvariant.release {p : Nat} (hp : stage p = .completed) :
    RingInvariant N enqueue dequeue (Function.update sequence (p % N) (p + N))
      (Function.update stage p .released) := by
  have hne : stage p ≠ .released := by rw [hp]; exact Stage.noConfusion
  have hused : stage p ≠ .free := by rw [hp]; exact Stage.noConfusion
  have hserving := h.serving hused hne
  have hnext : stage (p + N) = .free := by
    by_contra hnot
    have hprev := h.previous (p + N) (by omega) hnot
    rw [Nat.add_sub_cancel] at hprev
    exact hne hprev
  refine ⟨fun q => ?_, fun q => ?_, fun q hq => ?_, fun q hle hq => ?_⟩
  · by_cases he : q = p
    · rw [he, Function.update_self, ← h.claimed]
      exact ⟨fun _ => hused, fun _ => Stage.noConfusion⟩
    · rw [Function.update_of_ne he, h.claimed]
  · by_cases he : q = p
    · rw [he, Function.update_self, ← h.consumed, hp]
      exact ⟨fun _ => by decide, fun _ => by decide⟩
    · rw [Function.update_of_ne he, h.consumed]
  · have he : q ≠ p := fun heq => hq.1 (by rw [heq, Function.update_self])
    rw [Function.update_of_ne he]
    by_cases hlap : q = p + N
    · rw [hlap, Nat.add_mod_right, Function.update_self, hnext]
      rfl
    · have hold : Serving N stage q := by
        refine ⟨fun hr => hq.1 (by rw [Function.update_of_ne he, hr]), fun hle => ?_⟩
        have hprev := hq.2 hle
        rwa [Function.update_of_ne (fun heq => hlap (by omega))] at hprev
      have hslot : q % N ≠ p % N := fun hmod => he (h.serving_unique hold hserving hmod)
      rw [Function.update_of_ne hslot, h.words q hold]
  · have hq' : stage q ≠ .free := by
      by_cases he : q = p
      · rwa [he]
      · rwa [Function.update_of_ne he] at hq
    have hprev := h.previous q hle hq'
    by_cases he : q - N = p
    · rw [he, Function.update_self]
    · rw [Function.update_of_ne he]
      exact hprev

end invariant

end FraudDetection.Library
