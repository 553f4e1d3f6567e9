import Mathlib.Algebra.BigOperators.Intervals
import FraudDetection.WorkerPool

/-!
# The budgets of a failover

`attemptContext` divides the time left by the attempts left. An attempt that takes no longer than its
share leaves the later ones at least that share, so the shares of a call grow from the first one on.
-/

namespace FraudDetection.Proofs
open FraudDetection.Scheduler (CallId)
open FraudDetection.WorkerPool
open scoped BigOperators

def attemptBudget : AttemptContext → Int
  | .withCancel => 0
  | .withTimeout budget => budget

/-- The context of attempt `k` of a call that had `T` nanoseconds left at its first attempt, when
attempt `j` took `consumed j`. -/
def attemptAt (pool : Pool) (now T : Int) (consumed : Nat → Int) (k : Nat) : AttemptContext :=
  attemptContext (some (now + T)) (now + ∑ j ∈ Finset.range k, consumed j) (pool.workers - k)

/-- It is the context that the attempt step of a call makes at the time when the attempts before are over. -/
lemma callStep_attemptAt {K : Type} {pool : Pool} {deadline : CallId → Option Int} {s : WorkerPool.State K} {c : CallId}
    {a : Attempts K} {now T : Int} {consumed : Nat → Int} (hcall : s.calls c = .attempt a)
    (hdeadline : deadline c = some (now + T)) (hnow : s.now = now + ∑ j ∈ Finset.range a.offset, consumed j) :
    callStep pool deadline s c = some (s.goto c (.lookup a (attemptAt pool now T consumed a.offset))) := by
  unfold callStep attemptAt
  rw [hcall, ← hdeadline, ← hnow]

lemma attemptContext_eq_withTimeout {t now remaining : Int} (hone : 1 ≤ remaining)
    (hleft : remaining ≤ t - now) (hfits : t - now < 2 ^ 63) :
    attemptContext (some t) now remaining = .withTimeout ((t - now) / remaining) := by
  have huntil : timeUntil t now = t - now := by
    unfold timeUntil
    omega
  have hbudget : 1 ≤ (t - now) / remaining := Int.le_ediv_of_mul_le (by omega) (by omega)
  have hdiv : (t - now).tdiv remaining = (t - now) / remaining := Int.tdiv_eq_ediv_of_nonneg (by omega)
  unfold attemptContext
  rw [if_neg (by omega)]
  dsimp only
  rw [huntil, hdiv, if_neg (by omega)]

/-- What is left after an attempt is at least its share for each of the others. -/
lemma share_le_rest {left attempts taken : Int} (hmany : 1 < attempts) (htaken : taken ≤ left / attempts) :
    left / attempts ≤ (left - taken) / (attempts - 1) := by
  apply Int.le_ediv_of_mul_le (by omega)
  have hshares : left / attempts * attempts ≤ left := Int.ediv_mul_le left (by omega)
  rw [Int.mul_sub, Int.mul_one]
  omega

section attempts

variable {pool : Pool} {now T : Int} {consumed : Nat → Int}

def timeLeft (T : Int) (consumed : Nat → Int) (k : Nat) : Int := T - ∑ j ∈ Finset.range k, consumed j

lemma timeLeft_succ (T : Int) (consumed : Nat → Int) (k : Nat) :
    timeLeft T consumed (k + 1) = timeLeft T consumed k - consumed k := by
  unfold timeLeft
  rw [Finset.sum_range_succ]
  omega

/-- Attempt `k` has its share of what is left, which is no more than at the start and enough for a
nanosecond for every attempt. -/
structure FairShare (pool : Pool) (now T : Int) (consumed : Nat → Int) (k : Nat) : Prop where
  least : T / pool.workers ≤ timeLeft T consumed k / (pool.workers - k)
  most : timeLeft T consumed k ≤ T
  granted : attemptAt pool now T consumed k = .withTimeout (timeLeft T consumed k / (pool.workers - k))

lemma fairShare_of_least (hT : pool.workers ≤ T) (hfits : T < 2 ^ 63) {k : Nat} (hk : k < pool.workers)
    (hleast : T / pool.workers ≤ timeLeft T consumed k / (pool.workers - k)) (hmost : timeLeft T consumed k ≤ T) :
    FairShare pool now T consumed k := by
  refine ⟨hleast, hmost, ?_⟩
  have hworkers := pool.workers_pos
  have hone : 1 ≤ T / pool.workers := Int.le_ediv_of_mul_le (by omega) (by omega)
  have hleft : (pool.workers - k : Int) ≤ timeLeft T consumed k := by
    have hmul := Int.mul_le_of_le_ediv (by omega) (le_trans hone hleast)
    omega
  have htime : now + T - (now + ∑ j ∈ Finset.range k, consumed j) = timeLeft T consumed k := by
    unfold timeLeft
    omega
  unfold attemptAt
  rw [attemptContext_eq_withTimeout (by omega) (by omega) (by omega), htime]

variable (hT : pool.workers ≤ T) (hfits : T < 2 ^ 63)
  (hconsumed : ∀ k < pool.workers,
    0 ≤ consumed k ∧ consumed k ≤ attemptBudget (attemptAt pool now T consumed k))
include hT hfits hconsumed

lemma fairShare_step {k : Nat} (hk : k + 1 < pool.workers) (hshare : FairShare pool now T consumed k) :
    timeLeft T consumed k / (pool.workers - k) ≤
      timeLeft T consumed (k + 1) / (pool.workers - (k + 1 : Nat)) ∧
    FairShare pool now T consumed (k + 1) := by
  obtain ⟨hnonneg, htaken⟩ := hconsumed k (by omega)
  rw [hshare.granted] at htaken
  have hnext : timeLeft T consumed k / (pool.workers - k) ≤
      timeLeft T consumed (k + 1) / (pool.workers - (k + 1 : Nat)) := by
    have hcast : (pool.workers : Int) - (k + 1 : Nat) = pool.workers - k - 1 := by omega
    rw [timeLeft_succ, hcast]
    exact share_le_rest (by omega) htaken
  have hmost := hshare.most
  have hmost' : timeLeft T consumed (k + 1) ≤ T := by
    rw [timeLeft_succ]
    omega
  exact ⟨hnext, fairShare_of_least hT hfits hk (le_trans hshare.least hnext) hmost'⟩

lemma fairShare_all {k : Nat} (hk : k < pool.workers) : FairShare pool now T consumed k := by
  induction k with
  | zero =>
    apply fairShare_of_least hT hfits hk
    · simp [timeLeft]
    · simp [timeLeft]
  | succ k ih => exact (fairShare_step hT hfits hconsumed hk (ih (by omega))).2

lemma attemptBudget_mono {j k : Nat} (hjk : j ≤ k) (hk : k < pool.workers) :
    attemptBudget (attemptAt pool now T consumed j) ≤ attemptBudget (attemptAt pool now T consumed k) := by
  induction k, hjk using Nat.le_induction with
  | base => exact le_rfl
  | succ k hjk ih =>
    have hshare := fairShare_all hT hfits hconsumed (Nat.lt_of_succ_lt hk)
    obtain ⟨hstep, hnext⟩ := fairShare_step hT hfits hconsumed hk hshare
    have hle := ih (Nat.lt_of_succ_lt hk)
    rw [hshare.granted] at hle
    rw [hnext.granted]
    exact le_trans hle hstep

lemma consumed_total : ∑ k ∈ Finset.range pool.workers, consumed k ≤ T := by
  have hworkers := pool.workers_pos
  obtain ⟨n, hn⟩ : ∃ n, pool.workers = n + 1 := ⟨pool.workers - 1, by omega⟩
  -- the last attempt may take all that is left
  have hlast := fairShare_all hT hfits hconsumed (show n < pool.workers by omega)
  obtain ⟨-, htaken⟩ := hconsumed n (by omega)
  have hdiv : (pool.workers : Int) - n = 1 := by omega
  rw [hlast.granted, hdiv] at htaken
  simp only [attemptBudget, Int.ediv_one, timeLeft] at htaken
  rw [hn, Finset.sum_range_succ]
  omega

end attempts

lemma attemptContext_deadline_le {parent : Worker.Context} {t : Int} (hparent : parent.deadline = some t)
    (ctx : AttemptContext) (now : Int) : ∃ d, (ctx.context parent now).deadline = some d ∧ d ≤ t := by
  cases ctx with
  | withCancel => exact ⟨t, hparent, le_rfl⟩
  | withTimeout budget =>
    refine ⟨if t < now + budget then t else now + budget, ?_, ?_⟩
    · simp only [AttemptContext.context, Worker.Context.withDeadline, hparent]
    · split <;> omega

/-- The attempts of a call with `T` nanoseconds left get budgets that never shrink, each at least an
equal share of `T`. What they take is at most `T`, and none outlives the deadline of the caller. -/
theorem attempt_budgets_fair (pool : Pool) (now T : Int) (consumed : Nat → Int) (hT : pool.workers ≤ T)
    (hfits : T < 2 ^ 63)
    (hconsumed : ∀ k < pool.workers,
      0 ≤ consumed k ∧ consumed k ≤ attemptBudget (attemptAt pool now T consumed k)) :
    (∀ j k, j ≤ k → k < pool.workers →
      attemptBudget (attemptAt pool now T consumed j) ≤ attemptBudget (attemptAt pool now T consumed k)) ∧
    (∀ k < pool.workers, ∃ budget,
      attemptAt pool now T consumed k = .withTimeout budget ∧ T / pool.workers ≤ budget) ∧
    ∑ k ∈ Finset.range pool.workers, consumed k ≤ T ∧
    ∀ parent : Worker.Context, parent.deadline = some (now + T) → ∀ k < pool.workers, ∀ later, ∃ d,
      ((attemptAt pool now T consumed k).context parent later).deadline = some d ∧ d ≤ now + T := by
  refine ⟨fun j k => attemptBudget_mono hT hfits hconsumed, ?_, consumed_total hT hfits hconsumed, ?_⟩
  · intro k hk
    have hshare := fairShare_all hT hfits hconsumed hk
    exact ⟨_, hshare.granted, hshare.least⟩
  · intro parent hparent k hk later
    exact attemptContext_deadline_le hparent _ later

/-- Two workers and ten nanoseconds, of which the first attempt takes all five of its share. -/
theorem attempt_budgets_fair_two_workers :
    let pool : Pool := ⟨2, second, by decide, by decide⟩
    attemptAt pool 0 10 (fun _ => 5) 0 = .withTimeout 5 ∧ attemptAt pool 0 10 (fun _ => 5) 1 = .withTimeout 5 ∧
      ∑ k ∈ Finset.range pool.workers, (fun _ => (5 : Int)) k ≤ 10 := by
  intro pool
  have hfair := attempt_budgets_fair pool 0 10 (fun _ => 5) (by decide) (by decide) (by decide)
  exact ⟨by decide, by decide, hfair.2.2.1⟩

end FraudDetection.Proofs
