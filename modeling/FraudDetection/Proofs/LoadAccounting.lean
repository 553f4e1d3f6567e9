import FraudDetection.Proofs.EntitySelection
import FraudDetection.Proofs.LoadRun

/-!
# The accounts of a load test

Every run of the load tester ends, and what it returns counts every job that a worker got. The one
way out is a panic in a worker, which the weights of the entities decide: its job is lost, and until
the process exits the other goroutines may go on to a summary without it.
-/

namespace FraudDetection.Proofs
open FraudDetection.Library
open FraudDetection.LoadTester

section rank

variable {K : Type} {plan : Plan K} {s s' : RunState} {log : List Note}

/-- Eight for each offset to come pay for its job, from the select statement to the collector. -/
def arrivalRank (offsets : Nat) : ArrivalPC → Nat
  | .next i => 8 * (offsets - i) + 2
  | .waiting i _ => 8 * (offsets - i) + 1
  | .handing work => 8 * (offsets - work.index)
  | .counting i => 8 * (offsets - i) - 4
  | .closing => 1
  | .done => 0

def workerRank : WorkerPC → Nat
  | .receiving => 2
  | .performing _ => 5
  | .sending _ => 4
  | .panicking _ => 3
  | .leaving => 1
  | .done => 0

def closerRank : CloserPC → Nat
  | .waiting => 2
  | .closing => 1
  | .done => 0

def collectorRank : CollectorPC → Nat
  | .collecting _ => 2
  | .loading _ => 1
  | .returned _ => 0

/-- A bound on the steps that are still to come. -/
def rank (plan : Plan K) (s : RunState) : Nat :=
  arrivalRank plan.offsets.length s.arrival + weigh workerRank plan.concurrency s.workers + s.results.length +
    closerRank s.closer + collectorRank s.collector + (!s.cancelled).toNat + (!s.exited).toNat

lemma rank_setWorker {w : Nat} {pc : WorkerPC} (hw : w < plan.concurrency)
    (hless : workerRank pc < workerRank (s.workers w)) : rank plan (s.setWorker w pc) < rank plan s := by
  have hupdate := weigh_update workerRank s.workers hw pc
  simp only [rank, RunState.setWorker]
  omega

lemma rank_step {action : RunAction} {notes : List Note} (hb : RunBooks plan log s) (hrunning : ¬ s.exited = true)
    (h : Stepped plan s action s' notes) : rank plan s' < rank plan s := by
  obtain ⟨k, -, hreached⟩ := hb.handed
  cases h with
  | cancelled hopen =>
    simp only [rank, hopen, Bool.not_true, Bool.not_false, Bool.toNat_true, Bool.toNat_false]
    omega
  | exhausted i harrival hend =>
    simp only [rank, harrival, arrivalRank]
    omega
  | due i offset harrival hoffset hearly =>
    simp only [rank, harrival, arrivalRank]
    omega
  | counted i harrival =>
    rw [harrival] at hreached
    have hlt := hreached.2.2
    simp only [rank, harrival, arrivalRank]
    omega
  | jobsClosed harrival =>
    simp only [rank, harrival, arrivalRank]
    omega
  | fired i offset harrival =>
    simp only [rank, harrival, arrivalRank]
    omega
  | stopped i offset harrival =>
    rw [harrival] at hreached
    obtain ⟨rfl, -, hlt⟩ := hreached
    simp only [rank, harrival, arrivalRank]
    omega
  | handed w work harrival hw hworker =>
    rw [harrival] at hreached
    obtain ⟨rfl, -, hlt⟩ := hreached
    have hupdate := weigh_update workerRank s.workers hw (.performing work)
    simp only [hworker, workerRank] at hupdate
    simp only [rank, RunState.setWorker, harrival, arrivalRank]
    omega
  | left w answers hw hworker hclosed => exact rank_setWorker hw (by simp [hworker, workerRank])
  | panicked w answers work panic hw hworker hperform => exact rank_setWorker hw (by simp [hworker, workerRank])
  | performed w answers work r hw hworker hperform => exact rank_setWorker hw (by simp [hworker, workerRank])
  | refused w answers r hw hworker hclosed => exact rank_setWorker hw (by simp [hworker, workerRank])
  | sent w answers r hw hworker hopen hroom =>
    have hupdate := weigh_update workerRank s.workers hw .receiving
    simp only [hworker, workerRank] at hupdate
    simp only [rank, RunState.setWorker, List.length_append, List.length_singleton]
    omega
  | retired w answers hw hworker => exact rank_setWorker hw (by simp [hworker, workerRank])
  | unwound w answers panic hw hworker => exact rank_setWorker hw (by simp [hworker, workerRank])
  | waited hcloser hdone =>
    simp only [rank, hcloser, closerRank]
    omega
  | resultsClosed hcloser =>
    simp only [rank, hcloser, closerRank]
    omega
  | collected r results summary hcollector hresults =>
    simp only [rank, hcollector, collectorRank, hresults, List.length_cons]
    omega
  | drained summary hcollector hresults hclosed =>
    simp only [rank, hcollector, collectorRank]
    omega
  | returned summary hcollector =>
    simp only [rank, hcollector, collectorRank]
    omega
  | exited =>
    simp only [rank, Bool.eq_false_of_not_eq_true hrunning, Bool.not_true, Bool.not_false, Bool.toNat_true,
      Bool.toNat_false]
    omega

end rank

section progress

variable {K : Type} {plan : Plan K} {s : RunState} {log : List Note}

def noAnswers : Answers where
  marshal _ := .error ⟨"unsupported value"⟩
  newRequest _ _ := none
  send _ := .error ⟨"connection refused"⟩
  sinceScheduled := 0

/-- A worker with something to do can do it, or the collector makes room for it. -/
lemma progress_of_busy (hn : 0 < plan.concurrency) (hb : RunBooks plan log s) {w : Nat} (hw : w < plan.concurrency)
    (hreceiving : s.workers w ≠ .receiving) (hdone : s.workers w ≠ .done) :
    ∃ action s' notes, Stepped plan s action s' notes := by
  cases hworker : s.workers w with
  | receiving => exact absurd hworker hreceiving
  | done => exact absurd hworker hdone
  | performing work =>
    cases hperform : perform plan.config noAnswers work with
    | error panic => exact ⟨_, _, _, .panicked w noAnswers work panic hw hworker hperform⟩
    | ok r => exact ⟨_, _, _, .performed w noAnswers work r hw hworker hperform⟩
  | panicking panic => exact ⟨_, _, _, .unwound w noAnswers panic hw hworker⟩
  | leaving => exact ⟨_, _, _, .retired w noAnswers hw hworker⟩
  | sending r =>
    have hopen := hb.open_of_worker hn hw hdone
    by_cases hroom : s.results.length < plan.concurrency
    · exact ⟨_, _, _, .sent w noAnswers r hw hworker hopen hroom⟩
    · cases hresults : s.results with
      | nil =>
        rw [hresults] at hroom
        exact absurd hn hroom
      | cons r' results => exact ⟨_, _, _, .collected r' results _ (hb.collecting hopen) hresults⟩

/-- Behind the close of the jobs the workers leave one by one, then the results are closed and the
collector returns. -/
lemma progress_of_closed (hb : RunBooks plan log s) (harrival : s.arrival = .done)
    (hidle : ∀ w < plan.concurrency, s.workers w = .receiving ∨ s.workers w = .done)
    (hreturned : ∀ summary, s.collector ≠ .returned summary) : ∃ action s' notes, Stepped plan s action s' notes := by
  by_cases hleft : ∀ w < plan.concurrency, s.workers w = .done
  swap
  · push Not at hleft
    obtain ⟨w, hw, hdone⟩ := hleft
    exact ⟨_, _, _, .left w noAnswers hw ((hidle w hw).resolve_right hdone) (hb.jobsClosed.mpr harrival)⟩
  cases hcloser : s.closer with
  | waiting => exact ⟨_, _, _, .waited hcloser hleft⟩
  | closing => exact ⟨_, _, _, .resultsClosed hcloser⟩
  | done =>
    cases hcollector : s.collector with
    | collecting summary =>
      cases hresults : s.results with
      | nil => exact ⟨_, _, _, .drained summary hcollector hresults (hb.resultsClosed.mpr hcloser)⟩
      | cons r results => exact ⟨_, _, _, .collected r results summary hcollector hresults⟩
    | loading summary => exact ⟨_, _, _, .returned summary hcollector⟩
    | returned summary => exact absurd hcollector (hreturned summary)

lemma progress_steps (hn : 0 < plan.concurrency) (hb : RunBooks plan log s)
    (hreturned : ∀ summary, s.collector ≠ .returned summary) : ∃ action s' notes, Stepped plan s action s' notes := by
  by_cases hidle : ∀ w < plan.concurrency, s.workers w = .receiving ∨ s.workers w = .done
  swap
  · push Not at hidle
    obtain ⟨w, hw, hreceiving, hdone⟩ := hidle
    exact progress_of_busy hn hb hw hreceiving hdone
  cases harrival : s.arrival with
  | next i =>
    by_cases hend : ∀ offset, plan.offsets[i]? = some offset → plan.late offset = true
    · exact ⟨_, _, _, .exhausted i harrival hend⟩
    · push Not at hend
      obtain ⟨offset, hoffset, hearly⟩ := hend
      exact ⟨_, _, _, .due i offset harrival hoffset (Bool.eq_false_of_not_eq_true hearly)⟩
  | waiting i offset => exact ⟨_, _, _, .fired i offset harrival⟩
  | handing work =>
    -- the jobs are not closed, so the first worker has not left
    have hfirst : s.workers 0 = .receiving := by
      refine (hidle 0 hn).resolve_right fun hdone => ?_
      have hclosed := hb.jobsClosed.mp (hb.leaving 0 hn (.inr hdone))
      rw [harrival] at hclosed
      cases hclosed
    exact ⟨_, _, _, .handed 0 work harrival hn hfirst⟩
  | counting i => exact ⟨_, _, _, .counted i harrival⟩
  | closing => exact ⟨_, _, _, .jobsClosed harrival⟩
  | done => exact progress_of_closed hb harrival hidle hreturned

lemma progress (hn : 0 < plan.concurrency) (hb : RunBooks plan log s) (hrunning : ¬ s.exited = true)
    (hreturned : ∀ summary, s.collector ≠ .returned summary) : ∃ action, (runStep plan s action).isSome := by
  obtain ⟨action, s', notes, hstep⟩ := progress_steps hn hb hreturned
  exact ⟨action, Option.isSome_of_eq_some (hstep.runs hrunning)⟩

end progress

section calm

variable {K : Type} {plan : Plan K} {s s' : RunState} {log : List Note}

def NeverDue (plan : Plan K) : Prop := ∀ offset, plan.offsets.head? = some offset → plan.late offset = true

def PerformsAll (c : Config K) : Prop := ∀ answers work, ∃ r, perform c answers work = .ok r

/-- No job was handed over, and none will be. -/
def Idle (s : RunState) : Prop := s.sent = 0 ∧ (s.arrival = .next 0 ∨ s.arrival = .closing ∨ s.arrival = .done)

lemma idle_step {action : RunAction} {notes : List Note} (hnever : NeverDue plan) (hidle : Idle s)
    (h : Stepped plan s action s' notes) : Idle s' := by
  obtain ⟨hsent, hwhere⟩ := hidle
  cases h with
  | exhausted i harrival hend => exact ⟨hsent, .inr (.inl rfl)⟩
  | jobsClosed harrival => exact ⟨hsent, .inr (.inr rfl)⟩
  | due i offset harrival hoffset hearly =>
    rw [harrival] at hwhere
    rcases hwhere with hfirst | hfirst | hfirst <;> cases hfirst
    rw [← List.head?_eq_getElem?] at hoffset
    exact absurd ((hnever offset hoffset).symm.trans hearly) (by decide)
  | counted i harrival =>
    rw [harrival] at hwhere
    rcases hwhere with hother | hother | hother <;> cases hother
  | fired i offset harrival =>
    rw [harrival] at hwhere
    rcases hwhere with hother | hother | hother <;> cases hother
  | stopped i offset harrival =>
    rw [harrival] at hwhere
    rcases hwhere with hother | hother | hother <;> cases hother
  | handed w work harrival hw hworker =>
    rw [harrival] at hwhere
    rcases hwhere with hother | hother | hother <;> cases hother
  | _ => exact ⟨hsent, hwhere⟩

lemma RunBooks.not_performing (hb : RunBooks plan log s) (hidle : Idle s) {w : Nat} (hw : w < plan.concurrency)
    (work : Job) : s.workers w ≠ .performing work := by
  intro hworker
  obtain ⟨k, hk, hreached⟩ := hb.handed
  have hzero : k = 0 := by
    obtain ⟨hsent, harrival | harrival | harrival⟩ := hidle
    · rw [harrival] at hreached
      exact hreached.1.symm
    · rw [harrival] at hreached
      exact hreached.symm.trans hsent
    · rw [harrival] at hreached
      exact hreached.symm.trans hsent
  have hjobs := hb.jobs work.index
  rw [hk, hzero, List.range_zero, List.count_nil] at hjobs
  have hone := weigh_eq_zero_iff.mp (by omega : weigh (performingJob work.index) _ s.workers = 0) w hw
  rw [hworker] at hone
  simp only [performingJob, beq_self_eq_true, if_true] at hone
  omega

lemma Calm.setWorker (hcalm : Calm plan s) {w : Nat} {pc : WorkerPC} (hpc : ∀ panic, pc ≠ .panicking panic) :
    Calm plan (s.setWorker w pc) where
  workers v hv := by
    by_cases hvw : v = w
    · subst hvw
      simpa only [RunState.setWorker, Function.update_self] using hpc
    · simpa only [RunState.setWorker, Function.update_of_ne hvw] using hcalm.workers v hv
  crashed := hcalm.crashed
  running := hcalm.running

lemma calm_step {action : RunAction} {notes : List Note} (hn : 0 < plan.concurrency)
    (hsafe : PerformsAll plan.config ∨ Idle s) (hb : RunBooks plan log s) (hcalm : Calm plan s)
    (h : Stepped plan s action s' notes) : Calm plan s' := by
  cases h with
  | panicked w answers work panic hw hworker hperform =>
    rcases hsafe with hall | hidle
    · obtain ⟨r, hr⟩ := hall answers work
      rw [hperform] at hr
      cases hr
    · exact absurd hworker (hb.not_performing hidle hw work)
  | refused w answers r hw hworker hclosed =>
    have hopen := hb.open_of_worker hn hw (by rw [hworker]; rintro ⟨⟩)
    exact absurd (hclosed.symm.trans hopen) (by decide)
  | unwound w answers panic hw hworker => exact absurd hworker (hcalm.workers w hw panic)
  | exited hcrashed =>
    rw [hcalm.crashed] at hcrashed
    cases hcrashed
  | handed w work =>
    have hmoved : Calm plan { s with arrival := .counting work.index } := { hcalm with }
    exact hmoved.setWorker (by rintro panic ⟨⟩)
  | left w => exact hcalm.setWorker (by rintro panic ⟨⟩)
  | performed w answers work r => exact hcalm.setWorker (by rintro panic ⟨⟩)
  | sent w answers r =>
    have hfilled : Calm plan { s with results := s.results ++ [r] } := { hcalm with }
    exact hfilled.setWorker (by rintro panic ⟨⟩)
  | retired w => exact hcalm.setWorker (by rintro panic ⟨⟩)
  | _ => exact { hcalm with }

structure Running (plan : Plan K) (log : List Note) (s : RunState) : Prop where
  books : RunBooks plan log s
  safe : PerformsAll plan.config ∨ NeverDue plan ∧ Idle s
  calm : Calm plan s

lemma running_initial (hsafe : PerformsAll plan.config ∨ NeverDue plan) : Running plan [] .initial where
  books := runBooks_initial
  safe := hsafe.imp_right fun hnever => ⟨hnever, rfl, .inl rfl⟩
  calm := ⟨fun _ _ _ => by rintro ⟨⟩, rfl, Bool.false_ne_true⟩

lemma Running.step {action : RunAction} (hn : 0 < plan.concurrency) (hr : Running plan log s)
    (h : runStep plan s action = some s') :
    Running plan (log ++ observe plan s action) s' ∧ rank plan s' < rank plan s := by
  have hstep := runStep_cases h
  have hcalm := calm_step hn (hr.safe.imp_right And.right) hr.books hr.calm hstep
  refine ⟨⟨runBooks_step hn hr.books hr.calm hcalm hstep, ?_, hcalm⟩, rank_step hr.books hr.calm.running hstep⟩
  exact hr.safe.imp_right fun hidle => ⟨hidle.1, idle_step hidle.1 hidle.2 hstep⟩

lemma running_run (hn : 0 < plan.concurrency) (hsafe : PerformsAll plan.config ∨ NeverDue plan)
    {actions : List RunAction} (h : runSteps (runStep plan) .initial actions = some s) :
    Running plan (runLog (runStep plan) (observe plan) .initial actions) s ∧
      actions.length + rank plan s ≤ rank plan .initial := by
  constructor
  · have hrun : Running plan ([] ++ runLog (runStep plan) (observe plan) .initial actions) s :=
      runSteps_log (Q := fun _ => True) (fun log s a s' _ hr hstep => (hr.step hn hstep).1) (running_initial hsafe)
        (fun _ _ => trivial) h
    rwa [List.nil_append] at hrun
  · refine runSteps_rank (P := fun s => ∃ log, Running plan log s) ?_ ⟨[], running_initial hsafe⟩ actions h
    rintro s a s' ⟨log, hr⟩ hstep
    exact ⟨⟨_, (hr.step hn hstep).1⟩, (hr.step hn hstep).2⟩

end calm

section accounts

variable {K : Type} {plan : Plan K} {s : RunState} {log : List Note}

lemma total_increment (counts : FMap GoString Nat) (key : GoString) :
    total (increment counts key) = total counts + 1 := by
  have hinsert := total_insert counts key ((counts.lookup key).getD 0 + 1)
  unfold increment
  omega

structure Consistent (summary : Summary) (n : Nat) : Prop where
  completed : summary.completed = n
  outcomes : summary.successful + summary.errors = n
  statuses : total summary.statusCounts = n

lemma Consistent.add {summary : Summary} {n : Nat} (h : Consistent summary n) (r : Result) :
    Consistent (summary.add r) (n + 1) := by
  obtain ⟨hcompleted, houtcomes, hstatuses⟩ := h
  unfold Summary.add
  cases herr : r.err with
  | some err =>
    refine ⟨congrArg (· + 1) hcompleted, ?_, ?_⟩
    · dsimp only
      omega
    · rw [total_increment, hstatuses]
  | none =>
    by_cases hsuccess : 200 ≤ r.status ∧ r.status < 300
    · simp only [if_pos hsuccess]
      exact ⟨congrArg (· + 1) hcompleted, by dsimp only; omega, by rw [total_increment, hstatuses]⟩
    · simp only [if_neg hsuccess]
      exact ⟨congrArg (· + 1) hcompleted, by dsimp only; omega, by rw [total_increment, hstatuses]⟩

lemma consistent_tally (results : List Result) : Consistent (tally results) results.length := by
  induction results using List.reverseRecOn with
  | nil => exact ⟨rfl, rfl, rfl⟩
  | append_singleton results r ih =>
    rw [tally, List.foldl_append, List.length_append]
    exact ih.add r

/-- Every job that a worker got has one result, the collector got these results, and the summary
counts them. -/
structure Balanced (log : List Note) (summary : Summary) : Prop where
  jobs : ((yieldedResults log).map Prod.fst).Perm (handedJobs log)
  results : (collectedResults log).Perm ((yieldedResults log).map Prod.snd)
  scheduled : summary.scheduled = (handedJobs log).length
  completed : summary.completed = summary.scheduled
  outcomes : summary.successful + summary.errors = summary.completed
  statuses : total summary.statusCounts = summary.completed

lemma RunBooks.balanced (hb : RunBooks plan log s) (hn : 0 < plan.concurrency) {summary : Summary}
    (hreturned : s.collector = .returned summary) : Balanced log summary := by
  have hholds := hb.collector
  rw [hreturned] at hholds
  obtain ⟨hsummary, hempty, hclosed⟩ := hholds
  obtain ⟨harrival, hdone⟩ := hb.quiet hn hclosed
  -- all workers are gone, so every job has its result and every result was collected
  have hjobs : ((yieldedResults log).map Prod.fst).Perm (handedJobs log) := by
    refine List.perm_iff_count.mpr fun i => ?_
    have hnone : weigh (performingJob i) plan.concurrency s.workers = 0 :=
      weigh_eq_zero_iff.mpr fun w hw => by rw [hdone w hw]; rfl
    rw [hb.jobs i, hnone, Nat.add_zero]
  have hresults : (collectedResults log).Perm ((yieldedResults log).map Prod.snd) := by
    refine List.perm_iff_count.mpr fun r => ?_
    have hnone : weigh (sendingResult r) plan.concurrency s.workers = 0 :=
      weigh_eq_zero_iff.mpr fun w hw => by rw [hdone w hw]; rfl
    rw [hb.results r, hnone, hempty, List.count_nil, Nat.add_zero]
  have hsent : s.sent = (handedJobs log).length := by
    obtain ⟨k, hk, hreached⟩ := hb.handed
    rw [harrival] at hreached
    rw [hk, List.length_range]
    exact hreached
  have hlength : (collectedResults log).length = (handedJobs log).length := by
    rw [hresults.length_eq, List.length_map, ← hjobs.length_eq, List.length_map]
  obtain ⟨hcompleted, houtcomes, hstatuses⟩ := consistent_tally (collectedResults log)
  rw [hsummary]
  exact ⟨hjobs, hresults, hsent, by dsimp only; omega, by dsimp only; omega, by dsimp only; omega⟩

/-- What is claimed of a state of a run: no worker gets a job that another got, no job has two
results, a returned summary is balanced, and a run that has not returned goes on. -/
structure RunAccounted (plan : Plan K) (log : List Note) (s : RunState) : Prop where
  handed : (handedJobs log).Nodup
  yielded : ∀ i, ((yieldedResults log).map Prod.fst).count i ≤ (handedJobs log).count i
  balanced : ∀ summary, s.collector = .returned summary → Balanced log summary
  progress : (∀ summary, s.collector ≠ .returned summary) → ∃ action, (runStep plan s action).isSome

lemma Running.accounted (hr : Running plan log s) (hn : 0 < plan.concurrency) : RunAccounted plan log s where
  handed := by
    obtain ⟨k, hk, -⟩ := hr.books.handed
    rw [hk]
    exact List.nodup_range
  yielded i := by
    have hjobs := hr.books.jobs i
    omega
  balanced _ hreturned := hr.books.balanced hn hreturned
  progress := progress hn hr.books hr.calm.running

/-- Every run of a plan, whatever its schedule, its answers and the moment of a cancellation, keeps
the accounts and ends. -/
def LosesNothing (plan : Plan K) : Prop :=
  ∀ actions s, runSteps (runStep plan) .initial actions = some s →
    RunAccounted plan (runLog (runStep plan) (observe plan) .initial actions) s ∧
      actions.length ≤ 8 * plan.offsets.length + 2 * plan.concurrency + 8

lemma rank_initial : rank plan .initial = 8 * plan.offsets.length + 2 * plan.concurrency + 8 := by
  have hworkers : weigh workerRank plan.concurrency RunState.initial.workers = 2 * plan.concurrency := by
    simp only [weigh, RunState.initial, workerRank, Finset.sum_const, Finset.card_range, smul_eq_mul]
    omega
  rw [rank, hworkers]
  simp only [RunState.initial, arrivalRank, closerRank, collectorRank, List.length_nil, Bool.not_false,
    Bool.toNat_true]
  omega

lemma losesNothing_of_safe (hn : 0 < plan.concurrency) (hsafe : PerformsAll plan.config ∨ NeverDue plan) :
    LosesNothing plan := by
  intro actions s h
  obtain ⟨hr, hle⟩ := running_run hn hsafe h
  rw [rank_initial] at hle
  exact ⟨hr.accounted hn, by omega⟩

end accounts

section panics

variable {K : Type} {c : Config K} {plan : Plan K}

lemma perform_of_entity {entity : GoString} {answers : Answers} {work : Job}
    (h : entityForIndex c work.index = .ok entity) : ∃ r, perform c answers work = .ok r := by
  obtain ⟨payload, hpayload⟩ : ∃ payload, requestPayload c work = .ok payload := by
    unfold requestPayload
    rw [h, ok_bind]
    by_cases hmode : c.payloadMode = ascii "transaction"
    · rw [if_pos hmode]
      exact ⟨_, rfl⟩
    · rw [if_neg hmode]
      exact ⟨_, rfl⟩
  unfold perform
  rw [hpayload, ok_bind]
  cases answers.marshal payload with
  | error err => exact ⟨_, rfl⟩
  | ok body =>
    dsimp only
    cases answers.newRequest c.url body with
    | some err => exact ⟨_, rfl⟩
    | none =>
      dsimp only
      cases answers.send _ with
      | error err => exact ⟨_, rfl⟩
      | ok status => exact ⟨_, rfl⟩

lemma perform_of_panic {panic : Panic} {answers : Answers} {work : Job}
    (h : entityForIndex c work.index = .error panic) : perform c answers work = .error panic := by
  unfold perform requestPayload
  rw [h]
  rfl

/-- The first job of a run, from the loop of the arrival goroutine to the worker that panics over it
and to the end of the process. -/
def firstJob : List RunAction :=
  [.arrive, .timerFires, .handOff 0, .work 0 noAnswers, .work 0 noAnswers, .exit]

lemma firstJob_panics (hn : 0 < plan.concurrency) {offset : Int} (hhead : plan.offsets.head? = some offset)
    (hdue : plan.late offset = false) {panic : Panic} (hpanic : entityForIndex plan.config 0 = .error panic) :
    ∃ s, runSteps (runStep plan) .initial firstJob = some s ∧ s.exited = true ∧
      s.collector = .collecting .empty := by
  have hoffset : plan.offsets[0]? = some offset := by rw [← List.head?_eq_getElem?, hhead]
  let work : Job := ⟨0, plan.started + offset⟩
  let s₁ : RunState := { RunState.initial with arrival := .waiting 0 offset }
  let s₂ : RunState := { RunState.initial with arrival := .handing work }
  let s₃ : RunState := { RunState.initial with arrival := .counting 0 }.setWorker 0 (.performing work)
  let s₄ : RunState := s₃.setWorker 0 (.panicking panic)
  let s₅ : RunState := { s₄ with crashed := some panic }.setWorker 0 .done
  have hperform : perform plan.config noAnswers work = .error panic := perform_of_panic hpanic
  have h₁ : runStep plan .initial .arrive = some s₁ := Stepped.runs Bool.false_ne_true (.due 0 offset rfl hoffset hdue)
  have h₂ : runStep plan s₁ .timerFires = some s₂ := Stepped.runs Bool.false_ne_true (.fired 0 offset rfl)
  have h₃ : runStep plan s₂ (.handOff 0) = some s₃ := Stepped.runs Bool.false_ne_true (.handed 0 work rfl hn rfl)
  have h₄ : runStep plan s₃ (.work 0 noAnswers) = some s₄ :=
    Stepped.runs Bool.false_ne_true (.panicked 0 noAnswers work panic hn rfl hperform)
  have h₅ : runStep plan s₄ (.work 0 noAnswers) = some s₅ :=
    Stepped.runs Bool.false_ne_true (.unwound 0 noAnswers panic hn rfl)
  have h₆ : runStep plan s₅ .exit = some { s₅ with exited := true } := Stepped.runs Bool.false_ne_true (.exited rfl)
  refine ⟨{ s₅ with exited := true }, ?_, rfl, rfl⟩
  simp only [firstJob, runSteps, h₁, h₂, h₃, h₄, h₅, h₆, Option.bind_some]

end panics

/-- The accounts of an accepted configuration lose nothing exactly when its entities can be selected,
or no job is ever due: the weights are empty or do not add up to a multiple of `2 ^ 64`, or the first
arrival is behind the end of the run. -/
theorem load_accounting_iff {K : Type} [LinearOrder K] [Zero K] {calls : FloatCalls K} {c : Config K}
    {offsets : List Int} (h : c.offsets calls = .ok offsets) (started : Int) :
    LosesNothing (⟨c, offsets, started⟩ : Plan K) ↔
      c.entityWeights = [] ∨ ¬ 2 ^ 64 ∣ c.entityWeights.sum ∨ NeverDue (⟨c, offsets, started⟩ : Plan K) := by
  obtain ⟨_, hvalid, -⟩ := bind_eq_ok_iff.mp h
  have hconfig := validConfig_of_validate hvalid
  have hn : 0 < (⟨c, offsets, started⟩ : Plan K).concurrency := by
    have hconcurrency := hconfig.concurrency_pos
    change 0 < c.concurrency.toNat
    omega
  constructor
  · intro haccounts
    by_contra hcon
    simp only [not_or, not_not, NeverDue, not_forall] at hcon
    obtain ⟨hweights, hdvd, offset, hhead, hdue⟩ := hcon
    have hpanic := entityForIndex_of_dvd hweights hdvd 0
    obtain ⟨s, hrun, hexited, hcollector⟩ :=
      firstJob_panics hn hhead (Bool.eq_false_of_not_eq_true hdue) hpanic
    obtain ⟨action, haction⟩ := (haccounts firstJob s hrun).1.progress fun summary hreturned => by
      rw [hcollector] at hreturned
      cases hreturned
    have hnone : runStep ⟨c, offsets, started⟩ s action = none := if_pos hexited
    rw [hnone] at haction
    cases haction
  · intro hwhen
    refine losesNothing_of_safe hn ?_
    rw [← or_assoc] at hwhen
    refine hwhen.imp_left fun hweights answers work => ?_
    obtain ⟨entity, hentity⟩ := entityForIndex_ok hconfig hweights work.index
    exact perform_of_entity hentity

def atOnce : FloatCalls Int where
  float64 _ _ := .finite 1
  smallestNonzero := .finite 1
  advance elapsed _ _ := elapsed
  duration _ := 0
  ceilSeconds _ _ := 0

def oneRequest (entities : List GoString) (weights : List Int) : Config Int :=
  { localRun entities weights with requests := 1, concurrency := 1 }

/-- The worker panics over its job, the arrival goroutine counts the job and closes `jobs`, the deferred
call of the worker lets the closer go on, and the collector returns before the process exits. -/
def lostJob : List RunAction :=
  [.arrive, .timerFires, .handOff 0, .work 0 noAnswers, .arrive, .arrive, .arrive, .work 0 noAnswers, .wait, .wait,
    .collect, .collect]

/-- With weights that add up to `2 ^ 64` the worker of the first job divides by zero: the job has no
result, and `Run` can return a summary that counts it as scheduled and not as completed. -/
theorem load_accounting_lost_job :
    ∃ (c : Config Int) (s : RunState) (summary : Summary), c.offsets atOnce = .ok [0] ∧
      runSteps (runStep ⟨c, [0], 0⟩) .initial lostJob = some s ∧ s.crashed = some .integerDivideByZero ∧
      handedJobs (runLog (runStep ⟨c, [0], 0⟩) (observe ⟨c, [0], 0⟩) .initial lostJob) = [0] ∧
      yieldedResults (runLog (runStep ⟨c, [0], 0⟩) (observe ⟨c, [0], 0⟩) .initial lostJob) = [] ∧
      s.collector = .returned summary ∧ summary.scheduled = 1 ∧ summary.completed = 0 := by
  let c : Config Int := oneRequest [ascii "a", ascii "b", ascii "c"] [9223372036854775807, 9223372036854775807, 2]
  have hoffsets : c.offsets atOnce = .ok [0] := by decide +kernel
  have hoverview : (runSteps (runStep ⟨c, [0], 0⟩) .initial lostJob).map (fun s => (s.crashed, match s.collector with
      | .returned summary => some (summary.scheduled, summary.completed)
      | _ => none)) = some (some .integerDivideByZero, some (1, 0)) := by decide +kernel
  have hlog : runLog (runStep ⟨c, [0], 0⟩) (observe ⟨c, [0], 0⟩) .initial lostJob = [.handed 0] := by decide +kernel
  obtain ⟨s, hrun, hs⟩ := Option.map_eq_some_iff.mp hoverview
  obtain ⟨hcrashed, hcollector⟩ := Prod.mk.inj hs
  cases hreturned : s.collector with
  | collecting summary =>
    rw [hreturned] at hcollector
    cases hcollector
  | loading summary =>
    rw [hreturned] at hcollector
    cases hcollector
  | returned summary =>
    rw [hreturned] at hcollector
    obtain ⟨hscheduled, hcompleted⟩ := Prod.mk.inj (Option.some.inj hcollector)
    refine ⟨c, s, summary, hoffsets, hrun, hcrashed, ?_, ?_, hreturned, hscheduled, hcompleted⟩
    · rw [hlog]
      rfl
    · rw [hlog]
      rfl

def okAnswers : Answers where
  marshal _ := .ok (ascii "null")
  newRequest _ _ := none
  send _ := .ok 200
  sinceScheduled := 1500000

def oneRequestRun : List RunAction :=
  [.arrive, .timerFires, .handOff 0, .work 0 okAnswers, .cancel, .arrive, .work 0 okAnswers, .collect, .arrive, .arrive,
    .work 0 okAnswers, .work 0 okAnswers, .wait, .wait, .collect, .collect]

theorem load_accounting_one_request :
    ∃ s summary, runSteps (runStep ⟨oneRequest [ascii "vip", ascii "regular"] [8, 2], [0], 0⟩) .initial oneRequestRun =
      some s ∧ s.collector = .returned summary ∧ summary.scheduled = 1 ∧ summary.completed = summary.scheduled ∧
      summary.successful + summary.errors = summary.completed ∧ total summary.statusCounts = summary.completed := by
  have hoffsets : (oneRequest [ascii "vip", ascii "regular"] [8, 2]).offsets atOnce = .ok [0] := by decide +kernel
  have haccounts := (load_accounting_iff hoffsets 0).mpr (.inr (.inl (by decide)))
  have hscheduled : (runSteps (runStep ⟨oneRequest [ascii "vip", ascii "regular"] [8, 2], [0], 0⟩) .initial
      oneRequestRun).map (fun s => match s.collector with
        | .returned summary => some summary.scheduled
        | _ => none) = some (some 1) := by decide +kernel
  obtain ⟨s, hrun, hcollector⟩ := Option.map_eq_some_iff.mp hscheduled
  cases hreturned : s.collector with
  | collecting summary =>
    rw [hreturned] at hcollector
    cases hcollector
  | loading summary =>
    rw [hreturned] at hcollector
    cases hcollector
  | returned summary =>
    rw [hreturned] at hcollector
    have hbalanced := (haccounts oneRequestRun s hrun).1.balanced summary hreturned
    exact ⟨s, summary, hrun, hreturned, Option.some.inj hcollector, hbalanced.completed, hbalanced.outcomes,
      hbalanced.statuses⟩

end FraudDetection.Proofs
