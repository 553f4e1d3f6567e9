import FraudDetection.LoadTester
import FraudDetection.Library.Tally

/-!
# Runs of the load tester

What a step of `Run` can do, and the books that every run keeps: each job that was handed over has
its result or is with a worker, each result is with a worker, in the channel or with the collector,
and the channels close one after the other.
-/

namespace FraudDetection.Proofs
open FraudDetection.Library
open FraudDetection.LoadTester

section steps

variable {K : Type} {plan : Plan K} {s s' : RunState}

/-- The steps of a process that has not exited, with the notes they leave. -/
inductive Stepped (plan : Plan K) (s : RunState) : RunAction → RunState → List Note → Prop
  | cancelled (hrunning : s.cancelled = false) : Stepped plan s .cancel { s with cancelled := true } []
  | exhausted (i : Nat) (harrival : s.arrival = .next i)
      (hend : ∀ offset, plan.offsets[i]? = some offset → plan.late offset = true) :
      Stepped plan s .arrive { s with arrival := .closing } []
  | due (i : Nat) (offset : Int) (harrival : s.arrival = .next i) (hoffset : plan.offsets[i]? = some offset)
      (hearly : plan.late offset = false) : Stepped plan s .arrive { s with arrival := .waiting i offset } []
  | counted (i : Nat) (harrival : s.arrival = .counting i) :
      Stepped plan s .arrive { s with sent := s.sent + 1, arrival := .next (i + 1) } []
  | jobsClosed (harrival : s.arrival = .closing) :
      Stepped plan s .arrive { s with jobsClosed := true, arrival := .done } []
  | fired (i : Nat) (offset : Int) (harrival : s.arrival = .waiting i offset) :
      Stepped plan s .timerFires { s with arrival := .handing ⟨i, plan.started + offset⟩ } []
  | stopped (i : Nat) (offset : Int) (harrival : s.arrival = .waiting i offset) (hdone : s.cancelled = true) :
      Stepped plan s .contextDone { s with arrival := .closing } []
  | handed (w : Nat) (work : Job) (harrival : s.arrival = .handing work) (hw : w < plan.concurrency)
      (hworker : s.workers w = .receiving) :
      Stepped plan s (.handOff w) ({ s with arrival := .counting work.index }.setWorker w (.performing work))
        [.handed work.index]
  | left (w : Nat) (answers : Answers) (hw : w < plan.concurrency) (hworker : s.workers w = .receiving)
      (hclosed : s.jobsClosed = true) : Stepped plan s (.work w answers) (s.setWorker w .leaving) []
  | panicked (w : Nat) (answers : Answers) (work : Job) (panic : Panic) (hw : w < plan.concurrency)
      (hworker : s.workers w = .performing work) (hperform : perform plan.config answers work = .error panic) :
      Stepped plan s (.work w answers) (s.setWorker w (.panicking panic)) []
  | performed (w : Nat) (answers : Answers) (work : Job) (r : Result) (hw : w < plan.concurrency)
      (hworker : s.workers w = .performing work) (hperform : perform plan.config answers work = .ok r) :
      Stepped plan s (.work w answers) (s.setWorker w (.sending r)) [.yielded work.index r]
  | refused (w : Nat) (answers : Answers) (r : Result) (hw : w < plan.concurrency)
      (hworker : s.workers w = .sending r) (hclosed : s.resultsClosed = true) :
      Stepped plan s (.work w answers) (s.setWorker w (.panicking .sendOnClosedChannel)) []
  | sent (w : Nat) (answers : Answers) (r : Result) (hw : w < plan.concurrency) (hworker : s.workers w = .sending r)
      (hopen : s.resultsClosed = false) (hroom : s.results.length < plan.concurrency) :
      Stepped plan s (.work w answers) ({ s with results := s.results ++ [r] }.setWorker w .receiving) []
  | retired (w : Nat) (answers : Answers) (hw : w < plan.concurrency) (hworker : s.workers w = .leaving) :
      Stepped plan s (.work w answers) (s.setWorker w .done) []
  | unwound (w : Nat) (answers : Answers) (panic : Panic) (hw : w < plan.concurrency)
      (hworker : s.workers w = .panicking panic) :
      Stepped plan s (.work w answers) ({ s with crashed := s.crashed.or (some panic) }.setWorker w .done) []
  | waited (hcloser : s.closer = .waiting) (hdone : ∀ w < plan.concurrency, s.workers w = .done) :
      Stepped plan s .wait { s with closer := .closing } []
  | resultsClosed (hcloser : s.closer = .closing) :
      Stepped plan s .wait { s with resultsClosed := true, closer := .done } []
  | collected (r : Result) (results : List Result) (summary : Summary)
      (hcollector : s.collector = .collecting summary) (hresults : s.results = r :: results) :
      Stepped plan s .collect { s with results, collector := .collecting (summary.add r) } [.collected r]
  | drained (summary : Summary) (hcollector : s.collector = .collecting summary) (hresults : s.results = [])
      (hclosed : s.resultsClosed = true) : Stepped plan s .collect { s with collector := .loading summary } []
  | returned (summary : Summary) (hcollector : s.collector = .loading summary) :
      Stepped plan s .collect { s with collector := .returned { summary with scheduled := s.sent } } []
  | exited (hcrashed : s.crashed.isSome = true) : Stepped plan s .exit { s with exited := true } []

lemma arriveStep_cases (h : arriveStep plan s = some s') : Stepped plan s .arrive s' [] := by
  unfold arriveStep at h
  cases harrival : s.arrival with
  | next i =>
    rw [harrival] at h
    cases hoffset : plan.offsets[i]? with
    | none =>
      simp only [hoffset] at h
      cases h
      refine .exhausted i harrival fun offset hsome => ?_
      rw [hoffset] at hsome
      cases hsome
    | some offset =>
      simp only [hoffset] at h
      cases hlate : plan.late offset with
      | true =>
        rw [hlate, if_pos rfl] at h
        cases h
        refine .exhausted i harrival fun offset' hsome => ?_
        rw [hoffset] at hsome
        cases hsome
        exact hlate
      | false =>
        rw [hlate, if_neg Bool.false_ne_true] at h
        cases h
        exact .due i offset harrival hoffset hlate
  | counting i =>
    rw [harrival] at h
    cases h
    exact .counted i harrival
  | closing =>
    rw [harrival] at h
    cases h
    exact .jobsClosed harrival
  | waiting i offset =>
    rw [harrival] at h
    cases h
  | handing work =>
    rw [harrival] at h
    cases h
  | done =>
    rw [harrival] at h
    cases h

lemma workStep_cases {w : Nat} {answers : Answers} (hw : w < plan.concurrency)
    (h : workStep plan s w answers = some s') :
    Stepped plan s (.work w answers) s' (observe plan s (.work w answers)) := by
  unfold workStep at h
  unfold observe
  cases hworker : s.workers w with
  | receiving =>
    simp only [hworker] at h ⊢
    cases hclosed : s.jobsClosed with
    | true =>
      rw [hclosed, if_pos rfl] at h
      cases h
      exact .left w answers hw hworker hclosed
    | false =>
      rw [hclosed, if_neg Bool.false_ne_true] at h
      cases h
  | performing work =>
    simp only [hworker] at h ⊢
    cases hperform : perform plan.config answers work with
    | error panic =>
      simp only [hperform] at h ⊢
      cases h
      exact .panicked w answers work panic hw hworker hperform
    | ok r =>
      simp only [hperform] at h ⊢
      cases h
      exact .performed w answers work r hw hworker hperform
  | sending r =>
    simp only [hworker] at h ⊢
    by_cases hclosed : s.resultsClosed = true
    · rw [if_pos hclosed] at h
      cases h
      exact .refused w answers r hw hworker hclosed
    · rw [if_neg hclosed] at h
      split_ifs at h with hroom
      cases h
      exact .sent w answers r hw hworker (Bool.eq_false_of_not_eq_true hclosed) hroom
  | panicking panic =>
    simp only [hworker] at h ⊢
    cases h
    exact .unwound w answers panic hw hworker
  | leaving =>
    simp only [hworker] at h ⊢
    cases h
    exact .retired w answers hw hworker
  | done =>
    simp only [hworker] at h
    cases h

lemma waitStep_cases (h : waitStep plan s = some s') : Stepped plan s .wait s' [] := by
  unfold waitStep at h
  cases hcloser : s.closer with
  | waiting =>
    simp only [hcloser] at h
    split_ifs at h with hdone
    cases h
    refine .waited hcloser fun w hw => ?_
    exact of_decide_eq_true (List.all_eq_true.mp hdone w (List.mem_range.mpr hw))
  | closing =>
    rw [hcloser] at h
    cases h
    exact .resultsClosed hcloser
  | done =>
    rw [hcloser] at h
    cases h

lemma collectStep_cases (h : collectStep s = some s') : Stepped plan s .collect s' (observe plan s .collect) := by
  unfold collectStep at h
  unfold observe
  cases hcollector : s.collector with
  | collecting summary =>
    simp only [hcollector] at h
    cases hresults : s.results with
    | nil =>
      simp only [hresults] at h
      split_ifs at h with hclosed
      cases h
      change Stepped plan s .collect _ []
      rw [← hresults]
      exact .drained summary hcollector hresults hclosed
    | cons r results =>
      simp only [hresults] at h
      cases h
      exact .collected r results summary hcollector hresults
  | loading summary =>
    rw [hcollector] at h
    cases h
    exact .returned summary hcollector
  | returned summary =>
    rw [hcollector] at h
    cases h

lemma runStep_cases {action : RunAction} (h : runStep plan s action = some s') :
    Stepped plan s action s' (observe plan s action) := by
  unfold runStep at h
  by_cases hexited : s.exited = true
  · rw [if_pos hexited] at h
    cases h
  rw [if_neg hexited] at h
  cases action with
  | cancel =>
    dsimp only at h
    split_ifs at h with hcancelled
    cases h
    exact .cancelled (Bool.eq_false_of_not_eq_true hcancelled)
  | arrive => exact arriveStep_cases h
  | timerFires =>
    cases harrival : s.arrival with
    | waiting i offset =>
      simp only [harrival] at h
      cases h
      exact .fired i offset harrival
    | _ =>
      simp only [harrival] at h
      cases h
  | contextDone =>
    cases harrival : s.arrival with
    | waiting i offset =>
      simp only [harrival] at h
      split_ifs at h with hdone
      cases h
      exact .stopped i offset harrival hdone
    | _ =>
      simp only [harrival] at h
      cases h
  | handOff w =>
    unfold observe
    cases harrival : s.arrival with
    | handing work =>
      simp only [harrival] at h ⊢
      split_ifs at h with hw
      cases h
      exact .handed w work harrival hw.1 hw.2
    | _ =>
      simp only [harrival] at h
      cases h
  | work w answers =>
    dsimp only at h
    split_ifs at h with hw
    exact workStep_cases hw h
  | wait => exact waitStep_cases h
  | collect => exact collectStep_cases h
  | exit =>
    dsimp only at h
    split_ifs at h with hcrashed
    cases h
    exact .exited hcrashed

lemma Stepped.runs {action : RunAction} {notes : List Note} (hrunning : ¬ s.exited = true)
    (h : Stepped plan s action s' notes) : runStep plan s action = some s' := by
  unfold runStep
  rw [if_neg hrunning]
  cases h with
  | cancelled hopen => exact if_neg (by rw [hopen]; exact Bool.false_ne_true)
  | exhausted i harrival hend =>
    simp only [arriveStep, harrival]
    cases hoffset : plan.offsets[i]? with
    | none => rfl
    | some offset => exact if_pos (hend offset hoffset)
  | due i offset harrival hoffset hearly =>
    simp only [arriveStep, harrival, hoffset]
    exact if_neg (by rw [hearly]; exact Bool.false_ne_true)
  | counted i harrival => simp only [arriveStep, harrival]
  | jobsClosed harrival => simp only [arriveStep, harrival]
  | fired i offset harrival => simp only [harrival]
  | stopped i offset harrival hdone =>
    simp only [harrival]
    exact if_pos hdone
  | handed w work harrival hw hworker =>
    simp only [harrival]
    exact if_pos ⟨hw, hworker⟩
  | left w answers hw hworker hclosed =>
    refine (if_pos hw).trans ?_
    simp only [workStep, hworker]
    exact if_pos hclosed
  | panicked w answers work panic hw hworker hperform =>
    refine (if_pos hw).trans ?_
    simp only [workStep, hworker, hperform]
  | performed w answers work r hw hworker hperform =>
    refine (if_pos hw).trans ?_
    simp only [workStep, hworker, hperform]
  | refused w answers r hw hworker hclosed =>
    refine (if_pos hw).trans ?_
    simp only [workStep, hworker]
    exact if_pos hclosed
  | sent w answers r hw hworker hopen hroom =>
    refine (if_pos hw).trans ?_
    simp only [workStep, hworker]
    exact (if_neg (by rw [hopen]; exact Bool.false_ne_true)).trans (if_pos hroom)
  | retired w answers hw hworker =>
    refine (if_pos hw).trans ?_
    simp only [workStep, hworker]
  | unwound w answers panic hw hworker =>
    refine (if_pos hw).trans ?_
    simp only [workStep, hworker]
  | waited hcloser hdone =>
    simp only [waitStep, hcloser]
    exact if_pos (List.all_eq_true.mpr fun w hw => decide_eq_true (hdone w (List.mem_range.mp hw)))
  | resultsClosed hcloser => simp only [waitStep, hcloser]
  | collected r results summary hcollector hresults => simp only [collectStep, hcollector, hresults]
  | drained summary hcollector hresults hclosed =>
    simp only [collectStep, hcollector, hresults]
    exact if_pos hclosed
  | returned summary hcollector => simp only [collectStep, hcollector]
  | exited hcrashed => exact if_pos hcrashed

structure Calm (plan : Plan K) (s : RunState) : Prop where
  workers : ∀ w, w < plan.concurrency → ∀ panic, s.workers w ≠ .panicking panic
  crashed : s.crashed = none
  running : ¬ s.exited = true

end steps

section books

variable {K : Type} {plan : Plan K} {s s' : RunState} {log : List Note}

/-- How far the arrival goroutine is: `k` jobs went to workers, `sent` of them are counted. -/
def ArrivalReached (offsets k sent : Nat) : ArrivalPC → Prop
  | .next i => i = k ∧ sent = k
  | .waiting i _ => i = k ∧ sent = k ∧ k < offsets
  | .handing work => work.index = k ∧ sent = k ∧ k < offsets
  | .counting i => i + 1 = k ∧ sent = i ∧ i < offsets
  | .closing | .done => sent = k

def performingJob (i : Nat) : WorkerPC → Nat
  | .performing work => if work.index == i then 1 else 0
  | _ => 0

def sendingResult (r : Result) : WorkerPC → Nat
  | .sending r' => if r' == r then 1 else 0
  | _ => 0

def tally (results : List Result) : Summary := results.foldl Summary.add .empty

/-- What the collector holds when these results came to it. -/
def CollectorHolds (results : List Result) (sent : Nat) (drained : Prop) : CollectorPC → Prop
  | .collecting summary => summary = tally results
  | .loading summary => summary = tally results ∧ drained
  | .returned summary => summary = { tally results with scheduled := sent } ∧ drained

/-- What holds after every step of a run with these notes, as long as no worker panics. -/
structure RunBooks (plan : Plan K) (log : List Note) (s : RunState) : Prop where
  handed : ∃ k, handedJobs log = List.range k ∧ ArrivalReached plan.offsets.length k s.sent s.arrival
  jobs : ∀ i, (handedJobs log).count i =
    ((yieldedResults log).map Prod.fst).count i + weigh (performingJob i) plan.concurrency s.workers
  results : ∀ r, ((yieldedResults log).map Prod.snd).count r =
    (collectedResults log).count r + s.results.count r + weigh (sendingResult r) plan.concurrency s.workers
  jobsClosed : s.jobsClosed = true ↔ s.arrival = .done
  leaving : ∀ w, w < plan.concurrency → s.workers w = .leaving ∨ s.workers w = .done → s.jobsClosed = true
  finished : s.closer ≠ .waiting → ∀ w < plan.concurrency, s.workers w = .done
  resultsClosed : s.resultsClosed = true ↔ s.closer = .done
  collector : CollectorHolds (collectedResults log) s.sent (s.results = [] ∧ s.resultsClosed = true) s.collector

lemma runBooks_initial : RunBooks plan [] .initial where
  handed := ⟨0, rfl, rfl, rfl⟩
  jobs i := by
    have hzero : weigh (performingJob i) plan.concurrency RunState.initial.workers = 0 :=
      weigh_eq_zero_iff.mpr fun _ _ => rfl
    rw [hzero]
    rfl
  results r := by
    have hzero : weigh (sendingResult r) plan.concurrency RunState.initial.workers = 0 :=
      weigh_eq_zero_iff.mpr fun _ _ => rfl
    rw [hzero]
    rfl
  jobsClosed := iff_of_false Bool.false_ne_true fun h => by cases h
  leaving _ _ h := by rcases h with h | h <;> cases h
  finished h := absurd rfl h
  resultsClosed := iff_of_false Bool.false_ne_true fun h => by cases h
  collector := rfl

/-- Behind the close of `results` no goroutine but the collector is left. -/
lemma RunBooks.quiet (hb : RunBooks plan log s) (hn : 0 < plan.concurrency) (hclosed : s.resultsClosed = true) :
    s.arrival = .done ∧ ∀ w < plan.concurrency, s.workers w = .done := by
  have hcloser : s.closer ≠ .waiting := by
    rw [hb.resultsClosed.mp hclosed]
    decide
  have hdone := hb.finished hcloser
  exact ⟨hb.jobsClosed.mp (hb.leaving 0 hn (.inr (hdone 0 hn))), hdone⟩

lemma RunBooks.open_of_arrival (hb : RunBooks plan log s) (hn : 0 < plan.concurrency) (h : s.arrival ≠ .done) :
    s.resultsClosed = false :=
  Bool.eq_false_of_not_eq_true fun hclosed => h (hb.quiet hn hclosed).1

lemma RunBooks.open_of_worker (hb : RunBooks plan log s) (hn : 0 < plan.concurrency) {w : Nat}
    (hw : w < plan.concurrency) (h : s.workers w ≠ .done) : s.resultsClosed = false :=
  Bool.eq_false_of_not_eq_true fun hclosed => h ((hb.quiet hn hclosed).2 w hw)

lemma RunBooks.waiting_of_worker (hb : RunBooks plan log s) {w : Nat} (hw : w < plan.concurrency)
    (h : s.workers w ≠ .done) : s.closer = .waiting :=
  not_not.mp fun hcloser => h (hb.finished hcloser w hw)

lemma RunBooks.collecting (hb : RunBooks plan log s) (hopen : s.resultsClosed = false) :
    s.collector = .collecting (tally (collectedResults log)) := by
  have hholds := hb.collector
  cases hcollector : s.collector with
  | collecting summary =>
    rw [hcollector] at hholds
    rw [show summary = _ from hholds]
  | loading summary =>
    rw [hcollector] at hholds
    exact absurd (hholds.2.2.symm.trans hopen) (by decide)
  | returned summary =>
    rw [hcollector] at hholds
    exact absurd (hholds.2.2.symm.trans hopen) (by decide)

lemma RunBooks.move (hb : RunBooks plan log s) {pc : ArrivalPC} (harrival : s.arrival ≠ .done) (hpc : pc ≠ .done)
    (hreached : ∀ k, ArrivalReached plan.offsets.length k s.sent s.arrival →
      ArrivalReached plan.offsets.length k s.sent pc) :
    RunBooks plan log { s with arrival := pc } :=
  { hb with
    handed := by
      obtain ⟨k, hk, hold⟩ := hb.handed
      exact ⟨k, hk, hreached k hold⟩
    jobsClosed := ⟨fun hclosed => absurd (hb.jobsClosed.mp hclosed) harrival, fun hdone => absurd hdone hpc⟩ }

/-- A step of a worker that has no job and no result, before and after it. -/
lemma RunBooks.relabel (hb : RunBooks plan log s) {w : Nat} {pc : WorkerPC} (hw : w < plan.concurrency)
    (hold : s.workers w = .receiving ∨ s.workers w = .leaving) (hpc : pc = .leaving ∨ pc = .done)
    (hclosed : s.jobsClosed = true) : RunBooks plan log (s.setWorker w pc) := by
  have hwaiting : s.closer = .waiting := hb.waiting_of_worker hw (by rcases hold with h | h <;> rw [h] <;> decide)
  have hidle : ∀ {f : WorkerPC → Nat}, (∀ pc, pc = .receiving ∨ pc = .leaving ∨ pc = .done → f pc = 0) →
      weigh f plan.concurrency (s.setWorker w pc).workers = weigh f plan.concurrency s.workers := by
    intro f hf
    have hupdate := weigh_update f s.workers hw pc
    rw [hf (s.workers w) (hold.imp_right .inl), hf pc (.inr hpc)] at hupdate
    exact hupdate
  refine { hb with jobs := ?_, results := ?_, leaving := fun _ _ _ => hclosed, finished := ?_ }
  · intro i
    rw [hidle fun pc hpc => by rcases hpc with rfl | rfl | rfl <;> rfl]
    exact hb.jobs i
  · intro r
    rw [hidle fun pc hpc => by rcases hpc with rfl | rfl | rfl <;> rfl]
    exact hb.results r
  · exact fun hcloser => absurd hwaiting hcloser

/-- A worker that goes on leaves no other to go. -/
lemma RunBooks.leaving_update (hb : RunBooks plan log s) {w : Nat} {pc : WorkerPC} (hleft : pc ≠ .leaving)
    (hdone : pc ≠ .done) : ∀ v, v < plan.concurrency → Function.update s.workers w pc v = .leaving ∨
      Function.update s.workers w pc v = .done → s.jobsClosed = true := by
  intro v hv hleaving
  by_cases hvw : v = w
  · rw [hvw, Function.update_self] at hleaving
    exact (hleaving.elim hleft hdone).elim
  · rw [Function.update_of_ne hvw] at hleaving
    exact hb.leaving v hv hleaving

lemma RunBooks.hand (hb : RunBooks plan log s) {w : Nat} {work : Job} (hw : w < plan.concurrency)
    (harrival : s.arrival = .handing work) (hworker : s.workers w = .receiving) :
    RunBooks plan (log ++ [.handed work.index])
      ({ s with arrival := .counting work.index }.setWorker w (.performing work)) := by
  have hopen : s.jobsClosed ≠ true := fun hclosed => by
    have hdone := hb.jobsClosed.mp hclosed
    rw [harrival] at hdone
    cases hdone
  have hlog : handedJobs (log ++ [.handed work.index]) = handedJobs log ++ [work.index] := List.filterMap_append
  have hyielded : yieldedResults (log ++ [.handed work.index]) = yieldedResults log :=
    List.filterMap_append.trans (List.append_nil _)
  have hcollected : collectedResults (log ++ [.handed work.index]) = collectedResults log :=
    List.filterMap_append.trans (List.append_nil _)
  refine ⟨?_, ?_, ?_, ?_, ?_, ?_, hb.resultsClosed, ?_⟩
  · obtain ⟨k, hk, hreached⟩ := hb.handed
    rw [harrival] at hreached
    obtain ⟨rfl, hsent, hlt⟩ := hreached
    refine ⟨work.index + 1, ?_, rfl, hsent, hlt⟩
    rw [hlog, hk, List.range_succ]
  · intro i
    have hupdate := weigh_update (performingJob i) s.workers hw (.performing work)
    have hjobs := hb.jobs i
    rw [hworker] at hupdate
    rw [hlog, hyielded, List.count_append, List.count_singleton]
    simp only [performingJob] at hupdate
    change _ = _ + weigh (performingJob i) _ (Function.update s.workers w (.performing work))
    omega
  · intro r
    have hupdate := weigh_update (sendingResult r) s.workers hw (.performing work)
    rw [hworker] at hupdate
    rw [hyielded, hcollected, hb.results r]
    exact congrArg (_ + ·) hupdate.symm
  · exact iff_of_false hopen fun h => by cases h
  · exact hb.leaving_update (by rintro ⟨⟩) (by rintro ⟨⟩)
  · exact fun hcloser => absurd (hb.waiting_of_worker hw (by rw [hworker]; decide)) hcloser
  · rw [hcollected]
    exact hb.collector

lemma RunBooks.yield (hb : RunBooks plan log s) {w : Nat} {work : Job} {r : Result} (hw : w < plan.concurrency)
    (hworker : s.workers w = .performing work) :
    RunBooks plan (log ++ [.yielded work.index r]) (s.setWorker w (.sending r)) := by
  have hhanded : handedJobs (log ++ [.yielded work.index r]) = handedJobs log :=
    List.filterMap_append.trans (List.append_nil _)
  have hlog : yieldedResults (log ++ [.yielded work.index r]) = yieldedResults log ++ [(work.index, r)] :=
    List.filterMap_append
  have hcollected : collectedResults (log ++ [.yielded work.index r]) = collectedResults log :=
    List.filterMap_append.trans (List.append_nil _)
  refine ⟨?_, ?_, ?_, hb.jobsClosed, ?_, ?_, hb.resultsClosed, ?_⟩
  · rw [hhanded]
    exact hb.handed
  · intro i
    have hupdate := weigh_update (performingJob i) s.workers hw (.sending r)
    have hjobs := hb.jobs i
    rw [hworker] at hupdate
    simp only [performingJob] at hupdate
    rw [hhanded, hlog, List.map_append, List.map_singleton, List.count_append, List.count_singleton]
    dsimp only
    change _ = _ + weigh (performingJob i) _ (Function.update s.workers w (.sending r))
    omega
  · intro r'
    have hupdate := weigh_update (sendingResult r') s.workers hw (.sending r)
    have hresults := hb.results r'
    rw [hworker] at hupdate
    simp only [sendingResult] at hupdate
    rw [hlog, hcollected, List.map_append, List.map_singleton, List.count_append, List.count_singleton]
    dsimp only
    change _ = _ + s.results.count r' + weigh (sendingResult r') _ (Function.update s.workers w (.sending r))
    omega
  · exact hb.leaving_update (by rintro ⟨⟩) (by rintro ⟨⟩)
  · exact fun hcloser => absurd (hb.waiting_of_worker hw (by rw [hworker]; rintro ⟨⟩)) hcloser
  · rw [hcollected]
    exact hb.collector

lemma RunBooks.send (hb : RunBooks plan log s) (hn : 0 < plan.concurrency) {w : Nat} {r : Result}
    (hw : w < plan.concurrency) (hworker : s.workers w = .sending r) :
    RunBooks plan log ({ s with results := s.results ++ [r] }.setWorker w .receiving) := by
  have hdone : s.workers w ≠ .done := by
    rw [hworker]
    rintro ⟨⟩
  refine ⟨hb.handed, ?_, ?_, hb.jobsClosed, ?_, ?_, hb.resultsClosed, ?_⟩
  · intro i
    have hupdate := weigh_update (performingJob i) s.workers hw .receiving
    rw [hworker] at hupdate
    rw [hb.jobs i]
    exact congrArg (_ + ·) hupdate.symm
  · intro r'
    have hupdate := weigh_update (sendingResult r') s.workers hw .receiving
    have hresults := hb.results r'
    rw [hworker] at hupdate
    simp only [sendingResult] at hupdate
    change _ = _ + (s.results ++ [r]).count r' + weigh (sendingResult r') _ (Function.update s.workers w .receiving)
    rw [List.count_append, List.count_singleton]
    omega
  · exact hb.leaving_update (by rintro ⟨⟩) (by rintro ⟨⟩)
  · exact fun hcloser => absurd (hb.waiting_of_worker hw hdone) hcloser
  · change CollectorHolds _ _ _ s.collector
    rw [hb.collecting (hb.open_of_worker hn hw hdone)]
    rfl

lemma RunBooks.collect (hb : RunBooks plan log s) {r : Result} {results : List Result} {summary : Summary}
    (hcollector : s.collector = .collecting summary) (hresults : s.results = r :: results) :
    RunBooks plan (log ++ [.collected r]) { s with results, collector := .collecting (summary.add r) } := by
  have hhanded : handedJobs (log ++ [.collected r]) = handedJobs log :=
    List.filterMap_append.trans (List.append_nil _)
  have hyielded : yieldedResults (log ++ [.collected r]) = yieldedResults log :=
    List.filterMap_append.trans (List.append_nil _)
  have hlog : collectedResults (log ++ [.collected r]) = collectedResults log ++ [r] := List.filterMap_append
  refine ⟨?_, ?_, ?_, hb.jobsClosed, hb.leaving, hb.finished, hb.resultsClosed, ?_⟩
  · rw [hhanded]
    exact hb.handed
  · rw [hhanded, hyielded]
    exact hb.jobs
  · intro r'
    have hbalance := hb.results r'
    rw [hresults, List.count_cons] at hbalance
    rw [hyielded, hlog, List.count_append, List.count_singleton]
    dsimp only
    omega
  · have hholds := hb.collector
    rw [hcollector] at hholds
    have hsummary : summary = tally (collectedResults log) := hholds
    change summary.add r = tally _
    rw [hlog, hsummary, tally, tally, List.foldl_append]
    rfl

lemma RunBooks.count (hb : RunBooks plan log s) (hn : 0 < plan.concurrency) {i : Nat}
    (harrival : s.arrival = .counting i) :
    RunBooks plan log { s with sent := s.sent + 1, arrival := .next (i + 1) } := by
  have harrived : s.arrival ≠ .done := by
    rw [harrival]
    rintro ⟨⟩
  refine { hb with handed := ?_, jobsClosed := ?_, collector := ?_ }
  · obtain ⟨k, hk, hreached⟩ := hb.handed
    rw [harrival] at hreached
    obtain ⟨rfl, hsent, -⟩ := hreached
    exact ⟨i + 1, hk, rfl, congrArg (· + 1) hsent⟩
  · exact iff_of_false (fun hclosed => harrived (hb.jobsClosed.mp hclosed)) (by rintro ⟨⟩)
  · change CollectorHolds _ _ _ s.collector
    rw [hb.collecting (hb.open_of_arrival hn harrived)]
    rfl

lemma RunBooks.closeResults (hb : RunBooks plan log s) (hcloser : s.closer = .closing) :
    RunBooks plan log { s with resultsClosed := true, closer := .done } := by
  have hopen : s.resultsClosed = false := Bool.eq_false_of_not_eq_true fun hclosed => by
    rw [hb.resultsClosed.mp hclosed] at hcloser
    cases hcloser
  refine { hb with finished := fun _ => hb.finished ?_, resultsClosed := iff_of_true rfl rfl, collector := ?_ }
  · rw [hcloser]
    rintro ⟨⟩
  · change CollectorHolds _ _ _ s.collector
    rw [hb.collecting hopen]
    rfl

lemma runBooks_quiet {action : RunAction} (hn : 0 < plan.concurrency) (hb : RunBooks plan log s)
    (hcalm : Calm plan s) (hcalm' : Calm plan s') (h : Stepped plan s action s' []) : RunBooks plan log s' := by
  cases h with
  | cancelled => exact { hb with }
  | exhausted i harrival hend =>
    refine hb.move (by rw [harrival]; rintro ⟨⟩) (by rintro ⟨⟩) fun k hk => ?_
    rw [harrival] at hk
    exact hk.2
  | due i offset harrival hoffset hearly =>
    refine hb.move (by rw [harrival]; rintro ⟨⟩) (by rintro ⟨⟩) fun k hk => ?_
    rw [harrival] at hk
    obtain ⟨rfl, hsent⟩ := hk
    exact ⟨rfl, hsent, (List.getElem?_eq_some_iff.mp hoffset).1⟩
  | counted i harrival => exact hb.count hn harrival
  | jobsClosed harrival =>
    refine { hb with handed := ?_, jobsClosed := iff_of_true rfl rfl, leaving := fun _ _ _ => rfl }
    obtain ⟨k, hk, hreached⟩ := hb.handed
    rw [harrival] at hreached
    exact ⟨k, hk, hreached⟩
  | fired i offset harrival =>
    refine hb.move (by rw [harrival]; rintro ⟨⟩) (by rintro ⟨⟩) fun k hk => ?_
    rw [harrival] at hk
    exact hk
  | stopped i offset harrival =>
    refine hb.move (by rw [harrival]; rintro ⟨⟩) (by rintro ⟨⟩) fun k hk => ?_
    rw [harrival] at hk
    exact hk.2.1
  | left w answers hw hworker hclosed => exact hb.relabel hw (.inl hworker) (.inl rfl) hclosed
  | panicked w answers work panic hw => exact absurd (Function.update_self w _ _) (hcalm'.workers w hw panic)
  | refused w answers r hw => exact absurd (Function.update_self w _ _) (hcalm'.workers w hw _)
  | unwound w answers panic hw hworker => exact absurd hworker (hcalm.workers w hw panic)
  | exited => exact absurd rfl hcalm'.running
  | sent w answers r hw hworker hopen hroom => exact hb.send hn hw hworker
  | retired w answers hw hworker =>
    exact hb.relabel hw (.inr hworker) (.inr rfl) (hb.leaving w hw (.inl hworker))
  | waited hcloser hdone =>
    refine { hb with finished := fun _ => hdone, resultsClosed := ?_ }
    refine iff_of_false (fun hclosed => ?_) (by rintro ⟨⟩)
    rw [hb.resultsClosed.mp hclosed] at hcloser
    cases hcloser
  | resultsClosed hcloser => exact hb.closeResults hcloser
  | drained summary hcollector hresults hclosed =>
    have hholds := hb.collector
    rw [hcollector] at hholds
    exact { hb with collector := ⟨hholds, hresults, hclosed⟩ }
  | returned summary hcollector =>
    have hholds := hb.collector
    rw [hcollector] at hholds
    obtain ⟨hsummary, hdrained⟩ := hholds
    exact { hb with collector := ⟨by rw [hsummary], hdrained⟩ }

lemma runBooks_step {action : RunAction} {notes : List Note} (hn : 0 < plan.concurrency) (hb : RunBooks plan log s)
    (hcalm : Calm plan s) (hcalm' : Calm plan s') (h : Stepped plan s action s' notes) :
    RunBooks plan (log ++ notes) s' := by
  by_cases hnotes : notes = []
  · subst hnotes
    rw [List.append_nil]
    exact runBooks_quiet hn hb hcalm hcalm' h
  · cases h with
    | handed w work harrival hw hworker => exact hb.hand hw harrival hworker
    | performed w answers work r hw hworker hperform => exact hb.yield hw hworker
    | collected r results summary hcollector hresults => exact hb.collect hcollector hresults
    | _ => exact absurd rfl hnotes

end books

end FraudDetection.Proofs
