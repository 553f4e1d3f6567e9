import FraudDetection.Proofs.RingServing

/-!
# Recovery of the ring

While the daemon serves, no state of the ring is a dead end: the calls in progress can return, the
daemon can answer all that was published, and the reclaimer can release what was handed to it,
until every slot is free. Each of the three threads has a rank that its steps lower.
-/

namespace FraudDetection.Proofs
open FraudDetection.Library
open FraudDetection.Ring

variable {cfg : Config} {dc : DaemonConfig} {g : Ghost} {m : Shared} {s : System} {trace : Trace}

section calls

/-- What a call chooses when its deadlines pass. -/
def settleChoice : SubmitPC → SubmitChoice
  | .prepare => .prepared 0 0
  | .compareExchange _ _ => .exchange false
  | .serializing _ => .serialized 0 0
  | .reserveDeadline _ | .publishDeadline _ _ _ | .waitDeadline _ => .clock true
  | _ => .next

/-- A bound on the steps that a call then takes. -/
def submitRank : SubmitPC → Nat
  | .idle | .returned _ => 0
  | .reserveDeadline _ | .releaseStore _ _ | .handoffPush _ _ => 1
  | .readCompleteNs _ _ _ _ | .handoffLoad _ _ => 2
  | .readDecision _ _ _ | .waitDeadline _ => 3
  | .readScore _ _ => 4
  | .readStatus _ => 5
  | .readRequestId _ => 6
  | .waitLoad _ => 7
  | .publishReady _ _ => 8
  | .publishStore _ _ => 9
  | .publishing _ todo _ => 10 + todo.length
  | .publishDeadline _ _ _ => 19
  | .serializing _ => 20
  | .compareExchange _ _ => 21
  | .loadSequence _ _ => 22
  | .loadEnqueue _ => 23
  | .reserveReady _ => 24
  | .prepare => 25
  | .checkReady => 26
  | .checkBody => 27

def CallSettled (pc : SubmitPC) : Prop := pc = .idle ∨ ∃ result, pc = .returned result

variable (cfg) in
lemma submit_progress {pc : SubmitPC} (hpc : ¬CallSettled pc)
    (hpush : ∀ v err, pc = .handoffPush v err → v.position ∉ m.pending ∧ m.pending.length < cfg.slotCount) :
    ∃ next, submitStep cfg pc m (settleChoice pc) = some next ∧ submitRank next.1 < submitRank pc := by
  cases pc with
  | idle => exact absurd (.inl rfl) hpc
  | returned result => exact absurd (.inr ⟨result, rfl⟩) hpc
  | checkBody | prepare | loadEnqueue | reserveDeadline | publishDeadline | publishStore | waitDeadline | readDecision
  | readCompleteNs | releaseStore =>
    exact ⟨_, rfl, by simp [submitRank, publishCancel, publicationWrites]⟩
  | checkReady | reserveReady =>
    simp only [submitStep, reserveStep, settleChoice]
    split <;> exact ⟨_, rfl, by simp [submitRank]⟩
  | loadSequence r position =>
    simp only [submitStep, reserveStep, settleChoice]
    split_ifs <;> exact ⟨_, rfl, by simp [submitRank]⟩
  | compareExchange r position =>
    simp only [submitStep, reserveStep, settleChoice]
    split <;> exact ⟨_, rfl, by simp [submitRank]⟩
  | serializing v =>
    simp only [submitStep, reserveStep, publishStep, settleChoice, Option.none_or]
    rw [if_pos (Nat.zero_le _)]
    exact ⟨_, rfl, by simp [submitRank]⟩
  | publishing v todo failure =>
    cases todo with
    | nil => exact ⟨_, rfl, by simp [submitRank]⟩
    | cons w rest => exact ⟨_, rfl, by simp [submitRank]⟩
  | publishReady v failure =>
    cases failure with
    | none => exact ⟨_, rfl, by simp [submitRank]⟩
    | some err => exact ⟨_, rfl, by simp [submitRank]⟩
  | waitLoad | handoffLoad | readRequestId =>
    simp only [submitStep, reserveStep, publishStep, finishStep, settleChoice, Option.none_or]
    split <;> exact ⟨_, rfl, by simp [submitRank]⟩
  | readStatus | readScore =>
    simp only [submitStep, reserveStep, publishStep, finishStep, settleChoice, Option.none_or]
    split <;> exact ⟨_, rfl, by simp [submitRank]⟩
  | handoffPush v err =>
    obtain ⟨hnew, hroom⟩ := hpush v err rfl
    simp only [submitStep, reserveStep, publishStep, finishStep, settleChoice, Option.none_or]
    rw [if_neg hnew, if_pos hroom]
    exact ⟨_, rfl, by simp [submitRank]⟩

lemma timely_settleChoice (dc : DaemonConfig) (pc : SubmitPC) : TimelyChoice dc (settleChoice pc) := by
  cases pc with
  | prepare => exact timelyNs_zero dc
  | _ => trivial

lemma stepThread_some (t : Party) {choice : Choice t} {next : Local t × Shared × Label}
    (h : program cfg dc t (s.locals t) s.shared choice = some next) :
    stepThread (program cfg dc) s ⟨t, choice⟩ =
      some (⟨next.2.1, Function.update s.locals t next.1⟩, t, next.2.2) :=
  Option.map_eq_some_iff.mpr ⟨next, h, rfl⟩

lemma call_settles (hs : InService cfg dc s trace) (call : Nat) :
    ∃ actions s' new, (∀ a ∈ actions, a.1 = .submit call ∧ Orderly dc a) ∧
      runThreads (program cfg dc) s actions = some (s', new) ∧ InService cfg dc s' (trace ++ new) ∧
        CallSettled (s'.locals (.submit call)) := by
  refine runThreads_reaches (InService cfg dc) (fun s _ => CallSettled (s.locals (.submit call))) Nat.lt_wfRel.wf
    (fun s => submitRank (s.locals (.submit call))) (fun s trace hs hgoal => ?_) hs
  obtain ⟨next, hstep, hlower⟩ := submit_progress cfg hgoal fun v err hpc => push_room hs.reached hpc
  have hprogram : program cfg dc (.submit call) (s.locals (.submit call)) s.shared
      (settleChoice (s.locals (.submit call))) = some next := hstep
  have horderly : Orderly dc ⟨.submit call, settleChoice (s.locals (.submit call))⟩ := timely_settleChoice dc _
  have hrun := stepThread_some (.submit call) hprogram
  refine ⟨_, _, _, ⟨rfl, horderly⟩, hrun, inService_step hs horderly hrun, .inr ?_⟩
  dsimp only
  rw [Function.update_self]
  exact hlower

lemma calls_settle (calls : List Nat) (hs : InService cfg dc s trace) :
    ∃ actions s' new, (∀ a ∈ actions, (∃ call ∈ calls, a.1 = .submit call) ∧ Orderly dc a) ∧
      runThreads (program cfg dc) s actions = some (s', new) ∧ InService cfg dc s' (trace ++ new) ∧
        ∀ call ∈ calls, CallSettled (s'.locals (.submit call)) := by
  induction calls generalizing s trace with
  | nil =>
    refine ⟨[], s, [], fun _ h => absurd h List.not_mem_nil, rfl, ?_, fun _ h => absurd h List.not_mem_nil⟩
    rwa [List.append_nil]
  | cons call calls ih =>
    obtain ⟨actions₁, s₁, new₁, hactions₁, hrun₁, hs₁, hsettled₁⟩ := call_settles hs call
    obtain ⟨actions₂, s₂, new₂, hactions₂, hrun₂, hs₂, hsettled₂⟩ := ih hs₁
    refine ⟨actions₁ ++ actions₂, s₂, new₁ ++ new₂, fun a ha => ?_, runThreads_trans hrun₁ hrun₂, ?_, ?_⟩
    · rcases List.mem_append.mp ha with ha | ha
      · exact ⟨⟨call, List.mem_cons_self, (hactions₁ a ha).1⟩, (hactions₁ a ha).2⟩
      · obtain ⟨⟨c, hc, hparty⟩, horderly⟩ := hactions₂ a ha
        exact ⟨⟨c, List.mem_cons_of_mem _ hc, hparty⟩, horderly⟩
    · rwa [← List.append_assoc]
    · intro c hc
      by_cases hmem : c ∈ calls
      · exact hsettled₂ c hmem
      · obtain rfl := (List.mem_cons.mp hc).resolve_right hmem
        -- the later calls leave this one alone
        rw [runThreads_frame hrun₂ fun a ha hparty => ?_]
        · exact hsettled₁
        · obtain ⟨⟨d, hd, hparty'⟩, -⟩ := hactions₂ a ha
          cases hparty.symm.trans hparty'
          exact hmem hd

def Party.call : Party → Option Nat
  | .submit call => some call
  | _ => none

open Classical in
lemma all_settle {actions : List Action} (horderly : ∀ a ∈ actions, Orderly dc a)
    (hrun : runThreads (program cfg dc) (System.initial cfg) actions = some (s, trace)) :
    ∃ (more : List Action) (s' : System) (new : Trace), (∀ a ∈ more, Orderly dc a) ∧
      runThreads (program cfg dc) s more = some (s', new) ∧ InService cfg dc s' (trace ++ new) ∧ s'.settled ∧
        ∀ call, CallSettled (s.locals (.submit call)) → s'.locals (.submit call) = s.locals (.submit call) := by
  have hs : InService cfg dc s trace := run_inService (inService_initial cfg dc) horderly hrun
  let open_calls := (actions.filterMap fun a => Party.call a.1).filter fun call => ¬CallSettled (s.locals (.submit call))
  obtain ⟨more, s', new, hmore, hrun', hs', hsettled⟩ := calls_settle open_calls hs
  have hkept : ∀ call ∉ open_calls, s'.locals (.submit call) = s.locals (.submit call) := by
    intro call hcall
    refine runThreads_frame hrun' fun a ha hparty => ?_
    obtain ⟨⟨d, hd, hparty'⟩, -⟩ := hmore a ha
    cases hparty.symm.trans hparty'
    exact hcall hd
  refine ⟨more, s', new, fun a ha => (hmore a ha).2, hrun', hs', fun call => ?_,
    fun call hcall => hkept call fun hmem => ?_⟩
  · by_cases hmem : call ∈ open_calls
    · exact hsettled call hmem
    change CallSettled (s'.locals (.submit call))
    rw [hkept call hmem]
    by_contra hopen
    -- a call that no action names has not started
    have hidle : s.locals (.submit call) = SubmitPC.idle := by
      rw [runThreads_frame hrun fun a ha hparty => hmem ?_]
      · rfl
      · refine List.mem_filter.mpr ⟨List.mem_filterMap.mpr ⟨a, ha, by rw [hparty]; rfl⟩, ?_⟩
        exact decide_eq_true hopen
    exact hopen (.inl hidle)
  · have hopen := (List.mem_filter.mp hmem).2
    exact of_decide_eq_true hopen hcall

end calls

section batches

/-- What the daemon chooses: its clock reaches the deadline of the batch, and CUDA succeeds. -/
def serveChoice (dc : DaemonConfig) : DaemonPC → DaemonChoice
  | .decide b => .clock (b.oldestEnqueueNs + dc.slaDeadlineNs)
  | .launching _ _ | .synchronizing _ _ _ _ _ => .cuda true
  | _ => .next

def stagedRank (n : Nat) : Nat := if n = 0 then 0 else 18 + 7 * n

/-- A bound on the steps until the daemon consumes a position or is back in its loop with no slot
staged. -/
def daemonRank : DaemonPC → Nat
  | .loop b => stagedRank b.staged.length + 10
  | .poll b => stagedRank b.staged.length + 9
  | .consuming b .loadDequeue => stagedRank b.staged.length + 7
  | .consuming b (.loadSequence _) => stagedRank b.staged.length + 6
  | .consuming b (.compareExchange _) => stagedRank b.staged.length + 5
  | .consuming b (.takeReady _) => stagedRank (b.staged.length + 1) + 11
  | .stage b _ => stagedRank (b.staged.length + 1) + 10
  | .decide b => 17 + 7 * b.staged.length
  | .decoding h views => 16 + 6 * h.batcher.staged.length + (h.batcher.staged.length - views.length)
  | .launching h _ => 15 + 6 * h.batcher.staged.length
  | .preparing h _ _ _ positions =>
    14 + 5 * h.batcher.staged.length + (h.batcher.staged.length - positions.length)
  | .synchronizing h _ _ _ _ => 13 + 5 * h.batcher.staged.length
  | .completing _ todo => 12 + (todo.map fun c => c.todo.length + 1).sum
  | .stopping _ | .flushing _ | .finished _ => 0

def backlog (m : Shared) : Nat := m.enqueue - m.dequeue

lemma backlog_ready (m : Shared) (delta : Nat) : backlog (m.addReady delta) = backlog m := rfl

/-- The daemon is in its loop with nothing left to do. -/
def Drained (m : Shared) (pc : DaemonPC) : Prop := ∃ b, pc = .loop b ∧ b.staged = [] ∧ m.dequeue = m.enqueue

/-- What is left to do first, then the rank of the thread. -/
def LowerWork (next work : Nat × Nat) : Prop := Prod.Lex (· < ·) (· < ·) next work

lemma lowerWork_wf : WellFounded LowerWork := WellFounded.prod_lex Nat.lt_wfRel.wf Nat.lt_wfRel.wf

lemma overdue {b : Batcher} (h : TimelyNs dc b.oldestEnqueueNs) :
    (decide (b.oldestEnqueueNs ≤ b.oldestEnqueueNs + dc.slaDeadlineNs) &&
      decide (dc.slaDeadlineNs ≤ b.oldestEnqueueNs + dc.slaDeadlineNs - b.oldestEnqueueNs)) = true := by
  have hsum : (b.oldestEnqueueNs + dc.slaDeadlineNs).toNat = b.oldestEnqueueNs.toNat + dc.slaDeadlineNs.toNat := by
    rw [UInt64.toNat_add, Nat.mod_eq_of_lt h]
  have hle : b.oldestEnqueueNs ≤ b.oldestEnqueueNs + dc.slaDeadlineNs := by
    rw [UInt64.le_iff_toNat_le, hsum]
    exact Nat.le_add_right _ _
  have hdiff : dc.slaDeadlineNs ≤ b.oldestEnqueueNs + dc.slaDeadlineNs - b.oldestEnqueueNs := by
    rw [UInt64.le_iff_toNat_le, UInt64.toNat_sub_of_le _ _ hle, hsum, Nat.add_sub_cancel_left]
  rw [decide_eq_true hle, decide_eq_true hdiff]
  rfl

variable {pc : DaemonPC}

lemma lowers (pc' : DaemonPC) (m' : Shared) (label : Label) {out : Option (DaemonPC × Shared × Label)}
    (h : out = some (pc', m', label)) (hbacklog : backlog m' = backlog m) (hrank : daemonRank pc' < daemonRank pc) :
    ∃ next, out = some next ∧ (Drained next.2.1 next.1 ∨
      LowerWork (backlog next.2.1, daemonRank next.1) (backlog m, daemonRank pc)) := by
  refine ⟨_, h, .inr ?_⟩
  dsimp only
  rw [hbacklog]
  exact Prod.Lex.right _ hrank

/-- What `try_consume` finds at the cursor, once everything claimed is published. -/
lemma cursor_word (hg : RingGuard cfg dc g m) (hpublished : ∀ p < m.enqueue, 2 ≤ (g.stage p).rank) :
    m.dequeue < m.enqueue ∧ m.sequence (m.dequeue % cfg.slotCount) = m.dequeue + 1 ∨
      m.dequeue = m.enqueue ∧ m.sequence (m.dequeue % cfg.slotCount) < m.dequeue + 1 := by
  rcases Nat.lt_or_eq_of_le hg.ring.dequeue_le with hlt | heq
  · have hrank := hpublished m.dequeue hlt
    have hnot := mt (hg.ring.consumed m.dequeue).mp (Nat.lt_irrefl _)
    have hstage : g.stage m.dequeue = .published := by
      apply Stage.rank_injective
      change _ = 2
      omega
    exact .inl ⟨hlt, hg.word_of hstage Stage.noConfusion Stage.noConfusion⟩
  · refine .inr ⟨heq, Nat.lt_of_not_le fun hobserved => ?_⟩
    have hstage := hg.published_of_observed hobserved
    have hlt := (hg.ring.claimed m.dequeue).mp (hstage.trans_ne Stage.noConfusion)
    omega

/-- `try_consume` at the cursor takes a position or finds the ring empty. -/
lemma consuming_progress {b : Batcher} {pc : ConsumePC} (hg : RingGuard cfg dc g m)
    (ho : ConsumeOwn cfg .daemon g m b.staged pc) (hcursor : AtCursor m (.consuming b pc))
    (hpublished : ∀ p < m.enqueue, 2 ≤ (g.stage p).rank) :
    ∃ next, daemonStep cfg dc (.consuming b pc) m .next = some next ∧ (Drained next.2.1 next.1 ∨
      LowerWork (backlog next.2.1, daemonRank next.1) (backlog m, daemonRank (.consuming b pc))) := by
  cases pc with
  | loadDequeue => exact lowers _ _ _ rfl rfl (by simp [daemonRank])
  | takeReady p =>
    exact lowers (.stage b (slotAt cfg p)) (m.addReady (2 ^ 64 - 1)) .quiet rfl (backlog_ready m _)
      (by simp [daemonRank])
  | loadSequence p =>
    obtain rfl : p = m.dequeue := hcursor
    rcases cursor_word hg hpublished with ⟨-, hword⟩ | ⟨heq, hword⟩
    · have hzero : ((m.sequence (slotAt cfg m.dequeue) : Int) - (m.dequeue + 1)) = 0 := by
        rw [slotAt, hword]
        omega
      refine lowers (.consuming b (.compareExchange m.dequeue)) m .quiet ?_ rfl (by simp [daemonRank])
      simp only [daemonStep, pollStep, consumeStep, if_pos hzero, Option.some_or]
    · have hneg : ((m.sequence (slotAt cfg m.dequeue) : Int) - (m.dequeue + 1)) < 0 := by
        rw [slotAt]
        omega
      have hne : ((m.sequence (slotAt cfg m.dequeue) : Int) - (m.dequeue + 1)) ≠ 0 := by omega
      have hstep : daemonStep cfg dc (.consuming b (.loadSequence m.dequeue)) m .next =
          some (if b.staged.length = 0 then .loop b else .decide b, m, .quiet) := by
        simp only [daemonStep, pollStep, consumeStep, if_neg hne, if_pos hneg, Option.some_or]
      by_cases hempty : b.staged.length = 0
      · rw [if_pos hempty] at hstep
        exact ⟨_, hstep, .inl ⟨b, rfl, List.eq_nil_of_length_eq_zero hempty, heq⟩⟩
      · rw [if_neg hempty] at hstep
        refine lowers _ _ _ hstep rfl ?_
        simp only [daemonRank, stagedRank, if_neg hempty]
        omega
  | compareExchange p =>
    obtain rfl : p = m.dequeue := hcursor
    have hstage := hg.published_of_observed ho.2
    have hlt := (hg.ring.claimed m.dequeue).mp (hstage.trans_ne Stage.noConfusion)
    refine ⟨(.consuming b (.takeReady m.dequeue), { m with dequeue := m.dequeue + 1 }, .consume m.dequeue), ?_, .inr ?_⟩
    · simp only [daemonStep, pollStep, consumeStep, if_pos, Option.some_or]
    · refine Prod.Lex.left _ _ ?_
      simp only [backlog]
      omega

lemma completions_rank (h : Handling) (views : List (Option TransactionView)) (status : UInt32) (syncFailed : Bool)
    (positions : List Nat) :
    ((completions h views status syncFailed positions).map fun c => c.todo.length + 1).sum ≤
      5 * h.batcher.staged.length := by
  have hsum : ∀ xs : List ((Nat × Nat) × Option TransactionView),
      ((xs.map fun x => Completing.start x.1.1 x.1.2 (respond x.2 status syncFailed h.now)).map
        fun c => c.todo.length + 1).sum = 5 * xs.length := by
    intro xs
    induction xs with
    | nil => rfl
    | cons x xs ih =>
      simp only [List.map_cons, List.sum_cons, ih, List.length_cons]
      change 5 + 5 * xs.length = _
      omega
  have hlength : ((h.batcher.staged.zip positions).zip views).length ≤ h.batcher.staged.length := by
    rw [List.length_zip, List.length_zip]
    omega
  refine Nat.le_trans (Nat.le_of_eq (hsum _)) ?_
  omega

lemma completing_progress {h : Handling} {todo : List Completing} (hflushing : h.flushing = false) :
    ∃ next, daemonStep cfg dc (.completing h todo) m .next = some next ∧ (Drained next.2.1 next.1 ∨
      LowerWork (backlog next.2.1, daemonRank next.1) (backlog m, daemonRank (.completing h todo))) := by
  cases todo with
  | nil =>
    refine lowers (.loop h.finish) m .quiet ?_ rfl ?_
    · simp only [daemonStep, pollStep, handleStep, Option.none_or, hflushing, Bool.false_eq_true, if_false]
    · simp [daemonRank, stagedRank, Handling.finish]
  | cons c rest =>
    obtain ⟨slot, position, response, writes⟩ := c
    cases writes with
    | nil =>
      refine lowers (.completing h rest) _ _ rfl rfl ?_
      simp [daemonRank]
    | cons w writes =>
      refine lowers (.completing h (⟨slot, position, response, writes⟩ :: rest)) _ _ rfl rfl ?_
      simp [daemonRank]

lemma daemon_progress (hbatch : 1 ≤ dc.maxBatchSize ∧ dc.maxBatchSize ≤ maxBatch) (hg : RingGuard cfg dc g m)
    (ho : DaemonOwn cfg dc g m pc) (hlive : SegmentServes dc m) (hserves : DaemonServes dc pc) (hcursor : AtCursor m pc)
    (hpublished : ∀ p < m.enqueue, 2 ≤ (g.stage p).rank) :
    ∃ next, daemonStep cfg dc pc m (serveChoice dc pc) = some next ∧ (Drained next.2.1 next.1 ∨
      LowerWork (backlog next.2.1, daemonRank next.1) (backlog m, daemonRank pc)) := by
  cases pc with
  | loop b =>
    have hsize : ¬(dc.maxBatchSize = 0 ∨ maxBatch < dc.maxBatchSize) := by omega
    refine lowers (.poll b) m .quiet ?_ rfl (by simp [daemonRank])
    simp only [daemonStep, pollStep, serveChoice, if_neg (Bool.eq_false_iff.mp hlive.accepting), if_neg hsize,
      Option.some_or]
  | poll b =>
    by_cases hroom : b.staged.length < dc.maxBatchSize
    · refine lowers (.consuming b .loadDequeue) m .quiet ?_ rfl (by simp [daemonRank])
      simp only [daemonStep, pollStep, serveChoice, if_pos hroom, Option.some_or]
    · refine lowers (.decide b) m .quiet ?_ rfl ?_
      · simp only [daemonStep, pollStep, serveChoice, if_neg hroom, Option.some_or]
      · have hstaged : b.staged.length ≠ 0 := by omega
        simp only [daemonRank, stagedRank, if_neg hstaged]
        omega
  | consuming b pc => exact consuming_progress hg ho hcursor hpublished
  | stage b slot => exact lowers _ _ _ rfl rfl (by simp [daemonRank])
  | decide b =>
    refine lowers (.decoding ⟨b, b.oldestEnqueueNs + dc.slaDeadlineNs, b.staged.length == dc.maxBatchSize,
      false⟩ []) m .quiet ?_ rfl ?_
    · simp only [daemonStep, pollStep, serveChoice, overdue hserves, Bool.not_true, Bool.and_false,
        Bool.false_eq_true, if_false, Option.some_or]
    · simp only [daemonRank, List.length_nil]
      omega
  | decoding h views =>
    cases hget : h.batcher.staged[views.length]? with
    | none =>
      refine lowers (.launching h views) m .quiet ?_ rfl ?_
      · simp only [daemonStep, pollStep, handleStep, serveChoice, hget, Option.none_or]
      · simp only [daemonRank]
        omega
    | some slot =>
      have hlt := (List.getElem?_eq_some_iff.mp hget).1
      refine lowers (.decoding h (views ++ [decodeTransaction cfg dc (m.data slot)])) m .quiet ?_ rfl ?_
      · simp only [daemonStep, pollStep, handleStep, serveChoice, hget, Option.none_or]
      · simp only [daemonRank, List.length_append, List.length_singleton]
        omega
  | launching h views =>
    by_cases hcuda : (dc.cudaGraphsReady && views.countP Option.isSome != 0) = true
    · refine lowers (.preparing h views 200 true []) m .quiet ?_ rfl ?_
      · simp only [daemonStep, pollStep, handleStep, serveChoice, if_pos hcuda, if_true, Option.none_or]
      · simp only [daemonRank, List.length_nil]
        omega
    · refine lowers (.preparing h views 200 false []) m .quiet ?_ rfl ?_
      · simp only [daemonStep, pollStep, handleStep, serveChoice, if_neg hcuda, Option.none_or]
      · simp only [daemonRank, List.length_nil]
        omega
  | preparing h views status launched positions =>
    cases hget : h.batcher.staged[positions.length]? with
    | none =>
      refine lowers (.synchronizing h views status launched positions) m .quiet ?_ rfl ?_
      · simp only [daemonStep, pollStep, handleStep, serveChoice, hget, Option.none_or]
      · simp only [daemonRank]
        omega
    | some slot =>
      have hlt := (List.getElem?_eq_some_iff.mp hget).1
      refine lowers (.preparing h views status launched (positions ++ [m.sequence slot - 1])) m .quiet ?_ rfl ?_
      · simp only [daemonStep, pollStep, handleStep, serveChoice, hget, Option.none_or]
      · simp only [daemonRank, List.length_append, List.length_singleton]
        omega
  | synchronizing h views status launched positions =>
    have hsum := completions_rank h views status (launched && !true) positions
    refine lowers _ _ _ rfl rfl ?_
    simp only [daemonRank]
    omega
  | completing h todo => exact completing_progress hserves.1
  | stopping b | flushing b | finished b => exact hserves.elim

/-- A claimed position of a call that is over was handed to the reclaimer or is released. -/
lemma handed_of_settled (hs : InService cfg dc s trace) (hsettled : s.settled) {p : Nat} (hp : p < s.shared.enqueue) :
    (ghostOf cfg trace).handed p = true ∨ (ghostOf cfg trace).stage p = .released := by
  have hclaimed := (hs.reached.guard.ring.claimed p).mpr hp
  obtain ⟨u, hu⟩ := Option.ne_none_iff_exists'.mp (mt (hs.reached.guard.unclaimed p).mpr hclaimed)
  have hmem := (hs.reached.history.claims u p).mpr hu
  have hdeployed := hs.parties _ hmem
  have hproduces := hs.reached.history.claims_by u p hmem
  cases u with
  | submit call =>
    have hown : SubmitOwn cfg (.submit call) (ghostOf cfg trace) s.shared (s.locals (.submit call)) :=
      hs.reached.own (.submit call)
    rcases hsettled call with hidle | ⟨result, hreturned⟩
    · rw [hidle] at hown
      exact absurd hu (hown p)
    · rw [hreturned] at hown
      exact hown.1 p hu
  | reclaimer | daemon => cases hproduces
  | producer k | consumer k => cases hdeployed

lemma published_of_settled (hs : InService cfg dc s trace) (hsettled : s.settled) :
    ∀ p < s.shared.enqueue, 2 ≤ ((ghostOf cfg trace).stage p).rank := by
  intro p hp
  rcases handed_of_settled hs hsettled hp with hhanded | hreleased
  · exact hs.reached.guard.handed p hhanded
  · rw [hreleased]
    decide

lemma serveChoice_orderly (dc : DaemonConfig) (pc : DaemonPC) : Orderly dc ⟨.daemon, serveChoice dc pc⟩ := by
  cases pc <;> rintro ⟨⟩

lemma daemon_drains (hbatch : 1 ≤ dc.maxBatchSize ∧ dc.maxBatchSize ≤ maxBatch) (hs : InService cfg dc s trace)
    (hsettled : s.settled) : ∃ (more : List Action) (s' : System) (new : Trace),
      (∀ a ∈ more, a.1 = .daemon ∧ Orderly dc a) ∧ runThreads (program cfg dc) s more = some (s', new) ∧
        (InService cfg dc s' (trace ++ new) ∧ s'.settled) ∧ Drained s'.shared (s'.locals .daemon) := by
  refine runThreads_reaches (fun s trace => InService cfg dc s trace ∧ System.settled s)
    (fun s _ => Drained s.shared (s.locals .daemon)) lowerWork_wf
    (fun s => (backlog s.shared, daemonRank (s.locals .daemon))) (fun s trace hs _ => ?_) ⟨hs, hsettled⟩
  obtain ⟨hs, hsettled⟩ := hs
  have hown : DaemonOwn cfg dc (ghostOf cfg trace) s.shared (s.locals .daemon) := hs.reached.own .daemon
  obtain ⟨next, hstep, hlower⟩ := daemon_progress hbatch hs.reached.guard hown hs.live hs.serves hs.cursor
    (published_of_settled hs hsettled)
  have hprogram : program cfg dc .daemon (s.locals .daemon) s.shared (serveChoice dc (s.locals .daemon)) =
      some next := hstep
  have horderly := serveChoice_orderly dc (s.locals .daemon)
  have hrun := stepThread_some .daemon hprogram
  refine ⟨_, _, _, ⟨rfl, horderly⟩, hrun, ⟨inService_step hs horderly hrun, hsettled⟩, ?_⟩
  dsimp only
  rw [Function.update_self]
  exact hlower

end batches

section reclaims

def outstandingAt : ReclaimerPC → List Nat
  | .swap outstanding | .scan outstanding _ | .store outstanding _ _ | .remove outstanding _ => outstanding

def entries (m : Shared) (pc : ReclaimerPC) : Nat := m.pending.length + (outstandingAt pc).length

/-- A bound on the steps until the reclaimer removes an entry. -/
def reclaimerRank (pending : List Nat) : ReclaimerPC → Nat
  | .remove _ _ => 1
  | .store _ _ _ => 2
  | .scan outstanding index => if index < outstanding.length then 3 else if pending = [] then 7 else 5
  | .swap _ => if pending = [] then 6 else 4

lemma answered_of_drained (hs : InService cfg dc s trace) (h : Drained s.shared (s.locals .daemon)) :
    ∀ p < s.shared.enqueue, 4 ≤ ((ghostOf cfg trace).stage p).rank := by
  obtain ⟨b, hpc, hstaged, heq⟩ := h
  intro p hp
  have hconsumed := (hs.reached.guard.ring.consumed p).mpr (heq ▸ hp)
  by_contra hnot
  have htaken : (ghostOf cfg trace).stage p = .taken := by
    apply Stage.rank_injective
    change _ = 3
    omega
  have hmem := hs.hands p htaken
  rw [hpc, slotsInHand, hstaged] at hmem
  exact absurd hmem List.not_mem_nil

lemma scan_word (hg : RingGuard cfg dc g m) {outstanding : List Nat} {index position : Nat}
    (ha : Accounted g m outstanding) (hget : outstanding[index]? = some position)
    (hanswered : ∀ p < m.enqueue, 4 ≤ (g.stage p).rank) :
    m.sequence (slotIndex cfg position) = position + 2 := by
  obtain ⟨hfree, hlive⟩ := accounted_use hg ha (List.mem_append_right _ (List.mem_of_getElem? hget))
  have hrank := hanswered position ((hg.ring.claimed position).mp hfree)
  have hstage : g.stage position = .completed := by
    cases hst : g.stage position with
    | completed => rfl
    | released => exact absurd hst hlive
    | _ =>
      rw [hst] at hrank
      exact absurd hrank (by decide)
  rw [slotIndex_eq]
  exact hg.word_of hstage Stage.noConfusion Stage.noConfusion

lemma reclaimer_progress {pc : ReclaimerPC} (hg : RingGuard cfg dc g m) (ho : ReclaimerOwn g m pc)
    (hanswered : ∀ p < m.enqueue, 4 ≤ (g.stage p).rank) (hleft : ¬(m.pending = [] ∧ outstandingAt pc = []))
    {next : ReclaimerPC × Shared × Label} (hnext : reclaimerStep cfg pc m = next) :
    LowerWork (entries next.2.1 next.1, reclaimerRank next.2.1.pending next.1)
      (entries m pc, reclaimerRank m.pending pc) := by
  cases pc with
  | swap outstanding =>
    subst hnext
    have hentries : entries { m with pending := outstanding } (.scan m.pending 0) = entries m (.swap outstanding) :=
      Nat.add_comm ..
    simp only [reclaimerStep, hentries]
    refine Prod.Lex.right _ ?_
    by_cases hp : m.pending = []
    · have ho : outstanding ≠ [] := fun h => hleft ⟨hp, h⟩
      simp only [reclaimerRank, hp, List.length_nil, Nat.lt_irrefl, if_false, if_neg ho, if_true]
      decide
    · simp only [reclaimerRank, if_pos (List.length_pos_iff.mpr hp), if_neg hp]
      decide
  | scan outstanding index =>
    subst hnext
    cases hget : outstanding[index]? with
    | none =>
      have hend := Nat.not_lt.mpr (List.getElem?_eq_none_iff.mp hget)
      simp only [reclaimerStep, hget]
      refine Prod.Lex.right _ ?_
      simp only [reclaimerRank, if_neg hend]
      split <;> decide
    | some position =>
      have hlt := (List.getElem?_eq_some_iff.mp hget).1
      simp only [reclaimerStep, hget, if_pos (scan_word hg ho hget hanswered)]
      refine Prod.Lex.right _ ?_
      simp only [reclaimerRank, if_pos hlt]
      decide
  | store outstanding index position =>
    subst hnext
    exact Prod.Lex.right _ (Nat.lt_succ_self 1)
  | remove outstanding index =>
    subst hnext
    obtain ⟨-, position, hget, -⟩ := ho
    have hlt := (List.getElem?_eq_some_iff.mp hget).1
    refine Prod.Lex.left _ _ ?_
    simp only [reclaimerStep, entries, outstandingAt, swapRemove_length]
    omega

lemma reclaimer_drains (hs : InService cfg dc s trace) (hdrained : Drained s.shared (s.locals .daemon)) :
    ∃ (more : List Action) (s' : System) (new : Trace),
      (∀ a ∈ more, a.1 = .reclaimer ∧ Orderly dc a) ∧ runThreads (program cfg dc) s more = some (s', new) ∧
        (InService cfg dc s' (trace ++ new) ∧ Drained s'.shared (s'.locals .daemon)) ∧
          s'.shared.pending = [] ∧ s'.outstanding = [] := by
  refine runThreads_reaches (fun s trace => InService cfg dc s trace ∧ Drained s.shared (s.locals .daemon))
    (fun s _ => s.shared.pending = [] ∧ System.outstanding s = []) lowerWork_wf
    (fun s => (entries s.shared (s.locals .reclaimer), reclaimerRank s.shared.pending (s.locals .reclaimer)))
    (fun s trace hs hleft => ?_) ⟨hs, hdrained⟩
  obtain ⟨hs, hdrained⟩ := hs
  have hown : ReclaimerOwn (ghostOf cfg trace) s.shared (s.locals .reclaimer) := hs.reached.own .reclaimer
  have hlower := reclaimer_progress hs.reached.guard hown (answered_of_drained hs hdrained) hleft rfl
  have hprogram : program cfg dc .reclaimer (s.locals .reclaimer) s.shared () =
      some (reclaimerStep cfg (s.locals .reclaimer) s.shared) := rfl
  have horderly : Orderly dc ⟨.reclaimer, ()⟩ := trivial
  have hrun := stepThread_some .reclaimer hprogram
  have heffect := (reached_step hs.reached hrun).2.1
  obtain ⟨b, hpc, hstaged, heq⟩ := hdrained
  refine ⟨_, _, _, ⟨rfl, horderly⟩, hrun, ⟨inService_step hs horderly hrun, b, hpc, hstaged, ?_⟩, .inr ?_⟩
  · rw [dequeue_of_effect heffect rfl, enqueue_of_effect heffect rfl]
    exact heq
  · dsimp only
    rw [Function.update_self]
    exact hlower

end reclaims

/-- From every state that the gateway and a serving daemon reach, a continuation without new
requests ends with every call returned, nothing left in the ring or in the lists of the reclaimer,
and each slot free for the next lap. What had returned before stays as it was. -/
theorem ring_recovers (cfg : Config) (dc : DaemonConfig)
    (hbatch : 1 ≤ dc.maxBatchSize ∧ dc.maxBatchSize ≤ maxBatch) (actions : List Action) (s : System) (trace : Trace)
    (hrun : runThreads (program cfg dc) (System.initial cfg) actions = some (s, trace))
    (horderly : ∀ a ∈ actions, Orderly dc a) :
    ∃ (more : List Action) (s' : System) (new : Trace), (∀ a ∈ more, Orderly dc a) ∧
      runThreads (program cfg dc) s more = some (s', new) ∧ s'.settled ∧
      (∀ call, CallSettled (s.locals (.submit call)) → s'.locals (.submit call) = s.locals (.submit call)) ∧
      Drained s'.shared (s'.locals .daemon) ∧ s'.shared.pending = [] ∧ s'.outstanding = [] ∧
      ∀ i < cfg.slotCount, ∃ q, q % cfg.slotCount = i ∧ s'.shared.enqueue ≤ q ∧
        q < s'.shared.enqueue + cfg.slotCount ∧ s'.shared.sequence i = q := by
  obtain ⟨more₁, s₁, new₁, hmore₁, hrun₁, hs₁, hsettled₁, hkept⟩ := all_settle horderly hrun
  obtain ⟨more₂, s₂, new₂, hmore₂, hrun₂, ⟨hs₂, hsettled₂⟩, hdrained₂⟩ := daemon_drains hbatch hs₁ hsettled₁
  obtain ⟨more₃, s₃, new₃, hmore₃, hrun₃, ⟨hs₃, hdrained₃⟩, hpending, houtstanding⟩ :=
    reclaimer_drains hs₂ hdrained₂
  have hcalls₂ : ∀ call, s₂.locals (.submit call) = s₁.locals (.submit call) := fun call =>
    runThreads_frame hrun₂ fun a ha hparty => by cases (hmore₂ a ha).1.symm.trans hparty
  have hcalls₃ : ∀ call, s₃.locals (.submit call) = s₂.locals (.submit call) := fun call =>
    runThreads_frame hrun₃ fun a ha hparty => by cases (hmore₃ a ha).1.symm.trans hparty
  have hsettled₃ : s₃.settled := by
    intro call
    rw [hcalls₃]
    exact hsettled₂ call
  refine ⟨more₁ ++ (more₂ ++ more₃), s₃, new₁ ++ (new₂ ++ new₃), ?_,
    runThreads_trans hrun₁ (runThreads_trans hrun₂ hrun₃), hsettled₃, fun call hcall => ?_, hdrained₃,
    hpending, houtstanding, fun i hi => ?_⟩
  · intro a ha
    rcases List.mem_append.mp ha with ha | ha
    · exact hmore₁ a ha
    · rcases List.mem_append.mp ha with ha | ha
      · exact (hmore₂ a ha).2
      · exact (hmore₃ a ha).2
  · rw [hcalls₃, hcalls₂, hkept call hcall]
  · refine hs₃.reached.guard.ring.free_of_released (fun p hp => ?_) hi
    by_contra hlive
    have hhanded := (handed_of_settled hs₃ hsettled₃ hp).resolve_right hlive
    have hcount := count_waiting hs₃.reached hhanded hlive
    rw [hpending, houtstanding] at hcount
    cases hcount

/-- One call has given up on a position that the daemon has staged, another has claimed the next
one and not yet published it. -/
def stuckRun : List Action :=
  submitActions 0 (publishChoices ++ [.next, .clock true, .next, .next]) ++
    daemonActions (List.replicate 5 DaemonChoice.next) ++ submitActions 1 (publishChoices.take 8) ++
      [⟨.reclaimer, ()⟩]

theorem ring_recovers_stuck : ∃ (s : System) (trace : Trace),
    runThreads (program fourSlots singleBatches) (System.initial fourSlots) stuckRun = some (s, trace) ∧
      s.outstanding = [0] ∧ s.shared.enqueue = 2 ∧ s.shared.dequeue = 1 ∧
      ∃ (more : List Action) (s' : System) (new : Trace),
        runThreads (program fourSlots singleBatches) s more = some (s', new) ∧ s'.settled ∧
          s'.outstanding = [] := by
  have hsome : (runThreads (program fourSlots singleBatches) (System.initial fourSlots) stuckRun).isSome := by rfl
  obtain ⟨⟨s, trace⟩, hrun⟩ := Option.isSome_iff_exists.mp hsome
  have hview : (runThreads (program fourSlots singleBatches) (System.initial fourSlots) stuckRun).map
      (fun x => (System.outstanding x.1, x.1.shared.enqueue, x.1.shared.dequeue)) = some ([0], 2, 1) := by rfl
  rw [hrun] at hview
  obtain ⟨houtstanding, henqueue, hdequeue⟩ :
      System.outstanding s = [0] ∧ s.shared.enqueue = 2 ∧ s.shared.dequeue = 1 := by simpa using hview
  have htimely : TimelyNs singleBatches 0 := timelyNs_zero singleBatches
  have horderly : ∀ a ∈ stuckRun, Orderly singleBatches a := by
    simp [stuckRun, submitActions, daemonActions, publishChoices, Orderly, TimelyChoice, htimely]
  obtain ⟨more, s', new, -, hmore, hsettled, -, -, -, hempty, -⟩ :=
    ring_recovers fourSlots singleBatches (by decide) stuckRun s trace hrun horderly
  exact ⟨s, trace, hrun, houtstanding, henqueue, hdequeue, more, s', new, hmore, hsettled, hempty⟩

end FraudDetection.Proofs
