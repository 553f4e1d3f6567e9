import FraudDetection.Proofs.SchedulerLedger

/-!
# What the steps of the scheduler do

`RunEffect` and `SubmitEffect` list, once, what a step of the run loop and of a call of `Submit`
can do to the shared state. `ledgerOf` reads the ledger off a state; every step is a move of the
ledger or leaves it alone.
-/

namespace FraudDetection.Proofs
open FraudDetection.Scheduler

variable {T R ε : Type}

def lateError (err : Error ε) : Prop :=
  match err with
  | .context _ | .resultCount | .handler _ => True
  | .closed | .full | .queueDelay => False

def waitingOf : RunPC T R ε → List CallId
  | .loadFirst it => [it]
  | .collect b => b.batch
  | .loadNext b it => b.batch ++ [it]
  | .dispatch batch _ => batch
  | .examine d => d.rest
  | .expire d it _ => it :: d.rest
  | .sendError d _ _ => d.rest
  | .claim d it => it :: d.rest
  | .closeDispatched d _ => d.rest
  | _ => []

def activeOf : RunPC T R ε → List CallId
  | .examine d => d.active
  | .expire d _ _ => d.active
  | .sendError d _ _ => d.active
  | .claim d _ => d.active
  | .closeDispatched d it => d.active ++ [it]
  | _ => []

/-- Items whose reply is still to be sent, the next one first. -/
def owedOf : RunPC T R ε → List CallId
  | .sendError _ it _ => [it]
  | .handling active _ => active
  | .replyNext r => r.active.drop r.next
  | .replySend r it _ => it :: r.active.drop (r.next + 1)
  | _ => []

/-- What the run loop keeps in its local variables: the values are those of the active items,
and the errors are of the kind that its replies may carry. -/
def RunLocal (w : Workload T) (word : CallId → ItemState) : RunPC T R ε → Prop
  | .examine d => d.values = d.active.map w.value
  | .expire d _ err => d.values = d.active.map w.value ∧ (err = .queueDelay ∨ lateError err)
  | .sendError d it err =>
    d.values = d.active.map w.value ∧ (err = .queueDelay ∨ lateError err) ∧ word it = .expired
  | .claim d _ => d.values = d.active.map w.value
  | .closeDispatched d _ => d.values = d.active.map w.value
  | .replyNext r => ∀ err, r.outcome = .error err → lateError err
  | .replySend r _ result =>
    (∀ err, r.outcome = .error err → lateError err) ∧ ∀ err, result = .error err → lateError err
  | _ => True

def ledgerOf (s : State T R ε) : Ledger where
  queue := s.queue
  admitted := s.admitted
  received := s.received
  waiting := waitingOf s.run
  active := activeOf s.run
  owed := owedOf s.run
  handled := s.invocations.flatMap Invocation.active
  replied := s.replies.map Prod.fst
  word c := (s.items c).state

inductive RunEffect (cfg : Config) (w : Workload T) (s : State T R ε) : State T R ε → Prop where
  | silent (pc : RunPC T R ε) (hwaiting : waitingOf pc = waitingOf s.run)
      (hactive : activeOf pc = activeOf s.run) (howed : owedOf pc = owedOf s.run)
      (hlocal : ∀ word, RunLocal w word s.run → RunLocal w word pc) :
      RunEffect cfg w s (s.jump pc)
  | take (pc : RunPC T R ε) (it : CallId) (rest : List CallId) (hq : s.queue = it :: rest)
      (hroom : (activeOf s.run ++ waitingOf s.run).length < cfg.maxBatch)
      (hwaiting : waitingOf pc = waitingOf s.run ++ [it]) (hactive : activeOf pc = activeOf s.run)
      (howed : owedOf pc = owedOf s.run) (hlocal : ∀ word, RunLocal w word pc) :
      RunEffect cfg w s ({ s with queue := rest, received := s.received ++ [it] }.jump pc)
  | drop (pc : RunPC T R ε) (it : CallId) (before after : List CallId)
      (hword : (s.items it).state ≠ .queued) (hold : waitingOf s.run = before ++ it :: after)
      (hwaiting : waitingOf pc = before ++ after) (hactive : activeOf pc = activeOf s.run)
      (howed : owedOf pc = owedOf s.run)
      (hlocal : ∀ word, RunLocal w word s.run → RunLocal w word pc) : RunEffect cfg w s (s.jump pc)
  | expire (d : Dispatching T) (it : CallId) (err : Error ε) (hrun : s.run = .expire d it err)
      (hword : (s.items it).state = .queued) :
      RunEffect cfg w s ((s.setWord it .expired).jump (.sendError d it err))
  | claim (d : Dispatching T) (it : CallId) (hrun : s.run = .claim d it)
      (hword : (s.items it).state = .queued) :
      RunEffect cfg w s ((s.setWord it .dispatched).jump (.closeDispatched d it))
  | announce (d : Dispatching T) (it : CallId) (hrun : s.run = .closeDispatched d it)
      (hopen : (s.items it).dispatched = false) :
      RunEffect cfg w s ((s.setItem it { s.items it with dispatched := true }).jump
        (.examine { d with active := d.active ++ [it], values := d.values ++ [w.value it] }))
  | invoke (d : Dispatching T) (invocation : Invocation T) (hrun : s.run = .examine d)
      (hrest : d.rest = []) (hne : d.active ≠ []) (hactive : invocation.active = d.active)
      (hvalues : invocation.values = d.values) :
      RunEffect cfg w s ({ s with invocations := s.invocations ++ [invocation] }.jump
        (.handling d.active d.queueOpen))
  | answer (pc : RunPC T R ε) (it : CallId) (result : Reply R ε)
      (hreply : (s.items it).reply = none) (howed : owedOf s.run = it :: owedOf pc)
      (hwaiting : waitingOf pc = waitingOf s.run) (hactive : activeOf pc = activeOf s.run)
      (hresult : RunLocal w (fun c => (s.items c).state) s.run →
        result = .error .queueDelay ∧ (s.items it).state = .expired ∨
          ∀ err, result = .error err → lateError err)
      (hlocal : ∀ word, RunLocal w word s.run → RunLocal w word pc) :
      RunEffect cfg w s { s.setItem it { s.items it with reply := some result } with
        replies := s.replies ++ [(it, result)], run := pc }
  | stop (hrun : s.run = .stopping) : RunEffect cfg w s ({ s with done := true }.jump .stopped)
  | panic : RunEffect cfg w s s.panic

lemma afterDispatch_empty (queueOpen : Bool) :
    waitingOf (afterDispatch (T := T) (R := R) (ε := ε) queueOpen) = [] ∧
      activeOf (afterDispatch (T := T) (R := R) (ε := ε) queueOpen) = [] ∧
      owedOf (afterDispatch (T := T) (R := R) (ε := ε) queueOpen) = [] ∧
      ∀ (w : Workload T) word, RunLocal w word (afterDispatch (R := R) (ε := ε) queueOpen) := by
  cases queueOpen <;> exact ⟨rfl, rfl, rfl, fun _ _ => trivial⟩

lemma sendReply_eq {s s' : State T R ε} {it : CallId} {result : Reply R ε} {pc : RunPC T R ε}
    (h : s.sendReply it result pc = some s') :
    (s.items it).reply = none ∧ s' = { s.setItem it { s.items it with reply := some result } with
      replies := s.replies ++ [(it, result)], run := pc } := by
  unfold State.sendReply at h
  split at h
  · cases h
  · exact ⟨‹_›, (Option.some.inj h).symm⟩

section effect

variable {cfg : Config} {w : Workload T} {s : State T R ε} {pc₀ pc : RunPC T R ε} (hrun : s.run = pc₀)
include hrun

lemma RunEffect.silent_of (hwaiting : waitingOf pc = waitingOf pc₀) (hactive : activeOf pc = activeOf pc₀)
    (howed : owedOf pc = owedOf pc₀) (hlocal : ∀ word, RunLocal w word pc₀ → RunLocal w word pc) :
    RunEffect cfg w s (s.jump pc) := by
  subst hrun
  exact .silent pc hwaiting hactive howed hlocal

lemma RunEffect.take_of {it : CallId} {rest : List CallId} (hq : s.queue = it :: rest)
    (hroom : (activeOf pc₀ ++ waitingOf pc₀).length < cfg.maxBatch)
    (hwaiting : waitingOf pc = waitingOf pc₀ ++ [it]) (hactive : activeOf pc = activeOf pc₀)
    (howed : owedOf pc = owedOf pc₀) (hlocal : ∀ word, RunLocal w word pc) :
    RunEffect cfg w s ({ s with queue := rest, received := s.received ++ [it] }.jump pc) := by
  subst hrun
  exact .take pc it rest hq hroom hwaiting hactive howed hlocal

lemma RunEffect.drop_of {it : CallId} (before after : List CallId) (hword : (s.items it).state ≠ .queued)
    (hold : waitingOf pc₀ = before ++ it :: after) (hwaiting : waitingOf pc = before ++ after)
    (hactive : activeOf pc = activeOf pc₀) (howed : owedOf pc = owedOf pc₀)
    (hlocal : ∀ word, RunLocal w word pc₀ → RunLocal w word pc) : RunEffect cfg w s (s.jump pc) := by
  subst hrun
  exact .drop pc it before after hword hold hwaiting hactive howed hlocal

lemma RunEffect.answer_of {it : CallId} {result : Reply R ε} (hreply : (s.items it).reply = none)
    (howed : owedOf pc₀ = it :: owedOf pc) (hwaiting : waitingOf pc = waitingOf pc₀)
    (hactive : activeOf pc = activeOf pc₀)
    (hresult : RunLocal w (fun c => (s.items c).state) pc₀ →
      result = .error .queueDelay ∧ (s.items it).state = .expired ∨ ∀ err, result = .error err → lateError err)
    (hlocal : ∀ word, RunLocal w word pc₀ → RunLocal w word pc) :
    RunEffect cfg w s { s.setItem it { s.items it with reply := some result } with
      replies := s.replies ++ [(it, result)], run := pc } := by
  subst hrun
  exact .answer pc it result hreply howed hwaiting hactive hresult hlocal

end effect

/-- Collecting a batch: receive, load the state word, keep or drop. -/
lemma collect_effect {cfg : Config} {w : Workload T} {s s' : State T R ε} {branch : CollectCase}
    {b : Collecting} (hrun : s.run = .collect b) (h : runStep cfg w s branch = some s') :
    RunEffect cfg w s s' := by
  have hstart : ∀ queueOpen, RunEffect cfg w s (s.jump (.dispatch b.batch queueOpen)) := fun queueOpen =>
    .silent_of hrun rfl rfl rfl (fun _ _ => trivial)
  simp only [runStep, hrun] at h
  split at h
  · rename_i hroom
    cases branch with
    | receive =>
      dsimp only at h
      split at h
      · rename_i it rest hq
        cases h
        exact .take_of hrun hq hroom rfl rfl rfl (fun _ => trivial)
      · split at h
        · cases h
          exact hstart false
        · cases h
    | timer =>
      dsimp only at h
      split at h
      · cases h
        exact hstart true
      · cases h
  · cases h
    exact hstart true

lemma examine_effect {cfg : Config} {w : Workload T} {s s' : State T R ε} {branch : CollectCase}
    {d : Dispatching T} (hrun : s.run = .examine d) (h : runStep cfg w s branch = some s') :
    RunEffect cfg w s s' := by
  simp only [runStep, hrun] at h
  split at h
  · rename_i it rest hrest
    split at h
    · cases h
      exact .silent_of hrun hrest.symm rfl rfl (fun _ hl => ⟨hl, .inr trivial⟩)
    · split at h
      · cases h
        exact .silent_of hrun hrest.symm rfl rfl (fun _ hl => ⟨hl, .inl rfl⟩)
      · cases h
        exact .silent_of hrun hrest.symm rfl rfl (fun _ hl => hl)
  · rename_i hrest
    split at h
    · rename_i hactive
      cases h
      obtain ⟨hw, ha, ho, hl⟩ := afterDispatch_empty (T := T) (R := R) (ε := ε) d.queueOpen
      exact .silent_of hrun (hw.trans hrest.symm) (ha.trans hactive.symm) ho (fun word _ => hl w word)
    · rename_i it active hactive
      cases h
      exact .invoke d _ hrun hrest (by rw [hactive]; exact List.cons_ne_nil _ _) rfl rfl

lemma reply_effect {cfg : Config} {w : Workload T} {s s' : State T R ε} {branch : CollectCase}
    {r : Replying R ε} (hrun : s.run = .replyNext r) (h : runStep cfg w s branch = some s') :
    RunEffect cfg w s s' := by
  simp only [runStep, hrun] at h
  split at h
  · rename_i hend
    cases h
    obtain ⟨hw, ha, ho, hl⟩ := afterDispatch_empty (T := T) (R := R) (ε := ε) r.queueOpen
    have hnone : r.active.drop r.next = [] := List.drop_eq_nil_of_le (List.getElem?_eq_none_iff.mp hend)
    exact .silent_of hrun hw ha (ho.trans hnone.symm) (fun word _ => hl w word)
  · rename_i it hit
    -- the item at the index is the first one still owed a reply
    have hfirst : it :: r.active.drop (r.next + 1) = r.active.drop r.next := by
      obtain ⟨hlt, rfl⟩ := List.getElem?_eq_some_iff.mp hit
      exact (List.drop_eq_getElem_cons hlt).symm
    have hsend : ∀ result, ((∀ err, r.outcome = .error err → lateError err) →
        ∀ err, result = .error err → lateError err) →
        RunEffect cfg w s (s.jump (.replySend r it result)) := fun result hresult =>
      .silent_of hrun rfl rfl hfirst (fun _ hl => ⟨hl, hresult hl⟩)
    split at h
    · cases h
      exact hsend _ (fun _ err he => Except.error.inj he ▸ trivial)
    · rename_i hout
      cases h
      refine hsend _ (fun hl err he => ?_)
      cases he
      exact hl _ hout
    · split at h
      · cases h
        exact hsend _ (fun _ err he => by cases he)
      · cases h
        exact .panic

theorem runStep_effect {cfg : Config} {w : Workload T} {s s' : State T R ε} {branch : CollectCase}
    (h : runStep cfg w s branch = some s') : RunEffect cfg w s s' := by
  cases hrun : s.run with
  | nextQueued =>
    simp only [runStep, hrun] at h
    split at h
    · rename_i it rest hq
      cases h
      exact .take_of hrun hq cfg.batch_pos rfl rfl rfl (fun _ => trivial)
    · split at h
      · cases h
        exact .silent_of hrun rfl rfl rfl (fun _ _ => trivial)
      · cases h
  | loadFirst it =>
    simp only [runStep, hrun] at h
    split at h
    · cases h
      exact .silent_of hrun rfl rfl rfl (fun _ _ => trivial)
    · rename_i hword
      cases h
      exact .drop_of hrun [] [] hword rfl rfl rfl rfl (fun _ _ => trivial)
  | collect b => exact collect_effect hrun h
  | loadNext b it =>
    simp only [runStep, hrun] at h
    split at h
    · split at h
      · cases h
        exact .silent_of hrun rfl rfl rfl (fun _ _ => trivial)
      · cases h
        exact .silent_of hrun rfl rfl rfl (fun _ _ => trivial)
    · rename_i hword
      cases h
      exact .drop_of hrun b.batch [] hword rfl (List.append_nil _).symm rfl rfl (fun _ _ => trivial)
  | dispatch batch queueOpen =>
    simp only [runStep, hrun] at h
    cases h
    exact .silent_of hrun rfl rfl rfl (fun _ _ => rfl)
  | examine d => exact examine_effect hrun h
  | expire d it err =>
    simp only [runStep, hrun] at h
    split at h
    · cases h
      exact .expire d it err hrun ‹_›
    · rename_i hword
      cases h
      exact .drop_of hrun [] d.rest hword rfl rfl rfl rfl (fun _ hl => hl.1)
  | sendError d it err =>
    simp only [runStep, hrun] at h
    obtain ⟨hreply, rfl⟩ := sendReply_eq h
    refine .answer_of hrun hreply rfl rfl rfl ?_ (fun _ hl => hl.1)
    rintro ⟨-, rfl | hlate, hexpired⟩
    · exact .inl ⟨rfl, hexpired⟩
    · exact .inr fun e he => Except.error.inj he ▸ hlate
  | claim d it =>
    simp only [runStep, hrun] at h
    split at h
    · cases h
      exact .claim d it hrun ‹_›
    · rename_i hword
      cases h
      exact .drop_of hrun [] d.rest hword rfl rfl rfl rfl (fun _ hl => hl)
  | closeDispatched d it =>
    simp only [runStep, hrun] at h
    split at h
    · cases h
      exact .panic
    · rename_i hopen
      cases h
      exact .announce d it hrun (Bool.eq_false_iff.mpr hopen)
  | handling active queueOpen =>
    simp only [runStep, hrun] at h
    cases h
  | replyNext r => exact reply_effect hrun h
  | replySend r it result =>
    simp only [runStep, hrun] at h
    obtain ⟨hreply, rfl⟩ := sendReply_eq h
    exact .answer_of hrun hreply rfl rfl rfl (fun hl => .inr hl.2) (fun _ hl => hl.1)
  | stopping =>
    simp only [runStep, hrun] at h
    cases h
    exact .stop hrun
  | stopped =>
    simp only [runStep, hrun] at h
    cases h

theorem handlerReturns_effect {cfg : Config} {w : Workload T} {s s' : State T R ε} {results : List R}
    {err : Option ε} (h : handlerReturns s results err = some s') : RunEffect cfg w s s' := by
  unfold handlerReturns at h
  split at h
  · rename_i active queueOpen hrun
    cases h
    refine .silent_of hrun rfl rfl rfl (fun word _ => ?_)
    intro e he
    dsimp only at he
    split at he
    · exact Except.error.inj he ▸ trivial
    · split at he
      · exact Except.error.inj he ▸ trivial
      · cases he
  · cases h

/-- What a call of `Submit` knows about its own item. Before its admission the item is untouched;
while it waits, a reply that was sent is still in its channel; after the return, an expiry stands
and a refused item was never handled. -/
def CallLocal (s : State T R ε) (c : CallId) : SubmitPC R ε → Prop
  | .idle | .entered | .creating | .locking | .checkClosed | .enqueue =>
    c ∉ s.admitted ∧ (s.items c).state = .queued
  | .unlock (some err) => c ∉ s.admitted ∧ (err = .full ∨ err = .closed)
  | .unlock none | .selecting | .timerFired | .contextDone | .waiting =>
    c ∈ s.replies.map Prod.fst → (s.items c).reply ≠ none
  | .schedulerDone => s.done = true ∧ (c ∈ s.replies.map Prod.fst → (s.items c).reply ≠ none)
  | .returned result won =>
    (won = true → (s.items c).state = .expired) ∧
      (result = .error .queueDelay → (s.items c).state = .expired) ∧
      (result = .error .full ∨ result = .error .closed →
        c ∉ s.admitted ∨ s.done = true ∧ c ∉ s.invocations.flatMap Invocation.active)

/-- The call waits for its item and has not taken a reply. -/
def waitsForReply : SubmitPC R ε → Prop
  | .selecting | .timerFired | .contextDone | .schedulerDone | .waiting => True
  | _ => False

inductive SubmitEffect (cfg : Config) (s : State T R ε) (c : CallId) : State T R ε → Prop where
  | advance (readers : Finset CallId) (pc : SubmitPC R ε)
      (hlocal : CallLocal s c (s.calls c) → CallLocal s c pc) :
      SubmitEffect cfg s c ({ s with readers := readers }.goto c pc)
  | create (hpc : s.calls c = .creating) :
      SubmitEffect cfg s c ((s.setItem c ⟨s.now + cfg.maxDelay, .queued, none, false⟩).goto c .locking)
  | enter (hpc : s.calls c = .enqueue) (hroom : s.queue.length < cfg.maxQueue) :
      SubmitEffect cfg s c
        ({ s with queue := s.queue ++ [c], admitted := s.admitted ++ [c] }.goto c (.unlock none))
  | receive (result : Reply R ε) (hpc : waitsForReply (s.calls c)) (h : (s.items c).reply = some result) :
      SubmitEffect cfg s c
        ((s.setItem c { s.items c with reply := none }).goto c (.returned result false))
  | giveUp (err : Error ε) (hpc : waitsForReply (s.calls c)) (hword : (s.items c).state = .queued)
      (herr : err = .queueDelay ∨ lateError err) :
      SubmitEffect cfg s c ((s.setWord c .expired).goto c (.returned (.error err) true))
  | refuse (hpc : s.calls c = .schedulerDone) (h : (s.items c).reply = none) :
      SubmitEffect cfg s c (s.goto c (.returned (.error .closed) false))
  | panic (hpc : s.calls c = .enqueue) (hclosed : s.queueClosed = true) : SubmitEffect cfg s c s.panic

lemma receiveReply_eq {s s' : State T R ε} {c : CallId} (h : s.receiveReply c = some s') :
    ∃ result, (s.items c).reply = some result ∧
      s' = (s.setItem c { s.items c with reply := none }).goto c (.returned result false) := by
  unfold State.receiveReply at h
  split at h
  · cases h
  · exact ⟨_, ‹_›, (Option.some.inj h).symm⟩

/-- Returning a context error says nothing about the item. -/
lemma returned_context (s : State T R ε) (c : CallId) (err : ContextError) :
    CallLocal s c (.returned (.error (.context err)) false) := by
  refine ⟨fun h => Bool.noConfusion h, fun h => ?_, fun h => ?_⟩
  · cases h
  · rcases h with h | h <;> cases h

lemma goto_self (s : State T R ε) (c : CallId) (pc : SubmitPC R ε) : (s.goto c pc).calls c = pc := by
  unfold State.goto
  exact Function.update_self ..

lemma eq_of_goto {s : State T R ε} {c : CallId} {pc pc' : SubmitPC R ε} (h : (s.goto c pc).calls c = pc') : pc = pc' :=
  (goto_self s c pc).symm.trans h

lemma goto_items (s : State T R ε) (c : CallId) (pc : SubmitPC R ε) : (s.goto c pc).items = s.items := rfl

lemma setItem_self (s : State T R ε) (c : CallId) (item : Item R ε) : (s.setItem c item).items c = item := by
  unfold State.setItem
  exact Function.update_self ..

lemma goto_other {s : State T R ε} {c c' : CallId} {pc : SubmitPC R ε} (h : c' ≠ c) :
    (s.goto c pc).calls c' = s.calls c' := by
  unfold State.goto
  exact Function.update_of_ne h ..

/-- The start or a step of a call of `Submit`, with what it read. -/
inductive CallStep (cfg : Config) (s : State T R ε) (c : CallId) : State T R ε → Prop where
  | invoke (hpc : s.calls c = .idle) : CallStep cfg s c (s.goto c .entered)
  | start (hpc : s.calls c = .entered) : CallStep cfg s c (s.goto c .creating)
  | create (hpc : s.calls c = .creating) :
      CallStep cfg s c ((s.setItem c ⟨s.now + cfg.maxDelay, .queued, none, false⟩).goto c .locking)
  | lock (hpc : s.calls c = .locking) (hwriter : s.writer = false) :
      CallStep cfg s c ({ s with readers := insert c s.readers }.goto c .checkClosed)
  | check (hpc : s.calls c = .checkClosed) :
      CallStep cfg s c (s.goto c (if s.closed then .unlock (some .closed) else .enqueue))
  | enter (hpc : s.calls c = .enqueue) (hopen : s.queueClosed = false) (hroom : s.queue.length < cfg.maxQueue) :
      CallStep cfg s c
        ({ s with queue := s.queue ++ [c], admitted := s.admitted ++ [c] }.goto c (.unlock none))
  | full (hpc : s.calls c = .enqueue) : CallStep cfg s c (s.goto c (.unlock (some .full)))
  | panic (hpc : s.calls c = .enqueue) (hclosed : s.queueClosed = true) : CallStep cfg s c s.panic
  | unlock (hpc : s.calls c = .unlock none) :
      CallStep cfg s c ({ s with readers := s.readers.erase c }.goto c .selecting)
  | reject (err : Error ε) (hpc : s.calls c = .unlock (some err)) :
      CallStep cfg s c ({ s with readers := s.readers.erase c }.goto c (.returned (.error err) false))
  | wait (pc : SubmitPC R ε) (hpc : waitsForReply (s.calls c)) (hnext : waitsForReply pc)
      (hdone : pc = .schedulerDone → s.done = true) : CallStep cfg s c (s.goto c pc)
  | receive (result : Reply R ε) (hpc : waitsForReply (s.calls c)) (h : (s.items c).reply = some result) :
      CallStep cfg s c
        ((s.setItem c { s.items c with reply := none }).goto c (.returned result false))
  | giveUp (err : Error ε) (hpc : waitsForReply (s.calls c)) (hword : (s.items c).state = .queued)
      (herr : err = .queueDelay ∨ lateError err) :
      CallStep cfg s c ((s.setWord c .expired).goto c (.returned (.error err) true))
  | leave (err : ContextError) (hpc : s.calls c = .entered ∨ waitsForReply (s.calls c)) :
      CallStep cfg s c (s.goto c (.returned (.error (.context err)) false))
  | refuse (hpc : s.calls c = .schedulerDone) (h : (s.items c).reply = none) :
      CallStep cfg s c (s.goto c (.returned (.error .closed) false))

lemma select_call {cfg : Config} {w : Workload T} {s s' : State T R ε} {c : CallId}
    {branch : SelectCase} (hpc : s.calls c = .selecting) (h : submitStep cfg w s c branch = some s') :
    CallStep cfg s c s' := by
  have hwaits : waitsForReply (s.calls c) := by rw [hpc]; trivial
  simp only [submitStep, hpc] at h
  cases branch with
  | reply =>
    obtain ⟨result, hreply, rfl⟩ := receiveReply_eq h
    exact .receive result hwaits hreply
  | dispatched =>
    dsimp only at h
    split at h
    · cases h
      exact .wait _ hwaits trivial (fun he => by cases he)
    · cases h
  | timer =>
    dsimp only at h
    split at h
    · cases h
      exact .wait _ hwaits trivial (fun he => by cases he)
    · cases h
  | contextDone =>
    dsimp only at h
    split at h
    · cases h
      exact .wait _ hwaits trivial (fun he => by cases he)
    · cases h
  | schedulerDone =>
    dsimp only at h
    split at h
    · rename_i hdone
      cases h
      exact .wait _ hwaits trivial (fun _ => hdone)
    · cases h

theorem submitStep_call {cfg : Config} {w : Workload T} {s s' : State T R ε} {c : CallId}
    {branch : SelectCase} (h : submitStep cfg w s c branch = some s') : CallStep cfg s c s' := by
  cases hpc : s.calls c with
  | idle =>
    simp only [submitStep, hpc] at h
    cases h
  | entered =>
    simp only [submitStep, hpc] at h
    split at h
    · cases h
      exact .leave _ (.inl hpc)
    · cases h
      exact .start hpc
  | creating =>
    simp only [submitStep, hpc] at h
    cases h
    exact .create hpc
  | locking =>
    simp only [submitStep, hpc] at h
    split at h
    · cases h
    · rename_i hwriter
      cases h
      exact .lock hpc (Bool.eq_false_iff.mpr hwriter)
  | checkClosed =>
    simp only [submitStep, hpc] at h
    cases h
    exact .check hpc
  | enqueue =>
    simp only [submitStep, hpc] at h
    split at h
    · cases h
      exact .panic hpc ‹_›
    · rename_i hopen
      split at h
      · cases h
        exact .enter hpc (Bool.eq_false_iff.mpr hopen) ‹_›
      · cases h
        exact .full hpc
  | unlock failure =>
    simp only [submitStep, hpc] at h
    cases h
    cases failure with
    | none => exact .unlock hpc
    | some err => exact .reject err hpc
  | selecting => exact select_call hpc h
  | timerFired =>
    have hwaits : waitsForReply (s.calls c) := by rw [hpc]; trivial
    simp only [submitStep, hpc] at h
    split at h
    · cases h
      exact .giveUp _ hwaits ‹_› (.inl rfl)
    · cases h
      exact .wait _ hwaits trivial (fun he => by cases he)
  | contextDone =>
    have hwaits : waitsForReply (s.calls c) := by rw [hpc]; trivial
    simp only [submitStep, hpc] at h
    split at h
    · cases h
    · split at h
      · cases h
        exact .giveUp _ hwaits ‹_› (.inr trivial)
      · cases h
        exact .leave _ (.inr hwaits)
  | schedulerDone =>
    simp only [submitStep, hpc] at h
    split at h
    · obtain ⟨result, hreply, rfl⟩ := receiveReply_eq h
      exact .receive result (by rw [hpc]; trivial) hreply
    · cases h
      exact .refuse hpc ‹_›
  | waiting =>
    have hwaits : waitsForReply (s.calls c) := by rw [hpc]; trivial
    simp only [submitStep, hpc] at h
    split at h
    · obtain ⟨result, hreply, rfl⟩ := receiveReply_eq h
      exact .receive result hwaits hreply
    · split at h
      · cases h
        exact .leave _ (.inr hwaits)
      · cases h
    · cases h
  | returned result won =>
    simp only [submitStep, hpc] at h
    cases h

/-- A waiting call knows that a reply which was sent is still in its channel. -/
lemma callLocal_waiting {s : State T R ε} {c : CallId} {pc : SubmitPC R ε} (hpc : waitsForReply pc)
    (h : CallLocal s c pc) : c ∈ s.replies.map Prod.fst → (s.items c).reply ≠ none := by
  cases pc with
  | selecting | timerFired | contextDone | waiting => exact h
  | schedulerDone => exact h.2
  | _ => exact hpc.elim

lemma callStep_effect {cfg : Config} {s s' : State T R ε} {c : CallId} (h : CallStep cfg s c s') :
    SubmitEffect cfg s c s' := by
  cases h with
  | invoke hpc | start hpc => exact .advance s.readers _ (fun hl => by rw [hpc] at hl; exact hl)
  | create hpc => exact .create hpc
  | lock hpc hwriter => exact .advance _ _ (fun hl => by rw [hpc] at hl; exact hl)
  | check hpc =>
    refine .advance s.readers _ (fun hl => ?_)
    rw [hpc] at hl
    split
    · exact ⟨hl.1, .inr rfl⟩
    · exact hl
  | enter hpc hopen hroom => exact .enter hpc hroom
  | full hpc => exact .advance s.readers _ (fun hl => by rw [hpc] at hl; exact ⟨hl.1, .inl rfl⟩)
  | panic hpc hclosed => exact .panic hpc hclosed
  | unlock hpc => exact .advance _ _ (fun hl => by rw [hpc] at hl; exact hl)
  | reject err hpc =>
    refine .advance _ _ (fun hl => ?_)
    rw [hpc] at hl
    refine ⟨fun hw => Bool.noConfusion hw, fun he => ?_, fun _ => .inl hl.1⟩
    rcases hl.2 with rfl | rfl <;> cases he
  | wait pc hpc hnext hdone =>
    refine .advance s.readers _ (fun hl => ?_)
    have hreply := callLocal_waiting hpc hl
    cases pc with
    | selecting | timerFired | contextDone | waiting => exact hreply
    | schedulerDone => exact ⟨hdone rfl, hreply⟩
    | _ => exact hnext.elim
  | receive result hpc hreply => exact .receive result hpc hreply
  | giveUp err hpc hword herr => exact .giveUp err hpc hword herr
  | leave err hpc => exact .advance s.readers _ (fun _ => returned_context s c err)
  | refuse hpc hreply => exact .refuse hpc hreply

theorem submitStep_effect {cfg : Config} {w : Workload T} {s s' : State T R ε} {c : CallId}
    {branch : SelectCase} (h : submitStep cfg w s c branch = some s') : SubmitEffect cfg s c s' :=
  callStep_effect (submitStep_call h)

/-- A step of the system: of the world around it, of one of the goroutines, or the return of the
handler. -/
inductive StepEffect (cfg : Config) (w : Workload T) (s : State T R ε) :
    Scheduler.Action R ε → State T R ε → Prop where
  | world (a : Scheduler.Action R ε) (now : Int) (contexts : ContextId → Option ContextError)
      (ha : ∀ results err, a ≠ .handlerReturns results err) :
      StepEffect cfg w s a { s with now := now, contexts := contexts }
  | start (c : CallId) (hpc : s.calls c = .idle) : StepEffect cfg w s (.submit c) (s.goto c .entered)
  | call (c : CallId) (branch : SelectCase) (s' : State T R ε) (h : submitStep cfg w s c branch = some s') :
      StepEffect cfg w s (.submitStep c branch) s'
  | loop (branch : CollectCase) (s' : State T R ε) (h : runStep cfg w s branch = some s') :
      StepEffect cfg w s (.runStep branch) s'
  | returns (results : List R) (err : Option ε) (s' : State T R ε) (h : handlerReturns s results err = some s') :
      StepEffect cfg w s (.handlerReturns results err) s'
  | close (h : s.closer = .idle) : StepEffect cfg w s .close { s with closer := .locking }
  | closing (s' : State T R ε) (h : closeStep s = some s') : StepEffect cfg w s .closeStep s'

theorem step_effect {cfg : Config} {w : Workload T} {s s' : State T R ε} {a : Scheduler.Action R ε}
    (h : step cfg w s a = some s') : StepEffect cfg w s a s' := by
  unfold step at h
  split at h
  · cases h
  · cases a with
    | tick elapsed =>
      cases h
      exact .world _ _ _ (fun _ _ he => by cases he)
    | cancel ctx =>
      cases h
      exact .world _ _ _ (fun _ _ he => by cases he)
    | reachDeadline ctx =>
      dsimp only at h
      split at h
      · split at h
        · cases h
          exact .world _ _ _ (fun _ _ he => by cases he)
        · cases h
      · cases h
    | submit c =>
      dsimp only at h
      split at h
      · cases h
        exact .start c ‹_›
      · cases h
    | submitStep c branch => exact .call c branch s' h
    | runStep branch => exact .loop branch s' h
    | handlerReturns results err => exact .returns results err s' h
    | close =>
      dsimp only at h
      split at h
      · cases h
        exact .close ‹_›
      · cases h
        exact .world _ _ _ (fun _ _ he => by cases he)
    | closeStep => exact .closing s' h

/-- `Close` touches the lock, its own flags and nothing else. -/
lemma closeStep_frame {s s' : State T R ε} (h : closeStep s = some s') :
    ∃ closed queueClosed writer closer panicked, s' = { s with
      closed := closed
      queueClosed := queueClosed
      writer := writer
      closer := closer
      panicked := panicked } := by
  unfold closeStep at h
  split at h
  · cases h
  · cases h
    exact ⟨_, _, _, _, _, rfl⟩
  · split at h
    · cases h
      exact ⟨_, _, _, _, _, rfl⟩
    · cases h
  · cases h
    exact ⟨_, _, _, _, _, rfl⟩
  · split at h
    · cases h
      exact ⟨_, _, _, _, _, rfl⟩
    · cases h
      exact ⟨_, _, _, _, _, rfl⟩
  · cases h
    exact ⟨_, _, _, _, _, rfl⟩
  · cases h

end FraudDetection.Proofs
