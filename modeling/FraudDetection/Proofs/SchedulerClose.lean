import FraudDetection.Proofs.SchedulerPairing

/-!
# Closing the scheduler

The read-write lock orders the sends on the queue before its close, so no send finds the queue
closed. The run loop stops only when the closed queue is empty, and an item that left the queue
is answered or was expired by its own call; hence a call whose item was admitted is never told
that the scheduler is closed.
-/

namespace FraudDetection.Proofs
open FraudDetection.Library
open FraudDetection.Scheduler

variable {T R ε : Type} {cfg : Config} {w : Workload T} {s s' : State T R ε} {c : CallId}

section lock

def writeLocking : ClosePC → Bool
  | .acquiring | .locked | .marked | .queueClosed => true
  | _ => false

def writeLocked : ClosePC → Bool
  | .locked | .marked | .queueClosed => true
  | _ => false

def closedMarked : ClosePC → Bool
  | .marked | .queueClosed | .finished => true
  | _ => false

def queueShut : ClosePC → Bool
  | .queueClosed | .finished => true
  | _ => false

def readLocked : SubmitPC R ε → Bool
  | .checkClosed | .enqueue | .unlock _ => true
  | _ => false

/-- Readers and the writer exclude each other, so a call that is about to send found `closed`
unset and still does. -/
structure LockInvariant (s : State T R ε) : Prop where
  writer : s.writer = writeLocking s.closer
  closed : s.closed = closedMarked s.closer
  queue : s.queueClosed = queueShut s.closer
  readers : ∀ c, c ∈ s.readers ↔ readLocked (s.calls c) = true
  exclusive : writeLocked s.closer = true → s.readers = ∅
  sends : ∀ c, s.calls c = .enqueue → s.closed = false

lemma queueOpen_of_open (h : LockInvariant s) (hclosed : s.closed = false) : s.queueClosed = false := by
  have hmark := h.closed
  rw [h.queue]
  cases hc : s.closer <;> simp_all [closedMarked, queueShut]

lemma closeStep_lock (hl : LockInvariant s) (h : closeStep s = some s') : LockInvariant s' := by
  have hwriter := hl.writer
  have hclosed := hl.closed
  have hqueue := hl.queue
  unfold closeStep at h
  split at h
  · cases h
  · rename_i hc
    rw [hc] at hclosed hqueue
    cases h
    exact ⟨rfl, hclosed, hqueue, hl.readers, fun he => (by cases he), hl.sends⟩
  · rename_i hc
    rw [hc] at hwriter hclosed hqueue
    split at h
    · rename_i hempty
      cases h
      exact ⟨hwriter, hclosed, hqueue, hl.readers, fun _ => hempty, hl.sends⟩
    · cases h
  · rename_i hc
    rw [hc] at hwriter hqueue
    cases h
    have hempty := hl.exclusive (by rw [hc]; rfl)
    refine ⟨hwriter, rfl, hqueue, hl.readers, fun _ => hempty, fun c hpc => ?_⟩
    -- a call that is about to send would hold the read lock
    have hin := (hl.readers c).mpr (by rw [hpc]; rfl)
    rw [hempty] at hin
    exact absurd hin (Finset.notMem_empty c)
  · rename_i hc
    have hempty := hl.exclusive (by rw [hc]; rfl)
    rw [hc] at hwriter hclosed hqueue
    split at h
    · rename_i hshut
      rw [hqueue] at hshut
      cases hshut
    · cases h
      exact ⟨hwriter, hclosed, rfl, hl.readers, fun _ => hempty, hl.sends⟩
  · rename_i hc
    rw [hc] at hclosed hqueue
    cases h
    exact ⟨rfl, hclosed, hqueue, hl.readers, fun he => (by cases he), hl.sends⟩
  · cases h

/-- A call changes its own place and its own membership among the readers. -/
lemma call_lock (hl : LockInvariant s)
    (hflags : s'.writer = s.writer ∧ s'.closed = s.closed ∧ s'.queueClosed = s.queueClosed ∧ s'.closer = s.closer)
    (hcalls : ∀ c' ≠ c, s'.calls c' = s.calls c') (hothers : ∀ c' ≠ c, c' ∈ s'.readers ↔ c' ∈ s.readers)
    (hself : c ∈ s'.readers ↔ readLocked (s'.calls c) = true)
    (hlock : c ∈ s'.readers → c ∈ s.readers ∨ s.writer = false)
    (hsend : s'.calls c = .enqueue → s.closed = false) : LockInvariant s' := by
  obtain ⟨hwriter, hclosed, hqueue, hcloser⟩ := hflags
  refine ⟨?_, ?_, ?_, fun c' => ?_, fun he => ?_, fun c' hpc => ?_⟩
  · rw [hwriter, hcloser, hl.writer]
  · rw [hclosed, hcloser, hl.closed]
  · rw [hqueue, hcloser, hl.queue]
  · by_cases hc : c' = c
    · exact hc ▸ hself
    · rw [hothers c' hc, hcalls c' hc]
      exact hl.readers c'
  · rw [hcloser] at he
    have hempty := hl.exclusive he
    refine Finset.eq_empty_of_forall_notMem (fun c' hin => ?_)
    have hold : c' ∈ s.readers := by
      by_cases hc : c' = c
      · subst hc
        refine (hlock hin).resolve_right (fun hw => ?_)
        -- while `Close` holds the lock no call gets past `RLock`
        rw [hl.writer] at hw
        cases hcl : s.closer <;> simp_all [writeLocking, writeLocked]
      · exact (hothers c' hc).mp hin
    rw [hempty] at hold
    exact absurd hold (Finset.notMem_empty c')
  · rw [hclosed]
    by_cases hc : c' = c
    · exact hsend (hc ▸ hpc)
    · exact hl.sends c' (hcalls c' hc ▸ hpc)

lemma goto_lock (hl : LockInvariant s) {t : State T R ε} {pc : SubmitPC R ε}
    (hflags : t.writer = s.writer ∧ t.closed = s.closed ∧ t.queueClosed = s.queueClosed ∧ t.closer = s.closer)
    (hcalls : t.calls = s.calls) (hreaders : t.readers = s.readers)
    (hpc : readLocked pc = readLocked (s.calls c)) (hsend : pc = .enqueue → s.closed = false) :
    LockInvariant (t.goto c pc) := by
  refine call_lock (c := c) hl hflags (fun c' hc => ?_) (fun c' _ => ?_) ?_ (fun hin => ?_) (fun he => ?_)
  · rw [goto_other hc, hcalls]
  · exact hreaders ▸ Iff.rfl
  · rw [goto_self, hpc, ← hl.readers c]
    exact hreaders ▸ Iff.rfl
  · exact .inl (hreaders ▸ hin)
  · exact hsend ((goto_self t c pc).symm.trans he)

lemma unlock_lock (hl : LockInvariant s) {pc : SubmitPC R ε} (hpc : readLocked pc = false) :
    LockInvariant ({ s with readers := s.readers.erase c }.goto c pc) := by
  refine call_lock (c := c) hl ⟨rfl, rfl, rfl, rfl⟩ (fun c' hc => goto_other hc) (fun c' hc => ?_) ?_
    (fun hin => .inl (Finset.mem_of_mem_erase hin)) (fun he => ?_)
  · exact Finset.mem_erase.trans (and_iff_right hc)
  · rw [goto_self, hpc]
    exact iff_of_false (Finset.notMem_erase c s.readers) Bool.false_ne_true
  · rw [goto_self] at he
    rw [he] at hpc
    cases hpc

lemma readLocked_waiting {pc : SubmitPC R ε} (h : waitsForReply pc) : readLocked pc = false := by
  cases pc with
  | selecting | timerFired | contextDone | schedulerDone | waiting => rfl
  | _ => exact h.elim

theorem callStep_lock (hl : LockInvariant s) (h : CallStep cfg s c s') : LockInvariant s' := by
  have hflags : s.writer = s.writer ∧ s.closed = s.closed ∧ s.queueClosed = s.queueClosed ∧ s.closer = s.closer :=
    ⟨rfl, rfl, rfl, rfl⟩
  cases h with
  | invoke hpc | start hpc | create hpc =>
    exact goto_lock hl hflags rfl rfl (by rw [hpc]; rfl) (fun he => by cases he)
  | lock hpc hwriter =>
    refine call_lock (c := c) hl hflags (fun c' hc => goto_other hc) (fun c' hc => ?_) ?_
      (fun _ => .inr hwriter) (fun he => ?_)
    · exact Finset.mem_insert.trans (or_iff_right hc)
    · rw [goto_self]
      exact iff_of_true (Finset.mem_insert_self c s.readers) rfl
    · cases eq_of_goto he
  | check hpc =>
    refine goto_lock hl hflags rfl rfl ?_ (fun he => ?_)
    · rw [hpc]
      split <;> rfl
    · split at he
      · cases he
      · exact Bool.eq_false_iff.mpr ‹_›
  | enter hpc hopen hroom => exact goto_lock hl hflags rfl rfl (by rw [hpc]; rfl) (fun he => by cases he)
  | full hpc => exact goto_lock hl hflags rfl rfl (by rw [hpc]; rfl) (fun he => by cases he)
  | panic => exact ⟨hl.writer, hl.closed, hl.queue, hl.readers, hl.exclusive, hl.sends⟩
  | unlock hpc => exact unlock_lock hl rfl
  | reject err hpc => exact unlock_lock hl rfl
  | wait pc hpc hnext hdone =>
    refine goto_lock hl hflags rfl rfl ?_ (fun he => ?_)
    · rw [readLocked_waiting hpc, readLocked_waiting hnext]
    · rw [he] at hnext
      exact hnext.elim
  | receive result hpc hreply =>
    exact goto_lock hl hflags rfl rfl (readLocked_waiting hpc).symm (fun he => by cases he)
  | giveUp err hpc hword herr =>
    exact goto_lock hl hflags rfl rfl (readLocked_waiting hpc).symm (fun he => by cases he)
  | leave err hpc =>
    refine goto_lock hl hflags rfl rfl ?_ (fun he => by cases he)
    rcases hpc with hpc | hpc
    · rw [hpc]
      rfl
    · exact (readLocked_waiting hpc).symm
  | refuse hpc hreply => exact goto_lock hl hflags rfl rfl (by rw [hpc]; rfl) (fun he => by cases he)

lemma runEffect_lock (hl : LockInvariant s) (h : RunEffect cfg w s s') : LockInvariant s' := by
  cases h <;> exact ⟨hl.writer, hl.closed, hl.queue, hl.readers, hl.exclusive, hl.sends⟩

theorem step_lock {a : Scheduler.Action R ε} (hl : LockInvariant s) (h : step cfg w s a = some s') :
    LockInvariant s' := by
  cases step_effect h with
  | world => exact ⟨hl.writer, hl.closed, hl.queue, hl.readers, hl.exclusive, hl.sends⟩
  | start c hidle =>
    have hcall : CallStep cfg s c (s.goto c .entered) := .invoke hidle
    exact callStep_lock hl hcall
  | call c branch _ h => exact callStep_lock hl (submitStep_call h)
  | loop branch _ h => exact runEffect_lock hl (runStep_effect h)
  | returns results err _ h =>
    have heffect : RunEffect cfg w s s' := handlerReturns_effect h
    exact runEffect_lock hl heffect
  | close hidle =>
    have hwriter := hl.writer
    have hclosed := hl.closed
    have hqueue := hl.queue
    rw [hidle] at hwriter hclosed hqueue
    exact ⟨hwriter, hclosed, hqueue, hl.readers, fun he => (by cases he), hl.sends⟩
  | closing _ h => exact closeStep_lock hl h

end lock

section drain

def queueDrained : RunPC T R ε → Bool
  | .dispatch _ queueOpen | .handling _ queueOpen => !queueOpen
  | .examine d | .expire d _ _ | .sendError d _ _ | .claim d _ | .closeDispatched d _ => !d.queueOpen
  | .replyNext r | .replySend r _ _ => !r.queueOpen
  | .stopping | .stopped => true
  | _ => false

lemma queueDrained_afterDispatch {queueOpen : Bool}
    (h : queueDrained (afterDispatch (T := T) (R := R) (ε := ε) queueOpen) = true) :
    (!queueOpen) = true := by
  cases queueOpen <;> first | rfl | exact h

lemma runStep_drained {branch : CollectCase}
    (hd : queueDrained s.run = true → s.queueClosed = true ∧ s.queue = [])
    (h : runStep cfg w s branch = some s') (hs' : queueDrained s'.run = true) :
    s'.queueClosed = true ∧ s'.queue = [] := by
  cases hrun : s.run
  all_goals
    rw [hrun] at hd
    simp only [runStep, hrun, State.sendReply] at h
    repeat' split at h
    all_goals cases h
  -- the flag `queueOpen` is handed on; it is cleared only where the receive fails
  all_goals first
    | exact hd hs'
    | exact hd (queueDrained_afterDispatch hs')
    | exact ⟨‹_›, ‹_›⟩
    | exact Bool.noConfusion hs'
    | exact hd (by rw [State.panic, hrun] at hs'; exact hs')

/-- The `dispatched` channel of an item is closed once, by the loop that claimed it. -/
structure AnnounceInvariant (s : State T R ε) : Prop where
  flag : ∀ c, (s.items c).dispatched = true → (s.items c).state = .dispatched
  pending : ∀ d it, s.run = .closeDispatched d it → (s.items it).dispatched = false
  alive : s.panicked = false

/-- Neither the second close of a channel nor a missing result panics the run loop. -/
lemma runStep_alive {branch : CollectCase} {returned : List (List R × Option ε)}
    (ha : AnnounceInvariant s) (hl : ReturnLocal s.invocations returned s.run)
    (h : runStep cfg w s branch = some s') : s'.panicked = false := by
  have halive := ha.alive
  cases hrun : s.run
  all_goals
    rw [hrun] at hl
    simp only [runStep, hrun, State.sendReply] at h
    repeat' split at h
    all_goals cases h
  all_goals first
    | exact halive
    | skip
  · rename_i d it hdispatched
    rw [ha.pending d it hrun] at hdispatched
    cases hdispatched
  · rename_i r _ it hit _ _ results _ hout _ hmissing
    obtain ⟨-, k, invocation, -, -, hok⟩ := hl
    have hlen := (hok results hout).2
    have hlt := (List.getElem?_eq_some_iff.mp hit).1
    rw [List.getElem?_eq_none_iff] at hmissing
    omega

/-- Only a won compare-and-swap leads to the close of a `dispatched` channel. -/
lemma runStep_claims {branch : CollectCase} (h : runStep cfg w s branch = some s')
    (halive : s'.panicked = false) {d : Dispatching T} {it : CallId} (hs' : s'.run = .closeDispatched d it) :
    (s.items it).state = .queued ∧ s' = (s.setWord it .dispatched).jump (.closeDispatched d it) := by
  cases hrun : s.run
  all_goals
    simp only [runStep, hrun, State.sendReply] at h
    repeat' split at h
    all_goals cases h
  all_goals first
    | cases hs'; exact ⟨‹_›, rfl⟩
    | cases hs'
    | cases halive
    | (unfold State.jump afterDispatch at hs'; split at hs' <;> cases hs')

lemma setItem_flag {it : CallId} {item : Item R ε}
    (hflag : ∀ c, (s.items c).dispatched = true → (s.items c).state = .dispatched)
    (hitem : item.dispatched = true → item.state = .dispatched) (c : CallId)
    (h : ((s.setItem it item).items c).dispatched = true) : ((s.setItem it item).items c).state = .dispatched := by
  change (Function.update s.items it item c).dispatched = true at h
  change (Function.update s.items it item c).state = .dispatched
  by_cases hc : c = it
  · subst hc
    rw [Function.update_self] at h ⊢
    exact hitem h
  · rw [Function.update_of_ne hc] at h ⊢
    exact hflag c h

lemma unannounced_of_queued (ha : AnnounceInvariant s) {it : CallId} (hword : (s.items it).state = .queued) :
    (s.items it).dispatched = false := by
  by_contra hset
  rw [ha.flag it (Bool.eq_true_of_not_eq_false hset)] at hword
  cases hword

lemma runEffect_flag (hi : SchedulerInvariant cfg w s) (ha : AnnounceInvariant s) (h : RunEffect cfg w s s') :
    ∀ c, (s'.items c).dispatched = true → (s'.items c).state = .dispatched := by
  cases h with
  | silent | take | drop | invoke | stop | panic => exact ha.flag
  | expire d it err hrun hword =>
    refine setItem_flag ha.flag (fun hset => ?_)
    exact absurd ((unannounced_of_queued ha hword).symm.trans hset) Bool.false_ne_true
  | claim d it hrun hword => exact setItem_flag ha.flag (fun _ => rfl)
  | announce d it hrun hopen =>
    refine setItem_flag ha.flag (fun _ => ?_)
    have hactive : it ∈ activeOf s.run := by
      rw [hrun]
      exact List.mem_append_right _ List.mem_cons_self
    exact hi.ledger.claimed it (List.mem_append_right _ hactive)
  | answer pc it => exact setItem_flag ha.flag (ha.flag it)

theorem runStep_announce {branch : CollectCase} {returned : List (List R × Option ε)}
    (hi : SchedulerInvariant cfg w s) (ha : AnnounceInvariant s)
    (hl : ReturnLocal s.invocations returned s.run) (h : runStep cfg w s branch = some s') :
    AnnounceInvariant s' := by
  have halive := runStep_alive ha hl h
  refine ⟨runEffect_flag hi ha (runStep_effect h), fun d it hrun => ?_, halive⟩
  obtain ⟨hword, rfl⟩ := runStep_claims h halive hrun
  change (Function.update s.items it _ it).dispatched = false
  rw [Function.update_self]
  exact unannounced_of_queued ha hword

/-- A call closes no `dispatched` channel and panics only on a closed queue. -/
lemma callStep_announce (hl : LockInvariant s) (ha : AnnounceInvariant s) (h : CallStep cfg s c s') :
    AnnounceInvariant s' := by
  cases h with
  | invoke | start | lock | check | enter | full | unlock | reject | wait | leave | refuse =>
    exact ⟨ha.flag, ha.pending, ha.alive⟩
  | create hpc =>
    refine ⟨setItem_flag ha.flag (fun hset => Bool.noConfusion hset), fun d it hrun => ?_, ha.alive⟩
    change (Function.update s.items c _ it).dispatched = false
    rw [Function.update_apply]
    split
    · rfl
    · exact ha.pending d it hrun
  | panic hpc hclosed =>
    rw [queueOpen_of_open hl (hl.sends c hpc)] at hclosed
    cases hclosed
  | receive result hpc hreply =>
    have hkept : ∀ c', ((s.setItem c { s.items c with reply := none }).items c').dispatched =
        (s.items c').dispatched := setItem_field Item.dispatched (by rfl)
    exact ⟨setItem_flag ha.flag (ha.flag c), fun d it hrun => (hkept it).trans (ha.pending d it hrun), ha.alive⟩
  | giveUp err hpc hword herr =>
    have hkept : ∀ c', ((s.setWord c .expired).items c').dispatched = (s.items c').dispatched :=
      setItem_field Item.dispatched (by rfl)
    refine ⟨setItem_flag ha.flag (fun hset => ?_), fun d it hrun => (hkept it).trans (ha.pending d it hrun), ha.alive⟩
    exact absurd ((unannounced_of_queued ha hword).symm.trans hset) Bool.false_ne_true

/-- Where the items are when the run loop stops, and which calls may have been refused. -/
structure DrainInvariant (s : State T R ε) : Prop where
  drained : queueDrained s.run = true → s.queueClosed = true ∧ s.queue = []
  expired : ∀ c, (s.items c).state = .expired →
    (∃ result, s.calls c = .returned result true) ∨ c ∈ s.replies.map Prod.fst ∨ c ∈ owedOf s.run
  admitted : ∀ c, waitsForReply (s.calls c) ∨ s.calls c = .unlock none → c ∈ s.admitted
  refused : ∀ c won, s.calls c = .returned (.error .closed) won → c ∉ s.admitted

/-- Once `done` is closed, every admitted item was answered or expired by its own call. -/
lemma settled_of_done (hi : SchedulerInvariant cfg w s) (hd : DrainInvariant s) (hdone : s.done = true)
    (hc : c ∈ s.admitted) :
    c ∈ s.replies.map Prod.fst ∨ (s.items c).state = .expired ∧ ∃ result, s.calls c = .returned result true := by
  have hrun := hi.stopped hdone
  have hqueue := (hd.drained (by rw [hrun]; rfl)).2
  have hreceived : c ∈ s.received := by
    have hsplit : s.admitted = s.received ++ s.queue := hi.ledger.split
    rw [hsplit, hqueue, List.append_nil] at hc
    exact hc
  have howed : c ∉ owedOf s.run := by
    rw [hrun]
    exact List.not_mem_nil
  rcases hi.ledger.settled c hreceived with hwaiting | hactive | hanswered | hexpired
  · simp only [ledgerOf, hrun, waitingOf, List.not_mem_nil] at hwaiting
  · simp only [ledgerOf, hrun, activeOf, List.not_mem_nil] at hactive
  · exact .inl ((List.mem_append.mp hanswered).resolve_right howed)
  · rcases hd.expired c hexpired with hwon | hreplied | hin
    · exact .inr ⟨hexpired, hwon⟩
    · exact .inl hreplied
    · exact absurd hin howed

/-- The branch of `Submit` that reports a closed scheduler after the admission is never taken. -/
lemma no_refusal (hi : SchedulerInvariant cfg w s) (hd : DrainInvariant s) (hpc : s.calls c = .schedulerDone)
    (hreply : (s.items c).reply = none) : False := by
  have hcall := hi.calls c
  rw [hpc] at hcall
  have hadmitted := hd.admitted c (.inl (by rw [hpc]; trivial))
  rcases settled_of_done hi hd hcall.1 hadmitted with hreplied | ⟨-, result, hret⟩
  · exact hcall.2 hreplied hreply
  · rw [hpc] at hret
    cases hret

/-- An expiry stays accounted for as long as owed replies stay owed or get sent. -/
lemma expired_kept (hd : DrainInvariant s) (hcalls : s'.calls = s.calls)
    (hreplies : ∀ p ∈ s.replies, p ∈ s'.replies)
    (howed : ∀ it ∈ owedOf s.run, it ∈ s'.replies.map Prod.fst ∨ it ∈ owedOf s'.run)
    (hexpired : (s.items c).state = .expired) :
    (∃ result, s'.calls c = .returned result true) ∨ c ∈ s'.replies.map Prod.fst ∨ c ∈ owedOf s'.run := by
  rcases hd.expired c hexpired with hwon | hreplied | hin
  · exact .inl (hcalls ▸ hwon)
  · obtain ⟨p, hp, hpc⟩ := List.mem_map.mp hreplied
    exact .inr (.inl (List.mem_map.mpr ⟨p, hreplies p hp, hpc⟩))
  · exact .inr (howed c hin)

lemma runEffect_expired (hd : DrainInvariant s) (h : RunEffect cfg w s s') (c : CallId)
    (hexpired : (s'.items c).state = .expired) :
    (∃ result, s'.calls c = .returned result true) ∨ c ∈ s'.replies.map Prod.fst ∨ c ∈ owedOf s'.run := by
  obtain ⟨hcalls, hreplies⟩ := runEffect_kept h
  have hnone : owedOf s.run = [] → ∀ it ∈ owedOf s.run, it ∈ s'.replies.map Prod.fst ∨ it ∈ owedOf s'.run := by
    intro he it hin
    rw [he] at hin
    exact absurd hin List.not_mem_nil
  cases h with
  | silent pc hwaiting hactive howed =>
    exact expired_kept hd hcalls hreplies (fun it hin => .inr (howed ▸ hin)) hexpired
  | take pc it rest hq hroom hwaiting hactive howed =>
    exact expired_kept hd hcalls hreplies (fun it hin => .inr (howed ▸ hin)) hexpired
  | drop pc it before after hword hold hwaiting hactive howed =>
    exact expired_kept hd hcalls hreplies (fun it hin => .inr (howed ▸ hin)) hexpired
  | expire d it err hrun hword =>
    by_cases hc : c = it
    · exact .inr (.inr (hc ▸ List.mem_cons_self))
    · refine expired_kept hd hcalls hreplies (hnone (by rw [hrun]; rfl)) ?_
      change (Function.update s.items it _ c).state = .expired at hexpired
      rwa [Function.update_of_ne hc] at hexpired
  | claim d it hrun hword =>
    change (Function.update s.items it _ c).state = .expired at hexpired
    by_cases hc : c = it
    · subst hc
      rw [Function.update_self] at hexpired
      cases hexpired
    · rw [Function.update_of_ne hc] at hexpired
      exact expired_kept hd hcalls hreplies (hnone (by rw [hrun]; rfl)) hexpired
  | announce d it hrun hopen =>
    have hstate : ((s.setItem it { s.items it with dispatched := true }).items c).state = (s.items c).state :=
      setItem_field Item.state (by rfl) c
    exact expired_kept hd hcalls hreplies (hnone (by rw [hrun]; rfl)) (hstate.symm.trans hexpired)
  | invoke d invocation hrun =>
    exact expired_kept hd hcalls hreplies (hnone (by rw [hrun]; rfl)) hexpired
  | answer pc it result hreply howed =>
    have hstate : ((s.setItem it { s.items it with reply := some result }).items c).state =
        (s.items c).state := setItem_field Item.state (by rfl) c
    refine expired_kept hd hcalls hreplies (fun it' hin => ?_) (hstate.symm.trans hexpired)
    rw [howed] at hin
    rcases List.mem_cons.mp hin with rfl | hin
    · exact .inl (List.mem_map.mpr ⟨(it', result), List.mem_append_right _ List.mem_cons_self, rfl⟩)
    · exact .inr hin
  | stop hrun => exact expired_kept hd hcalls hreplies (hnone (by rw [hrun]; rfl)) hexpired
  | panic => exact hd.expired c hexpired

lemma runEffect_drain (hd : DrainInvariant s) (h : RunEffect cfg w s s')
    (hdrained : queueDrained s'.run = true → s'.queueClosed = true ∧ s'.queue = []) : DrainInvariant s' := by
  obtain ⟨hcalls, -⟩ := runEffect_kept h
  have hadmitted : s'.admitted = s.admitted := by cases h <;> rfl
  refine ⟨hdrained, runEffect_expired hd h, ?_, ?_⟩
  · rw [hcalls, hadmitted]
    exact hd.admitted
  · rw [hcalls, hadmitted]
    exact hd.refused

/-- The return of the handler hands `queueOpen` on. -/
lemma handlerReturns_drained {results : List R} {err : Option ε}
    (hd : queueDrained s.run = true → s.queueClosed = true ∧ s.queue = [])
    (h : handlerReturns s results err = some s') (hs' : queueDrained s'.run = true) :
    s'.queueClosed = true ∧ s'.queue = [] := by
  unfold handlerReturns at h
  split at h
  · rename_i hrun
    rw [hrun] at hd
    cases h
    exact hd hs'
  · cases h

lemma handlerReturns_announce {results : List R} {err : Option ε} (ha : AnnounceInvariant s)
    (h : handlerReturns s results err = some s') : AnnounceInvariant s' := by
  unfold handlerReturns at h
  split at h
  · cases h
    exact ⟨ha.flag, fun d it hrun => (by cases hrun), ha.alive⟩
  · cases h

lemma callStep_running (h : CallStep cfg s c s') (result : Reply R ε) (won : Bool) :
    s.calls c ≠ .returned result won := by
  intro hret
  cases h with
  | wait pc hpc | receive result hpc | giveUp err hpc =>
    rw [hret] at hpc
    exact hpc
  | leave err hpc =>
    rcases hpc with hpc | hpc
    · cases hret.symm.trans hpc
    · rw [hret] at hpc
      exact hpc
  | invoke hpc | start hpc | create hpc | lock hpc | check hpc | enter hpc | full hpc | panic hpc | unlock hpc
  | reject err hpc | refuse hpc => cases hret.symm.trans hpc

lemma callStep_expired (hd : DrainInvariant s) (h : CallStep cfg s c s')
    (hexpired : (s'.items c).state = .expired) :
    (∃ result, s'.calls c = .returned result true) ∨ c ∈ s'.replies.map Prod.fst ∨ c ∈ owedOf s'.run := by
  have hold : (s.items c).state = .expired → c ∈ s.replies.map Prod.fst ∨ c ∈ owedOf s.run := fun hx =>
    (hd.expired c hx).resolve_left (fun ⟨result, hret⟩ => callStep_running h result true hret)
  cases h with
  | invoke | start | lock | check | enter | full | panic | unlock | reject | wait | leave | refuse =>
    exact .inr (hold hexpired)
  | create =>
    rw [goto_items, setItem_self] at hexpired
    cases hexpired
  | receive result hpc hreply =>
    rw [goto_items, setItem_self] at hexpired
    exact .inr (hold hexpired)
  | giveUp err => exact .inl ⟨.error err, goto_self _ c _⟩

/-- A call learns from its own step that the scheduler is closed only before its admission. -/
lemma callStep_refused (hi : SchedulerInvariant cfg w s) (hd : DrainInvariant s) (h : CallStep cfg s c s')
    {won : Bool} (hret : s'.calls c = .returned (.error .closed) won) :
    s.calls c = .unlock (some .closed) ∧ s'.admitted = s.admitted := by
  cases h with
  | reject err hpc =>
    cases eq_of_goto hret
    exact ⟨hpc, rfl⟩
  | refuse hpc hreply => exact (no_refusal hi hd hpc hreply).elim
  | receive result hpc hreply =>
    cases eq_of_goto hret
    rcases hi.replies _ (hi.buffered c _ hreply) with ⟨he, -⟩ | hlate
    · cases he
    · exact (hlate _ rfl).elim
  | giveUp err hpc hword herr =>
    cases eq_of_goto hret
    rcases herr with he | hlate
    · cases he
    · exact hlate.elim
  | check hpc =>
    rw [goto_self] at hret
    split at hret <;> cases hret
  | wait pc hpc hnext hdone =>
    rw [goto_self] at hret
    rw [hret] at hnext
    exact hnext.elim
  | panic hpc => cases hret.symm.trans hpc
  | _ =>
    cases eq_of_goto hret

lemma callStep_admitted (hd : DrainInvariant s) (h : CallStep cfg s c s')
    (hwaits : waitsForReply (s'.calls c) ∨ s'.calls c = .unlock none) : c ∈ s'.admitted := by
  cases h with
  | enter => exact List.mem_append_right _ List.mem_cons_self
  | unlock hpc => exact hd.admitted c (.inr hpc)
  | wait pc hpc => exact hd.admitted c (.inl hpc)
  | panic hpc =>
    rcases hwaits with hwaits | he
    · change waitsForReply (s.calls c) at hwaits
      rw [hpc] at hwaits
      exact hwaits.elim
    · cases he.symm.trans hpc
  | check hpc =>
    rw [goto_self] at hwaits
    split at hwaits
    · rcases hwaits with hwaits | he
      · exact hwaits.elim
      · cases he
    · rcases hwaits with hwaits | he
      · exact hwaits.elim
      · cases he
  | _ =>
    rw [goto_self] at hwaits
    rcases hwaits with hwaits | he
    · exact hwaits.elim
    · cases he

theorem callStep_drain (hi : SchedulerInvariant cfg w s) (hd : DrainInvariant s) (h : CallStep cfg s c s') :
    DrainInvariant s' := by
  have heffect := callStep_effect h
  obtain ⟨hrun, hreplies, -, -, hnew⟩ := submitEffect_shared heffect
  have hmono : ∀ c' ∈ s.admitted, c' ∈ s'.admitted := by
    intro c' hin
    cases h with
    | enter => exact List.mem_append_left _ hin
    | _ => exact hin
  refine ⟨fun hs' => ?_, fun c' hexpired => ?_, fun c' hwaits => ?_, fun c' won hret => ?_⟩
  · rw [hrun] at hs'
    obtain ⟨hclosed, hempty⟩ := hd.drained hs'
    cases h with
    | enter hpc hopen => exact absurd (hopen.symm.trans hclosed) Bool.false_ne_true
    | _ => exact ⟨hclosed, hempty⟩
  · by_cases hc : c' = c
    · subst hc
      exact callStep_expired hd h hexpired
    · obtain ⟨hitems, hcalls⟩ := submitEffect_others heffect hc
      rw [hitems] at hexpired
      rw [hcalls, hreplies, hrun]
      exact hd.expired c' hexpired
  · by_cases hc : c' = c
    · subst hc
      exact callStep_admitted hd h hwaits
    · rw [(submitEffect_others heffect hc).2] at hwaits
      exact hmono c' (hd.admitted c' hwaits)
  · by_cases hc : c' = c
    · subst hc
      obtain ⟨hpc, hsame⟩ := callStep_refused hi hd h hret
      have hcall := hi.calls c'
      rw [hpc] at hcall
      rw [hsame]
      exact hcall.1
    · rw [(submitEffect_others heffect hc).2] at hret
      exact hnew c' hc (hd.refused c' won hret)

lemma closeStep_announce (hl : LockInvariant s) (ha : AnnounceInvariant s) (h : closeStep s = some s') :
    AnnounceInvariant s' := by
  have hqueue := hl.queue
  have halive : s'.panicked = false := by
    unfold closeStep at h
    repeat' split at h
    all_goals cases h
    all_goals first
      | exact ha.alive
      | (rename_i hc hshut; rw [hqueue, hc] at hshut; cases hshut)
  obtain ⟨_, _, _, _, _, rfl⟩ := closeStep_frame h
  exact ⟨ha.flag, ha.pending, halive⟩

lemma closeStep_drain (hd : DrainInvariant s) (h : closeStep s = some s') :
    DrainInvariant s' := by
  have hshut : s.queueClosed = true → s'.queueClosed = true := by
    unfold closeStep at h
    repeat' split at h
    all_goals cases h
    all_goals first
      | exact id
      | exact fun _ => rfl
  obtain ⟨_, _, _, _, _, rfl⟩ := closeStep_frame h
  refine ⟨fun hs' => ?_, hd.expired, hd.admitted, hd.refused⟩
  obtain ⟨hclosed, hempty⟩ := hd.drained hs'
  exact ⟨hshut hclosed, hempty⟩

end drain

/-- The call took a step that found `closed` set. -/
def FoundClosed (cfg : Config) (w : Workload T) (now : Int) (actions : List (Scheduler.Action R ε))
    (c : CallId) : Prop :=
  ∃ before branch after, ∃ t : State T R ε, actions = before ++ .submitStep c branch :: after ∧
    runSteps (step cfg w) (State.initial now) before = some t ∧ t.calls c = .checkClosed ∧ t.closed = true

lemma FoundClosed.append {now : Int} {past more : List (Scheduler.Action R ε)}
    (h : FoundClosed cfg w now past c) : FoundClosed cfg w now (past ++ more) c := by
  obtain ⟨before, branch, after, t, rfl, ht⟩ := h
  exact ⟨before, branch, after ++ more, t, by rw [List.append_assoc, List.cons_append], ht⟩

/-- All that holds after a run, with the calls that were told that the scheduler is closed. -/
structure ClosingInvariant (cfg : Config) (w : Workload T) (now : Int) (past : List (Scheduler.Action R ε))
    (s : State T R ε) : Prop where
  run : runSteps (step cfg w) (State.initial now) past = some s
  scheduler : SchedulerInvariant cfg w s
  pairing : PairingInvariant past s
  lock : LockInvariant s
  announce : AnnounceInvariant s
  drain : DrainInvariant s
  found : ∀ c, s.calls c = .unlock (some .closed) ∨ (∃ won, s.calls c = .returned (.error .closed) won) →
    FoundClosed cfg w now past c

lemma callStep_unlockClosed (h : CallStep cfg s c s') (hs' : s'.calls c = .unlock (some .closed)) :
    s.calls c = .checkClosed ∧ s.closed = true := by
  cases h with
  | check hpc =>
    rw [goto_self] at hs'
    split at hs'
    · exact ⟨hpc, ‹_›⟩
    · cases hs'
  | panic hpc => cases hs'.symm.trans hpc
  | wait pc hpc hnext =>
    rw [goto_self] at hs'
    rw [hs'] at hnext
    exact hnext.elim
  | _ =>
    cases eq_of_goto hs'

lemma callStep_found {now : Int} {past : List (Scheduler.Action R ε)} {branch : SelectCase}
    (hc : ClosingInvariant cfg w now past s) (h : CallStep cfg s c s')
    (htold : s'.calls c = .unlock (some .closed) ∨ ∃ won, s'.calls c = .returned (.error .closed) won) :
    FoundClosed cfg w now (past ++ [.submitStep c branch]) c := by
  rcases htold with htold | ⟨won, hret⟩
  · obtain ⟨hpc, hclosed⟩ := callStep_unlockClosed h htold
    exact ⟨past, branch, [], s, rfl, hc.run, hpc, hclosed⟩
  · have hpc := (callStep_refused hc.scheduler hc.drain h hret).1
    exact (hc.found c (.inl hpc)).append

theorem step_closing {now : Int} {past : List (Scheduler.Action R ε)} {a : Scheduler.Action R ε}
    (hc : ClosingInvariant cfg w now past s) (h : step cfg w s a = some s') :
    ClosingInvariant cfg w now (past ++ [a]) s' := by
  have hrun := runSteps_concat hc.run h
  have hscheduler := step_schedulerInvariant hc.scheduler h
  have hpairing := step_pairing hc.scheduler hc.pairing h
  have hlock := step_lock hc.lock h
  have hfound : s'.calls = s.calls → ∀ c, s'.calls c = .unlock (some .closed) ∨
      (∃ won, s'.calls c = .returned (.error .closed) won) → FoundClosed cfg w now (past ++ [a]) c := by
    intro hcalls c htold
    rw [hcalls] at htold
    exact (hc.found c htold).append
  obtain ⟨hdrained, hexpired, hadmitted, hrefused⟩ := hc.drain
  cases step_effect h with
  | world =>
    exact ⟨hrun, hscheduler, hpairing, hlock, ⟨hc.announce.flag, hc.announce.pending, hc.announce.alive⟩,
      ⟨hdrained, hexpired, hadmitted, hrefused⟩, hfound rfl⟩
  | start c hidle =>
    have hcall : CallStep cfg s c (s.goto c .entered) := .invoke hidle
    refine ⟨hrun, hscheduler, hpairing, hlock, callStep_announce hc.lock hc.announce hcall,
      callStep_drain hc.scheduler hc.drain hcall, fun c' htold => ?_⟩
    by_cases he : c' = c
    · subst he
      rw [goto_self] at htold
      rcases htold with he | ⟨won, he⟩ <;> cases he
    · rw [goto_other he] at htold
      exact (hc.found c' htold).append
  | call c branch _ h =>
    have hcall := submitStep_call h
    refine ⟨hrun, hscheduler, hpairing, hlock, callStep_announce hc.lock hc.announce hcall,
      callStep_drain hc.scheduler hc.drain hcall, fun c' htold => ?_⟩
    by_cases he : c' = c
    · subst he
      exact callStep_found hc hcall htold
    · rw [(submitEffect_others (callStep_effect hcall) he).2] at htold
      exact (hc.found c' htold).append
  | loop branch _ h =>
    have heffect := runStep_effect h
    exact ⟨hrun, hscheduler, hpairing, hlock, runStep_announce hc.scheduler hc.announce hc.pairing.loop h,
      runEffect_drain hc.drain heffect (runStep_drained hdrained h), hfound (runEffect_kept heffect).1⟩
  | returns results err _ h =>
    have heffect : RunEffect cfg w s s' := handlerReturns_effect h
    exact ⟨hrun, hscheduler, hpairing, hlock, handlerReturns_announce hc.announce h,
      runEffect_drain hc.drain heffect (handlerReturns_drained hdrained h), hfound (runEffect_kept heffect).1⟩
  | close =>
    exact ⟨hrun, hscheduler, hpairing, hlock, ⟨hc.announce.flag, hc.announce.pending, hc.announce.alive⟩,
      ⟨hdrained, hexpired, hadmitted, hrefused⟩, hfound rfl⟩
  | closing _ h =>
    have hcalls : s'.calls = s.calls := by
      obtain ⟨_, _, _, _, _, rfl⟩ := closeStep_frame h
      rfl
    exact ⟨hrun, hscheduler, hpairing, hlock, closeStep_announce hc.lock hc.announce h,
      closeStep_drain hc.drain h, hfound hcalls⟩

lemma initial_closing (cfg : Config) (w : Workload T) (now : Int) :
    ClosingInvariant cfg w now [] (State.initial now : State T R ε) where
  run := rfl
  scheduler := initial_invariant cfg w now
  pairing := ⟨rfl, fun _ hp => absurd hp List.not_mem_nil, fun _ _ _ hret => by cases hret⟩
  lock := ⟨rfl, rfl, rfl, fun c => iff_of_false (Finset.notMem_empty c) Bool.false_ne_true, fun _ => rfl,
    fun _ _ => rfl⟩
  announce := ⟨fun _ h => Bool.noConfusion h, fun _ _ h => (by cases h), rfl⟩
  drain := by
    refine ⟨fun h => Bool.noConfusion h, fun _ h => (by cases h), fun _ h => ?_, fun _ _ h => (by cases h)⟩
    rcases h with h | h
    · exact h.elim
    · cases h
  found _ h := by
    rcases h with h | ⟨won, h⟩ <;> cases h

theorem run_closing (cfg : Config) (w : Workload T) (now : Int) (actions : List (Scheduler.Action R ε))
    (s : State T R ε) (h : runSteps (step cfg w) (State.initial now) actions = some s) :
    ClosingInvariant cfg w now actions s :=
  runSteps_history (P := ClosingInvariant cfg w now) (fun _ _ _ _ => step_closing) (initial_closing cfg w now) actions h

/-- `Close` drains admitted work, in every run. Nothing panics; in particular no call sends on the
closed queue. Once `done` is closed, every item that entered the queue was sent a reply or was
expired by its own call. An admitted call never returns the scheduler's `ErrClosed`, and a call
that does return it found `closed` set before it would have enqueued its item. -/
theorem scheduler_close_drains (cfg : Config) (w : Workload T) (now : Int)
    (actions : List (Scheduler.Action R ε)) (s : State T R ε)
    (h : runSteps (step cfg w) (State.initial now) actions = some s) :
    s.panicked = false ∧ (∀ c, s.calls c = .enqueue → s.queueClosed = false) ∧
      (s.done = true → ∀ c ∈ s.admitted, c ∈ s.replies.map Prod.fst ∨
        (s.items c).state = .expired ∧ ∃ result, s.calls c = .returned result true) ∧
      (∀ c ∈ s.admitted, ∀ won, s.calls c ≠ .returned (.error .closed) won) ∧
      ∀ c won, s.calls c = .returned (.error .closed) won → FoundClosed cfg w now actions c := by
  have hc := run_closing cfg w now actions s h
  refine ⟨hc.announce.alive, fun c hpc => ?_, fun hdone c hin => ?_, fun c hin won hret => ?_, fun c won hret => ?_⟩
  · exact queueOpen_of_open hc.lock (hc.lock.sends c hpc)
  · exact settled_of_done hc.scheduler hc.drain hdone hin
  · exact hc.drain.refused c won hret hin
  · exact hc.found c (.inr ⟨won, hret⟩)

/-- The scheduler is closed while one item is queued; its call waits on `done` and still gets the
result, and a later call is refused. -/
def closedWhileQueued : List (Scheduler.Action Nat Unit) :=
  Action.submit 0 :: List.replicate 6 (.submitStep 0 .reply) ++ Action.close :: List.replicate 5 .closeStep ++
    List.replicate 8 (Action.runStep .receive) ++
    Action.handlerReturns [7] none :: List.replicate 4 (.runStep .receive) ++
    [Action.submitStep 0 .schedulerDone, .submitStep 0 .reply] ++
    Action.submit 1 :: List.replicate 5 (.submitStep 1 .reply)

theorem scheduler_close_drains_queued :
    let cfg : Config := ⟨2, 2, 1000000, by decide, by decide, by decide⟩
    let w : Workload Nat := ⟨id, id, fun _ => none⟩
    ∃ s : State Nat Nat Unit, runSteps (step cfg w) (State.initial 0) closedWhileQueued = some s ∧
      s.done = true ∧ s.admitted = [0] ∧ s.calls 0 = .returned (.ok 7) false ∧
      s.calls 1 = .returned (.error .closed) false ∧ FoundClosed cfg w 0 closedWhileQueued 1 := by
  intro cfg w
  have hfinal : (runSteps (step cfg w) (State.initial 0) closedWhileQueued).map
      (fun s => (s.done, s.admitted, s.calls 0, s.calls 1)) =
      some (true, [0], .returned (.ok 7) false, .returned (.error .closed) false) := by rfl
  obtain ⟨s, hs, he⟩ := Option.map_eq_some_iff.mp hfinal
  rw [Prod.mk.injEq, Prod.mk.injEq, Prod.mk.injEq] at he
  obtain ⟨hdone, hadmitted, hfirst, hsecond⟩ := he
  obtain ⟨-, -, -, -, hfound⟩ := scheduler_close_drains cfg w 0 closedWhileQueued s hs
  exact ⟨s, hs, hdone, hadmitted, hfirst, hsecond, hfound 1 false hsecond⟩

end FraudDetection.Proofs
