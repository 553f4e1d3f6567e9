import FraudDetection.Library.Transition
import FraudDetection.Proofs.SchedulerSteps

/-!
# Admission safety of the scheduler

The scheduler moves along its ledger (`runEffect_move`, `submitEffect_move`), so the ledger
invariant holds in every run. Together with what each call of `Submit` knows of its item this
gives admission safety: values reach the handler at most once, in admission order, in batches of
bounded size, and never after a refusal or an expiry.
-/

namespace FraudDetection.Proofs
open FraudDetection.Library
open FraudDetection.Scheduler

variable {T R ε : Type} {cfg : Config} {w : Workload T} {s s' : State T R ε} {c : CallId}

/-- The error of a reply: an expiry in the queue only for an expired item, and never a refusal. -/
def ReplyAllowed (s : State T R ε) (p : CallId × Reply R ε) : Prop :=
  p.2 = .error .queueDelay ∧ (s.items p.1).state = .expired ∨ ∀ err, p.2 = .error err → lateError err

structure SchedulerInvariant (cfg : Config) (w : Workload T) (s : State T R ε) : Prop where
  ledger : LedgerInvariant cfg.maxBatch (ledgerOf s)
  loop : RunLocal w (fun c => (s.items c).state) s.run
  calls : ∀ c, CallLocal s c (s.calls c)
  buffered : ∀ c result, (s.items c).reply = some result → (c, result) ∈ s.replies
  replies : ∀ p ∈ s.replies, ReplyAllowed s p
  invoked : ∀ i ∈ s.invocations,
    1 ≤ i.active.length ∧ i.active.length ≤ cfg.maxBatch ∧ i.values = i.active.map w.value
  stopped : s.done = true → s.run = .stopped

lemma initial_invariant (cfg : Config) (w : Workload T) (now : Int) :
    SchedulerInvariant cfg w (State.initial now : State T R ε) where
  ledger := by
    refine ⟨List.nodup_nil, rfl, List.Sublist.refl _, List.nodup_nil, ?_, Nat.zero_le _, ?_, ?_, ?_, ?_, ?_⟩
    all_goals exact fun c hc => absurd hc List.not_mem_nil
  loop := trivial
  calls _ := ⟨List.not_mem_nil, rfl⟩
  buffered _ _ h := by cases h
  replies _ h := absurd h List.not_mem_nil
  invoked _ h := absurd h List.not_mem_nil
  stopped h := Bool.noConfusion h

lemma ledgerOf_jump (s : State T R ε) (pc : RunPC T R ε) :
    ledgerOf (s.jump pc) =
      { ledgerOf s with waiting := waitingOf pc, active := activeOf pc, owed := owedOf pc } := rfl

lemma ledgerOf_setWord (s : State T R ε) (c : CallId) (word : ItemState) :
    ledgerOf (s.setWord c word) = { ledgerOf s with word := Function.update (ledgerOf s).word c word } := by
  have hword : (fun c' => ((s.setWord c word).items c').state) =
      Function.update (fun c' => (s.items c').state) c word := by
    funext c'
    change (Function.update s.items c _ c').state = _
    simp only [Function.update_apply]
    split <;> rfl
  unfold ledgerOf
  rw [hword]
  rfl

/-- An update of one item that keeps a field of it keeps that field of all items. -/
lemma setItem_field {α : Type} (field : Item R ε → α) {s : State T R ε} {it : CallId} {item : Item R ε}
    (h : field item = field (s.items it)) (c : CallId) :
    field ((s.setItem it item).items c) = field (s.items c) := by
  change field (Function.update s.items it item c) = _
  rw [Function.update_apply]
  split
  · rename_i he
    rw [h, he]
  · rfl

lemma ledgerOf_setItem (s : State T R ε) (c : CallId) (item : Item R ε)
    (h : item.state = (s.items c).state) : ledgerOf (s.setItem c item) = ledgerOf s := by
  have hword : (fun c' => ((s.setItem c item).items c').state) = fun c' => (s.items c').state := by
    funext c'
    exact setItem_field Item.state h c'
  unfold ledgerOf
  rw [hword]
  rfl

theorem runEffect_move (h : RunEffect cfg w s s') :
    ledgerOf s' = ledgerOf s ∨ (ledgerOf s).Move cfg.maxBatch (ledgerOf s') := by
  cases h with
  | silent pc hwaiting hactive howed hlocal =>
    left
    simp only [ledgerOf, State.jump, hwaiting, hactive, howed]
  | take pc it rest hq hroom hwaiting hactive howed hlocal =>
    right
    have hmove : (ledgerOf s).Move cfg.maxBatch _ := .take it rest hq hroom
    simpa only [ledgerOf, State.jump, hwaiting, hactive, howed] using hmove
  | drop pc it before after hword hold hwaiting hactive howed hlocal =>
    right
    have hmove : (ledgerOf s).Move cfg.maxBatch _ := .drop it before after hold hword
    simpa only [ledgerOf, State.jump, hwaiting, hactive, howed] using hmove
  | expire d it err hrun hword =>
    right
    have hwaiting : (ledgerOf s).waiting = it :: d.rest := by simp only [ledgerOf, hrun, waitingOf]
    have hmove : (ledgerOf s).Move cfg.maxBatch _ := .expire it d.rest hwaiting hword
    rw [ledgerOf_jump, ledgerOf_setWord]
    simpa only [ledgerOf, hrun, waitingOf, activeOf, owedOf, List.nil_append] using hmove
  | claim d it hrun hword =>
    right
    have hwaiting : (ledgerOf s).waiting = it :: d.rest := by simp only [ledgerOf, hrun, waitingOf]
    have hmove : (ledgerOf s).Move cfg.maxBatch _ := .claim it d.rest hwaiting hword
    rw [ledgerOf_jump, ledgerOf_setWord]
    simpa only [ledgerOf, hrun, waitingOf, activeOf, owedOf] using hmove
  | announce d it hrun hopen =>
    left
    rw [ledgerOf_jump, ledgerOf_setItem s it { s.items it with dispatched := true } rfl]
    simp only [ledgerOf, hrun, waitingOf, activeOf, owedOf]
  | invoke d invocation hrun hrest hne hactive hvalues =>
    right
    have hwaiting : (ledgerOf s).waiting = [] := by simp only [ledgerOf, hrun, waitingOf, hrest]
    have hmove : (ledgerOf s).Move cfg.maxBatch _ := .invoke hwaiting
    simpa only [ledgerOf, State.jump, hrun, waitingOf, activeOf, owedOf, hrest, hactive, List.nil_append,
      List.flatMap_append, List.flatMap_cons, List.flatMap_nil, List.append_nil] using hmove
  | answer pc it result hreply howed hwaiting hactive hresult hlocal =>
    right
    have hmove : (ledgerOf s).Move cfg.maxBatch _ := .answer it (owedOf pc) howed
    have hkeep := ledgerOf_setItem s it { s.items it with reply := some result } rfl
    have hnew : ledgerOf { s.setItem it { s.items it with reply := some result } with
        replies := s.replies ++ [(it, result)], run := pc } =
        { ledgerOf (s.setItem it { s.items it with reply := some result }) with
          waiting := waitingOf pc, active := activeOf pc, owed := owedOf pc
          replied := s.replies.map Prod.fst ++ [it] } := by
      simp only [ledgerOf, List.map_append, List.map_cons, List.map_nil]
    rw [hnew, hkeep, hwaiting, hactive]
    exact hmove
  | stop hrun =>
    left
    simp only [ledgerOf, State.jump, hrun, waitingOf, activeOf, owedOf]
  | panic => exact .inl rfl

theorem submitEffect_move (hcall : CallLocal s c (s.calls c)) (h : SubmitEffect cfg s c s') :
    ledgerOf s' = ledgerOf s ∨ (ledgerOf s).Move cfg.maxBatch (ledgerOf s') := by
  cases h with
  | advance readers pc hlocal => exact .inl rfl
  | create hpc =>
    left
    rw [hpc] at hcall
    exact ledgerOf_setItem s c ⟨s.now + cfg.maxDelay, .queued, none, false⟩ hcall.2.symm
  | enter hpc hroom =>
    right
    rw [hpc] at hcall
    refine Ledger.Move.enter (l := ledgerOf s) c hcall.1 ?_
    change (s.items c).state ≠ .dispatched
    rw [hcall.2]
    exact ItemState.noConfusion
  | receive result hpc hreply =>
    left
    exact ledgerOf_setItem s c { s.items c with reply := none } rfl
  | giveUp err hpc hword herr =>
    right
    change (ledgerOf s).Move _ (ledgerOf (s.setWord c .expired))
    rw [ledgerOf_setWord]
    exact .giveUp c hword
  | refuse hpc hreply => exact .inl rfl
  | panic hpc hclosed => exact .inl rfl

/-- What the rest of the system may do to the item of a call without the call noticing. -/
structure ItemFrame (s s' : State T R ε) (c : CallId) : Prop where
  admitted : c ∉ s.admitted → c ∉ s'.admitted ∧ (s'.items c).state = (s.items c).state
  expired : (s.items c).state = .expired → (s'.items c).state = .expired
  reply : (c ∈ s.replies.map Prod.fst → (s.items c).reply ≠ none) →
    c ∈ s'.replies.map Prod.fst → (s'.items c).reply ≠ none
  done : s.done = true → s'.done = true ∧ s'.invocations = s.invocations

lemma callLocal_frame {pc : SubmitPC R ε} (hf : ItemFrame s s' c) (h : CallLocal s c pc) :
    CallLocal s' c pc := by
  cases pc with
  | idle | entered | creating | locking | checkClosed | enqueue =>
    exact ⟨(hf.admitted h.1).1, (hf.admitted h.1).2.trans h.2⟩
  | unlock failure =>
    cases failure with
    | none => exact hf.reply h
    | some err => exact ⟨(hf.admitted h.1).1, h.2⟩
  | selecting | timerFired | contextDone | waiting => exact hf.reply h
  | schedulerDone => exact ⟨(hf.done h.1).1, hf.reply h.2⟩
  | returned result won =>
    refine ⟨fun hw => hf.expired (h.1 hw), fun he => hf.expired (h.2.1 he), fun he => ?_⟩
    rcases h.2.2 he with hnew | ⟨hdone, hno⟩
    · exact .inl (hf.admitted hnew).1
    · exact .inr ⟨(hf.done hdone).1, (hf.done hdone).2 ▸ hno⟩

/-- The expiry that a reply announces is not taken back. -/
lemma runLocal_frame {pc : RunPC T R ε} {word word' : CallId → ItemState}
    (hf : ∀ it, word it = .expired → word' it = .expired) (h : RunLocal w word pc) :
    RunLocal w word' pc := by
  cases pc with
  | sendError d it err => exact ⟨h.1, h.2.1, hf it h.2.2⟩
  | _ => exact h

lemma setWord_frame {it : CallId} (word : ItemState) (hit : it ∈ s.admitted)
    (hword : (s.items it).state = .queued) (c : CallId) :
    (c ∉ s.admitted → ((s.setWord it word).items c).state = (s.items c).state) ∧
      ((s.items c).state = .expired → ((s.setWord it word).items c).state = .expired) ∧
      ((s.setWord it word).items c).reply = (s.items c).reply := by
  change (c ∉ s.admitted → (Function.update s.items it _ c).state = _) ∧
    (_ → (Function.update s.items it _ c).state = _) ∧ (Function.update s.items it _ c).reply = _
  by_cases he : c = it
  · subst he
    refine ⟨fun hc => absurd hit hc, fun hx => ?_, ?_⟩
    · rw [hword] at hx
      cases hx
    · rw [Function.update_self]
  · rw [Function.update_of_ne he]
    exact ⟨fun _ => rfl, id, rfl⟩

lemma runEffect_frame (hi : SchedulerInvariant cfg w s) (hdone : s.done = false)
    (h : RunEffect cfg w s s') (c : CallId) : ItemFrame s s' c := by
  have hlive : s.done = true → s'.done = true ∧ s'.invocations = s.invocations := by
    intro hd
    rw [hdone] at hd
    cases hd
  have hadmitted : ∀ it ∈ waitingOf s.run, it ∈ s.admitted := fun it hit =>
    hi.ledger.received_admitted (hi.ledger.live_received (List.mem_append_right _ hit))
  cases h with
  | silent | take | drop | invoke | stop | panic =>
    exact ⟨fun hc => ⟨hc, rfl⟩, id, id, hlive⟩
  | expire d it err hrun hword =>
    obtain ⟨hnew, hexp, hreply⟩ := setWord_frame .expired
      (hadmitted it (by rw [hrun]; exact List.mem_cons_self)) hword c
    exact ⟨fun hc => ⟨hc, hnew hc⟩, hexp, fun hr hc => hreply ▸ hr hc, hlive⟩
  | claim d it hrun hword =>
    obtain ⟨hnew, hexp, hreply⟩ := setWord_frame .dispatched
      (hadmitted it (by rw [hrun]; exact List.mem_cons_self)) hword c
    exact ⟨fun hc => ⟨hc, hnew hc⟩, hexp, fun hr hc => hreply ▸ hr hc, hlive⟩
  | announce d it hrun hopen =>
    have hstate : ((s.setItem it { s.items it with dispatched := true }).items c).state = (s.items c).state :=
      setItem_field Item.state (by rfl) c
    have hreply : ((s.setItem it { s.items it with dispatched := true }).items c).reply = (s.items c).reply :=
      setItem_field Item.reply (by rfl) c
    exact ⟨fun hc => ⟨hc, hstate⟩, fun hx => hstate.trans hx, fun hr hc => hreply ▸ hr hc, hlive⟩
  | answer pc it result hreply howed hwaiting hactive hresult hlocal =>
    have hsame : ((s.setItem it { s.items it with reply := some result }).items c).state =
        (s.items c).state := setItem_field Item.state (by rfl) c
    refine ⟨fun hc => ⟨hc, hsame⟩, fun hx => hsame.trans hx, fun hr hc => ?_, hlive⟩
    change (Function.update s.items it _ c).reply ≠ none
    rw [Function.update_apply]
    split
    · exact Option.some_ne_none _
    · rename_i hne
      rw [List.map_append, List.mem_append] at hc
      exact hr (hc.resolve_right (fun hc => hne (List.mem_singleton.mp hc)))

lemma runEffect_local (hi : SchedulerInvariant cfg w s) (hframe : ∀ c, ItemFrame s s' c)
    (h : RunEffect cfg w s s') : RunLocal w (fun c => (s'.items c).state) s'.run := by
  have hloop := runLocal_frame (fun it => (hframe it).expired) hi.loop
  cases h with
  | silent pc hwaiting hactive howed hlocal => exact hlocal _ hi.loop
  | take pc it rest hq hroom hwaiting hactive howed hlocal => exact hlocal _
  | drop pc it before after hword hold hwaiting hactive howed hlocal => exact hlocal _ hi.loop
  | expire d it err hrun hword =>
    rw [hrun] at hloop
    refine ⟨hloop.1, hloop.2, ?_⟩
    exact congrArg Item.state (setItem_self ..)
  | claim d it hrun hword =>
    rw [hrun] at hloop
    exact hloop
  | announce d it hrun hopen =>
    rw [hrun] at hloop
    change d.values ++ [w.value it] = (d.active ++ [it]).map w.value
    rw [List.map_append, ← hloop]
    rfl
  | invoke => trivial
  | answer pc it result hreply howed hwaiting hactive hresult hlocal => exact hlocal _ hloop
  | stop => trivial
  | panic => exact hi.loop

lemma runEffect_replies (hi : SchedulerInvariant cfg w s) (hframe : ∀ c, ItemFrame s s' c)
    (h : RunEffect cfg w s s') :
    (∀ c result, (s'.items c).reply = some result → (c, result) ∈ s'.replies) ∧
      ∀ p ∈ s'.replies, ReplyAllowed s' p := by
  have hold : ∀ p ∈ s.replies, ReplyAllowed s' p := by
    intro p hp
    exact (hi.replies p hp).imp (fun ⟨he, hx⟩ => ⟨he, (hframe p.1).expired hx⟩) id
  cases h with
  | silent | take | drop | invoke | stop | panic => exact ⟨hi.buffered, hi.replies⟩
  | expire d it err hrun hword =>
    have hreply : ∀ c, ((s.setWord it .expired).items c).reply = (s.items c).reply :=
      setItem_field Item.reply (by rfl)
    exact ⟨fun c result hr => hi.buffered c result ((hreply c).symm.trans hr), hold⟩
  | claim d it hrun hword =>
    have hreply : ∀ c, ((s.setWord it .dispatched).items c).reply = (s.items c).reply :=
      setItem_field Item.reply (by rfl)
    exact ⟨fun c result hr => hi.buffered c result ((hreply c).symm.trans hr), hold⟩
  | announce d it hrun hopen =>
    have hreply : ∀ c, ((s.setItem it { s.items it with dispatched := true }).items c).reply =
        (s.items c).reply := setItem_field Item.reply (by rfl)
    exact ⟨fun c result hr => hi.buffered c result ((hreply c).symm.trans hr), hold⟩
  | answer pc it result hreply howed hwaiting hactive hresult hlocal =>
    refine ⟨fun c result' hr => ?_, fun p hp => ?_⟩
    · change (Function.update s.items it _ c).reply = _ at hr
      rw [Function.update_apply] at hr
      split at hr
      · rename_i he
        cases hr
        exact he ▸ List.mem_append_right _ List.mem_cons_self
      · exact List.mem_append_left _ (hi.buffered c result' hr)
    · rcases List.mem_append.mp hp with hp | hp
      · exact hold p hp
      · rw [List.mem_singleton.mp hp]
        exact (hresult hi.loop).imp (fun ⟨he, hx⟩ => ⟨he, (hframe it).expired hx⟩) id

theorem runEffect_invariant (hi : SchedulerInvariant cfg w s) (hdone : s.done = false)
    (h : RunEffect cfg w s s') : SchedulerInvariant cfg w s' := by
  have hframe := runEffect_frame hi hdone h
  obtain ⟨hbuffered, hreplies⟩ := runEffect_replies hi hframe h
  refine ⟨?_, runEffect_local hi hframe h, ?_, hbuffered, hreplies, ?_, ?_⟩
  · rcases runEffect_move h with he | hm
    · rw [he]
      exact hi.ledger
    · exact move_invariant hi.ledger hm
  · have hcalls : s'.calls = s.calls := by cases h <;> rfl
    intro c
    rw [hcalls]
    exact callLocal_frame (hframe c) (hi.calls c)
  · cases h with
    | invoke d invocation hrun hrest hne hactive hvalues =>
      intro i hin
      rcases List.mem_append.mp hin with hin | hin
      · exact hi.invoked i hin
      · rw [List.mem_singleton.mp hin, hactive, hvalues]
        have hsize := hi.ledger.size
        have hloop := hi.loop
        rw [hrun] at hloop
        simp only [ledgerOf, hrun, activeOf, List.length_append] at hsize
        exact ⟨List.length_pos_iff.mpr hne, by omega, hloop⟩
    | _ => exact hi.invoked
  · intro hd
    cases h with
    | stop => rfl
    | _ => exact absurd (hdone.symm.trans hd) Bool.false_ne_true

/-- A call leaves the items and program counters of the other calls alone. -/
lemma submitEffect_others (h : SubmitEffect cfg s c s') {c' : CallId} (hne : c' ≠ c) :
    s'.items c' = s.items c' ∧ s'.calls c' = s.calls c' := by
  cases h with
  | advance | enter | refuse => exact ⟨rfl, Function.update_of_ne hne _ _⟩
  | create | receive | giveUp => exact ⟨Function.update_of_ne hne _ _, Function.update_of_ne hne _ _⟩
  | panic => exact ⟨rfl, rfl⟩

/-- A call touches neither the run loop nor its records, and admits nothing but itself. -/
lemma submitEffect_shared (h : SubmitEffect cfg s c s') :
    s'.run = s.run ∧ s'.replies = s.replies ∧ s'.invocations = s.invocations ∧ s'.done = s.done ∧
      ∀ c' ≠ c, c' ∉ s.admitted → c' ∉ s'.admitted := by
  cases h with
  | enter =>
    refine ⟨rfl, rfl, rfl, rfl, fun c' hne hc hin => ?_⟩
    rcases List.mem_append.mp hin with hin | hin
    · exact hc hin
    · exact hne (List.mem_singleton.mp hin)
  | _ => exact ⟨rfl, rfl, rfl, rfl, fun _ _ hc => hc⟩

/-- The word of the own item only moves from queued to expired, and a reply is only taken. -/
lemma submitEffect_item (hcall : CallLocal s c (s.calls c)) (h : SubmitEffect cfg s c s') :
    ((s.items c).state = .expired → (s'.items c).state = .expired) ∧
      ∀ result, (s'.items c).reply = some result → (s.items c).reply = some result := by
  cases h with
  | advance | enter | refuse | panic => exact ⟨id, fun _ => id⟩
  | create hpc =>
    rw [hpc] at hcall
    refine ⟨fun hx => ?_, fun result hr => ?_⟩
    · rw [hcall.2] at hx
      cases hx
    · rw [goto_items, setItem_self] at hr
      cases hr
  | receive result hpc hreply =>
    rw [goto_items, setItem_self]
    exact ⟨id, fun _ hr => by cases hr⟩
  | giveUp err hpc hword herr =>
    rw [goto_items, State.setWord, setItem_self]
    exact ⟨fun _ => rfl, fun _ => id⟩

lemma submitEffect_local (hi : SchedulerInvariant cfg w s) (h : SubmitEffect cfg s c s') :
    CallLocal s' c (s'.calls c) := by
  have hcall := hi.calls c
  have hreplied : c ∈ s.replies.map Prod.fst → c ∈ s.admitted := fun hc =>
    hi.ledger.received_admitted (hi.ledger.answered_received c (List.mem_append_left _ hc))
  cases h with
  | advance readers pc hlocal =>
    rw [goto_self]
    exact hlocal hcall
  | create hpc =>
    rw [hpc] at hcall
    rw [goto_self]
    refine ⟨hcall.1, ?_⟩
    rw [goto_items, setItem_self]
  | enter hpc hroom =>
    rw [hpc] at hcall
    rw [goto_self]
    exact fun hc => absurd (hreplied hc) hcall.1
  | receive result hpc hreply =>
    rw [goto_self]
    have hallowed := hi.replies _ (hi.buffered c result hreply)
    have hword : ((s.setItem c { s.items c with reply := none }).items c).state = (s.items c).state := by
      rw [setItem_self]
    refine ⟨fun hw => Bool.noConfusion hw, fun he => ?_, fun he => ?_⟩
    · rcases hallowed with ⟨-, hx⟩ | hlate
      · exact hword.trans hx
      · exact (hlate _ he).elim
    · rcases hallowed with ⟨hq, -⟩ | hlate
      · rcases he with he | he <;> cases hq.symm.trans he
      · rcases he with he | he <;> exact (hlate _ he).elim
  | giveUp err hpc hword herr =>
    rw [goto_self]
    have hexpired : ((s.setWord c .expired).items c).state = .expired := by
      rw [State.setWord, setItem_self]
    refine ⟨fun _ => hexpired, fun _ => hexpired, fun he => ?_⟩
    rcases herr with rfl | hlate
    · rcases he with he | he <;> cases he
    · rcases he with he | he <;> cases he <;> exact hlate.elim
  | refuse hpc hreply =>
    rw [hpc] at hcall
    rw [goto_self]
    refine ⟨fun hw => Bool.noConfusion hw, fun he => (by cases he), fun _ => .inr ⟨hcall.1, fun hin => ?_⟩⟩
    -- the run loop has stopped, so a handled item has been answered
    have hans := hi.ledger.handled_answered c hin
    simp only [ledgerOf, hi.stopped hcall.1, owedOf, List.append_nil] at hans
    exact hcall.2 hans hreply
  | panic hpc hclosed => exact hcall

theorem submitEffect_invariant (hi : SchedulerInvariant cfg w s) (h : SubmitEffect cfg s c s') :
    SchedulerInvariant cfg w s' := by
  obtain ⟨hrun, hreplies, hinvocations, hdone, hadmitted⟩ := submitEffect_shared h
  have hitem := submitEffect_item (hi.calls c) h
  have hexpired : ∀ c', (s.items c').state = .expired → (s'.items c').state = .expired := by
    intro c' hx
    by_cases hc : c' = c
    · exact hc ▸ hitem.1 (hc ▸ hx)
    · rw [(submitEffect_others h hc).1]
      exact hx
  refine ⟨?_, ?_, ?_, ?_, ?_, ?_, ?_⟩
  · rcases submitEffect_move (hi.calls c) h with he | hm
    · rw [he]
      exact hi.ledger
    · exact move_invariant hi.ledger hm
  · rw [hrun]
    exact runLocal_frame hexpired hi.loop
  · intro c'
    by_cases hc : c' = c
    · rw [hc]
      exact submitEffect_local hi h
    · obtain ⟨hitems, hcalls⟩ := submitEffect_others h hc
      rw [hcalls]
      refine callLocal_frame ⟨fun hn => ⟨hadmitted c' hc hn, by rw [hitems]⟩, hexpired c', ?_, ?_⟩ (hi.calls c')
      · rw [hreplies, hitems]
        exact id
      · rw [hdone]
        exact fun hd => ⟨hd, hinvocations⟩
  · intro c' result hr
    rw [hreplies]
    by_cases hc : c' = c
    · exact hi.buffered c' result (hc ▸ hitem.2 result (hc ▸ hr))
    · rw [(submitEffect_others h hc).1] at hr
      exact hi.buffered c' result hr
  · rw [hreplies]
    exact fun p hp => (hi.replies p hp).imp (fun ⟨he, hx⟩ => ⟨he, hexpired p.1 hx⟩) id
  · rw [hinvocations]
    exact hi.invoked
  · rw [hdone, hrun]
    exact hi.stopped

lemma running_of_runStep {branch : CollectCase} (hi : SchedulerInvariant cfg w s)
    (h : runStep cfg w s branch = some s') : s.done = false := by
  by_contra hdone
  have hrun := hi.stopped (Bool.eq_true_of_not_eq_false hdone)
  simp only [runStep, hrun] at h
  cases h

lemma running_of_handlerReturns {results : List R} {err : Option ε} (hi : SchedulerInvariant cfg w s)
    (h : handlerReturns s results err = some s') : s.done = false := by
  by_contra hdone
  have hrun := hi.stopped (Bool.eq_true_of_not_eq_false hdone)
  simp only [handlerReturns, hrun] at h
  cases h

theorem step_schedulerInvariant {a : Action R ε} (hi : SchedulerInvariant cfg w s)
    (h : step cfg w s a = some s') : SchedulerInvariant cfg w s' := by
  cases step_effect h with
  | world _ now contexts =>
    exact ⟨hi.ledger, hi.loop, hi.calls, hi.buffered, hi.replies, hi.invoked, hi.stopped⟩
  | start c hidle => exact submitEffect_invariant hi (callStep_effect (.invoke hidle))
  | call c branch _ h => exact submitEffect_invariant hi (submitStep_effect h)
  | loop branch _ h => exact runEffect_invariant hi (running_of_runStep hi h) (runStep_effect h)
  | returns results err _ h =>
    exact runEffect_invariant hi (running_of_handlerReturns hi h) (handlerReturns_effect h)
  | close =>
    exact ⟨hi.ledger, hi.loop, hi.calls, hi.buffered, hi.replies, hi.invoked, hi.stopped⟩
  | closing _ h =>
    obtain ⟨_, _, _, _, _, rfl⟩ := closeStep_frame h
    exact ⟨hi.ledger, hi.loop, hi.calls, hi.buffered, hi.replies, hi.invoked, hi.stopped⟩

theorem run_schedulerInvariant (cfg : Config) (w : Workload T) (now : Int) (actions : List (Action R ε))
    (s : State T R ε) (h : runSteps (step cfg w) (State.initial now) actions = some s) :
    SchedulerInvariant cfg w s :=
  runSteps_invariant (fun _ _ _ => step_schedulerInvariant) (initial_invariant cfg w now) actions h

/-- Items reach the handler in the order of their admission, each at most once. -/
lemma handled_sublist_admitted (hi : SchedulerInvariant cfg w s) :
    (s.invocations.flatMap Invocation.active).Sublist s.admitted := by
  have hreceived : (s.invocations.flatMap Invocation.active).Sublist s.received :=
    ((List.sublist_append_left _ _).trans (List.sublist_append_left _ _)).trans hi.ledger.order
  have hsplit : s.admitted = s.received ++ s.queue := hi.ledger.split
  rw [hsplit]
  exact hreceived.trans (List.sublist_append_left _ _)

lemma handled_nodup (hi : SchedulerInvariant cfg w s) :
    (s.invocations.flatMap Invocation.active).Nodup :=
  hi.ledger.nodup.sublist (handled_sublist_admitted hi)

/-- The reply channel is empty whenever the run loop sends, so the send goes through. -/
lemma sending_enabled (hi : SchedulerInvariant cfg w s) {it : CallId} (hsend : s.run.sending = some it)
    (branch : CollectCase) : (runStep cfg w s branch).isSome := by
  have hempty : it ∈ owedOf s.run → (s.items it).reply = none := by
    intro howed
    by_contra hne
    obtain ⟨result, hr⟩ := Option.ne_none_iff_exists'.mp hne
    have hin : it ∈ s.replies.map Prod.fst := List.mem_map_of_mem (hi.buffered it result hr)
    have honce : (s.replies.map Prod.fst ++ owedOf s.run).Nodup :=
      hi.ledger.once.sublist ((List.sublist_append_left _ _).trans (List.sublist_append_left _ _))
    exact (List.nodup_append.mp honce).2.2 it hin it howed rfl
  cases hrun : s.run with
  | sendError d it' err =>
    rw [hrun] at hsend hempty
    cases hsend
    simp only [runStep, hrun, State.sendReply, hempty List.mem_cons_self, Option.isSome_some]
  | replySend r it' result =>
    rw [hrun] at hsend hempty
    cases hsend
    simp only [runStep, hrun, State.sendReply, hempty List.mem_cons_self, Option.isSome_some]
  | _ =>
    rw [hrun] at hsend
    cases hsend

/-- Admission safety, in every run. Each call's value reaches the handler at most once; every
invocation gets between one and `maxBatch` values, in admission order; an item is answered at most
once and the run loop never blocks on a reply; and a call that returned `ErrFull`, `ErrClosed`, the
scheduler's `ErrQueueDelay`, or a context error after expiring its item, was never handled. -/
theorem scheduler_admission_safe (cfg : Config) (w : Workload T) (now : Int)
    (actions : List (Action R ε)) (s : State T R ε)
    (h : runSteps (step cfg w) (State.initial now) actions = some s) :
    let handled := s.invocations.flatMap Invocation.active
    handled.Nodup ∧
      (∀ i ∈ s.invocations, i.values = i.active.map w.value ∧
        1 ≤ i.values.length ∧ i.values.length ≤ cfg.maxBatch) ∧
      handled.Sublist s.admitted ∧ s.admitted.Nodup ∧
      (s.replies.map Prod.fst).Nodup ∧
      (∀ it, s.run.sending = some it → ∀ branch, (runStep cfg w s branch).isSome) ∧
      ∀ c result won, s.calls c = .returned result won →
        (result = .error .full ∨ result = .error .closed ∨ result = .error .queueDelay ∨
          (∃ err, result = .error (.context err)) ∧ won = true) → c ∉ handled := by
  intro handled
  have hi := run_schedulerInvariant cfg w now actions s h
  have hadmitted : handled.Sublist s.admitted := handled_sublist_admitted hi
  refine ⟨handled_nodup hi, ?_, hadmitted, hi.ledger.nodup, ?_, ?_, ?_⟩
  · intro i hin
    obtain ⟨hpos, hmax, hvalues⟩ := hi.invoked i hin
    rw [hvalues, List.length_map]
    exact ⟨rfl, hpos, hmax⟩
  · exact hi.ledger.once.sublist (((List.sublist_append_left _ _).trans
      (List.sublist_append_left _ _)).trans (List.sublist_append_left _ _))
  · exact fun it hsend branch => sending_enabled hi hsend branch
  · intro c result won hret hcase hin
    have hcall := hi.calls c
    rw [hret] at hcall
    have hdispatched : (s.items c).state = .dispatched := hi.ledger.claimed c (List.mem_append_left _ hin)
    have hnotExpired : (s.items c).state ≠ .expired := by
      rw [hdispatched]
      exact ItemState.noConfusion
    rcases hcase with hfull | hclosed | hdelay | ⟨-, hwon⟩
    · rcases hcall.2.2 (.inl hfull) with hnot | ⟨-, hnot⟩
      · exact hnot (hadmitted.subset hin)
      · exact hnot hin
    · rcases hcall.2.2 (.inr hclosed) with hnot | ⟨-, hnot⟩
      · exact hnot (hadmitted.subset hin)
      · exact hnot hin
    · exact hnotExpired (hcall.2.1 hdelay)
    · exact hnotExpired (hcall.1 hwon)

/-- Two calls share a batch; the second is cancelled after it was collected and before it is
claimed. -/
def cancelledInBatch : List (Scheduler.Action Nat Unit) :=
  let enter (c : CallId) : List (Scheduler.Action Nat Unit) := .submit c :: List.replicate 6 (.submitStep c .reply)
  enter 0 ++ enter 1 ++ List.replicate 6 (Action.runStep .receive) ++
    [Action.cancel 1, .submitStep 1 .contextDone, .submitStep 1 .contextDone] ++
    List.replicate 6 (Action.runStep .receive) ++ [Action.handlerReturns [7] none] ++
    List.replicate 3 (Action.runStep .receive) ++ [Action.submitStep 0 .dispatched, .submitStep 0 .reply]

theorem scheduler_admission_safe_cancelled :
    let cfg : Config := ⟨2, 2, 1000000, by decide, by decide, by decide⟩
    let w : Workload Nat := ⟨id, id, fun _ => none⟩
    ∃ s : State Nat Nat Unit, runSteps (step cfg w) (State.initial 0) cancelledInBatch = some s ∧
      s.calls 1 = .returned (.error (.context .canceled)) true ∧
      s.invocations.map Invocation.active = [[0]] ∧ 1 ∉ s.invocations.flatMap Invocation.active := by
  intro cfg w
  have hsome : (runSteps (step cfg w) (State.initial 0) cancelledInBatch).isSome = true := by rfl
  obtain ⟨s, hs⟩ := Option.isSome_iff_exists.mp hsome
  have hcall : (runSteps (step cfg w) (State.initial 0) cancelledInBatch).map (fun s => s.calls 1) =
      some (.returned (.error (.context .canceled)) true) := by rfl
  have hactive : (runSteps (step cfg w) (State.initial 0) cancelledInBatch).map
      (fun s => s.invocations.map Invocation.active) = some [[0]] := by rfl
  rw [hs, Option.map_some] at hcall hactive
  have hret := Option.some.inj hcall
  obtain ⟨-, -, -, -, -, -, hrefused⟩ := scheduler_admission_safe cfg w 0 cancelledInBatch s hs
  exact ⟨s, hs, hret, Option.some.inj hactive,
    hrefused 1 _ true hret (.inr (.inr (.inr ⟨⟨.canceled, rfl⟩, rfl⟩)))⟩

end FraudDetection.Proofs
