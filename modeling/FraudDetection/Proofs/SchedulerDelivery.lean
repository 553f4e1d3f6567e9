import FraudDetection.Proofs.SchedulerClose

/-!
# Isolation of the callers of a batch

The context of a batch is cut off from the contexts of its callers and bounded by the latest of
their deadlines, if all of them have one. The reply loop looks at the context of each caller on its
own, so a caller whose context is live gets what the handler returned for it, whatever became of
the others.
-/

namespace FraudDetection.Proofs
open FraudDetection.Library
open FraudDetection.Scheduler

variable {T R ε : Type} {cfg : Config} {w : Workload T} {s s' : State T R ε} {c : CallId}

section deadline

lemma foldl_latestStep_flag (deadlines : List (Option Int)) (acc : Int × Bool) :
    (deadlines.foldl latestStep acc).2 = true ↔ acc.2 = true ∨ none ∈ deadlines := by
  induction deadlines generalizing acc with
  | nil => simp
  | cons d deadlines ih =>
    rw [List.foldl_cons, ih]
    cases d with
    | none => simp [latestStep]
    | some t => simp [latestStep]

/-- The loop keeps the latest of its start and of the deadlines. -/
lemma foldl_latestStep_max (deadlines : List (Option Int)) (acc : Int × Bool) :
    acc.1 ≤ (deadlines.foldl latestStep acc).1 ∧
      (∀ t, some t ∈ deadlines → t ≤ (deadlines.foldl latestStep acc).1) ∧
      ((deadlines.foldl latestStep acc).1 = acc.1 ∨ some (deadlines.foldl latestStep acc).1 ∈ deadlines) := by
  induction deadlines generalizing acc with
  | nil => simp
  | cons d deadlines ih =>
    rw [List.foldl_cons]
    obtain ⟨hstart, hle, hattained⟩ := ih (latestStep acc d)
    cases d with
    | none =>
      refine ⟨hstart, fun t ht => hle t (by simpa using ht), hattained.imp_right (List.mem_cons_of_mem _)⟩
    | some t =>
      have hstep : (latestStep acc (some t)).1 = if acc.1 < t then t else acc.1 := rfl
      refine ⟨?_, fun t' ht' => ?_, ?_⟩
      · split at hstep <;> omega
      · rcases List.mem_cons.mp ht' with he | hmem
        · cases he
          split at hstep <;> omega
        · exact hle t' hmem
      · rcases hattained with he | hmem
        · split at hstep
          · exact .inr (by rw [he, hstep]; exact List.mem_cons_self)
          · exact .inl (he.trans hstep)
        · exact .inr (List.mem_cons_of_mem _ hmem)

variable {deadlines : List (Option Int)}

/-- With deadlines after the zero time: the batch has one exactly if every caller has one. -/
lemma batchDeadline_isSome (hne : deadlines ≠ []) (hpos : ∀ t, some t ∈ deadlines → 0 < t) :
    (batchDeadline deadlines).isSome ↔ none ∉ deadlines := by
  obtain ⟨-, hle, -⟩ := foldl_latestStep_max deadlines (0, false)
  have hflag := foldl_latestStep_flag deadlines (0, false)
  unfold batchDeadline
  constructor
  · intro hsome hnone
    have hset := hflag.mpr (.inr hnone)
    simp [hset] at hsome
  · intro hall
    have hunset : (deadlines.foldl latestStep (0, false)).2 = false := by
      refine Bool.eq_false_iff.mpr fun hset => ?_
      exact (hflag.mp hset).elim Bool.noConfusion hall
    obtain ⟨d, rest, rfl⟩ := List.exists_cons_of_ne_nil hne
    cases d with
    | none => exact absurd List.mem_cons_self hall
    | some t =>
      have hlt := (hpos t List.mem_cons_self).trans_le (hle t List.mem_cons_self)
      have hnonzero : ((some t :: rest).foldl latestStep (0, false)).1 ≠ 0 := by omega
      simp only [hunset, Bool.not_false, Bool.true_and, bne_iff_ne, ne_eq, hnonzero, not_false_eq_true, if_true]
      rfl

lemma batchDeadline_max {t : Int} (h : batchDeadline deadlines = some t) :
    some t ∈ deadlines ∧ ∀ d, some d ∈ deadlines → d ≤ t := by
  obtain ⟨-, hle, hattained⟩ := foldl_latestStep_max deadlines (0, false)
  unfold batchDeadline at h
  dsimp only at h
  split at h
  · rename_i hset
    cases h
    refine ⟨hattained.resolve_left fun hzero => ?_, hle⟩
    rw [hzero] at hset
    simp at hset
  · cases h

end deadline

section context

variable {active : List CallId} {ctx : DerivedContext}

lemma batchCtx_exists (w : Workload T) (hne : active ≠ []) : ∃ ctx, batchCtx w active = some ctx := by
  obtain ⟨it, rest, rfl⟩ := List.exists_cons_of_ne_nil hne
  unfold batchCtx
  dsimp only
  split <;> exact ⟨_, rfl⟩

lemma batchCtx_deadline (h : batchCtx w active = some ctx) :
    ctx.deadline w = batchDeadline (active.map fun c => w.deadline (w.ctx c)) := by
  unfold batchCtx at h
  split at h
  · cases h
  · dsimp only at h
    split at h <;> cases h
    · rename_i hdeadline
      exact hdeadline.symm
    · rename_i hdeadline
      exact hdeadline.symm

/-- The context of a batch ends with its own deadline and never because a caller's context ends. -/
lemma batchCtx_err (h : batchCtx w active = some ctx)
    (contexts : ContextId → Option ContextError) (now : Int) :
    ctx.err contexts now = match ctx.deadline w with
      | some t => if t ≤ now then some .deadlineExceeded else none
      | none => none := by
  unfold batchCtx at h
  split at h
  · cases h
  · dsimp only at h
    split at h <;> cases h <;> rfl

end context

section contexts

lemma step_live {a : Scheduler.Action R ε} (h : step cfg w s a = some s') {ctx : ContextId}
    (hlive : s'.contexts ctx = none) : s.contexts ctx = none := by
  have hend : ∀ (ended : ContextId) (err : ContextError), (s.endContext ended err).contexts ctx = none →
      s.contexts ctx = none := by
    intro ended err hnone
    by_cases he : ctx = ended
    · rw [he] at hnone
      simp [State.endContext] at hnone
    · simpa [State.endContext, he] using hnone
  unfold step at h
  split at h
  · cases h
  · cases a with
    | tick elapsed =>
      cases h
      exact hlive
    | cancel ended =>
      cases h
      exact hend _ _ hlive
    | reachDeadline ended =>
      dsimp only at h
      split at h
      · split at h
        · cases h
          exact hend _ _ hlive
        · cases h
      · cases h
    | submit c =>
      dsimp only at h
      split at h
      · cases h
        exact hlive
      · cases h
    | submitStep c branch =>
      cases submitStep_effect h <;> exact hlive
    | runStep branch =>
      cases runStep_effect h <;> exact hlive
    | handlerReturns results err =>
      have heffect : RunEffect cfg w s s' := handlerReturns_effect h
      cases heffect <;> exact hlive
    | close =>
      dsimp only at h
      split at h <;> cases h <;> exact hlive
    | closeStep =>
      obtain ⟨_, _, _, _, _, rfl⟩ := closeStep_frame h
      exact hlive

end contexts

section delivery

/-- What the reply loop hands out after the handler returned for a batch of `n`. -/
def handlerOutcome (results : List R) (err : Option ε) (n : Nat) : Except (Error ε) (List R) :=
  match err with
  | some err => .error (.handler err)
  | none => if results.length ≠ n then .error .resultCount else .ok results

def deliver (outcome : Except (Error ε) (List R)) (i : Nat) : Option (Reply R ε) :=
  match outcome with
  | .error err => some (.error err)
  | .ok results => results[i]?.map .ok

/-- The item stood at some index of an invocation that has returned, and `result` is its part. -/
structure PartDeliveredAt (invocations : List (Invocation T)) (returned : List (List R × Option ε)) (c : CallId)
    (result : Reply R ε) (k i : Nat) (invocation : Invocation T) (results : List R) (err : Option ε) : Prop where
  invoked : invocations[k]? = some invocation
  item : invocation.active[i]? = some c
  returned : returned[k]? = some (results, err)
  part : deliver (handlerOutcome results err invocation.active.length) i = some result

def PartDelivered (invocations : List (Invocation T)) (returned : List (List R × Option ε)) (c : CallId)
    (result : Reply R ε) : Prop :=
  ∃ k i invocation results err, PartDeliveredAt invocations returned c result k i invocation results err

/-- The outcome that the reply loop works on is what the handler returned for its batch. -/
def OutcomeReturned (invocations : List (Invocation T)) (returned : List (List R × Option ε))
    (r : Replying R ε) : Prop :=
  ∃ (k : Nat) (invocation : Invocation T) (results : List R) (err : Option ε),
    invocations[k]? = some invocation ∧ invocation.active = r.active ∧
    returned[k]? = some (results, err) ∧ r.outcome = handlerOutcome results err r.active.length

/-- What the reply loop knows; `live` are the items whose contexts have not ended. -/
def DeliveryLocal (invocations : List (Invocation T)) (returned : List (List R × Option ε))
    (live : CallId → Prop) : RunPC T R ε → Prop
  | .replyNext r => OutcomeReturned invocations returned r
  | .replySend r it result => OutcomeReturned invocations returned r ∧ r.active[r.next]? = some it ∧
    (live it → deliver r.outcome r.next = some result)
  | _ => True

variable {invocations more : List (Invocation T)} {returned next : List (List R × Option ε)}

lemma PartDelivered.append {result : Reply R ε} (h : PartDelivered invocations returned c result) :
    PartDelivered (invocations ++ more) (returned ++ next) c result := by
  obtain ⟨k, i, invocation, results, err, hd⟩ := h
  exact ⟨k, i, invocation, results, err, { hd with
    invoked := getElem?_append_of_some hd.invoked
    returned := getElem?_append_of_some hd.returned }⟩

/-- The reply that the loop is about to send to a live item is its part. -/
lemma delivered_of_sending {live : CallId → Prop} {r : Replying R ε} {it : CallId} {result : Reply R ε}
    (hl : DeliveryLocal invocations returned live (.replySend r it result)) (hlive : live it) :
    PartDelivered invocations returned it result := by
  obtain ⟨⟨k, invocation, results, err, hk, hactive, hreturned, houtcome⟩, hit, hpart⟩ := hl
  refine ⟨k, r.next, invocation, results, err, hk, hactive ▸ hit, hreturned, ?_⟩
  rw [hactive, ← houtcome]
  exact hpart hlive

def Live (w : Workload T) (s : State T R ε) (c : CallId) : Prop := s.contextErr w c = none

/-- A step of the run loop keeps what it knows, and what it sends to a live item is its part unless
the item had expired. -/
structure DeliveryStep (w : Workload T) (returned : List (List R × Option ε)) (s s' : State T R ε) : Prop where
  loop : DeliveryLocal s'.invocations returned (Live w s') s'.run
  replies : ∀ p ∈ s'.replies, p ∈ s.replies ∨
    (Live w s' p.1 → PartDelivered s'.invocations returned p.1 p.2 ∨ (s'.items p.1).state = .expired)

lemma deliveryLocal_afterDispatch {live : CallId → Prop} (queueOpen : Bool) :
    DeliveryLocal invocations returned live (afterDispatch queueOpen : RunPC T R ε) := by
  cases queueOpen <;> trivial

lemma replyNext_delivery {branch : CollectCase} {r : Replying R ε} (hrun : s.run = .replyNext r)
    (hl : OutcomeReturned s.invocations returned r) (h : runStep cfg w s branch = some s') :
    DeliveryStep w returned s s' := by
  simp only [runStep, hrun] at h
  split at h
  · cases h
    exact ⟨deliveryLocal_afterDispatch r.queueOpen, fun p hp => .inl hp⟩
  · rename_i it hit
    have hsend : ∀ result : Reply R ε, (Live w s it → deliver r.outcome r.next = some result) →
        DeliveryStep w returned s (s.jump (.replySend r it result)) := fun result hpart =>
      ⟨⟨hl, hit, hpart⟩, fun p hp => .inl hp⟩
    split at h
    · rename_i err hended
      cases h
      refine hsend _ fun hlive => ?_
      cases hended.symm.trans hlive
    · rename_i err hlive hout
      cases h
      refine hsend _ fun _ => ?_
      rw [hout]
      rfl
    · rename_i results hlive hout
      split at h
      · rename_i value hvalue
        cases h
        refine hsend _ fun _ => ?_
        rw [hout, deliver, hvalue]
        rfl
      · cases h
        refine ⟨?_, fun p hp => .inl hp⟩
        rw [State.panic, hrun]
        exact hl

theorem runStep_delivery {branch : CollectCase} (hi : SchedulerInvariant cfg w s)
    (hl : DeliveryLocal s.invocations returned (Live w s) s.run) (h : runStep cfg w s branch = some s') :
    DeliveryStep w returned s s' := by
  cases hrun : s.run with
  | replyNext r =>
    rw [hrun] at hl
    exact replyNext_delivery hrun hl h
  | sendError d it err =>
    have hexpired := hi.loop
    rw [hrun] at hexpired
    simp only [runStep, hrun] at h
    obtain ⟨-, rfl⟩ := sendReply_eq h
    refine ⟨trivial, fun p hp => ?_⟩
    rcases List.mem_append.mp hp with hp | hp
    · exact .inl hp
    · rw [List.mem_singleton.mp hp]
      refine .inr fun _ => .inr ?_
      exact (setItem_field Item.state (by rfl) it).trans hexpired.2.2
  | replySend r it result =>
    rw [hrun] at hl
    simp only [runStep, hrun] at h
    obtain ⟨-, rfl⟩ := sendReply_eq h
    refine ⟨hl.1, fun p hp => ?_⟩
    rcases List.mem_append.mp hp with hp | hp
    · exact .inl hp
    · rw [List.mem_singleton.mp hp]
      exact .inr fun hlive => .inl (delivered_of_sending hl hlive)
  | handling active queueOpen =>
    simp only [runStep, hrun] at h
    cases h
  | _ =>
    -- no other step sends a reply or enters the reply loop
    simp only [runStep, hrun] at h
    repeat' split at h
    all_goals cases h
    all_goals first
      | exact ⟨trivial, fun p hp => .inl hp⟩
      | exact ⟨by rw [State.panic, hrun]; trivial, fun p hp => .inl hp⟩
      | exact ⟨deliveryLocal_afterDispatch _, fun p hp => .inl hp⟩

lemma handlerReturns_delivery {results : List R} {err : Option ε}
    (hl : ReturnLocal s.invocations returned s.run) (h : handlerReturns s results err = some s') :
    DeliveryStep w (returned ++ [(results, err)]) s s' := by
  unfold handlerReturns at h
  split at h
  · rename_i active queueOpen hrun
    rw [hrun] at hl
    obtain ⟨-, invocation, hget, hactive⟩ := hl
    cases h
    refine ⟨⟨returned.length, invocation, results, err, hget, hactive, List.getElem?_concat_length, ?_⟩,
      fun p hp => .inl hp⟩
    cases err <;> rfl
  · cases h

/-- How a call returns while its context is live: with a reply, with its item expired, with the
refusal it was given before its admission, or from a stopped scheduler without a reply. -/
lemma submitStep_returned {branch : SelectCase} {result : Reply R ε} {won : Bool} (hlive : Live w s c)
    (h : submitStep cfg w s c branch = some s') (hret : s'.calls c = .returned result won) :
    (s.items c).reply = some result ∨ (s'.items c).state = .expired ∨ (∃ err, s.calls c = .unlock (some err)) ∨
      s.calls c = .schedulerDone ∧ (s.items c).reply = none := by
  have hreceive : s.receiveReply c = some s' → (s.items c).reply = some result := by
    intro hreceived
    obtain ⟨result', hreply, rfl⟩ := receiveReply_eq hreceived
    cases eq_of_goto hret
    exact hreply
  cases hpc : s.calls c with
  | unlock failure =>
    cases failure with
    | none =>
      simp only [submitStep, hpc] at h
      cases h
      cases eq_of_goto hret
    | some err => exact .inr (.inr (.inl ⟨err, rfl⟩))
  | selecting =>
    simp only [submitStep, hpc] at h
    cases branch with
    | reply => exact .inl (hreceive h)
    | dispatched | timer | contextDone | schedulerDone =>
      dsimp only at h
      split at h <;> cases h
      cases eq_of_goto hret
  | timerFired =>
    simp only [submitStep, hpc] at h
    split at h <;> cases h
    · right
      left
      rw [goto_items, State.setWord, setItem_self]
    · cases eq_of_goto hret
  | schedulerDone =>
    simp only [submitStep, hpc] at h
    split at h
    · exact .inl (hreceive h)
    · exact .inr (.inr (.inr ⟨rfl, ‹_›⟩))
  | waiting =>
    simp only [submitStep, hpc, show s.contextErr w c = none from hlive] at h
    split at h
    · exact .inl (hreceive h)
    · cases h
    · cases h
  | entered | contextDone =>
    simp only [submitStep, hpc, show s.contextErr w c = none from hlive] at h
    cases h
    all_goals
      cases eq_of_goto hret
  | enqueue =>
    simp only [submitStep, hpc] at h
    split at h
    · cases h
      cases hpc.symm.trans hret
    · split at h <;> cases h
      all_goals
        cases eq_of_goto hret
  | locking =>
    simp only [submitStep, hpc] at h
    split at h <;> cases h
    cases eq_of_goto hret
  | checkClosed =>
    simp only [submitStep, hpc] at h
    cases h
    rw [goto_self] at hret
    split at hret <;> cases hret
  | creating =>
    simp only [submitStep, hpc] at h
    cases h
    cases eq_of_goto hret
  | idle | returned =>
    simp only [submitStep, hpc] at h
    cases h

/-- Every reply to a live item is its part, unless the item had expired; and a live call returns
what was sent to it. -/
structure DeliveryInvariant (w : Workload T) (past : List (Scheduler.Action R ε)) (s : State T R ε) : Prop where
  loop : DeliveryLocal s.invocations (handlerReturned past) (Live w s) s.run
  replies : ∀ p ∈ s.replies, Live w s p.1 →
    PartDelivered s.invocations (handlerReturned past) p.1 p.2 ∨ (s.items p.1).state = .expired
  calls : ∀ c result won, s.calls c = .returned result won → Live w s c → c ∈ s.admitted →
    (c, result) ∈ s.replies ∨ (s.items c).state = .expired
  departed : ∀ c, s.calls c = .contextDone → ¬ Live w s c

lemma deliveryLocal_mono {live live' : CallId → Prop} (hlive : ∀ c, live' c → live c) {pc : RunPC T R ε}
    (h : DeliveryLocal invocations returned live pc) : DeliveryLocal invocations returned live' pc := by
  cases pc with
  | replySend r it result => exact ⟨h.1, h.2.1, fun hl => h.2.2 (hlive it hl)⟩
  | _ => exact h

lemma delivery_of_run {past : List (Scheduler.Action R ε)} {a : Scheduler.Action R ε}
    (hd : DeliveryInvariant w past s) (heffect : RunEffect cfg w s s') (hframe : ∀ c, ItemFrame s s' c)
    (hlive : ∀ c, Live w s' c → Live w s c) (hadmitted : s'.admitted = s.admitted)
    (hkept : ∃ more, s'.invocations = s.invocations ++ more)
    (h : DeliveryStep w (handlerReturned past ++ handlerReturned [a]) s s') :
    DeliveryInvariant w (past ++ [a]) s' := by
  obtain ⟨hcalls, hreplies⟩ := runEffect_kept heffect
  rw [← handlerReturned_append] at h
  refine ⟨h.loop, fun p hp hl => ?_, fun c result won hret hl hin => ?_,
    fun c hpc hl => hd.departed c (hcalls ▸ hpc) (hlive c hl)⟩
  · rcases h.replies p hp with hold | hnew
    · rcases hd.replies p hold (hlive p.1 hl) with hdelivered | hexpired
      · obtain ⟨more, hmore⟩ := hkept
        rw [hmore, handlerReturned_append]
        exact .inl hdelivered.append
      · exact .inr ((hframe p.1).expired hexpired)
    · exact hnew hl
  · rw [hcalls] at hret
    rw [hadmitted] at hin
    rcases hd.calls c result won hret (hlive c hl) hin with hsent | hexpired
    · exact .inl (hreplies _ hsent)
    · exact .inr ((hframe c).expired hexpired)

lemma delivery_of_others {past : List (Scheduler.Action R ε)} {a : Scheduler.Action R ε}
    (hd : DeliveryInvariant w past s) (ha : handlerReturned [a] = []) (hrun : s'.run = s.run)
    (hinvocations : s'.invocations = s.invocations) (hreplies : s'.replies = s.replies)
    (hlive : ∀ c, Live w s' c → Live w s c)
    (hexpired : ∀ p ∈ s.replies, (s.items p.1).state = .expired → (s'.items p.1).state = .expired)
    (hcalls : ∀ c result won, s'.calls c = .returned result won → Live w s' c → c ∈ s'.admitted →
      (c, result) ∈ s.replies ∨ (s'.items c).state = .expired)
    (hdeparted : ∀ c, s'.calls c = .contextDone → s.calls c = .contextDone ∨ ¬ Live w s c) :
    DeliveryInvariant w (past ++ [a]) s' := by
  have hsame : handlerReturned (past ++ [a]) = handlerReturned past := by
    rw [handlerReturned_append, ha, List.append_nil]
  refine ⟨?_, fun p hp hl => ?_, ?_, fun c hpc hl => ?_⟩
  · rw [hinvocations, hrun, hsame]
    exact deliveryLocal_mono hlive hd.loop
  · rw [hreplies] at hp
    rw [hinvocations, hsame]
    exact (hd.replies p hp (hlive p.1 hl)).imp_right (hexpired p hp)
  · rw [hreplies]
    exact hcalls
  · rcases hdeparted c hpc with hold | hended
    · exact hd.departed c hold (hlive c hl)
    · exact hended (hlive c hl)

lemma submitStep_departed {branch : SelectCase} (h : submitStep cfg w s c branch = some s')
    (hpc' : s'.calls c = .contextDone) : s.calls c = .contextDone ∨ ¬ Live w s c := by
  have hwaits : waitsForReply (s.calls c) := by
    cases submitStep_call h with
    | wait pc hpc => exact hpc
    | check =>
      have hnext := eq_of_goto hpc'
      split at hnext <;> cases hnext
    | panic hpc => cases hpc.symm.trans hpc'
    | _ => cases eq_of_goto hpc'
  cases hpc : s.calls c with
  | contextDone => exact .inl rfl
  | selecting =>
    simp only [submitStep, hpc] at h
    cases branch with
    | contextDone =>
      dsimp only at h
      split at h
      · rename_i hended
        right
        intro hlive
        rw [show s.contextErr w c = none from hlive] at hended
        cases hended
      · cases h
    | reply =>
      obtain ⟨result, -, rfl⟩ := receiveReply_eq h
      cases eq_of_goto hpc'
    | dispatched | timer | schedulerDone =>
      dsimp only at h
      split at h <;> cases h
      cases eq_of_goto hpc'
  | timerFired =>
    simp only [submitStep, hpc] at h
    split at h <;> cases h <;> cases eq_of_goto hpc'
  | schedulerDone =>
    simp only [submitStep, hpc] at h
    split at h
    · obtain ⟨result, -, rfl⟩ := receiveReply_eq h
      cases eq_of_goto hpc'
    · cases h
      cases eq_of_goto hpc'
  | waiting =>
    simp only [submitStep, hpc] at h
    split at h
    · obtain ⟨result, -, rfl⟩ := receiveReply_eq h
      cases eq_of_goto hpc'
    · split at h <;> cases h
      cases eq_of_goto hpc'
    · cases h
  | _ =>
    rw [hpc] at hwaits
    exact hwaits.elim

lemma call_delivery {now : Int} {past : List (Scheduler.Action R ε)} {branch : SelectCase}
    (hc : ClosingInvariant cfg w now past s) (hd : DeliveryInvariant w past s)
    (h : submitStep cfg w s c branch = some s') : DeliveryInvariant w (past ++ [.submitStep c branch]) s' := by
  have heffect := submitStep_effect h
  have hcall := hc.scheduler.calls c
  obtain ⟨hrun, hreplies, hinvocations, -, hadmitted⟩ := submitEffect_shared heffect
  have hcontexts : s'.contexts = s.contexts := by
    cases heffect <;> rfl
  have hlive : ∀ c', Live w s' c' → Live w s c' := fun c' hl => by
    unfold Live State.contextErr at hl ⊢
    rwa [hcontexts] at hl
  have hexpired : ∀ c', (s.items c').state = .expired → (s'.items c').state = .expired := by
    intro c' hx
    by_cases he : c' = c
    · subst he
      exact (submitEffect_item hcall heffect).1 hx
    · rw [(submitEffect_others heffect he).1]
      exact hx
  refine delivery_of_others hd rfl hrun hinvocations hreplies hlive (fun p _ => hexpired p.1) ?_ fun c' hpc => ?_
  rotate_left
  · by_cases he : c' = c
    · subst he
      exact submitStep_departed h hpc
    · rw [(submitEffect_others heffect he).2] at hpc
      exact .inl hpc
  intro c' result won hret hl hin
  by_cases he : c' = c
  · subst he
    rcases submitStep_returned (hlive c' hl) h hret with hreply | hx | ⟨err, hpc⟩ | ⟨hpc, hnone⟩
    · exact .inl (hc.scheduler.buffered c' result hreply)
    · exact .inr hx
    · -- a refused call never enters
      rw [hpc] at hcall
      have hsame : s'.admitted = s.admitted := by
        simp only [submitStep, hpc] at h
        cases h
        rfl
      exact absurd (hsame ▸ hin) hcall.1
    · exact (no_refusal hc.scheduler hc.drain hpc hnone).elim
  · obtain ⟨hitems, hcalls⟩ := submitEffect_others heffect he
    rw [hcalls] at hret
    rw [hitems]
    exact hd.calls c' result won hret (hlive c' hl) (by_contra fun hnot => hadmitted c' he hnot hin)

theorem step_delivery {now : Int} {past : List (Scheduler.Action R ε)} {a : Scheduler.Action R ε}
    (hc : ClosingInvariant cfg w now past s) (hd : DeliveryInvariant w past s) (h : step cfg w s a = some s') :
    DeliveryInvariant w (past ++ [a]) s' := by
  have hlive : ∀ c, Live w s' c → Live w s c := fun c hl => step_live h hl
  cases step_effect h with
  | world _ now contexts ha =>
    refine delivery_of_others hd ?_ rfl rfl rfl hlive (fun _ _ => id) (fun c result won hret hl hin => ?_)
      fun _ => .inl
    · cases a with
      | handlerReturns results err => exact absurd rfl (ha results err)
      | _ => rfl
    · exact hd.calls c result won hret (hlive c hl) hin
  | start c hidle =>
    refine delivery_of_others hd rfl rfl rfl rfl hlive (fun _ _ => id) (fun c' result won hret hl hin => ?_)
      fun c' hpc => ?_
    · by_cases he : c' = c
      · subst he
        cases eq_of_goto hret
      · rw [goto_other he] at hret
        exact hd.calls c' result won hret (hlive c' hl) hin
    · by_cases he : c' = c
      · subst he
        cases eq_of_goto hpc
      · rw [goto_other he] at hpc
        exact .inl hpc
  | call c branch _ h => exact call_delivery hc hd h
  | loop branch _ hstep =>
    have heffect := runStep_effect hstep
    have hframe := runEffect_frame hc.scheduler (running_of_runStep hc.scheduler hstep) heffect
    refine delivery_of_run hd heffect hframe hlive ?_ (runStep_pairing hc.pairing.loop hstep).kept ?_
    · cases heffect <;> rfl
    · change DeliveryStep w (handlerReturned past ++ []) s s'
      rw [List.append_nil]
      exact runStep_delivery hc.scheduler hd.loop hstep
  | returns results err _ hstep =>
    have heffect : RunEffect cfg w s s' := handlerReturns_effect hstep
    have hframe := runEffect_frame hc.scheduler (running_of_handlerReturns hc.scheduler hstep) heffect
    refine delivery_of_run hd heffect hframe hlive ?_ (handlerReturns_pairing hc.pairing.loop hstep).kept
      (handlerReturns_delivery hc.pairing.loop hstep)
    cases heffect <;> rfl
  | close =>
    exact delivery_of_others hd rfl rfl rfl rfl hlive (fun _ _ => id)
      (fun c result won hret hl hin => hd.calls c result won hret (hlive c hl) hin) fun _ => .inl
  | closing _ hstep =>
    obtain ⟨_, _, _, _, _, rfl⟩ := closeStep_frame hstep
    exact delivery_of_others hd rfl rfl rfl rfl hlive (fun _ _ => id)
      (fun c result won hret hl hin => hd.calls c result won hret (hlive c hl) hin) fun _ => .inl

theorem run_delivery (cfg : Config) (w : Workload T) (now : Int) (actions : List (Scheduler.Action R ε))
    (s : State T R ε) (h : runSteps (step cfg w) (State.initial now) actions = some s) :
    ClosingInvariant cfg w now actions s ∧ DeliveryInvariant w actions s := by
  have hinitial : DeliveryInvariant w [] (State.initial now : State T R ε) :=
    ⟨trivial, fun _ hp => absurd hp List.not_mem_nil, fun _ _ _ hret => (by cases hret), fun _ hpc => by cases hpc⟩
  exact runSteps_history (P := fun past s => ClosingInvariant cfg w now past s ∧ DeliveryInvariant w past s)
    (fun past s a s' hp hs => ⟨step_closing hp.1 hs, step_delivery hp.1 hp.2 hs⟩)
    ⟨initial_closing cfg w now, hinitial⟩ actions h

end delivery

section invocation

/-- The recorded deadline of an invocation is the one of its context. -/
lemma runStep_invocations {branch : CollectCase} (h : runStep cfg w s branch = some s')
    (hi : ∀ i ∈ s.invocations, i.deadline = batchDeadline (i.active.map fun c => w.deadline (w.ctx c))) :
    ∀ i ∈ s'.invocations, i.deadline = batchDeadline (i.active.map fun c => w.deadline (w.ctx c)) := by
  cases hrun : s.run with
  | examine d =>
    simp only [runStep, hrun] at h
    split at h
    · split at h
      · cases h
        exact hi
      · split at h <;> cases h <;> exact hi
    · split at h
      · cases h
        exact hi
      · cases h
        intro i hin
        rcases List.mem_append.mp hin with hold | hnew
        · exact hi i hold
        · rw [List.mem_singleton.mp hnew]
  | sendError d it err =>
    simp only [runStep, hrun] at h
    obtain ⟨-, rfl⟩ := sendReply_eq h
    exact hi
  | replySend r it result =>
    simp only [runStep, hrun] at h
    obtain ⟨-, rfl⟩ := sendReply_eq h
    exact hi
  | _ =>
    simp only [runStep, hrun] at h
    repeat' split at h
    all_goals cases h
    all_goals exact hi

theorem run_invocations (cfg : Config) (w : Workload T) (now : Int) (actions : List (Scheduler.Action R ε))
    (s : State T R ε) (h : runSteps (step cfg w) (State.initial now) actions = some s) :
    ∀ i ∈ s.invocations, i.deadline = batchDeadline (i.active.map fun c => w.deadline (w.ctx c)) := by
  refine runSteps_invariant (P := fun s : State T R ε => ∀ i ∈ s.invocations,
    i.deadline = batchDeadline (i.active.map fun c => w.deadline (w.ctx c))) ?_ ?_ actions h
  · intro s a s' hi hstep
    cases step_effect hstep with
    | world | start | close => exact hi
    | call c branch _ hcall =>
      rw [(submitEffect_shared (submitStep_effect hcall)).2.2.1]
      exact hi
    | loop branch _ hloop => exact runStep_invocations hloop hi
    | returns results err _ hreturns =>
      unfold handlerReturns at hreturns
      split at hreturns <;> cases hreturns
      exact hi
    | closing _ hclose =>
      obtain ⟨_, _, _, _, _, rfl⟩ := closeStep_frame hclose
      exact hi
  · exact fun i hin => absurd hin List.not_mem_nil

end invocation

section receipt

variable {now : Int} {past : List (Scheduler.Action R ε)} {invocation : Invocation T} {results : List R}
  {err : Option ε} {k i : Nat} {expected result : Reply R ε}

/-- An item of an invocation has been claimed for good. -/
lemma handled_dispatched (hi : SchedulerInvariant cfg w s) (hk : s.invocations[k]? = some invocation)
    (hitem : invocation.active[i]? = some c) :
    c ∈ s.invocations.flatMap Invocation.active ∧ (s.items c).state = .dispatched := by
  have hin : c ∈ s.invocations.flatMap Invocation.active :=
    List.mem_flatMap.mpr ⟨invocation, List.mem_of_getElem? hk, List.mem_of_getElem? hitem⟩
  exact ⟨hin, hi.ledger.claimed c (List.mem_append_left _ hin)⟩

lemma deliver_exists (results : List R) (err : Option ε) {n i : Nat} (hi : i < n) :
    ∃ expected, deliver (handlerOutcome results err n) i = some expected := by
  unfold handlerOutcome
  cases err with
  | some err => exact ⟨_, rfl⟩
  | none =>
    dsimp only
    split
    · exact ⟨_, rfl⟩
    · rename_i hlen
      rw [not_ne_iff] at hlen
      exact ⟨.ok results[i], by simp [deliver, hlen, hi]⟩

/-- A reply to a live item of an invocation that has returned is the item's part of it. -/
lemma reply_eq_part (hi : SchedulerInvariant cfg w s) (hd : DeliveryInvariant w past s)
    (hk : s.invocations[k]? = some invocation) (hitem : invocation.active[i]? = some c)
    (hreturned : (handlerReturned past)[k]? = some (results, err))
    (hpart : deliver (handlerOutcome results err invocation.active.length) i = some expected)
    (hlive : Live w s c) (hsent : (c, result) ∈ s.replies) : result = expected := by
  obtain ⟨-, hdispatched⟩ := handled_dispatched hi hk hitem
  rcases hd.replies _ hsent hlive with ⟨k', i', invocation', results', err', hat⟩ | hexpired
  · obtain ⟨rfl, rfl⟩ := index_unique_of_nodup (handled_nodup hi) hk hitem hat.invoked hat.item
    cases hk.symm.trans hat.invoked
    cases hreturned.symm.trans hat.returned
    exact Option.some.inj (hat.part.symm.trans hpart)
  · cases hdispatched.symm.trans hexpired

/-- A call that waits for a reply which is there takes it, by its own steps alone. -/
lemma call_receives (halive : s.panicked = false) (hpc : waitsForReply (s.calls c) ∨ s.calls c = .unlock none)
    (hdeparted : s.calls c ≠ .contextDone) (hdispatched : (s.items c).state = .dispatched)
    (hreply : (s.items c).reply = some result) :
    ∃ (moves : List SelectCase) (s' : State T R ε),
      runSteps (step cfg w) s (moves.map (.submitStep c)) = some s' ∧ s'.calls c = .returned result false := by
  have hstep : ∀ {t : State T R ε} {branch : SelectCase}, t.panicked = false →
      step cfg w t (.submitStep c branch) = submitStep cfg w t c branch := by
    intro t branch ht
    simp only [step, ht, Bool.false_eq_true, if_false]
  have hreceive : ∀ {t : State T R ε}, t.panicked = false → t.calls c = .selecting ∨ t.calls c = .waiting →
      (t.items c).reply = some result → ∃ t' : State T R ε,
        step cfg w t (.submitStep c .reply) = some t' ∧ t'.calls c = .returned result false := by
    rintro t ht hwait hr
    refine ⟨(t.setItem c { t.items c with reply := none }).goto c (.returned result false), ?_, goto_self ..⟩
    rw [hstep ht]
    rcases hwait with hwait | hwait <;> simp only [submitStep, hwait, State.receiveReply, hr]
  have htwo : ∀ {branch : SelectCase} {t : State T R ε}, submitStep cfg w s c branch = some t →
      t.panicked = false → t.calls c = .selecting ∨ t.calls c = .waiting → (t.items c).reply = some result →
      ∃ (moves : List SelectCase) (s' : State T R ε),
        runSteps (step cfg w) s (moves.map (.submitStep c)) = some s' ∧ s'.calls c = .returned result false := by
    intro branch t hfirst ht hwait hr
    obtain ⟨t', hsecond, hret⟩ := hreceive ht hwait hr
    refine ⟨[branch, .reply], t', ?_, hret⟩
    simp only [List.map_cons, List.map_nil, runSteps, hstep halive, hfirst, Option.bind_some, hsecond]
  have hone : s.calls c = .selecting ∨ s.calls c = .waiting → ∃ (moves : List SelectCase) (s' : State T R ε),
      runSteps (step cfg w) s (moves.map (.submitStep c)) = some s' ∧ s'.calls c = .returned result false := by
    intro hwait
    obtain ⟨t', hfirst, hret⟩ := hreceive halive hwait hreply
    refine ⟨[.reply], t', ?_, hret⟩
    simp only [List.map_cons, List.map_nil, runSteps, hfirst, Option.bind_some]
  cases hc : s.calls c with
  | selecting => exact hone (.inl hc)
  | waiting => exact hone (.inr hc)
  | unlock failure =>
    rw [hc] at hpc
    obtain rfl : failure = none := by
      rcases hpc with hpc | hpc
      · exact hpc.elim
      · exact SubmitPC.unlock.inj hpc
    have hfirst : submitStep cfg w s c .reply =
        some ({ s with readers := s.readers.erase c }.goto c .selecting) := by
      simp only [submitStep, hc]
    exact htwo hfirst halive (.inl (goto_self ..)) hreply
  | timerFired =>
    have hword : (s.items c).state ≠ .queued := by
      rw [hdispatched]
      exact ItemState.noConfusion
    have hfirst : submitStep cfg w s c .reply = some (s.goto c .waiting) := by
      simp only [submitStep, hc, hword, if_false]
    exact htwo hfirst halive (.inr (goto_self ..)) hreply
  | schedulerDone =>
    refine ⟨[.reply], (s.setItem c { s.items c with reply := none }).goto c (.returned result false), ?_,
      goto_self ..⟩
    simp only [List.map_cons, List.map_nil, runSteps, hstep halive, submitStep, hc, State.receiveReply, hreply,
      Option.bind_some]
  | contextDone => exact absurd hc hdeparted
  | _ =>
    rw [hc] at hpc
    rcases hpc with hpc | hpc
    · exact hpc.elim
    · cases hpc

lemma step_runStep (hc : ClosingInvariant cfg w now past s) (branch : CollectCase) :
    step cfg w s (.runStep branch) = runStep cfg w s branch := by
  simp only [step, hc.announce.alive, Bool.false_eq_true, if_false]

lemma replyNext_step (hc : ClosingInvariant cfg w now past s) {r : Replying R ε} {it : CallId}
    (hrun : s.run = .replyNext r) (hit : r.active[r.next]? = some it) :
    ∃ result, step cfg w s (.runStep .receive) = some (s.jump (.replySend r it result)) := by
  have hpairing := hc.pairing.loop
  rw [hrun] at hpairing
  rw [step_runStep hc]
  simp only [runStep, hrun, hit]
  split
  · exact ⟨_, rfl⟩
  · exact ⟨_, rfl⟩
  · rename_i results _ hout
    obtain ⟨-, k, invocation, -, -, hok⟩ := hpairing
    have hlen := (hok results hout).2
    have hlt := (List.getElem?_eq_some_iff.mp hit).1
    rw [List.getElem?_eq_getElem (by omega)]
    exact ⟨_, rfl⟩

lemma replySend_step (hc : ClosingInvariant cfg w now past s) {r : Replying R ε} {it : CallId}
    (hrun : s.run = .replySend r it result) :
    ∃ s', step cfg w s (.runStep .receive) = some s' ∧ s'.run = .replyNext { r with next := r.next + 1 } ∧
      s'.contexts = s.contexts ∧ s'.invocations = s.invocations := by
  have hsending := sending_enabled hc.scheduler (show s.run.sending = some it by rw [hrun]; rfl) .receive
  obtain ⟨s', hs'⟩ := Option.isSome_iff_exists.mp hsending
  refine ⟨s', (step_runStep hc _).trans hs', ?_⟩
  simp only [runStep, hrun] at hs'
  obtain ⟨-, rfl⟩ := sendReply_eq hs'
  exact ⟨rfl, rfl, rfl⟩

/-- The run loop alone gets past the reply to `c`. -/
def PassesReply (cfg : Config) (w : Workload T) (s : State T R ε) (c : CallId) : Prop :=
  ∃ (steps : Nat) (s' : State T R ε),
    runSteps (step cfg w) s (List.replicate steps (.runStep .receive)) = some s' ∧
      s'.contexts = s.contexts ∧ s'.invocations = s.invocations ∧ c ∉ owedOf s'.run

lemma PassesReply.step {s₁ : State T R ε} (h : step cfg w s (.runStep .receive) = some s₁)
    (hcontexts : s₁.contexts = s.contexts) (hinvocations : s₁.invocations = s.invocations)
    (hp : PassesReply cfg w s₁ c) : PassesReply cfg w s c := by
  obtain ⟨steps, s', hrun, hcontexts', hinvocations', howed⟩ := hp
  refine ⟨steps + 1, s', ?_, hcontexts'.trans hcontexts, hinvocations'.trans hinvocations, howed⟩
  simp only [List.replicate_succ, runSteps, h, Option.bind_some, hrun]

lemma replyNext_passes (n : Nat) {past : List (Scheduler.Action R ε)} {s : State T R ε} {r : Replying R ε}
    (hc : ClosingInvariant cfg w now past s) (hrun : s.run = .replyNext r)
    (hn : (r.active.drop r.next).length = n) : PassesReply cfg w s c := by
  induction n generalizing past s r with
  | zero =>
    refine ⟨0, s, rfl, rfl, rfl, ?_⟩
    rw [hrun, owedOf, List.length_eq_zero_iff.mp hn]
    exact List.not_mem_nil
  | succ n ih =>
    obtain ⟨it, rest, hdrop⟩ := List.exists_cons_of_length_eq_add_one hn
    have hit : r.active[r.next]? = some it := by
      rw [← List.head?_drop, hdrop]
      rfl
    obtain ⟨result, hdecide⟩ := replyNext_step hc hrun hit
    obtain ⟨s₂, hsend, hrun₂, hcontexts, hinvocations⟩ := replySend_step (step_closing hc hdecide) rfl
    refine .step hdecide rfl rfl (.step hsend hcontexts hinvocations ?_)
    refine ih (step_closing (step_closing hc hdecide) hsend) hrun₂ ?_
    rw [List.length_drop] at hn ⊢
    dsimp only
    omega

/-- After the handler has returned for it, an item is owed its reply by the reply loop only. -/
theorem owed_passes (hc : ClosingInvariant cfg w now past s) (hk : s.invocations[k]? = some invocation)
    (hitem : invocation.active[i]? = some c) (hreturned : (handlerReturned past)[k]? = some (results, err)) :
    PassesReply cfg w s c := by
  obtain ⟨-, hdispatched⟩ := handled_dispatched hc.scheduler hk hitem
  by_cases howed : c ∈ owedOf s.run
  · cases hrun : s.run with
    | replyNext r => exact replyNext_passes _ hc hrun rfl
    | replySend r it result =>
      obtain ⟨s₁, hsend, hrun₁, hcontexts, hinvocations⟩ := replySend_step hc hrun
      exact .step hsend hcontexts hinvocations (replyNext_passes _ (step_closing hc hsend) hrun₁ rfl)
    | sendError d it error =>
      have hexpired := hc.scheduler.loop
      rw [hrun] at hexpired howed
      rw [List.mem_singleton.mp howed] at hdispatched
      cases hdispatched.symm.trans hexpired.2.2
    | handling active queueOpen =>
      -- the batch in the handler is the last invocation, which has not returned
      have hlast := hc.pairing.loop
      rw [hrun] at hlast howed
      obtain ⟨-, invocation', hk', rfl⟩ := hlast
      obtain ⟨i', hi'⟩ := List.getElem?_of_mem howed
      obtain ⟨rfl, -⟩ := index_unique_of_nodup (handled_nodup hc.scheduler) hk' hi' hk hitem
      obtain ⟨hlt, -⟩ := List.getElem?_eq_some_iff.mp hreturned
      exact absurd hlt (lt_irrefl _)
    | _ =>
      rw [hrun] at howed
      exact absurd howed List.not_mem_nil
  · exact ⟨0, s, rfl, rfl, rfl, howed⟩

/-- A live call whose reply is no longer owed has returned its part, or is about to. -/
theorem answered_returns (hc : ClosingInvariant cfg w now past s) (hd : DeliveryInvariant w past s)
    (hk : s.invocations[k]? = some invocation) (hitem : invocation.active[i]? = some c)
    (hreturned : (handlerReturned past)[k]? = some (results, err))
    (hpart : deliver (handlerOutcome results err invocation.active.length) i = some expected)
    (hlive : Live w s c) (howed : c ∉ owedOf s.run) :
    ∃ (moves : List SelectCase) (s' : State T R ε) (won : Bool),
      runSteps (step cfg w) s (moves.map (.submitStep c)) = some s' ∧ s'.calls c = .returned expected won := by
  have hi := hc.scheduler
  obtain ⟨hhandled, hdispatched⟩ := handled_dispatched hi hk hitem
  have hadmitted : c ∈ s.admitted :=
    hi.ledger.received_admitted (hi.ledger.live_received (List.mem_append_left _ (List.mem_append_left _ hhandled)))
  have hreplied : c ∈ s.replies.map Prod.fst :=
    (List.mem_append.mp (hi.ledger.handled_answered c hhandled)).resolve_right howed
  have hpart' : ∀ {result}, (c, result) ∈ s.replies → result = expected :=
    fun hsent => reply_eq_part hi hd hk hitem hreturned hpart hlive hsent
  have hcall := hi.calls c
  have hdeparted : s.calls c ≠ .contextDone := fun hpc => hd.departed c hpc hlive
  have hreceive : waitsForReply (s.calls c) ∨ s.calls c = .unlock none → (s.items c).reply ≠ none →
      ∃ (moves : List SelectCase) (s' : State T R ε) (won : Bool),
        runSteps (step cfg w) s (moves.map (.submitStep c)) = some s' ∧ s'.calls c = .returned expected won := by
    intro hwaits hnonempty
    obtain ⟨result, hreply⟩ := Option.ne_none_iff_exists'.mp hnonempty
    have hmoves : ∃ (moves : List SelectCase) (s' : State T R ε),
        runSteps (step cfg w) s (moves.map (.submitStep c)) = some s' ∧ s'.calls c = .returned result false :=
      call_receives hc.announce.alive hwaits hdeparted hdispatched hreply
    obtain ⟨moves, s', hrun, hret⟩ := hmoves
    obtain rfl := hpart' (hi.buffered c result hreply)
    exact ⟨moves, s', false, hrun, hret⟩
  cases hpc : s.calls c with
  | returned result won =>
    rcases hd.calls c result won hpc hlive hadmitted with hsent | hexpired
    · obtain rfl := hpart' hsent
      exact ⟨[], s, won, rfl, hpc⟩
    · cases hdispatched.symm.trans hexpired
  | unlock failure =>
    rw [hpc] at hcall
    cases failure with
    | none => exact hreceive (.inr hpc) (hcall hreplied)
    | some err => exact absurd hadmitted hcall.1
  | selecting | timerFired | waiting =>
    rw [hpc] at hcall
    exact hreceive (.inl (by rw [hpc]; trivial)) (hcall hreplied)
  | schedulerDone =>
    rw [hpc] at hcall
    exact hreceive (.inl (by rw [hpc]; trivial)) (hcall.2 hreplied)
  | contextDone => exact absurd hpc hdeparted
  | idle | entered | creating | locking | checkClosed | enqueue =>
    rw [hpc] at hcall
    exact absurd hadmitted hcall.1

lemma handlerReturned_replicate (steps : Nat) (branch : CollectCase) :
    handlerReturned (List.replicate steps (.runStep branch : Scheduler.Action R ε)) = [] := by
  induction steps with
  | zero => rfl
  | succ steps ih => exact ih

end receipt

/-- Every invocation of the handler: its context has a deadline exactly if all its callers have
one, the latest of them, and no end of a caller's context ends it. Once it has returned, a caller
whose own context is live has got its part of the outcome and nothing else, or gets it after steps
of the run loop and of the call alone. A deadline that is not after the zero time of the clock
would be taken for a missing one; a context with such a deadline has ended before it is made. -/
theorem dispatch_isolates_callers (cfg : Config) (w : Workload T) (now : Int)
    (actions : List (Scheduler.Action R ε)) (s : State T R ε)
    (h : runSteps (step cfg w) (State.initial now) actions = some s)
    (k : Nat) (invocation : Invocation T) (hk : s.invocations[k]? = some invocation) :
    (∃ ctx, batchCtx w invocation.active = some ctx ∧ ctx.deadline w = invocation.deadline ∧
      ((∀ c ∈ invocation.active, ∀ t, w.deadline (w.ctx c) = some t → 0 < t) →
        ((ctx.deadline w).isSome ↔ ∀ c ∈ invocation.active, (w.deadline (w.ctx c)).isSome)) ∧
      (∀ t, ctx.deadline w = some t → (∃ c ∈ invocation.active, w.deadline (w.ctx c) = some t) ∧
        ∀ c ∈ invocation.active, ∀ d, w.deadline (w.ctx c) = some d → d ≤ t) ∧
      (∀ contexts contexts' time, ctx.err contexts time = ctx.err contexts' time) ∧
      ∀ contexts time, (∀ t, ctx.deadline w = some t → time < t) → ctx.err contexts time = none) ∧
    ∀ results err, (handlerReturned actions)[k]? = some (results, err) →
      ∀ i c, invocation.active[i]? = some c → s.contextErr w c = none →
        ∃ expected, deliver (handlerOutcome results err invocation.active.length) i = some expected ∧
          (∀ result won, s.calls c = .returned result won → result = expected) ∧
          ∃ (steps : Nat) (moves : List SelectCase) (s' : State T R ε) (won : Bool),
            runSteps (step cfg w) s (List.replicate steps (.runStep .receive) ++ moves.map (.submitStep c)) =
              some s' ∧ s'.calls c = .returned expected won := by
  obtain ⟨hc, hd⟩ := run_delivery cfg w now actions s h
  have hi := hc.scheduler
  constructor
  · obtain ⟨hsize, -, -⟩ := hi.invoked invocation (List.mem_of_getElem? hk)
    have hne : invocation.active ≠ [] := List.ne_nil_of_length_pos hsize
    obtain ⟨ctx, hctx⟩ := batchCtx_exists w hne
    have hdeadline := batchCtx_deadline hctx
    refine ⟨ctx, hctx, ?_, fun hpos => ?_, fun t ht => ?_, fun contexts contexts' time => ?_,
      fun contexts time hahead => ?_⟩
    · rw [hdeadline, run_invocations cfg w now actions s h invocation (List.mem_of_getElem? hk)]
    · have hpos' : ∀ t, some t ∈ invocation.active.map (fun c => w.deadline (w.ctx c)) → 0 < t := by
        intro t ht
        obtain ⟨c, hin, hd⟩ := List.mem_map.mp ht
        exact hpos c hin t hd
      rw [hdeadline, batchDeadline_isSome (by simpa using hne) hpos']
      simp [Option.isSome_iff_ne_none]
    · rw [hdeadline] at ht
      obtain ⟨hattained, hlatest⟩ := batchDeadline_max ht
      refine ⟨by simpa using hattained, fun c hin d hd => hlatest d (List.mem_map.mpr ⟨c, hin, hd⟩)⟩
    · rw [batchCtx_err hctx, batchCtx_err hctx]
    · rw [batchCtx_err hctx]
      split
      · rename_i t ht
        rw [if_neg (not_le.mpr (hahead t ht))]
      · rfl
  · intro results err hreturned i c hitem hlive
    obtain ⟨expected, hpart⟩ := deliver_exists results err (List.getElem?_eq_some_iff.mp hitem).1
    refine ⟨expected, hpart, fun result won hret => ?_, ?_⟩
    · obtain ⟨hhandled, hdispatched⟩ := handled_dispatched hi hk hitem
      have hreceived := hi.ledger.live_received (List.mem_append_left _ (List.mem_append_left _ hhandled))
      rcases hd.calls c result won hret hlive (hi.ledger.received_admitted hreceived) with hsent | hexpired
      · exact reply_eq_part hi hd hk hitem hreturned hpart hlive hsent
      · cases hdispatched.symm.trans hexpired
    · obtain ⟨steps, s₁, hrun, hcontexts, hinvocations, howed⟩ := owed_passes hc hk hitem hreturned
      have hwhole : runSteps (step cfg w) (State.initial now)
          (actions ++ List.replicate steps (.runStep .receive)) = some s₁ := by
        rw [runSteps_append, h]
        exact hrun
      obtain ⟨hc₁, hd₁⟩ := run_delivery cfg w now _ s₁ hwhole
      have hreturned₁ : (handlerReturned (actions ++ List.replicate steps (.runStep .receive)))[k]? =
          some (results, err) := by
        rw [handlerReturned_append, handlerReturned_replicate, List.append_nil]
        exact hreturned
      have hlive₁ : Live w s₁ c := by
        unfold Live State.contextErr
        rw [hcontexts]
        exact hlive
      obtain ⟨moves, s', won, hmoves, hret⟩ :=
        answered_returns hc₁ hd₁ (hinvocations ▸ hk) hitem hreturned₁ hpart hlive₁ howed
      refine ⟨steps, moves, s', won, ?_, hret⟩
      rw [runSteps_append, hrun]
      exact hmoves

/-- Two calls share a batch and the context of the first is cancelled while the handler works. -/
def cancelledInHandler : List (Scheduler.Action Nat Unit) :=
  let enter (c : CallId) : List (Scheduler.Action Nat Unit) := .submit c :: List.replicate 6 (.submitStep c .reply)
  enter 0 ++ enter 1 ++ List.replicate 13 (Action.runStep .receive) ++ [Action.cancel 0, .handlerReturns [6, 7] none]

theorem dispatch_isolates_callers_cancelled :
    let cfg : Config := ⟨2, 2, 1000000, by decide, by decide, by decide⟩
    let w : Workload Nat := ⟨id, fun c => c + 100, fun ctx => some (50 + 50 * ctx)⟩
    ∃ s : State Nat Nat Unit, runSteps (step cfg w) (State.initial 0) cancelledInHandler = some s ∧
      s.contextErr w 0 = some .canceled ∧
      (∃ ctx, batchCtx w [0, 1] = some ctx ∧ ctx.deadline w = some 100 ∧ ctx.err s.contexts 60 = none) ∧
      ∃ (steps : Nat) (moves : List SelectCase) (s' : State Nat Nat Unit) (won : Bool),
        runSteps (step cfg w) s (List.replicate steps (.runStep .receive) ++ moves.map (.submitStep 1)) = some s' ∧
          s'.calls 1 = .returned (.ok 7) won := by
  intro cfg w
  have hfacts : (runSteps (step cfg w) (State.initial 0) cancelledInHandler).map (fun s =>
      (s.invocations, s.contextErr w 0, s.contextErr w 1)) =
      some ([⟨[0, 1], [100, 101], some 100⟩], some .canceled, none) := by rfl
  obtain ⟨s, hs, hfacts⟩ := Option.map_eq_some_iff.mp hfacts
  obtain ⟨hinvocations, hended, hlive⟩ : s.invocations = [⟨[0, 1], [100, 101], some 100⟩] ∧
      s.contextErr w 0 = some .canceled ∧ s.contextErr w 1 = none := by
    simpa only [Prod.mk.injEq] using hfacts
  obtain ⟨⟨ctx, hctx, hdeadline, -, -, -, hahead⟩, hparts⟩ :=
    dispatch_isolates_callers cfg w 0 cancelledInHandler s hs 0 ⟨[0, 1], [100, 101], some 100⟩
      (by rw [hinvocations]; rfl)
  have hopen : ctx.err s.contexts 60 = none := hahead s.contexts 60 fun t ht => by
    rw [hdeadline] at ht
    cases ht
    decide
  obtain ⟨expected, hpart, -, steps, moves, s', won, hrun, hret⟩ := hparts [6, 7] none (by rfl) 1 1 rfl hlive
  cases hpart
  exact ⟨s, hs, hended, ⟨ctx, hctx, hdeadline, hopen⟩, steps, moves, s', won, hrun, hret⟩

end FraudDetection.Proofs
