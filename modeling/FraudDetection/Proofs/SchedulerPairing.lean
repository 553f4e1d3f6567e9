import FraudDetection.Proofs.SchedulerAdmission

/-!
# Result pairing of the scheduler

The handler runs serially, so its `k`-th return belongs to its `k`-th invocation. The reply loop
hands out the outcome of the last invocation by index, and every successful reply can be traced
back to the invocation, the index and the return it came from.
-/

namespace FraudDetection.Proofs
open FraudDetection.Library
open FraudDetection.Scheduler

variable {T R ε : Type} {cfg : Config} {w : Workload T} {s s' : State T R ε} {c : CallId}

def handlerReturned (actions : List (Scheduler.Action R ε)) : List (List R × Option ε) :=
  actions.filterMap fun
    | .handlerReturns results err => some (results, err)
    | _ => none

/-- Invocation `k` had the item at index `i`; it returned no error, one result for each of its
items, and the value at index `i`. -/
structure PairedAt (invocations : List (Invocation T)) (returned : List (List R × Option ε))
    (c : CallId) (value : R) (k i : Nat) (invocation : Invocation T) (results : List R) : Prop where
  invoked : invocations[k]? = some invocation
  item : invocation.active[i]? = some c
  returned : returned[k]? = some (results, none)
  count : results.length = invocation.active.length
  result : results[i]? = some value

def Paired (invocations : List (Invocation T)) (returned : List (List R × Option ε)) (c : CallId)
    (value : R) : Prop :=
  ∃ k i invocation results, PairedAt invocations returned c value k i invocation results

/-- The outcome of the last invocation, which is the one of the batch `active`. -/
def LastOutcome (invocations : List (Invocation T)) (returned : List (List R × Option ε))
    (active : List CallId) (outcome : Except (Error ε) (List R)) : Prop :=
  ∃ (k : Nat) (invocation : Invocation T), invocations[k]? = some invocation ∧ invocation.active = active ∧
    ∀ results, outcome = .ok results → returned[k]? = some (results, none) ∧ results.length = active.length

/-- What the run loop knows about the returns of the handler: there is one for each invocation,
except while the handler runs, and the reply loop works on the last of them. -/
def ReturnLocal (invocations : List (Invocation T)) (returned : List (List R × Option ε)) :
    RunPC T R ε → Prop
  | .handling active _ => invocations.length = returned.length + 1 ∧
      ∃ invocation, invocations[returned.length]? = some invocation ∧ invocation.active = active
  | .replyNext r =>
    invocations.length = returned.length ∧ LastOutcome invocations returned r.active r.outcome
  | .replySend r it result =>
    invocations.length = returned.length ∧ LastOutcome invocations returned r.active r.outcome ∧
      r.active[r.next]? = some it ∧
      ∀ value, result = .ok value → ∃ results, r.outcome = .ok results ∧ results[r.next]? = some value
  | _ => invocations.length = returned.length

section lists

variable {invocations more : List (Invocation T)} {returned next : List (List R × Option ε)}

lemma getElem?_append_of_some {α : Type} {xs ys : List α} {k : Nat} {x : α} (h : xs[k]? = some x) :
    (xs ++ ys)[k]? = some x := by
  obtain ⟨hk, rfl⟩ := List.getElem?_eq_some_iff.mp h
  rw [List.getElem?_append_left hk, List.getElem?_eq_getElem hk]

lemma Paired.append {value : R} (h : Paired invocations returned c value) :
    Paired (invocations ++ more) (returned ++ next) c value := by
  obtain ⟨k, i, invocation, results, hp⟩ := h
  exact ⟨k, i, invocation, results, { hp with
    invoked := getElem?_append_of_some hp.invoked
    returned := getElem?_append_of_some hp.returned }⟩

lemma paired_of_sending {r : Replying R ε} {it : CallId} {result : Reply R ε} {value : R}
    (hl : ReturnLocal invocations returned (.replySend r it result)) (hr : result = .ok value) :
    Paired invocations returned it value := by
  obtain ⟨-, ⟨k, invocation, hk, hactive, hok⟩, hit, hvalue⟩ := hl
  obtain ⟨results, hout, hresult⟩ := hvalue value hr
  obtain ⟨hret, hlen⟩ := hok results hout
  exact ⟨k, r.next, invocation, results, hk, hactive ▸ hit, hret, hactive ▸ hlen, hresult⟩

end lists

lemma returnLocal_afterDispatch {invocations : List (Invocation T)} {returned : List (List R × Option ε)}
    (queueOpen : Bool) (h : invocations.length = returned.length) :
    ReturnLocal invocations returned (afterDispatch (T := T) queueOpen) := by
  cases queueOpen <;> exact h

/-- A step of the run loop keeps what it knows, and a successful reply that it sends is paired. -/
structure PairingStep (returned : List (List R × Option ε)) (s s' : State T R ε) : Prop where
  loop : ReturnLocal s'.invocations returned s'.run
  kept : ∃ more, s'.invocations = s.invocations ++ more
  replies : ∀ p ∈ s'.replies, p ∈ s.replies ∨ ∀ value, p.2 = .ok value → Paired s'.invocations returned p.1 value

lemma PairingStep.quiet {returned : List (List R × Option ε)}
    (hl : ReturnLocal s'.invocations returned s'.run) (hi : s'.invocations = s.invocations)
    (hr : s'.replies = s.replies) : PairingStep returned s s' :=
  ⟨hl, ⟨[], by rw [hi, List.append_nil]⟩, fun p hp => .inl (hr ▸ hp)⟩

lemma examine_pairing {returned : List (List R × Option ε)} {branch : CollectCase} {d : Dispatching T}
    (hrun : s.run = .examine d) (hl : s.invocations.length = returned.length)
    (h : runStep cfg w s branch = some s') : PairingStep returned s s' := by
  simp only [runStep, hrun] at h
  split at h
  · split at h
    · cases h
      exact .quiet hl rfl rfl
    · split at h
      · cases h
        exact .quiet hl rfl rfl
      · cases h
        exact .quiet hl rfl rfl
  · split at h
    · cases h
      exact .quiet (returnLocal_afterDispatch d.queueOpen hl) rfl rfl
    · cases h
      refine ⟨⟨?_, ?_⟩, ⟨_, rfl⟩, fun p hp => .inl hp⟩
      · rw [← hl]
        exact List.length_append
      · rw [← hl]
        exact ⟨_, List.getElem?_concat_length, rfl⟩

lemma replyNext_pairing {returned : List (List R × Option ε)} {branch : CollectCase} {r : Replying R ε}
    (hrun : s.run = .replyNext r) (hl : ReturnLocal s.invocations returned (.replyNext r))
    (h : runStep cfg w s branch = some s') : PairingStep returned s s' := by
  simp only [runStep, hrun] at h
  split at h
  · cases h
    exact .quiet (returnLocal_afterDispatch r.queueOpen hl.1) rfl rfl
  · rename_i it hit
    have hsend : ∀ result : Reply R ε, (∀ value, result = .ok value →
        ∃ results, r.outcome = .ok results ∧ results[r.next]? = some value) →
        PairingStep returned s (s.jump (.replySend r it result)) := fun result hresult =>
      .quiet ⟨hl.1, hl.2, hit, hresult⟩ rfl rfl
    split at h
    · cases h
      exact hsend _ (fun value hv => by cases hv)
    · cases h
      exact hsend _ (fun value hv => by cases hv)
    · rename_i results _ hout
      split at h
      · rename_i value hvalue
        cases h
        refine hsend _ (fun value' hv => ⟨results, hout, ?_⟩)
        rw [hvalue, Except.ok.inj hv]
      · cases h
        refine .quiet ?_ rfl rfl
        rw [State.panic, hrun]
        exact hl

theorem runStep_pairing {returned : List (List R × Option ε)} {branch : CollectCase}
    (hl : ReturnLocal s.invocations returned s.run) (h : runStep cfg w s branch = some s') :
    PairingStep returned s s' := by
  cases hrun : s.run with
  | examine d =>
    rw [hrun] at hl
    exact examine_pairing hrun hl h
  | replyNext r =>
    rw [hrun] at hl
    exact replyNext_pairing hrun hl h
  | sendError d it err =>
    rw [hrun] at hl
    simp only [runStep, hrun] at h
    obtain ⟨-, rfl⟩ := sendReply_eq h
    refine ⟨hl, ⟨[], (List.append_nil _).symm⟩, fun p hp => ?_⟩
    rcases List.mem_append.mp hp with hp | hp
    · exact .inl hp
    · rw [List.mem_singleton.mp hp]
      exact .inr (fun value hv => by cases hv)
  | replySend r it result =>
    rw [hrun] at hl
    simp only [runStep, hrun] at h
    obtain ⟨-, rfl⟩ := sendReply_eq h
    refine ⟨⟨hl.1, hl.2.1⟩, ⟨[], (List.append_nil _).symm⟩, fun p hp => ?_⟩
    rcases List.mem_append.mp hp with hp | hp
    · exact .inl hp
    · rw [List.mem_singleton.mp hp]
      exact .inr (fun value hv => paired_of_sending hl hv)
  | handling active queueOpen =>
    simp only [runStep, hrun] at h
    cases h
  | _ =>
    -- no other step touches the invocations or the replies
    rw [hrun] at hl
    simp only [runStep, hrun] at h
    repeat' split at h
    all_goals cases h
    all_goals first
      | exact .quiet hl rfl rfl
      | exact .quiet (by rw [State.panic, hrun]; exact hl) rfl rfl

lemma handlerReturns_pairing {returned : List (List R × Option ε)} {results : List R} {err : Option ε}
    (hl : ReturnLocal s.invocations returned s.run) (h : handlerReturns s results err = some s') :
    PairingStep (returned ++ [(results, err)]) s s' := by
  unfold handlerReturns at h
  split at h
  · rename_i active queueOpen hrun
    rw [hrun] at hl
    obtain ⟨hlen, invocation, hget, hactive⟩ := hl
    cases h
    refine .quiet ⟨?_, returned.length, invocation, hget, hactive, fun values hout => ?_⟩ rfl rfl
    · rw [List.length_append]
      exact hlen
    · dsimp only at hout
      split at hout
      · cases hout
      · split at hout
        · cases hout
        · rename_i hcount
          rw [← Except.ok.inj hout]
          exact ⟨List.getElem?_concat_length, not_ne_iff.mp hcount⟩
  · cases h

/-- A call returns a value only by taking it out of its reply channel. -/
lemma callStep_value {value : R} {won : Bool} (h : CallStep cfg s c s')
    (hret : s'.calls c = .returned (.ok value) won) : (s.items c).reply = some (.ok value) := by
  cases h with
  | receive result hpc hreply =>
    cases eq_of_goto hret
    exact hreply
  | check =>
    rw [goto_self] at hret
    split at hret <;> cases hret
  | wait pc hpc hnext hdone =>
    rw [goto_self] at hret
    rw [hret] at hnext
    exact hnext.elim
  | panic hpc => cases hret.symm.trans hpc
  | _ =>
    cases eq_of_goto hret

/-- Together with the actions so far: every successful reply is paired, and every value that a
call returned was sent to it. -/
structure PairingInvariant (past : List (Scheduler.Action R ε)) (s : State T R ε) : Prop where
  loop : ReturnLocal s.invocations (handlerReturned past) s.run
  replies : ∀ p ∈ s.replies, ∀ value, p.2 = .ok value →
    Paired s.invocations (handlerReturned past) p.1 value
  calls : ∀ c value won, s.calls c = .returned (.ok value) won → (c, .ok value) ∈ s.replies

lemma handlerReturned_append (past more : List (Scheduler.Action R ε)) :
    handlerReturned (past ++ more) = handlerReturned past ++ handlerReturned more :=
  List.filterMap_append

lemma runEffect_kept (h : RunEffect cfg w s s') :
    s'.calls = s.calls ∧ ∀ p ∈ s.replies, p ∈ s'.replies := by
  cases h with
  | answer => exact ⟨rfl, fun p hp => List.mem_append_left _ hp⟩
  | _ => exact ⟨rfl, fun p hp => hp⟩

lemma pairing_of_run {past : List (Scheduler.Action R ε)} {a : Scheduler.Action R ε}
    (hp : PairingInvariant past s) (heffect : RunEffect cfg w s s')
    (h : PairingStep (handlerReturned past ++ handlerReturned [a]) s s') :
    PairingInvariant (past ++ [a]) s' := by
  obtain ⟨hcalls, hkept⟩ := runEffect_kept heffect
  rw [← handlerReturned_append] at h
  refine ⟨h.loop, fun p hin value hv => ?_, fun c value won hret => ?_⟩
  · rcases h.replies p hin with hold | hnew
    · obtain ⟨more, hmore⟩ := h.kept
      rw [hmore, handlerReturned_append]
      exact (hp.replies p hold value hv).append
    · exact hnew value hv
  · rw [hcalls] at hret
    exact hkept _ (hp.calls c value won hret)

/-- A step that leaves the run loop, its records and the returned values alone. -/
lemma pairing_of_others {past : List (Scheduler.Action R ε)} {a : Scheduler.Action R ε}
    (hp : PairingInvariant past s) (ha : handlerReturned [a] = []) (hrun : s'.run = s.run)
    (hinvocations : s'.invocations = s.invocations) (hreplies : s'.replies = s.replies)
    (hcalls : ∀ c value won, s'.calls c = .returned (.ok value) won →
      s.calls c = .returned (.ok value) won ∨ (c, .ok value) ∈ s.replies) :
    PairingInvariant (past ++ [a]) s' := by
  have hsame : handlerReturned (past ++ [a]) = handlerReturned past := by
    rw [handlerReturned_append, ha, List.append_nil]
  refine ⟨?_, ?_, fun c value won hret => ?_⟩
  · rw [hinvocations, hrun, hsame]
    exact hp.loop
  · rw [hinvocations, hreplies, hsame]
    exact hp.replies
  · rw [hreplies]
    exact (hcalls c value won hret).elim (hp.calls c value won) id

lemma call_pairing {past : List (Scheduler.Action R ε)} {a : Scheduler.Action R ε}
    (hi : SchedulerInvariant cfg w s) (hp : PairingInvariant past s) (ha : handlerReturned [a] = [])
    (h : CallStep cfg s c s') : PairingInvariant (past ++ [a]) s' := by
  have heffect := callStep_effect h
  obtain ⟨hrun, hreplies, hinvocations, -, -⟩ := submitEffect_shared heffect
  refine pairing_of_others hp ha hrun hinvocations hreplies (fun c' value won hret => ?_)
  by_cases hc : c' = c
  · subst hc
    exact .inr (hi.buffered c' (.ok value) (callStep_value h hret))
  · rw [(submitEffect_others heffect hc).2] at hret
    exact .inl hret

theorem step_pairing {past : List (Scheduler.Action R ε)} {a : Scheduler.Action R ε}
    (hi : SchedulerInvariant cfg w s) (hp : PairingInvariant past s) (h : step cfg w s a = some s') :
    PairingInvariant (past ++ [a]) s' := by
  cases step_effect h with
  | world _ now contexts ha =>
    refine pairing_of_others hp ?_ rfl rfl rfl (fun _ _ _ => .inl)
    cases a with
    | handlerReturns results err => exact absurd rfl (ha results err)
    | _ => rfl
  | start c hidle => exact call_pairing hi hp rfl (.invoke hidle)
  | call c branch _ h => exact call_pairing hi hp rfl (submitStep_call h)
  | loop branch _ h =>
    refine pairing_of_run hp (runStep_effect h) ?_
    change PairingStep (handlerReturned past ++ []) s s'
    rw [List.append_nil]
    exact runStep_pairing hp.loop h
  | returns results err _ h =>
    have heffect : RunEffect cfg w s s' := handlerReturns_effect h
    exact pairing_of_run hp heffect (handlerReturns_pairing hp.loop h)
  | close => exact pairing_of_others hp rfl rfl rfl rfl (fun _ _ _ => .inl)
  | closing _ h =>
    obtain ⟨_, _, _, _, _, rfl⟩ := closeStep_frame h
    exact pairing_of_others hp rfl rfl rfl rfl (fun _ _ _ => .inl)

theorem run_pairing (cfg : Config) (w : Workload T) (now : Int) (actions : List (Scheduler.Action R ε))
    (s : State T R ε) (h : runSteps (step cfg w) (State.initial now) actions = some s) :
    SchedulerInvariant cfg w s ∧ PairingInvariant actions s := by
  have hinitial : SchedulerInvariant cfg w (State.initial now : State T R ε) ∧
      PairingInvariant [] (State.initial now : State T R ε) := by
    refine ⟨initial_invariant cfg w now, rfl, fun p hp => absurd hp List.not_mem_nil, ?_⟩
    intro c value won hret
    cases hret
  exact runSteps_history (P := fun past s => SchedulerInvariant cfg w s ∧ PairingInvariant past s)
    (fun past s a s' hp hs => ⟨step_schedulerInvariant hp.1 hs, step_pairing hp.1 hp.2 hs⟩) hinitial actions h

/-- In lists without a common or repeated element, an element determines its list and its index. -/
lemma index_unique_of_nodup {α β : Type} {f : α → List β} {xs : List α} (h : (xs.flatMap f).Nodup)
    {k k' i i' : Nat} {x x' : α} {y : β} (hk : xs[k]? = some x) (hi : (f x)[i]? = some y)
    (hk' : xs[k']? = some x') (hi' : (f x')[i']? = some y) : k' = k ∧ i' = i := by
  obtain ⟨hnodup, hdisjoint⟩ := List.nodup_flatMap.mp h
  obtain ⟨hlt, hx⟩ := List.getElem?_eq_some_iff.mp hk
  obtain ⟨hlt', hx'⟩ := List.getElem?_eq_some_iff.mp hk'
  have hy := List.mem_of_getElem? hi
  have hy' := List.mem_of_getElem? hi'
  have hsame : k' = k := by
    have hpair := List.pairwise_iff_getElem.mp hdisjoint
    rcases Nat.lt_trichotomy k k' with hlt₁ | heq | hlt₁
    · exact (hpair k k' hlt hlt' hlt₁ (hx ▸ hy) (hx' ▸ hy')).elim
    · exact heq.symm
    · exact (hpair k' k hlt' hlt hlt₁ (hx' ▸ hy') (hx ▸ hy)).elim
  subst hsame
  rw [hk] at hk'
  cases hk'
  have hone := hnodup x (List.mem_of_getElem? hk)
  obtain ⟨hin, -⟩ := List.getElem?_eq_some_iff.mp hi'
  exact ⟨rfl, (List.getElem?_inj hin hone).mp (hi'.trans hi.symm)⟩

/-- A call that returns a value got it from exactly one invocation of the handler: the one whose
arguments hold the call's value, at the index of the result. That invocation returned no error and
as many results as it had values, and all its values stand at the index of their own items,
whatever was dropped from the collected batch. -/
theorem scheduler_result_paired (cfg : Config) (w : Workload T) (now : Int)
    (actions : List (Scheduler.Action R ε)) (s : State T R ε)
    (h : runSteps (step cfg w) (State.initial now) actions = some s) (c : CallId) (value : R) (won : Bool)
    (hret : s.calls c = .returned (.ok value) won) :
    ∃ (k i : Nat) (invocation : Invocation T) (results : List R), s.invocations[k]? = some invocation ∧
      (handlerReturned actions)[k]? = some (results, none) ∧
      results.length = invocation.values.length ∧
      invocation.values = invocation.active.map w.value ∧
      invocation.active[i]? = some c ∧ invocation.values[i]? = some (w.value c) ∧
      results[i]? = some value ∧
      ∀ (k' i' : Nat) (invocation' : Invocation T), s.invocations[k']? = some invocation' →
        invocation'.active[i']? = some c → k' = k ∧ i' = i := by
  obtain ⟨hi, hp⟩ := run_pairing cfg w now actions s h
  obtain ⟨k, i, invocation, results, hpair⟩ := hp.replies _ (hp.calls c value won hret) value rfl
  have hvalues := (hi.invoked invocation (List.mem_of_getElem? hpair.invoked)).2.2
  refine ⟨k, i, invocation, results, hpair.invoked, hpair.returned, ?_, hvalues, hpair.item, ?_, hpair.result, ?_⟩
  · rw [hvalues, List.length_map]
    exact hpair.count
  · rw [hvalues, List.getElem?_map, hpair.item, Option.map_some]
  · intro k' i' invocation' hk' hi'
    exact index_unique_of_nodup (handled_nodup hi) hpair.invoked hpair.item hk' hi'

/-- Two calls share a batch and the first is cancelled after it was collected, so the result of the
second stands at index zero. -/
def cancelledFirst : List (Scheduler.Action Nat Unit) :=
  let enter (c : CallId) : List (Scheduler.Action Nat Unit) := .submit c :: List.replicate 6 (.submitStep c .reply)
  enter 0 ++ enter 1 ++ List.replicate 6 (Action.runStep .receive) ++
    [Action.cancel 0, .submitStep 0 .contextDone, .submitStep 0 .contextDone] ++
    List.replicate 6 (Action.runStep .receive) ++ [Action.handlerReturns [7] none] ++
    List.replicate 3 (Action.runStep .receive) ++ [Action.submitStep 1 .dispatched, .submitStep 1 .reply]

theorem scheduler_result_paired_cancelled :
    let cfg : Config := ⟨2, 2, 1000000, by decide, by decide, by decide⟩
    let w : Workload Nat := ⟨id, fun c => c + 100, fun _ => none⟩
    ∃ s : State Nat Nat Unit, runSteps (step cfg w) (State.initial 0) cancelledFirst = some s ∧
      s.calls 1 = .returned (.ok 7) false ∧
      ∃ (k i : Nat) (invocation : Invocation Nat), s.invocations[k]? = some invocation ∧
        invocation.active[i]? = some 1 ∧ invocation.values[i]? = some 101 := by
  intro cfg w
  have hsome : (runSteps (step cfg w) (State.initial 0) cancelledFirst).isSome = true := by rfl
  obtain ⟨s, hs⟩ := Option.isSome_iff_exists.mp hsome
  have hcall : (runSteps (step cfg w) (State.initial 0) cancelledFirst).map (fun s => s.calls 1) =
      some (.returned (.ok 7) false) := by rfl
  rw [hs, Option.map_some] at hcall
  have hret := Option.some.inj hcall
  obtain ⟨k, i, invocation, -, hk, -, -, -, hitem, hvalue, -⟩ :=
    scheduler_result_paired cfg w 0 cancelledFirst s hs 1 7 false hret
  exact ⟨s, hs, hret, k, i, invocation, hk, hitem, hvalue⟩

end FraudDetection.Proofs
