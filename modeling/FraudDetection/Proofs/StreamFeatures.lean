import FraudDetection.Proofs.GroupDelivery
import FraudDetection.Proofs.SinkMirror
import FraudDetection.Proofs.FeatureRoundTrip

/-!
# What the stream processor serves

The window of a process is what `Apply` makes of the events that its handler accepted, and its counters
count the calls. With the policy that halts on a poisoned record, a process that reports to be ready has
the snapshots of its window in Redis, even if writes were carried out without an acknowledgement: the
record of such a write is tried again before anything else happens, and the process is not ready until
the write succeeds.
-/

namespace FraudDetection.Proofs
open FraudDetection.Library FraudDetection.Ingestion FraudDetection.StreamProcessor

variable {α σ : Type} {d : Deployment α} {g g' g₁ : ConsumerGroup α σ}

section handler

variable {ar : Arithmetic α} {sink : Materializer σ α} {now : Int} {p p' : Processor α} {stored stored' : σ}
  {event : Event α} {err : Option GoError}

def failedState (s : OperationalState) (lag : Int) : OperationalState :=
  { s with ready := false, attempts := s.attempts + 1, failures := s.failures + 1, eventLag := lag }

def passedState (s : OperationalState) (lag : Int) (changed : Bool) : OperationalState :=
  { s with
    ready := true
    attempts := s.attempts + 1
    events := s.events + 1
    materialized := if changed then s.materialized + 1 else s.materialized
    eventLag := lag }

lemma handle_failed {e : GoError} {window : Window α}
    (h : applyAndMaterialize ar p.window event (some sink) stored = (.error e, window, stored')) :
    handle ar sink now p stored event =
      (some e, ⟨window, failedState p.state (eventLag now event.occurredAt)⟩, stored') := by
  unfold handle
  rw [h]
  rfl

lemma handle_passed {features : Features α} {changed : Bool} {window : Window α}
    (h : applyAndMaterialize ar p.window event (some sink) stored = (.ok (features, changed), window, stored')) :
    handle ar sink now p stored event =
      (none, ⟨window, passedState p.state (eventLag now event.occurredAt) changed⟩, stored') := by
  unfold handle
  rw [h]
  cases changed <;> rfl

lemma prepareLocked_ignored {w : Window α} (hv : validEvent ar event = true)
    (hs : event.id ∈ w.seen ∨ w.stale event = true) : prepareLocked ar w event = .ok (PendingUpdate.empty ar) := by
  have hvalid : ¬(!validEvent ar event) = true := by
    rw [hv]
    decide
  unfold prepareLocked
  rw [if_neg hvalid]
  by_cases hseen : event.id ∈ w.seen
  · rw [if_pos hseen]
  · rw [if_neg hseen, if_pos (hs.resolve_left hseen)]

lemma materialize_ok {w w' : Window α} {r : Features α × Bool}
    (h : applyAndMaterialize ar w event (some sink) stored = (.ok r, w', stored')) :
    apply ar w event = (.ok r, w') := by
  obtain ⟨err, -, he⟩ | ⟨he, hv, hs⟩ | ⟨features, ha, ⟨-, err, -, he⟩ | ⟨hu, -, he⟩ | ⟨hu, he⟩⟩ :=
    materialize_outcome ar w event sink stored
  · cases h.symm.trans he
  · cases h.symm.trans he
    unfold apply
    rw [prepareLocked_ignored hv hs]
    rfl
  · cases h.symm.trans he
  · cases h.symm.trans he
    rw [apply_of_accepts ha, hu]
  · cases h.symm.trans he
    rw [apply_of_accepts ha, hu]

lemma materialize_error {w w' : Window α} {err : GoError}
    (h : applyAndMaterialize ar w event (some sink) stored = (.error err, w', stored')) : w' = w := by
  obtain ⟨err, -, he⟩ | ⟨he, -⟩ | ⟨features, -, ⟨-, err, -, he⟩ | ⟨-, -, he⟩ | ⟨-, he⟩⟩ :=
    materialize_outcome ar w event sink stored
  all_goals
    cases h.symm.trans he
    try rfl

/-- A call of the handler fails and leaves the window, or does what `Apply` does. -/
lemma handle_apply (h : handle ar sink now p stored event = (err, p', stored')) :
    (∃ e, err = some e ∧ p' = ⟨p.window, failedState p.state (eventLag now event.occurredAt)⟩) ∨
    err = none ∧ ∃ features changed, apply ar p.window event = (.ok (features, changed), p'.window) ∧
      p'.state = passedState p.state (eventLag now event.occurredAt) changed := by
  rcases hresult : applyAndMaterialize ar p.window event (some sink) stored with ⟨result, window, stored₁⟩
  rcases result with e | ⟨features, changed⟩
  · cases (handle_failed hresult).symm.trans h
    exact .inl ⟨e, rfl, by rw [materialize_error hresult]⟩
  · cases (handle_passed hresult).symm.trans h
    exact .inr ⟨rfl, features, changed, materialize_ok hresult, rfl⟩

end handler

section effects

def appliedEvents (t : Trace α) : List (Event α) :=
  t.filterMap fun
    | ⟨.handle event, none⟩ => some event
    | _ => none

lemma appliedEvents_concat {past : Trace α} {x : Exchange (Call α) Answer} :
    appliedEvents (past ++ [x]) = appliedEvents past ++ appliedEvents [x] := List.filterMap_append ..

def fetchedEvents (fmts : Formats α) (t : Trace α) : List (Event α) :=
  (fetchedMessages t).filterMap fun message => (decodeEvent fmts message).toOption

/-- The record at hand has not been applied yet. -/
def AppliedBy (fmts : Formats α) (past : Trace α) : Phase → Prop
  | .processing message _ => ∃ earlier, fetchedMessages past = earlier ++ [message] ∧
      (appliedEvents past).Sublist (earlier.filterMap fun message => (decodeEvent fmts message).toOption)
  | _ => (appliedEvents past).Sublist (fetchedEvents fmts past)

variable {past : Trace α} {x : Exchange (Call α) Answer}

lemma AppliedBy.sublist {fmts : Formats α} {phase : Phase} (h : AppliedBy fmts past phase) :
    (appliedEvents past).Sublist (fetchedEvents fmts past) := by
  cases phase with
  | processing message failures =>
    obtain ⟨earlier, hfetched, hsublist⟩ := h
    unfold fetchedEvents
    rw [hfetched, List.filterMap_append]
    exact hsublist.trans (List.sublist_append_left _ _)
  | _ => exact h

lemma applied_of_no_handler (h : handlerCalls [x] = []) : appliedEvents [x] = [] := by
  obtain ⟨c, answer⟩ := x
  cases c with
  | handle event => cases h
  | _ => rfl

/-- An exchange that fetches and applies nothing, in the same or in a later phase of the record. -/
lemma appliedBy_concat {fmts : Formats α} {phase phase' : Phase} (h : AppliedBy fmts past phase)
    (hfetched : fetchedMessages [x] = []) (happlied : appliedEvents [x] = [])
    (hphase : (∃ message failures failures', phase = .processing message failures ∧
      phase' = .processing message failures') ∨ ∀ message failures, phase' ≠ .processing message failures) :
    AppliedBy fmts (past ++ [x]) phase' := by
  have hsame : fetchedMessages (past ++ [x]) = fetchedMessages past ∧
      appliedEvents (past ++ [x]) = appliedEvents past := by
    rw [fetchedMessages_concat, appliedEvents_concat, hfetched, happlied, List.append_nil, List.append_nil]
    exact ⟨rfl, rfl⟩
  rcases hphase with ⟨message, failures, failures', rfl, rfl⟩ | hother
  · unfold AppliedBy at h ⊢
    rw [hsame.1, hsame.2]
    exact h
  · have hsublist := h.sublist
    unfold fetchedEvents at hsublist
    cases phase' with
    | processing message failures => exact absurd rfl (hother message failures)
    | _ =>
      change (appliedEvents (past ++ [x])).Sublist (fetchedEvents fmts (past ++ [x]))
      unfold fetchedEvents
      rw [hsame.1, hsame.2]
      exact hsublist

/-- One delivery of a record is applied at most once, in the order of the deliveries. -/
lemma appliedBy_step {fmts : Formats α} {k : KafkaConsumer} {phase phase' : Phase} (h : AppliedBy fmts past phase)
    (hstep : Protocol fmts k phase x phase') : AppliedBy fmts (past ++ [x]) phase' := by
  cases hstep with
  | fetched message =>
    refine ⟨fetchedMessages past, fetchedMessages_concat, ?_⟩
    rw [appliedEvents_concat]
    change (appliedEvents past ++ []).Sublist _
    rw [List.append_nil]
    exact h
  | @handled message failures event hdecode _ =>
    obtain ⟨earlier, hfetched, hsublist⟩ := h
    change (appliedEvents (past ++ [_])).Sublist (fetchedEvents fmts (past ++ [_]))
    unfold fetchedEvents
    rw [appliedEvents_concat, fetchedMessages_concat, hfetched]
    change (appliedEvents past ++ [event]).Sublist ((earlier ++ [message] ++ []).filterMap _)
    rw [List.append_nil, List.filterMap_append]
    refine hsublist.append ?_
    rw [List.filterMap_cons, hdecode]
    exact List.Sublist.refl _
  | failed _ _ => exact appliedBy_concat h rfl rfl (.inl ⟨_, _, _, rfl, rfl⟩)
  | retry _ => exact appliedBy_concat h rfl rfl (.inl ⟨_, _, _, rfl, rfl⟩)
  | undecodable _ _ => exact appliedBy_concat h rfl rfl (.inl ⟨_, _, _, rfl, rfl⟩)
  | refetch _ => exact appliedBy_concat h rfl rfl (.inr (by rintro _ _ ⟨⟩))
  | committed _ => exact appliedBy_concat h rfl rfl (.inr (by rintro _ _ ⟨⟩))
  | recommit _ => exact appliedBy_concat h rfl rfl (.inr (by rintro _ _ ⟨⟩))
  | idle hx | pause hx | interrupted hx | abandoned hx | uncommitted hx | setAside _ _ hx | lost hx =>
    exact appliedBy_concat h hx.quiet.fetched (applied_of_no_handler hx.quiet.handler) (.inr (by rintro _ _ ⟨⟩))

lemma session_applied {fmts : Formats α} {k : KafkaConsumer} {session : Trace α} {phase : Phase}
    (h : Runs (Protocol fmts k) .fetching session phase) :
    (appliedEvents session).Sublist (fetchedEvents fmts session) := by
  have hstart : AppliedBy fmts ([] : Trace α) .fetching := List.Sublist.refl _
  exact (Runs.history (P := AppliedBy fmts) (fun _ _ _ _ hp hs => appliedBy_step hp hs) hstart h).sublist

lemma applyRun_concat (ar : Arithmetic α) (w : Window α) (events : List (Event α)) (event : Event α) :
    applyRun ar w (events ++ [event]) =
      ((applyRun ar w events).1 ++ [(apply ar (applyRun ar w events).2 event).1],
        (apply ar (applyRun ar w events).2 event).2) := by
  induction events generalizing w with
  | nil => rfl
  | cons first events ih =>
    change ((apply ar w first).1 :: (applyRun ar (apply ar w first).2 (events ++ [event])).1,
      (applyRun ar (apply ar w first).2 (events ++ [event])).2) = _
    rw [ih]
    rfl

def changes : ApplyResult α → Bool
  | .ok (_, changed) => changed
  | .error _ => false

/-- Whether a process reports to be ready: until `main` leaves its select, its last call of the handler has
not failed; afterwards, a later one has succeeded. -/
def reportsReady (session : Trace α) : Option Departure → Bool
  | none => (handlerCalls session).getLast?.all fun call => call.2.isNone
  | some departure => (handlerCalls (session.drop departure.exchanges)).getLast?.any fun call => call.2.isNone

structure ProcessorInvariant (d : Deployment α) (session : Trace α) (departure : Option Departure) (p : Processor α) :
    Prop where
  window : p.window =
    (applyRun d.ar (newWithLimits d.windowDuration d.maxEntities d.maxEvents) (appliedEvents session)).2
  succeeded : ∀ result ∈
    (applyRun d.ar (newWithLimits d.windowDuration d.maxEntities d.maxEvents) (appliedEvents session)).1,
    result.isOk = true
  materialized : p.state.materialized = List.countP changes
    (applyRun d.ar (newWithLimits d.windowDuration d.maxEntities d.maxEvents) (appliedEvents session)).1
  attempts : p.state.attempts = (handlerCalls session).length
  events : p.state.events = (appliedEvents session).length
  failures : p.state.failures = (handlerCalls session).countP (fun call => call.2.isSome) +
    if departure.any Departure.failed then 1 else 0
  ready : p.state.ready = reportsReady session departure
  departed : ∀ left, departure = some left → left.exchanges ≤ session.length

lemma processorInvariant_start (d : Deployment α) (rounds : Nat) (committed : Int → Nat) :
    ProcessorInvariant d (d.start rounds committed).session none (d.start rounds committed).processor :=
  ⟨rfl, fun _ hmem => absurd hmem List.not_mem_nil, rfl, rfl, rfl, rfl, rfl, fun _ hleft => by cases hleft⟩

variable {session : Trace α} {departure : Option Departure} {p : Processor α}

lemma ProcessorInvariant.departed_concat (h : ProcessorInvariant d session departure p) (left : Departure)
    (hleft : departure = some left) : left.exchanges ≤ (session ++ [x]).length := by
  rw [List.length_append]
  exact (h.departed left hleft).trans (Nat.le_add_right ..)

lemma ProcessorInvariant.reportsReady_quiet (h : ProcessorInvariant d session departure p)
    (hx : handlerCalls [x] = []) : reportsReady (session ++ [x]) departure = reportsReady session departure := by
  cases departure with
  | none =>
    unfold reportsReady
    rw [handlerCalls_concat, hx, List.append_nil]
  | some left =>
    unfold reportsReady
    dsimp only
    rw [List.drop_append_of_le_length (h.departed left rfl), handlerCalls_concat, hx, List.append_nil]

lemma ProcessorInvariant.reportsReady_call (h : ProcessorInvariant d session departure p) (event : Event α)
    (err : Option GoError) : reportsReady (session ++ [⟨.handle event, err⟩]) departure = err.isNone := by
  have hcall : handlerCalls [(⟨.handle event, err⟩ : Exchange (Call α) Answer)] = [(event, err)] := rfl
  cases departure with
  | none =>
    unfold reportsReady
    rw [handlerCalls_concat, hcall, List.getLast?_concat]
    rfl
  | some left =>
    unfold reportsReady
    dsimp only
    rw [List.drop_append_of_le_length (h.departed left rfl), handlerCalls_concat, hcall, List.getLast?_concat]
    rfl

lemma processorInvariant_concat (h : ProcessorInvariant d session departure p)
    (hx : handlerCalls [x] = []) : ProcessorInvariant d (session ++ [x]) departure p := by
  have happlied : appliedEvents (session ++ [x]) = appliedEvents session := by
    rw [appliedEvents_concat, applied_of_no_handler hx, List.append_nil]
  have hcalls : handlerCalls (session ++ [x]) = handlerCalls session := by
    rw [handlerCalls_concat, hx, List.append_nil]
  constructor
  · rw [happlied, h.window]
  · rw [happlied]
    exact h.succeeded
  · rw [happlied, h.materialized]
  · rw [hcalls, h.attempts]
  · rw [happlied, h.events]
  · rw [hcalls, h.failures]
  · rw [h.reportsReady_quiet hx, h.ready]
  · exact h.departed_concat

lemma processorInvariant_handled {p' : Processor α} {sink : Materializer σ α}
    {now : Int} {stored stored' : σ} {event : Event α} {err : Option GoError}
    (h : ProcessorInvariant d session departure p)
    (hhandle : handle d.ar sink now p stored event = (err, p', stored')) :
    ProcessorInvariant d (session ++ [⟨.handle event, err⟩]) departure p' := by
  have hcalls : handlerCalls (session ++ [⟨.handle event, err⟩]) = handlerCalls session ++ [(event, err)] :=
    handlerCalls_concat
  have hready := h.reportsReady_call event err
  obtain ⟨e, rfl, rfl⟩ | ⟨rfl, features, changed, happly, hstate⟩ := handle_apply hhandle
  · have happlied : appliedEvents (session ++ [⟨.handle event, some e⟩]) = appliedEvents session := by
      rw [appliedEvents_concat]
      exact List.append_nil _
    constructor
    · rw [happlied, ← h.window]
    · rw [happlied]
      exact h.succeeded
    · rw [happlied, ← h.materialized]
      rfl
    · rw [hcalls, List.length_append, ← h.attempts]
      rfl
    · rw [happlied, ← h.events]
      rfl
    · rw [hcalls, List.countP_append, Nat.add_right_comm, ← h.failures]
      rfl
    · rw [hready]
      rfl
    · exact h.departed_concat
  · have happlied : appliedEvents (session ++ [⟨.handle event, none⟩]) = appliedEvents session ++ [event] := by
      rw [appliedEvents_concat]
      rfl
    constructor
    · rw [happlied, applyRun_concat, ← h.window, happly]
    · rw [happlied, applyRun_concat, ← h.window, happly]
      intro result hmem
      rcases List.mem_append.mp hmem with hmem | hmem
      · exact h.succeeded result hmem
      · rw [List.mem_singleton.mp hmem]
        rfl
    · rw [happlied, applyRun_concat, ← h.window, happly, List.countP_append, ← h.materialized, hstate]
      cases changed <;> rfl
    · rw [hcalls, List.length_append, ← h.attempts, hstate]
      rfl
    · rw [happlied, List.length_append, ← h.events, hstate]
      rfl
    · rw [hcalls, List.countP_append, Nat.add_right_comm, ← h.failures, hstate]
      rfl
    · rw [hready, hstate]
      rfl
    · exact h.departed_concat

lemma processorInvariant_leaves {m : Member α} (h : ProcessorInvariant d m.session m.departure m.processor)
    (hdeparture : m.departure = none) (failed : Bool) :
    ProcessorInvariant d (m.leaves failed).session (m.leaves failed).departure (m.leaves failed).processor := by
  rw [hdeparture] at h
  refine ⟨h.window, h.succeeded, h.materialized, h.attempts, h.events, ?_, ?_, fun left hleft => ?_⟩
  · have hfailures : m.processor.state.failures = (handlerCalls m.session).countP fun call => call.2.isSome := h.failures
    cases failed with
    | true => exact congrArg (· + 1) hfailures
    | false => exact hfailures
  · have hnone : reportsReady m.session (some ⟨m.session.length, failed⟩) = false := by
      unfold reportsReady
      dsimp only
      rw [List.drop_length]
      rfl
    exact hnone.symm
  · cases hleft
    exact le_rfl

lemma Replied.processorInvariant {i : Nat} {r : Reply σ} (hreplied : Replied d g i r x g₁)
    (h : ProcessorInvariant d (g.members i).session (g.members i).departure (g.members i).processor) :
    ProcessorInvariant d ((g.members i).session ++ [x]) (g.members i).departure (g₁.members i).processor := by
  cases hreplied with
  | fetched _ _ =>
    rw [modify_members]
    exact processorInvariant_concat h rfl
  | committed _ _ => exact processorInvariant_concat h rfl
  | uncommitted _ _ => exact processorInvariant_concat h rfl
  | handled event now client _ hhandle =>
    rw [modify_members]
    exact processorInvariant_handled h hhandle
  | other hx => exact processorInvariant_concat h hx.handler

/-- What is known of a process: its handler, and why `main` has counted a failure of the consumer. -/
structure MemberEffects (d : Deployment α) (m : Member α) : Prop where
  processor : ProcessorInvariant d m.session m.departure m.processor
  failed : ∀ departure, m.departure = some departure → departure.failed = true →
    ∃ err, m.program = .pure (some err) ∧ d.canceled err = false

lemma memberEffects_start (d : Deployment α) (rounds : Nat) (committed : Int → Nat) :
    MemberEffects d (d.start rounds committed) :=
  ⟨processorInvariant_start d rounds committed, fun _ hdeparture => by cases hdeparture⟩

lemma step_memberEffects {a : Occurrence σ} (hi : ∀ i, MemberEffects d (g.members i)) (h : step d g a = some g')
    (i : Nat) : MemberEffects d (g'.members i) := by
  cases a with
  | start j rounds =>
    cases h
    exact modify_keeps (fun _ => memberEffects_start d rounds g.committed) fun _ => hi i
  | assign j partition =>
    cases h
    exact modify_keeps (fun _ => ⟨(hi j).processor, (hi j).failed⟩) fun _ => hi i
  | call j r =>
    obtain ⟨c, rest, answer, g₁, hprogram, hreplied, rfl⟩ := step_call h
    by_cases hj : i = j
    · subst hj
      rw [modify_members]
      refine ⟨?_, fun departure hdeparture hfailed => ?_⟩
      · dsimp only
        rw [hreplied.session, hreplied.departure]
        exact hreplied.processorInvariant (hi i).processor
      · -- `Consume` has returned before a failure of it is counted
        obtain ⟨err, hpure, -⟩ := (hi i).failed departure (hreplied.departure ▸ hdeparture) hfailed
        cases hprogram.symm.trans hpure
    · rw [modify_members_ne _ _ hj, hreplied.others hj]
      exact hi i
  | leave j exit =>
    obtain ⟨hdeparture, failed, rfl, hfailed⟩ := step_leave h
    refine modify_keeps (fun _ => ?_) fun _ => hi i
    refine ⟨processorInvariant_leaves (hi j).processor hdeparture failed, fun departure hleft hcounted => ?_⟩
    cases hleft
    exact hfailed hcounted
  | change store =>
    cases h
    exact hi i

lemma reachable_memberEffects {store : σ} {actions : List (Occurrence σ)}
    (h : runSteps (step d) (d.initial store) actions = some g) (i : Nat) : MemberEffects d (g.members i) :=
  runSteps_invariant (P := fun g => ∀ j, MemberEffects d (g.members j))
    (fun _ _ _ hi hstep => step_memberEffects hi hstep) (fun _ => memberEffects_start d 0 _) actions h i

end effects

/-- In every run of a group and for each of its processes: the window is what `Apply` makes of the events
whose handler call returned nil, each of them from its own delivery and in the order of the deliveries;
failed attempts leave nothing in it. The counters agree with the calls, except that `main` counts one more
failure when it leaves its select because `Consume` has returned an error other than a cancellation. -/
theorem processor_effects (d : Deployment α) (store : σ) (actions : List (Occurrence σ)) (g : ConsumerGroup α σ)
    (h : runSteps (step d) (d.initial store) actions = some g) (i : Nat) :
    let session := (g.members i).session
    let departure := (g.members i).departure
    let p := (g.members i).processor
    let run := applyRun d.ar (newWithLimits d.windowDuration d.maxEntities d.maxEvents) (appliedEvents session)
    p.window = run.2 ∧ (∀ result ∈ run.1, result.isOk = true) ∧
      (appliedEvents session).Sublist (fetchedEvents d.fmts session) ∧
      p.state.events = (appliedEvents session).length ∧ p.state.materialized = run.1.countP changes ∧
      p.state.attempts = (handlerCalls session).length ∧
      p.state.failures = (handlerCalls session).countP (fun call => call.2.isSome) +
        (if departure.any Departure.failed then 1 else 0) ∧
      (∀ left, departure = some left → left.failed = true →
        ∃ err, (g.members i).program = .pure (some err) ∧ d.canceled err = false) ∧
      p.state.ready = reportsReady session departure := by
  intro session departure p run
  have hm := reachable_memberEffects h i
  have hp := hm.processor
  obtain ⟨phase, hruns⟩ := (reachable_groupInvariant h).members i
  exact ⟨hp.window, hp.succeeded, session_applied hruns.runs, hp.events, hp.materialized,
    hp.attempts, hp.failures, hm.failed, hp.ready⟩

/-- One failed and one successful attempt; no commit succeeds, and `main` leaves its select on the error. -/
def endedRun : List (Occurrence Unit) :=
  let failedCommit : List (Occurrence Unit) := [.call 0 (.commitFailed ⟨"timeout"⟩ false), .call 0 (.answered none)]
  lostAnswers.take 5 ++ failedCommit ++ [.call 0 (.answered none)] ++ failedCommit ++ [.leave 0 .consumed]

theorem processor_effects_ended :
    ∃ g, runSteps (step oneRecord) (oneRecord.initial ()) endedRun = some g ∧
      (g.members 0).processor.window = (applyRun wholeArithmetic (newWithLimits 60 10 10)
        (appliedEvents (g.members 0).session)).2 ∧
      (appliedEvents (g.members 0).session).length = 1 ∧ (handlerCalls (g.members 0).session).length = 2 ∧
      (handlerCalls (g.members 0).session).countP (fun call => call.2.isSome) = 1 ∧
      (g.members 0).processor.state.failures = 2 ∧ (g.members 0).processor.state.ready = false := by
  have hrun : (runSteps (step oneRecord) (oneRecord.initial ()) endedRun).map
      (fun g => ((g.members 0).processor.state, (g.members 0).departure)) =
      some (⟨false, 2, 1, 1, 2, 101⟩, some ⟨9, true⟩) := by decide +kernel
  obtain ⟨g, hg, hvalues⟩ := Option.map_eq_some_iff.mp hrun
  obtain ⟨hstate, hdeparture⟩ := Prod.mk.inj hvalues
  obtain ⟨hwindow, -, -, hevents, -, hattempts, hfailures, -⟩ := processor_effects oneRecord _ _ g hg 0
  rw [hdeparture, hstate] at hfailures
  have htotal : 1 + 1 = (handlerCalls (g.members 0).session).countP (fun call => call.2.isSome) + 1 := hfailures
  refine ⟨g, hg, hwindow, ?_, ?_, ?_, ?_, ?_⟩
  · rw [← hevents, hstate]
  · rw [← hattempts, hstate]
  · exact (Nat.add_right_cancel htotal).symm
  · rw [hstate]
  · rw [hstate]

section serving

open FraudDetection.FeatureVector

variable {e : GoString} {w : Window α} {input : Event α} {features : Features α} {store store' : σ}
  {held : σ → GoString → Option GoString} {client : RedisClient σ}

/-- What `SET` promises, where `held` are the strings that Redis holds: an acknowledged one holds, and none
changes another key. One that is not acknowledged may do anything to its own key. -/
structure WriteContract (held : σ → GoString → Option GoString) (client : RedisClient σ) : Prop where
  acknowledged : ∀ state key value, (client.set state key value).1 = none →
    held (client.set state key value).2 key = some value
  others : ∀ state key value other, other ≠ key → held (client.set state key value).2 other = held state other

/-- What `GET` promises: a string that it returns is held. -/
def ReadContract (held : σ → GoString → Option GoString) (client : RedisClient σ) : Prop :=
  ∀ state key value, client.get state key = .ok value → held state key = some value

def encodedVector (sc : Strconv α) (features : Features α) : GoString :=
  List.intercalate (ascii ",") (vectorOf sc features)

/-- Redis holds the snapshot of an entity that has events in the window. -/
def StoredFor (d : Deployment α) (held : σ → GoString → Option GoString) (store : σ) (w : Window α) (e : GoString) :
    Prop :=
  w.eventsOf e ≠ [] → held store e = some (encodedVector d.sc (snapshot d.ar w e (w.watermarkOf e)).1)

lemma put_others {ar : Arithmetic α} {sc : Strconv α} (hclient : WriteContract held client)
    (he : e ≠ features.entityID) : held (put ar sc (some client) store features).2 e = held store e := by
  unfold put
  dsimp only
  cases validateMaterializedFeatures ar features with
  | some err => rfl
  | none => exact hclient.others _ _ _ _ he

lemma put_stored {ar : Arithmetic α} {sc : Strconv α} (hclient : WriteContract held client)
    (h : (put ar sc (some client) store features).1 = none) :
    held (put ar sc (some client) store features).2 features.entityID = some (encodedVector sc features) := by
  unfold put at h ⊢
  dsimp only at h ⊢
  cases hvalid : validateMaterializedFeatures ar features with
  | some err =>
    rw [hvalid] at h
    cases h
  | none =>
    rw [hvalid] at h
    exact hclient.acknowledged _ _ _ h

/-- An accepted event keeps what Redis holds for an entity, if its own entity has its features there. -/
lemma storedFor_advance (store : σ) (hi : WindowInvariant w) (ha : Accepts d.ar w input features)
    (hown : e = input.entityID → w.nextEvents input ≠ [] → held store' e = some (encodedVector d.sc features))
    (hother : e ≠ input.entityID → StoredFor d held store w e ∧ held store' e = held store e) :
    StoredFor d held store' (w.advance input) e := by
  intro hne
  by_cases he : e = input.entityID
  · subst he
    have hnext : w.nextEvents input ≠ [] := by
      rwa [eventsOf_advance, if_pos rfl] at hne
    rw [snapshot_advance hi ha hnext]
    exact hown rfl hnext
  · obtain ⟨hstored, hsame⟩ := hother he
    obtain ⟨hevents, hwatermark⟩ := advance_other hi he hne
    rw [snapshot_congr hevents hwatermark (advance_duration w input), hsame]
    rw [hevents] at hne
    exact hstored hne

/-- The event cannot succeed without a write. -/
def Blocked (ar : Arithmetic α) (w : Window α) (event : Event α) : Prop :=
  ∀ pending, prepareLocked ar w event = .ok pending → pending.accepted = true ∧ pending.changed = true

section handles

variable {now : Int} {p p' : Processor α} {event : Event α} {err : GoError}

/-- After a failed call the event needs a write, and Redis has changed at most under its entity. -/
lemma handle_error_stored (hclient : WriteContract held client)
    (h : handle d.ar (put d.ar d.sc (some client)) now p store event = (some err, p', store')) :
    Blocked d.ar p'.window event ∧ p'.window = p.window ∧ p'.state.ready = false ∧
      (e ≠ event.entityID → held store' e = held store e) := by
  obtain ⟨err, hp, he⟩ | ⟨he, -⟩ | ⟨features, ha, ⟨hu, err, hput, he⟩ | ⟨-, -, he⟩ | ⟨-, he⟩⟩ :=
    materialize_outcome d.ar p.window event (put d.ar d.sc (some client)) store
  · cases (handle_failed he).symm.trans h
    refine ⟨fun pending hpending => ?_, rfl, rfl, fun _ => rfl⟩
    cases hp.symm.trans hpending
  · cases (handle_passed he).symm.trans h
  · cases (handle_failed he).symm.trans h
    refine ⟨fun pending hpending => ?_, rfl, rfl, fun hne => ?_⟩
    · cases (prepareLocked_of_accepts ha).symm.trans hpending
      exact ⟨rfl, hu⟩
    · rw [← (accepts_windowEnd ha).1] at hne
      exact put_others hclient hne
  · cases (handle_passed he).symm.trans h
  · cases (handle_passed he).symm.trans h

/-- A successful call leaves Redis with the snapshot of the new window, if it had the one of the old
window or if the event needed a write. -/
lemma handle_ok_stored (hclient : WriteContract held client) (hi : WindowInvariant p.window)
    (h : handle d.ar (put d.ar d.sc (some client)) now p store event = (none, p', store'))
    (hstored : StoredFor d held store p.window e ∨ (e = event.entityID ∧ Blocked d.ar p.window event)) :
    StoredFor d held store' p'.window e := by
  obtain ⟨err, -, he⟩ | ⟨he, hv, hs⟩ | ⟨features, ha, ⟨-, err, -, he⟩ | ⟨hu, hput, he⟩ | ⟨hu, he⟩⟩ :=
    materialize_outcome d.ar p.window event (put d.ar d.sc (some client)) store
  · cases (handle_failed he).symm.trans h
  · cases (handle_passed he).symm.trans h
    rcases hstored with hstored | ⟨-, hblocked⟩
    · exact hstored
    · -- an ignored event needs no write
      cases (hblocked _ (prepareLocked_ignored hv hs)).1
  · cases (handle_failed he).symm.trans h
  · cases (handle_passed he).symm.trans h
    have hentity := (accepts_windowEnd ha).1
    refine storedFor_advance store hi ha (fun heq _ => ?_) fun hne => ⟨?_, ?_⟩
    · rw [heq, ← hentity]
      exact put_stored hclient hput
    · exact hstored.resolve_right fun hb => hne hb.1
    · rw [← hentity] at hne
      exact put_others hclient hne
  · cases (handle_passed he).symm.trans h
    rcases hstored with hstored | ⟨-, hblocked⟩
    · obtain ⟨hevents, hwatermark⟩ := unchanged_of_not_updates hi hu
      refine storedFor_advance store hi ha (fun heq hnext => ?_) fun _ => ⟨hstored, rfl⟩
      -- the write was skipped because Redis has the features already
      subst heq
      have hsnapshot := snapshot_advance hi ha hnext
      rw [snapshot_congr (w := p.window) (by rw [eventsOf_advance, if_pos rfl, hevents])
        (by rw [watermarkOf_advance, if_pos rfl, hwatermark]) (advance_duration p.window event)] at hsnapshot
      rw [hevents] at hnext
      have hheld := hstored hnext
      rw [hsnapshot] at hheld
      exact hheld
    · have hchanged := (hblocked _ (prepareLocked_of_accepts ha)).2
      cases hu.symm.trans hchanged

end handles

/-- While Redis lacks the snapshot, the process works on an event that needs a write, or it has stopped. -/
def Waiting (d : Deployment α) (held : σ → GoString → Option GoString) (store : σ) (w : Window α) (e : GoString) :
    Phase → Prop
  | .processing message _ => ∃ event, decodeEvent d.fmts message = .ok event ∧ Blocked d.ar w event ∧
      (e ≠ event.entityID → StoredFor d held store w e)
  | .stopped => True
  | _ => False

structure EntityServed (d : Deployment α) (held : σ → GoString → Option GoString) (e : GoString) (store : σ)
    (p : Processor α) (phase : Phase) : Prop where
  window : WindowInvariant p.window
  key : p.window.eventsOf e ≠ [] → validFeatureKey e = true
  ready : p.state.ready = true → StoredFor d held store p.window e
  unready : StoredFor d held store p.window e ∨ p.state.ready = false ∧ Waiting d held store p.window e phase

lemma serving_start (rounds : Nat) (committed : Int → Nat) :
    EntityServed d held e store (d.start rounds committed).processor .fetching :=
  ⟨newWithLimits_invariant _ _ _, fun h => absurd rfl h, fun _ h => absurd rfl h, .inl fun h => absurd rfl h⟩

lemma EntityServed.congr_store {p : Processor α} {phase : Phase} (h : EntityServed d held e store p phase)
    (hsame : held store' e = held store e) : EntityServed d held e store' p phase := by
  have hstored : StoredFor d held store p.window e → StoredFor d held store' p.window e :=
    fun hs hne => hsame.trans (hs hne)
  refine ⟨h.window, h.key, fun hready => hstored (h.ready hready),
    h.unready.imp hstored fun ⟨hready, hwaiting⟩ => ⟨hready, ?_⟩⟩
  cases phase with
  | processing message failures =>
    obtain ⟨event, hdecode, hblocked, hother⟩ := hwaiting
    exact ⟨event, hdecode, hblocked, fun hne => hstored (hother hne)⟩
  | stopped => trivial
  | _ => exact hwaiting

lemma EntityServed.leaves {m : Member α} {phase : Phase} (h : EntityServed d held e store m.processor phase)
    (failed : Bool) : EntityServed d held e store (m.leaves failed).processor phase := by
  refine ⟨h.window, h.key, fun hready => ?_, h.unready.imp_right fun hwaiting => ⟨rfl, hwaiting.2⟩⟩
  cases hready

/-- An exchange without the handler moves on only from where Redis has the snapshot. -/
lemma waiting_kept {phase phase' : Phase} {x : Exchange (Call α) Answer} (hhalt : d.consumer.poisonPolicy = .halt)
    (hstep : Protocol d.fmts d.consumer phase x phase') (hx : handlerCalls [x] = [])
    (h : Waiting d held store w e phase) : Waiting d held store w e phase' := by
  cases hstep with
  | fetched _ | refetch _ | idle _ | committed _ | recommit _ | pause _ => exact h.elim
  | interrupted _ | abandoned _ | lost _ | uncommitted _ => trivial
  | handled _ _ | failed _ _ => cases hx
  | retry _ => exact h
  | undecodable hdecode _ =>
    obtain ⟨event, hok, -⟩ := h
    cases hdecode.symm.trans hok
  | setAside hdlq _ _ => cases hhalt.symm.trans hdlq

lemma handle_window {now : Int} {p p' : Processor α} {event : Event α} {err : Option GoError}
    (h : handle d.ar (put d.ar d.sc (some client)) now p store event = (err, p', store'))
    (hi : WindowInvariant p.window) (hkey : p.window.eventsOf e ≠ [] → validFeatureKey e = true) :
    WindowInvariant p'.window ∧ (p'.window.eventsOf e ≠ [] → validFeatureKey e = true) := by
  obtain ⟨_, -, rfl⟩ | ⟨-, features, changed, happly, -⟩ := handle_apply h
  · exact ⟨hi, hkey⟩
  obtain ⟨err, -, he⟩ | ⟨he, -⟩ | ⟨features, ha, he⟩ := apply_outcome d.ar p.window event
  · cases happly.symm.trans he
  · rw [(Prod.mk.inj (happly.symm.trans he)).2]
    exact ⟨hi, hkey⟩
  · rw [(Prod.mk.inj (happly.symm.trans he)).2]
    refine ⟨advance_invariant hi ha, fun hne => ?_⟩
    by_cases hentity : e = event.entityID
    · rw [hentity]
      exact (validEvent_key ha.valid).1
    · rw [(advance_other hi hentity hne).1] at hne
      exact hkey hne

section exchanges

variable {i : Nat} {r : Reply σ} {x : Exchange (Call α) Answer}

lemma Replied.unhandled (h : Replied d g i r x g₁) (hx : handlerCalls [x] = []) :
    g₁.store = g.store ∧ (g₁.members i).processor = (g.members i).processor := by
  cases h with
  | fetched _ _ =>
    rw [modify_members]
    exact ⟨rfl, rfl⟩
  | handled _ _ _ _ _ => cases hx
  | _ => exact ⟨rfl, rfl⟩

lemma Replied.serving {phase phase' : Phase} (hreplied : Replied d g i r x g₁)
    (hclient : ∀ now client, r = .handled now client → WriteContract held client)
    (hhalt : d.consumer.poisonPolicy = .halt) (hstep : Protocol d.fmts d.consumer phase x phase')
    (h : EntityServed d held e g.store (g.members i).processor phase) :
    EntityServed d held e g₁.store (g₁.members i).processor phase' := by
  by_cases hx : handlerCalls [x] = []
  · obtain ⟨hstore, hprocessor⟩ := hreplied.unhandled hx
    rw [hstore, hprocessor]
    exact ⟨h.window, h.key, h.ready,
      h.unready.imp_right fun hwaiting => ⟨hwaiting.1, waiting_kept hhalt hstep hx hwaiting.2⟩⟩
  cases hreplied with
  | fetched _ _ => exact absurd rfl hx
  | committed _ _ => exact absurd rfl hx
  | uncommitted _ _ => exact absurd rfl hx
  | other hquiet => exact absurd hquiet.handler hx
  | @handled event now client err processor store hr hhandle =>
    replace hclient := hclient now client hr
    rw [modify_members]
    obtain ⟨hwindow, hkey⟩ := handle_window hhandle h.window h.key
    cases hstep with
    | idle hquiet | pause hquiet => cases hquiet
    | interrupted hquiet | abandoned hquiet | uncommitted hquiet => cases hquiet
    | setAside _ _ hquiet | lost hquiet => cases hquiet
    | @handled message failures _ hdecode _ =>
      have hstored : StoredFor d held g.store (g.members i).processor.window e ∨
          (e = event.entityID ∧ Blocked d.ar (g.members i).processor.window event) := by
        rcases h.unready with hstored | ⟨-, event', hdecode', hblocked, hother⟩
        · exact .inl hstored
        · cases hdecode.symm.trans hdecode'
          by_cases hentity : e = event.entityID
          · exact .inr ⟨hentity, hblocked⟩
          · exact .inl (hother hentity)
      have hserved := handle_ok_stored hclient h.window hhandle hstored
      exact ⟨hwindow, hkey, fun _ => hserved, .inl hserved⟩
    | @failed message failures _ err hdecode _ =>
      obtain ⟨hblocked, hsame, hnotReady, hother⟩ := handle_error_stored (e := e) hclient hhandle
      refine ⟨hwindow, hkey, fun hready => ?_, .inr ⟨hnotReady, event, hdecode, hblocked, fun hne => ?_⟩⟩
      · cases hnotReady.symm.trans hready
      · have hstored : StoredFor d held g.store (g.members i).processor.window e := by
          rcases h.unready with hstored | ⟨-, event', hdecode', -, hkept⟩
          · exact hstored
          · cases hdecode.symm.trans hdecode'
            exact hkept hne
        dsimp only
        rw [hsame]
        exact fun hevents => (hother hne).trans (hstored hevents)

/-- Another process writes for the entity of its own event only. -/
lemma Replied.store_other (hreplied : Replied d g i r x g₁)
    (hclient : ∀ now client, r = .handled now client → WriteContract held client)
    (hx : ∀ event answer, x = ⟨.handle event, answer⟩ → e ≠ event.entityID) : held g₁.store e = held g.store e := by
  cases hreplied with
  | @handled event now client err processor store hr hhandle =>
    replace hclient := hclient now client hr
    have hne := hx event err rfl
    obtain ⟨_, -, he⟩ | ⟨he, -⟩ | ⟨features, ha, ⟨-, _, -, he⟩ | ⟨-, -, he⟩ | ⟨-, he⟩⟩ :=
      materialize_outcome d.ar (g.members i).processor.window event (put d.ar d.sc (some client)) g.store
    · cases (handle_failed he).symm.trans hhandle
      rfl
    · cases (handle_passed he).symm.trans hhandle
      rfl
    · cases (handle_failed he).symm.trans hhandle
      rw [← (accepts_windowEnd ha).1] at hne
      exact put_others hclient hne
    · cases (handle_passed he).symm.trans hhandle
      rw [← (accepts_windowEnd ha).1] at hne
      exact put_others hclient hne
    · cases (handle_passed he).symm.trans hhandle
      rfl
  | _ => rfl

end exchanges

inductive RedisNote (α σ : Type) where
  | handled (member : Nat) (event : Event α)
  | changed (before after : σ)

def redisNotes (g : ConsumerGroup α σ) : Occurrence σ → List (RedisNote α σ)
  | .call i _ => match (g.members i).program with
    | .call (.handle event) _ => [.handled i event]
    | _ => []
  | .change store => [.changed g.store store]
  | _ => []

/-- Nobody but process `i` touches what Redis holds for the entity. -/
def RedisNote.Spares (held : σ → GoString → Option GoString) (i : Nat) (e : GoString) : RedisNote α σ → Prop
  | .handled j event => j ≠ i → e ≠ event.entityID
  | .changed before after => held after e = held before e

/-- Every write of the run is made through a client that keeps the contract. -/
def WritesKept (held : σ → GoString → Option GoString) (a : Occurrence σ) : Prop :=
  ∀ j now client, a = .call j (.handled now client) → WriteContract held client

def Serves (d : Deployment α) (held : σ → GoString → Option GoString) (i : Nat) (e : GoString)
    (g : ConsumerGroup α σ) : Prop :=
  ∃ phase, (g.members i).program.Conforms (Protocol d.fmts d.consumer) phase (fun _ _ => True) ∧
    EntityServed d held e g.store (g.members i).processor phase

lemma Serves.modify {i j : Nat} {f : Member α → Member α} (hs : Serves d held i e g)
    (hself : i = j → ∃ phase, (f (g.members j)).program.Conforms (Protocol d.fmts d.consumer) phase (fun _ _ => True) ∧
      EntityServed d held e g.store (f (g.members j)).processor phase) : Serves d held i e (g.modify j f) :=
  modify_keeps (P := fun m => ∃ phase, m.program.Conforms (Protocol d.fmts d.consumer) phase (fun _ _ => True) ∧
    EntityServed d held e g.store m.processor phase) hself fun _ => hs

lemma step_serves {a : Occurrence σ} {i : Nat} (hhalt : d.consumer.poisonPolicy = .halt) (hwrites : WritesKept held a)
    (hown : ∀ note ∈ redisNotes g a, note.Spares held i e) (hs : Serves d held i e g)
    (h : step d g a = some g') : Serves d held i e g' := by
  cases a with
  | start j rounds =>
    cases h
    exact hs.modify (j := j) (f := fun _ => d.start rounds g.committed)
      fun _ => ⟨.fetching, consumeLoop_conforms rounds, serving_start rounds g.committed⟩
  | assign j partition =>
    cases h
    exact hs.modify fun hj => hj ▸ hs
  | call j r =>
    obtain ⟨phase, hconforms, hserving⟩ := hs
    obtain ⟨c, rest, answer, g₁, hprogram, hreplied, rfl⟩ := step_call h
    have hclient : ∀ now client, r = .handled now client → WriteContract held client :=
      fun now client hr => hwrites j now client (congrArg (Occurrence.call j) hr)
    by_cases hj : i = j
    · subst hj
      rw [hprogram] at hconforms
      obtain ⟨phase', hstep, hrest⟩ := hconforms answer
      refine ⟨phase', ?_⟩
      rw [modify_members]
      exact ⟨hrest, hreplied.serving hclient hhalt hstep hserving⟩
    · refine ⟨phase, ?_⟩
      rw [modify_members_ne _ _ hj, hreplied.others hj]
      refine ⟨hconforms, hserving.congr_store (hreplied.store_other hclient ?_)⟩
      rintro event _ heq
      cases heq
      refine hown (.handled j event) ?_ (Ne.symm hj)
      unfold redisNotes
      dsimp only
      rw [hprogram]
      exact List.mem_cons_self
  | leave j exit =>
    obtain ⟨-, failed, rfl, -⟩ := step_leave h
    refine hs.modify fun hj => ?_
    obtain ⟨phase, hconforms, hserving⟩ := hj ▸ hs
    exact ⟨phase, hconforms, hserving.leaves failed⟩
  | change store =>
    cases h
    obtain ⟨phase, hconforms, hserving⟩ := hs
    exact ⟨phase, hconforms, hserving.congr_store (hown (.changed g.store store) List.mem_cons_self)⟩

lemma run_serves {i rounds : Nat} {actions : List (Occurrence σ)} {g₀ : ConsumerGroup α σ}
    (hhalt : d.consumer.poisonPolicy = .halt) (h : runSteps (step d) g₀ (.start i rounds :: actions) = some g)
    (hwrites : ∀ a ∈ actions, WritesKept held a)
    (hown : ∀ note ∈ runLog (step d) redisNotes g₀ (.start i rounds :: actions), note.Spares held i e) :
    Serves d held i e g := by
  obtain ⟨g₁, hstart, hrest⟩ := Option.bind_eq_some_iff.mp h
  have hserves : Serves d held i e g₁ := by
    cases hstart
    refine ⟨.fetching, ?_⟩
    rw [modify_members]
    exact ⟨consumeLoop_conforms rounds, serving_start rounds g₀.committed⟩
  have hlog : runLog (step d) redisNotes g₀ (.start i rounds :: actions) =
      [] ++ runLog (step d) redisNotes g₁ actions := by
    rw [runLog, hstart]
    rfl
  rw [hlog] at hown
  refine runSteps_log (P := fun (log : List (RedisNote α σ)) g =>
      (∀ note ∈ log, note.Spares held i e) → Serves d held i e g)
    (Q := WritesKept held) (fun log g a g' hkept hlog hstep hmore => ?_) (fun _ => hserves) hwrites hrest hown
  refine step_serves hhalt hkept (fun note hmem => hmore note (List.mem_append_right _ hmem)) (hlog ?_) hstep
  exact fun note hmem => hmore note (List.mem_append_left _ hmem)

/-- What Redis holds while a process serves the entity, and what a client reads there. -/
lemma serves_read {K : Type} [Field K] {d : Deployment K} {isFloat64 : K → Prop}
    (hsc : StrconvContract d.sc isFloat64) {g : ConsumerGroup K σ} {i : Nat} (hs : Serves d held i e g)
    (hready : (g.members i).processor.state.ready = true) :
    let window := (g.members i).processor.window
    let features := (snapshot d.ar window e (window.watermarkOf e)).1
    window.eventsOf e ≠ [] → features.eventCount < 2 ^ 53 → isFloat64 features.totalAmount →
      isFloat64 features.maxAmount →
      held g.store e = some (encodedVector d.sc features) ∧
      ∀ client : RedisClient σ, ReadContract held client → ∀ value, client.get g.store e = .ok value →
        FeatureVector.get d.sc (some ⟨client, 32⟩) none g.store e = .ok ((servedValues features).map .finite) := by
  intro window features hevents hcount htotal hmax
  obtain ⟨phase, -, hserving⟩ := hs
  have hstored : held g.store e = some (encodedVector d.sc features) := hserving.ready hready hevents
  refine ⟨hstored, fun client hclient value hvalue => ?_⟩
  have hsame := (hclient g.store e value hvalue).symm.trans hstored
  rw [Option.some.inj hsame] at hvalue
  exact get_encoded hsc (hserving.key hevents) hcount htotal hmax hvalue

def oneCharge : Deployment ℚ where
  fmts := ⟨fun value => .ok ⟨value, [97], 10, 100, 0, 0⟩, fun _ => []⟩
  consumer := { poisonConsumer with poisonPolicy := .halt, poisonHandler := false }
  canceled err := err = .plain ⟨"context canceled"⟩
  ar := exactArithmetic 1000000
  sc := decimal
  topic := oneRecord.topic
  windowDuration := 60
  maxEntities := 10
  maxEvents := 10

def timedOutClient : RedisClient (GoString → Option GoString) :=
  { mapClient with set := fun state key value => (some ⟨"timeout"⟩, (mapClient.set state key value).2) }

/-- The first write is carried out without an acknowledgement, the second one is acknowledged. -/
def writtenTwice : List (Occurrence (GoString → Option GoString)) :=
  [.call 0 (.fetched 0 3), .call 0 (.handled 200 timedOutClient), .call 0 (.answered none),
    .call 0 (.handled 201 mapClient)]

lemma mapClient_reads : ReadContract (fun state key => state key) mapClient := by
  intro state key value h
  unfold mapClient at h
  dsimp only at h
  cases hkey : state key with
  | none =>
    rw [hkey] at h
    cases h
  | some stored =>
    rw [hkey] at h
    cases h
    exact hkey

lemma mapClient_writes : WriteContract (fun state key => state key) mapClient where
  acknowledged _ _ _ _ := if_pos rfl
  others _ _ _ _ hne := if_neg hne

lemma timedOutClient_writes : WriteContract (fun state key => state key) timedOutClient where
  acknowledged _ _ _ h := by cases h
  others _ _ _ _ hne := if_neg hne

lemma writtenTwice_kept : ∀ a ∈ writtenTwice, WritesKept (fun state key => state key) a := by
  rintro a ha j now client rfl
  simp only [writtenTwice, List.mem_cons, Occurrence.call.injEq, Reply.handled.injEq, reduceCtorEq, and_false,
    List.not_mem_nil, or_false, false_or] at ha
  rcases ha with ⟨-, -, rfl⟩ | ⟨-, -, rfl⟩
  · exact timedOutClient_writes
  · exact mapClient_writes

def oneChargeFeatures : Features ℚ := ⟨[97], 1, 10, 10, 100⟩

/-- The processor is ready after the second write, with one failed call. -/
lemma oneCharge_run :
    ∃ g, runSteps (step oneCharge) (oneCharge.initial fun _ => none) (.start 0 5 :: writtenTwice) = some g ∧
      (g.members 0).processor.state = ⟨true, 2, 1, 1, 1, 101⟩ ∧ (g.members 0).processor.window.eventsOf [97] ≠ [] ∧
      (snapshot oneCharge.ar (g.members 0).processor.window [97]
        ((g.members 0).processor.window.watermarkOf [97])).1 = oneChargeFeatures := by
  have hrun : (runSteps (step oneCharge) (oneCharge.initial fun _ => none) (.start 0 5 :: writtenTwice)).map
      (fun g => ((g.members 0).processor.state, (g.members 0).processor.window.eventsOf [97],
        (snapshot (exactArithmetic 1000000) (g.members 0).processor.window [97]
          ((g.members 0).processor.window.watermarkOf [97])).1)) =
      some (⟨true, 2, 1, 1, 1, 101⟩, [⟨ascii "e1", 100, 10⟩], oneChargeFeatures) := by decide +kernel
  obtain ⟨g, hg, hvalues⟩ := Option.map_eq_some_iff.mp hrun
  obtain ⟨hstate, hrest⟩ := Prod.mk.inj hvalues
  obtain ⟨hevents, hfeatures⟩ := Prod.mk.inj hrest
  exact ⟨g, hg, hstate, by rw [hevents]; exact List.cons_ne_nil _ _, hfeatures⟩

/-- There is no other process, and nothing else writes. -/
lemma oneCharge_own (e : GoString) : ∀ note ∈ runLog (step oneCharge) redisNotes (oneCharge.initial fun _ => none)
    (.start 0 5 :: writtenTwice), note.Spares (fun state key => state key) 0 e := by
  have hlog : ((runLog (step oneCharge) redisNotes (oneCharge.initial fun _ => none) (.start 0 5 :: writtenTwice)).all
      fun
        | .handled j _ => j == 0
        | .changed _ _ => false) = true := by decide +kernel
  intro note hmem
  have hnote := List.all_eq_true.mp hlog note hmem
  cases note with
  | handled j event => exact fun hne => absurd (beq_iff_eq.mp hnote) hne
  | changed before after => cases hnote

end serving

end FraudDetection.Proofs
