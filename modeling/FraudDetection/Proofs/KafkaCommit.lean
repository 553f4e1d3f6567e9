import FraudDetection.Ingestion

/-!
# Commit discipline of the Kafka consumer

`protocol` says what an at-least-once consumer may do: fetch, then try the message until it is
handled or dead-lettered, then commit it, then fetch the next one, and nothing more after a failure.
The consumer conforms to it whatever its environment answers, and every run of the protocol
satisfies the discipline.
-/

namespace FraudDetection.Proofs
open FraudDetection.Library
open FraudDetection.Ingestion

variable {α : Type}

/-- Where a consumer stands between two calls. `failures` counts the failed attempts that the
calls show: those of the handler, or for a message that does not decode the waits between them. -/
inductive Phase where
  | fetching
  | processing (message : Message) (failures : Nat)
  | accepted (message : Message) (commits : Nat)
  | stopped

variable (fmts : Formats α) (k : KafkaConsumer)

def Exhausted (message : Message) (failures : Nat) : Prop :=
  match decodeEvent fmts message with
  | .ok _ => failures = k.maxAttempts
  | .error _ => failures + 1 = k.maxAttempts

inductive GoesOn : Exchange (Call α) Answer → Prop where
  | checked : GoesOn ⟨.ctxErr, none⟩
  | waited (backoff) : GoesOn ⟨.wait backoff, none⟩

inductive Ends : Exchange (Call α) Answer → Prop where
  | checked (err) : Ends ⟨.ctxErr, some err⟩
  | waited (backoff err) : Ends ⟨.wait backoff, some err⟩

/-- The call that puts a message aside, with its answer. -/
inductive SetsAside (message : Message) : Option GoError → Exchange (Call α) Answer → Prop where
  | poison (last answer) : SetsAside message answer ⟨.poisonHandler message.value last, answer⟩
  | letter (m answer) : m.key = message.key → m.value = message.value →
      SetsAside message answer ⟨.writeMessages m, answer⟩

inductive Protocol : Phase → Exchange (Call α) Answer → Phase → Prop where
  | fetched (message) : Protocol .fetching ⟨.fetchMessage, .ok message⟩ (.processing message 0)
  | refetch (err) : Protocol .fetching ⟨.fetchMessage, .error err⟩ .fetching
  | idle {x} : GoesOn x → Protocol .fetching x .fetching
  | interrupted {x} : Ends x → Protocol .fetching x .stopped
  | handled {message failures event} : decodeEvent fmts message = .ok event → failures < k.maxAttempts →
      Protocol (.processing message failures) ⟨.handle event, none⟩ (.accepted message 0)
  | failed {message failures event err} : decodeEvent fmts message = .ok event →
      failures < k.maxAttempts →
      Protocol (.processing message failures) ⟨.handle event, some err⟩ (.processing message (failures + 1))
  | retry {message failures event backoff} : decodeEvent fmts message = .ok event →
      Protocol (.processing message failures) ⟨.wait backoff, none⟩ (.processing message failures)
  | undecodable {message failures err backoff} : decodeEvent fmts message = .error err →
      failures + 1 < k.maxAttempts →
      Protocol (.processing message failures) ⟨.wait backoff, none⟩ (.processing message (failures + 1))
  | abandoned {message failures x} : Ends x → Protocol (.processing message failures) x .stopped
  | setAside {message failures x} : k.poisonPolicy = .dlq → Exhausted fmts k message failures →
      SetsAside message none x → Protocol (.processing message failures) x (.accepted message 0)
  | lost {message failures err x} : SetsAside message (some err) x →
      Protocol (.processing message failures) x .stopped
  | committed {message commits} : commits < k.maxAttempts →
      Protocol (.accepted message commits) ⟨.commitMessages message, none⟩ .fetching
  | recommit {message commits err} : commits < k.maxAttempts →
      Protocol (.accepted message commits) ⟨.commitMessages message, some err⟩ (.accepted message (commits + 1))
  | pause {message commits x} : GoesOn x → Protocol (.accepted message commits) x (.accepted message commits)
  | uncommitted {message commits x} : Ends x → Protocol (.accepted message commits) x .stopped

section conforms

variable {fmts k}

lemma fetch_conforms (left : Nat) (last : Option GoError) :
    (fetchLoop k left last).Conforms (Protocol fmts k) .fetching fun result s =>
      ∀ message, result = .ok message → s = .processing message 0 := by
  induction left generalizing last with
  | zero => exact Prog.conforms_pure fun message h => by cases h
  | succ left ih =>
    refine Prog.conforms_request fun answer => ?_
    cases answer with
    | ok message =>
      refine ⟨_, .fetched message, Prog.conforms_pure fun message' h => ?_⟩
      cases h
      rfl
    | error err =>
      refine ⟨_, .refetch err, Prog.conforms_request fun answer => ?_⟩
      cases answer with
      | some done => exact ⟨_, .interrupted (.checked done), Prog.conforms_pure fun message h => by cases h⟩
      | none =>
        refine ⟨_, .idle .checked, ?_⟩
        dsimp only
        split
        · refine Prog.conforms_request fun answer => ?_
          cases answer with
          | some done =>
            exact ⟨_, .interrupted (.waited _ done), Prog.conforms_pure fun message h => by cases h⟩
          | none => exact ⟨_, .idle (.waited _), ih (some err)⟩
        · exact ih (some err)

lemma commit_conforms (fmts : Formats α) (message : Message) (left : Nat) (last : Option GoError)
    (hleft : left ≤ k.maxAttempts) :
    (commitLoop k message left last).Conforms (Protocol fmts k) (.accepted message (k.maxAttempts - left))
      fun result s => result = none → s = .fetching := by
  induction left generalizing last with
  | zero => exact Prog.conforms_pure fun h => by cases h
  | succ left ih =>
    have hcount : k.maxAttempts - (left + 1) + 1 = k.maxAttempts - left := by omega
    refine Prog.conforms_request fun answer => ?_
    cases answer with
    | none => exact ⟨.fetching, .committed (by omega), Prog.conforms_pure fun _ => rfl⟩
    | some err =>
      refine ⟨_, .recommit (by omega), Prog.conforms_request fun answer => ?_⟩
      rw [hcount]
      cases answer with
      | some done => exact ⟨_, .uncommitted (.checked done), Prog.conforms_pure fun h => by cases h⟩
      | none =>
        refine ⟨_, .pause .checked, ?_⟩
        dsimp only
        split
        · refine Prog.conforms_request fun answer => ?_
          cases answer with
          | some done => exact ⟨_, .uncommitted (.waited _ done), Prog.conforms_pure fun h => by cases h⟩
          | none => exact ⟨_, .pause (.waited _), ih (some err) (by omega)⟩
        · exact ih (some err) (by omega)

lemma poisoned_conforms {message : Message} {failures : Nat} (last : Option GoError)
    (hfailed : Exhausted fmts k message failures) :
    (poisoned fmts k message last).Conforms (Protocol fmts k) (.processing message failures)
      fun result s => result = none → s = .accepted message 0 := by
  unfold poisoned
  split
  · rename_i hdlq
    split
    · refine Prog.conforms_request fun answer => ?_
      cases answer with
      | none => exact ⟨_, .setAside hdlq hfailed (.poison last none), Prog.conforms_pure fun _ => rfl⟩
      | some err => exact ⟨_, .lost (.poison last (some err)), Prog.conforms_pure fun h => by cases h⟩
    · unfold writeDLQ
      split
      · refine Prog.conforms_request fun answer => ?_
        cases answer with
        | none => exact ⟨_, .setAside hdlq hfailed (.letter _ none rfl rfl), Prog.conforms_pure fun _ => rfl⟩
        | some err => exact ⟨_, .lost (.letter _ (some err) rfl rfl), Prog.conforms_pure fun h => by cases h⟩
      · exact Prog.conforms_pure fun h => by cases h
  · exact Prog.conforms_pure fun h => by cases h

def failuresAfter (fmts : Formats α) (message : Message) (failures : Nat) : Nat :=
  match decodeEvent fmts message with
  | .ok _ => failures + 1
  | .error _ => failures

lemma exhausted_failuresAfter {message : Message} {failures : Nat} (h : failures + 1 = k.maxAttempts) :
    Exhausted fmts k message (failuresAfter fmts message failures) := by
  unfold Exhausted failuresAfter
  cases decodeEvent fmts message <;> exact h

lemma protocol_backoff (fmts : Formats α) (message : Message) {failures : Nat} (backoff : Int)
    (h : failures + 1 < k.maxAttempts) :
    Protocol fmts k (.processing message (failuresAfter fmts message failures)) ⟨.wait backoff, none⟩
      (.processing message (failures + 1)) := by
  unfold failuresAfter
  cases hdecode : decodeEvent fmts message with
  | ok event => exact .retry hdecode
  | error err => exact .undecodable hdecode h

lemma attempt_conforms {β : Type} {message : Message} {failures : Nat} {Q : β → Phase → Prop}
    {rest : Option GoError → Program α β} (hlt : failures < k.maxAttempts)
    (hdone : (rest none).Conforms (Protocol fmts k) (.accepted message 0) Q)
    (hfailed : ∀ err, (rest (some err)).Conforms (Protocol fmts k)
      (.processing message (failuresAfter fmts message failures)) Q) :
    (attemptEvent fmts message >>= rest).Conforms (Protocol fmts k) (.processing message failures) Q := by
  unfold attemptEvent
  unfold failuresAfter at hfailed
  cases hdecode : decodeEvent fmts message with
  | error err =>
    rw [hdecode] at hfailed
    exact hfailed err
  | ok event =>
    rw [hdecode] at hfailed
    refine Prog.conforms_request fun answer => ?_
    cases answer with
    | none => exact ⟨_, .handled hdecode hlt, hdone⟩
    | some err => exact ⟨_, .failed hdecode hlt, hfailed err⟩

lemma process_conforms (fmts : Formats α) (message : Message) (left : Nat) (last : Option GoError)
    (hleft : left + 1 ≤ k.maxAttempts) :
    (processLoop fmts k message (left + 1) last).Conforms (Protocol fmts k)
      (.processing message (k.maxAttempts - (left + 1)))
      fun result s => result = none → s = .accepted message 0 := by
  induction left generalizing last with
  | zero =>
    refine attempt_conforms (by omega) (Prog.conforms_pure fun _ => rfl) fun err => ?_
    have hlast : ¬ k.maxAttempts - 0 < k.maxAttempts := by omega
    simp only [hlast, if_false]
    exact poisoned_conforms (some err) (exhausted_failuresAfter (by omega))
  | succ left ih =>
    refine attempt_conforms (by omega) (Prog.conforms_pure fun _ => rfl) fun err => ?_
    have hmore : k.maxAttempts - (left + 1) < k.maxAttempts := by omega
    have hcount : k.maxAttempts - (left + 1 + 1) + 1 = k.maxAttempts - (left + 1) := by omega
    simp only [hmore, if_true]
    refine Prog.conforms_request fun answer => ?_
    cases answer with
    | some done => exact ⟨_, .abandoned (.waited _ done), Prog.conforms_pure fun h => by cases h⟩
    | none => exact ⟨_, protocol_backoff fmts message _ (by omega), hcount ▸ ih (some err) (by omega)⟩

theorem consumeLoop_conforms (rounds : Nat) :
    (consumeLoop fmts k rounds).Conforms (Protocol fmts k) .fetching fun _ _ => True := by
  induction rounds with
  | zero => exact Prog.conforms_pure trivial
  | succ rounds ih =>
    refine Prog.conforms_bind _ (Prog.conforms_mono ?_ _ (fetch_conforms k.maxAttempts none))
    intro fetched s hfetched
    cases fetched with
    | error err => exact Prog.conforms_pure trivial
    | ok message =>
      rw [hfetched message rfl]
      obtain ⟨left, hleft⟩ := Nat.exists_eq_add_of_le' k.attempts_pos
      have hprocess := process_conforms fmts message left none hleft.ge
      rw [← hleft, Nat.sub_self] at hprocess
      refine Prog.conforms_bind _ (Prog.conforms_mono ?_ _ hprocess)
      intro processed s hprocessed
      cases processed with
      | some err => exact Prog.conforms_pure trivial
      | none =>
        rw [hprocessed rfl]
        have hcommit := commit_conforms fmts message k.maxAttempts none le_rfl
        rw [Nat.sub_self] at hcommit
        refine Prog.conforms_bind _ (Prog.conforms_mono ?_ _ hcommit)
        intro committed s hcommitted
        cases committed with
        | some err => exact Prog.conforms_pure trivial
        | none =>
          rw [hcommitted rfl]
          exact ih

end conforms

abbrev Trace (α : Type) := List (Exchange (Call α) Answer)

def fetchedMessages (t : Trace α) : List Message :=
  t.filterMap fun
    | ⟨.fetchMessage, .ok message⟩ => some message
    | _ => none

def committedMessages (t : Trace α) : List Message :=
  t.filterMap fun
    | ⟨.commitMessages message, none⟩ => some message
    | _ => none

def handlerCalls (t : Trace α) : List (Event α × Option GoError) :=
  t.filterMap fun
    | ⟨.handle event, answer⟩ => some (event, answer)
    | _ => none

def commitCalls (t : Trace α) : List (Message × Option GoError) :=
  t.filterMap fun
    | ⟨.commitMessages message, answer⟩ => some (message, answer)
    | _ => none

def elapsedWaits (t : Trace α) : List Int :=
  t.filterMap fun
    | ⟨.wait backoff, none⟩ => some backoff
    | _ => none

def currentStep : Option (Message × Trace α) → Exchange (Call α) Answer → Option (Message × Trace α)
  | _, ⟨.fetchMessage, .ok message⟩ => some (message, [])
  | cur, x => cur.map fun p => (p.1, p.2 ++ [x])

/-- The message fetched last, with the exchanges since: those of its iteration. -/
def current (t : Trace α) : Option (Message × Trace α) := t.foldl currentStep none

/-- The exchanges show that every attempt failed: `maxAttempts` calls of the handler with an error,
or for a message that does not decode all the backoffs between the attempts. -/
def AllFailed (message : Message) (since : Trace α) : Prop :=
  match decodeEvent fmts message with
  | .ok event => (handlerCalls since).length = k.maxAttempts ∧
      ∀ p ∈ handlerCalls since, p.1 = event ∧ p.2 ≠ none
  | .error _ => handlerCalls since = [] ∧ (elapsedWaits since).length + 1 = k.maxAttempts

def Handled (message : Message) (since : Trace α) : Prop :=
  ∃ event, decodeEvent fmts message = .ok event ∧
    (event.partition = message.partition ∧ event.offset = message.offset) ∧ ⟨.handle event, none⟩ ∈ since

/-- After all attempts failed, the message was put aside with success. -/
def PutAside (message : Message) (since : Trace α) : Prop :=
  k.poisonPolicy = .dlq ∧ ∃ attempts x rest, since = attempts ++ x :: rest ∧
    AllFailed fmts k message attempts ∧ SetsAside message none x

section history

variable {fmts k} {past since : Trace α} {x : Exchange (Call α) Answer} {message : Message}

lemma current_concat : current (past ++ [x]) = currentStep (current past) x :=
  List.foldl_concat ..

lemma handlerCalls_concat : handlerCalls (past ++ [x]) = handlerCalls past ++ handlerCalls [x] :=
  List.filterMap_append ..

lemma commitCalls_concat : commitCalls (past ++ [x]) = commitCalls past ++ commitCalls [x] :=
  List.filterMap_append ..

lemma elapsedWaits_concat : elapsedWaits (past ++ [x]) = elapsedWaits past ++ elapsedWaits [x] :=
  List.filterMap_append ..

lemma fetchedMessages_concat : fetchedMessages (past ++ [x]) = fetchedMessages past ++ fetchedMessages [x] :=
  List.filterMap_append ..

lemma committedMessages_concat :
    committedMessages (past ++ [x]) = committedMessages past ++ committedMessages [x] :=
  List.filterMap_append ..

structure Inner (x : Exchange (Call α) Answer) : Prop where
  fetched : fetchedMessages [x] = []
  committed : committedMessages [x] = []
  commits : commitCalls [x] = []
  extended : ∀ cur, currentStep cur x = cur.map fun p => (p.1, p.2 ++ [x])

structure Quiet (x : Exchange (Call α) Answer) : Prop extends Inner x where
  handler : handlerCalls [x] = []

lemma GoesOn.quiet (h : GoesOn x) : Quiet x := by
  cases h <;> exact ⟨⟨rfl, rfl, rfl, fun _ => rfl⟩, rfl⟩

lemma Ends.quiet (h : Ends x) : Quiet x := by
  cases h <;> exact ⟨⟨rfl, rfl, rfl, fun _ => rfl⟩, rfl⟩

lemma SetsAside.quiet {answer : Option GoError} (h : SetsAside message answer x) : Quiet x := by
  cases h <;> exact ⟨⟨rfl, rfl, rfl, fun _ => rfl⟩, rfl⟩

lemma handle_inner (event : Event α) (answer : Option GoError) :
    Inner (⟨.handle event, answer⟩ : Exchange (Call α) Answer) :=
  ⟨rfl, rfl, rfl, fun _ => rfl⟩

lemma refetch_quiet (err : GoError) : Quiet (⟨.fetchMessage, .error err⟩ : Exchange (Call α) Answer) :=
  ⟨⟨rfl, rfl, rfl, fun _ => rfl⟩, rfl⟩

def Shown (fmts : Formats α) (message : Message) (failures : Nat) (since : Trace α) : Prop :=
  match decodeEvent fmts message with
  | .ok event => (handlerCalls since).length = failures ∧ ∀ p ∈ handlerCalls since, p.1 = event ∧ p.2 ≠ none
  | .error _ => handlerCalls since = [] ∧ (elapsedWaits since).length = failures

def PhaseHistory (fmts : Formats α) (k : KafkaConsumer) (past : Trace α) : Phase → Prop
  | .fetching => fetchedMessages past = committedMessages past
  | .processing message failures => fetchedMessages past = committedMessages past ++ [message] ∧
      ∃ since, current past = some (message, since) ∧ Shown fmts message failures since ∧
        failures ≤ k.maxAttempts ∧ commitCalls since = []
  | .accepted message commits => fetchedMessages past = committedMessages past ++ [message] ∧
      ∃ since, current past = some (message, since) ∧
        (Handled fmts message since ∨ PutAside fmts k message since) ∧ (commitCalls since).length = commits
  | .stopped => committedMessages past <+: fetchedMessages past

def Bounded (k : KafkaConsumer) (past : Trace α) : Prop :=
  ∀ message since, current past = some (message, since) →
    (handlerCalls since).length ≤ k.maxAttempts ∧ (commitCalls since).length ≤ k.maxAttempts

lemma shown_handlerCalls_le {failures : Nat} (h : Shown fmts message failures since) :
    (handlerCalls since).length ≤ failures := by
  unfold Shown at h
  split at h
  · exact h.1.le
  · simp [h.1]

lemma allFailed_of_shown {failures : Nat} (h : Shown fmts message failures since)
    (hfailed : Exhausted fmts k message failures) : AllFailed fmts k message since := by
  unfold Shown at h
  unfold Exhausted at hfailed
  unfold AllFailed
  cases hdecode : decodeEvent fmts message with
  | ok event =>
    rw [hdecode] at h hfailed
    exact ⟨h.1.trans hfailed, h.2⟩
  | error err =>
    rw [hdecode] at h hfailed
    exact ⟨h.1, by rw [h.2, hfailed]⟩

lemma decodeEvent_position {event : Event α} (h : decodeEvent fmts message = .ok event) :
    event.partition = message.partition ∧ event.offset = message.offset := by
  unfold decodeEvent at h
  split at h
  · cases h
  · cases h
    exact ⟨rfl, rfl⟩

lemma Handled.append (h : Handled fmts message since) : Handled fmts message (since ++ [x]) := by
  obtain ⟨event, hdecode, hposition, hin⟩ := h
  exact ⟨event, hdecode, hposition, List.mem_append_left _ hin⟩

lemma PutAside.append (h : PutAside fmts k message since) : PutAside fmts k message (since ++ [x]) := by
  obtain ⟨hdlq, attempts, y, rest, rfl, hfailed, haside⟩ := h
  exact ⟨hdlq, attempts, y, rest ++ [x], by simp, hfailed, haside⟩

lemma Inner.current_eq (hx : Inner x) (h : current past = some (message, since)) :
    current (past ++ [x]) = some (message, since ++ [x]) := by
  rw [current_concat, hx.extended, h]
  rfl

lemma bounded_concat {x : Exchange (Call α) Answer}
    (hcur : ∀ cur, currentStep cur x = cur.map fun p => (p.1, p.2 ++ [x]))
    (h : ∀ message since, current past = some (message, since) →
      (handlerCalls since ++ handlerCalls [x]).length ≤ k.maxAttempts ∧
        (commitCalls since ++ commitCalls [x]).length ≤ k.maxAttempts) : Bounded k (past ++ [x]) := by
  intro message since hcurrent
  rw [current_concat, hcur] at hcurrent
  obtain ⟨⟨m, before⟩, hbefore, heq⟩ := Option.map_eq_some_iff.mp hcurrent
  cases heq
  rw [handlerCalls_concat, commitCalls_concat]
  exact h m before hbefore

lemma Quiet.bounded (hx : Quiet x) (h : Bounded k past) : Bounded k (past ++ [x]) := by
  refine bounded_concat hx.extended fun message since hcurrent => ?_
  rw [hx.handler, hx.commits, List.append_nil, List.append_nil]
  exact h message since hcurrent

lemma shown_concat {failures : Nat} {event : Event α} {err : GoError}
    (hdecode : decodeEvent fmts message = .ok event) (h : Shown fmts message failures since) :
    Shown fmts message (failures + 1) (since ++ [⟨.handle event, some err⟩]) := by
  unfold Shown at h ⊢
  rw [hdecode] at h ⊢
  dsimp only at h ⊢
  rw [handlerCalls_concat, List.length_append, h.1]
  refine ⟨rfl, fun p hp => ?_⟩
  rcases List.mem_append.mp hp with hold | hnew
  · exact h.2 p hold
  · cases List.mem_singleton.mp hnew
    exact ⟨rfl, nofun⟩

lemma shown_retry {failures : Nat} {event : Event α} {backoff : Int}
    (hdecode : decodeEvent fmts message = .ok event) (h : Shown fmts message failures since) :
    Shown fmts message failures (since ++ [⟨.wait backoff, none⟩]) := by
  unfold Shown at h ⊢
  rw [hdecode] at h ⊢
  dsimp only at h ⊢
  rw [handlerCalls_concat]
  change (handlerCalls since ++ []).length = failures ∧ ∀ p ∈ handlerCalls since ++ [], _
  rwa [List.append_nil]

lemma shown_undecodable {failures : Nat} {err : GoError} {backoff : Int}
    (hdecode : decodeEvent fmts message = .error err) (h : Shown fmts message failures since) :
    Shown fmts message (failures + 1) (since ++ [⟨.wait backoff, none⟩]) := by
  unfold Shown at h ⊢
  rw [hdecode] at h ⊢
  dsimp only at h ⊢
  rw [handlerCalls_concat, elapsedWaits_concat, List.length_append, h.1, h.2]
  exact ⟨rfl, rfl⟩

lemma committed_initial {s : Phase} (h : PhaseHistory fmts k past s) :
    committedMessages past <+: fetchedMessages past := by
  cases s with
  | fetching => exact h ▸ List.prefix_refl _
  | processing message failures => exact h.1 ▸ List.prefix_append ..
  | accepted message commits => exact h.1 ▸ List.prefix_append ..
  | stopped => exact h

lemma Inner.fetched_eq (hx : Inner x) : fetchedMessages (past ++ [x]) = fetchedMessages past := by
  rw [fetchedMessages_concat, hx.fetched, List.append_nil]

lemma Inner.committed_eq (hx : Inner x) : committedMessages (past ++ [x]) = committedMessages past := by
  rw [committedMessages_concat, hx.committed, List.append_nil]

lemma Inner.iteration {failures : Nat} (hx : Inner x)
    (h : PhaseHistory fmts k past (.processing message failures)) :
    fetchedMessages (past ++ [x]) = committedMessages (past ++ [x]) ++ [message] ∧
      ∃ since, current past = some (message, since) ∧ current (past ++ [x]) = some (message, since ++ [x]) ∧
        Shown fmts message failures since ∧ failures ≤ k.maxAttempts ∧ commitCalls (since ++ [x]) = [] := by
  obtain ⟨hmessages, since, hcurrent, hshown, hle, hcommits⟩ := h
  refine ⟨?_, since, hcurrent, hx.current_eq hcurrent, hshown, hle, ?_⟩
  · rw [hx.fetched_eq, hx.committed_eq, hmessages]
  · rw [commitCalls_concat, hcommits, hx.commits]
    rfl

/-- A quiet exchange keeps a phase in which nothing is counted, and may always end the run. -/
lemma Quiet.history {s : Phase} (hx : Quiet x) (h : PhaseHistory fmts k past s)
    (hs : ∀ message failures, s ≠ .processing message failures) : PhaseHistory fmts k (past ++ [x]) s := by
  have hf : fetchedMessages (past ++ [x]) = fetchedMessages past := hx.fetched_eq
  have hc : committedMessages (past ++ [x]) = committedMessages past := hx.committed_eq
  cases s with
  | fetching => exact hf.trans (h.trans hc.symm)
  | processing message failures => exact absurd rfl (hs message failures)
  | accepted message commits =>
    obtain ⟨hmessages, since, hcurrent, haccepted, hcommits⟩ := h
    refine ⟨by rw [hf, hc, hmessages], since ++ [x], hx.current_eq hcurrent, ?_, ?_⟩
    · exact haccepted.imp Handled.append PutAside.append
    · rw [commitCalls_concat, hx.commits, List.append_nil, hcommits]
  | stopped =>
    change committedMessages (past ++ [x]) <+: fetchedMessages (past ++ [x])
    rw [hf, hc]
    exact h

lemma Quiet.stopped {s : Phase} (hx : Quiet x) (h : PhaseHistory fmts k past s) :
    PhaseHistory fmts k (past ++ [x]) .stopped :=
  hx.history (s := .stopped) (committed_initial h) nofun

lemma handle_bounded {failures : Nat} {event : Event α} {answer : Option GoError}
    (hcurrent : current past = some (message, since)) (hshown : Shown fmts message failures since)
    (hlt : failures < k.maxAttempts) (hcommits : commitCalls (since ++ [⟨.handle event, answer⟩]) = []) :
    Bounded k (past ++ [⟨.handle event, answer⟩]) := by
  refine bounded_concat (fun _ => rfl) fun m s hm => ?_
  cases hcurrent.symm.trans hm
  have hhandler := shown_handlerCalls_le hshown
  refine ⟨?_, ?_⟩
  · rw [List.length_append]
    change (handlerCalls since).length + 1 ≤ k.maxAttempts
    omega
  · rw [← commitCalls_concat, hcommits]
    exact Nat.zero_le _

lemma current_commit {m : Message} {answer : Option GoError} (h : current past = some (message, since)) :
    current (past ++ [⟨.commitMessages m, answer⟩]) = some (message, since ++ [⟨.commitMessages m, answer⟩]) := by
  rw [current_concat, h]
  rfl

lemma commit_bounded {m : Message} {answer : Option GoError} (h : Bounded k past)
    (hcurrent : current past = some (message, since)) (hlt : (commitCalls since).length < k.maxAttempts) :
    Bounded k (past ++ [⟨.commitMessages m, answer⟩]) := by
  refine bounded_concat (fun _ => rfl) fun m' s hm => ?_
  cases hcurrent.symm.trans hm
  refine ⟨?_, ?_⟩
  · rw [List.length_append]
    exact (h message since hcurrent).1
  · rw [List.length_append]
    exact hlt

theorem protocol_history {s s' : Phase} (hp : PhaseHistory fmts k past s ∧ Bounded k past)
    (h : Protocol fmts k s x s') : PhaseHistory fmts k (past ++ [x]) s' ∧ Bounded k (past ++ [x]) := by
  obtain ⟨hphase, hbounded⟩ := hp
  cases h with
  | fetched message =>
    have hcurrent : current (past ++ [⟨.fetchMessage, .ok message⟩]) = some (message, []) := current_concat
    refine ⟨⟨?_, [], hcurrent, ?_, Nat.zero_le _, rfl⟩, fun m since hm => ?_⟩
    · rw [fetchedMessages_concat, committedMessages_concat, hphase, List.append_assoc]
      rfl
    · unfold Shown
      split
      · exact ⟨rfl, nofun⟩
      · exact ⟨rfl, rfl⟩
    · cases hcurrent.symm.trans hm
      exact ⟨Nat.zero_le _, Nat.zero_le _⟩
  | refetch err => exact ⟨(refetch_quiet err).history hphase nofun, (refetch_quiet err).bounded hbounded⟩
  | idle hx => exact ⟨hx.quiet.history hphase nofun, hx.quiet.bounded hbounded⟩
  | interrupted hx => exact ⟨hx.quiet.stopped hphase, hx.quiet.bounded hbounded⟩
  | handled hdecode hlt =>
    obtain ⟨hmessages, since, hcurrent, hnext, hshown, -, hcommits⟩ := (handle_inner _ none).iteration hphase
    refine ⟨⟨hmessages, _, hnext, .inl ⟨_, hdecode, decodeEvent_position hdecode, by simp⟩,
      by rw [hcommits]; rfl⟩, ?_⟩
    exact handle_bounded hcurrent hshown hlt hcommits
  | failed hdecode hlt =>
    obtain ⟨hmessages, since, hcurrent, hnext, hshown, -, hcommits⟩ := (handle_inner _ _).iteration hphase
    exact ⟨⟨hmessages, _, hnext, shown_concat hdecode hshown, hlt, hcommits⟩,
      handle_bounded hcurrent hshown hlt hcommits⟩
  | @retry _ _ _ backoff hdecode =>
    have hx := (GoesOn.waited (α := α) backoff).quiet
    obtain ⟨hmessages, since, -, hnext, hshown, hle, hcommits⟩ := hx.iteration hphase
    exact ⟨⟨hmessages, _, hnext, shown_retry hdecode hshown, hle, hcommits⟩, hx.bounded hbounded⟩
  | @undecodable _ _ _ backoff hdecode hlt =>
    have hx := (GoesOn.waited (α := α) backoff).quiet
    obtain ⟨hmessages, since, -, hnext, hshown, -, hcommits⟩ := hx.iteration hphase
    exact ⟨⟨hmessages, _, hnext, shown_undecodable hdecode hshown, hlt.le, hcommits⟩, hx.bounded hbounded⟩
  | abandoned hx => exact ⟨hx.quiet.stopped hphase, hx.quiet.bounded hbounded⟩
  | setAside hdlq hfailed haside =>
    obtain ⟨hmessages, since, -, hnext, hshown, -, hcommits⟩ := haside.quiet.iteration hphase
    have haccepted : PutAside fmts k _ (since ++ [x]) :=
      ⟨hdlq, since, x, [], rfl, allFailed_of_shown hshown hfailed, haside⟩
    exact ⟨⟨hmessages, _, hnext, .inr haccepted, by rw [hcommits]; rfl⟩, haside.quiet.bounded hbounded⟩
  | lost haside => exact ⟨haside.quiet.stopped hphase, haside.quiet.bounded hbounded⟩
  | committed hlt =>
    obtain ⟨hmessages, since, hcurrent, -, hcommits⟩ := hphase
    refine ⟨?_, commit_bounded hbounded hcurrent (by omega)⟩
    change fetchedMessages _ = committedMessages _
    rw [fetchedMessages_concat, committedMessages_concat, hmessages]
    exact List.append_nil _
  | recommit hlt =>
    obtain ⟨hmessages, since, hcurrent, haccepted, hcommits⟩ := hphase
    refine ⟨⟨?_, _, current_commit hcurrent, haccepted.imp Handled.append PutAside.append, ?_⟩,
      commit_bounded hbounded hcurrent (by omega)⟩
    · rw [fetchedMessages_concat, committedMessages_concat, hmessages]
      change _ ++ [] = _ ++ [] ++ _
      rw [List.append_nil, List.append_nil]
    · rw [commitCalls_concat, List.length_append, hcommits]
      rfl
  | pause hx => exact ⟨hx.quiet.history hphase nofun, hx.quiet.bounded hbounded⟩
  | uncommitted hx => exact ⟨hx.quiet.stopped hphase, hx.quiet.bounded hbounded⟩

def Iteration (before : Trace α) (message : Message) (since : Trace α) : Prop :=
  ∃ earlier, before = earlier ++ ⟨.fetchMessage, .ok message⟩ :: since ∧ fetchedMessages since = []

/-- An exchange starts an iteration or belongs to the current one. -/
lemma exchange_cases (x : Exchange (Call α) Answer) :
    (∃ message, x = ⟨.fetchMessage, .ok message⟩) ∨
      ((∀ cur, currentStep cur x = cur.map fun p => (p.1, p.2 ++ [x])) ∧ fetchedMessages [x] = []) := by
  obtain ⟨c, answer⟩ := x
  cases c with
  | fetchMessage =>
    cases answer with
    | ok message => exact .inl ⟨message, rfl⟩
    | error err => exact .inr ⟨fun _ => rfl, rfl⟩
  | _ => exact .inr ⟨fun _ => rfl, rfl⟩

lemma iteration_of_current (h : current past = some (message, since)) : Iteration past message since := by
  induction past using List.reverseRecOn generalizing message since with
  | nil => cases h
  | append_singleton past x ih =>
    rw [current_concat] at h
    rcases exchange_cases x with ⟨m, rfl⟩ | ⟨hextend, hquiet⟩
    · cases h
      exact ⟨past, rfl, rfl⟩
    · rw [hextend] at h
      obtain ⟨⟨m, before⟩, hbefore, heq⟩ := Option.map_eq_some_iff.mp h
      cases heq
      obtain ⟨earlier, rfl, hnone⟩ := ih hbefore
      refine ⟨earlier, by simp, ?_⟩
      rw [fetchedMessages_concat, hnone, hquiet]
      rfl

lemma foldl_currentStep (since : Trace α) (sofar : Trace α) (h : fetchedMessages since = []) :
    since.foldl currentStep (some (message, sofar)) = some (message, sofar ++ since) := by
  induction since generalizing sofar with
  | nil => simp
  | cons x since ih =>
    have hsplit : fetchedMessages (x :: since) = fetchedMessages [x] ++ fetchedMessages since :=
      List.filterMap_append (l := [x]) ..
    obtain ⟨hx, hsince⟩ := List.append_eq_nil_iff.mp (hsplit ▸ h)
    rcases exchange_cases x with ⟨m, rfl⟩ | ⟨hextend, -⟩
    · cases hx
    · rw [List.foldl_cons, hextend, Option.map_some, ih _ hsince, List.append_assoc, List.singleton_append]

lemma current_of_iteration (h : Iteration past message since) : current past = some (message, since) := by
  obtain ⟨earlier, rfl, hnone⟩ := h
  rw [current, List.foldl_append, List.foldl_cons]
  exact foldl_currentStep since [] hnone

end history

structure CommitDiscipline (t : Trace α) : Prop where
  commit : ∀ before message answer after, t = before ++ ⟨.commitMessages message, answer⟩ :: after →
    ∃ since, Iteration before message since ∧ (Handled fmts message since ∨ PutAside fmts k message since)
  order : committedMessages t <+: fetchedMessages t
  fetch : ∀ before answer after, t = before ++ ⟨.fetchMessage, answer⟩ :: after →
    fetchedMessages before = committedMessages before
  handle : ∀ before event answer after, t = before ++ ⟨.handle event, answer⟩ :: after →
    ∃ message since, Iteration before message since ∧ decodeEvent fmts message = .ok event ∧
      (event.partition = message.partition ∧ event.offset = message.offset) ∧
      fetchedMessages before = committedMessages before ++ [message] ∧ commitCalls since = []
  halt : k.poisonPolicy = .halt → ∀ before message answer after,
    t = before ++ ⟨.commitMessages message, answer⟩ :: after →
    ∃ since, Iteration before message since ∧ ¬ AllFailed fmts k message since
  bounded : ∀ before after message since, t = before ++ after → Iteration before message since →
    (handlerCalls since).length ≤ k.maxAttempts ∧ (commitCalls since).length ≤ k.maxAttempts

variable {fmts k}

lemma Handled.not_allFailed {message : Message} {since : Trace α} (h : Handled fmts message since) :
    ¬ AllFailed fmts k message since := by
  obtain ⟨event, hdecode, -, hin⟩ := h
  intro hfailed
  rw [AllFailed, hdecode] at hfailed
  have hcall : (event, none) ∈ handlerCalls since := List.mem_filterMap.mpr ⟨_, hin, rfl⟩
  exact (hfailed.2 _ hcall).2 rfl

lemma run_history {t : Trace α} {s : Phase} (h : Runs (Protocol fmts k) .fetching t s) :
    PhaseHistory fmts k t s ∧ Bounded k t := by
  have hinitial : PhaseHistory fmts k [] .fetching ∧ Bounded k ([] : Trace α) := by
    refine ⟨?_, nofun⟩
    rfl
  exact Runs.history (P := fun past s => PhaseHistory fmts k past s ∧ Bounded k past)
    (fun _ _ _ _ hp hs => protocol_history hp hs) hinitial h

lemma run_before {before after : Trace α} {x : Exchange (Call α) Answer} {s : Phase}
    (h : Runs (Protocol fmts k) .fetching (before ++ x :: after) s) :
    ∃ s₁ s₂, PhaseHistory fmts k before s₁ ∧ Protocol fmts k s₁ x s₂ := by
  obtain ⟨s₁, hbefore, hrest⟩ := h.split
  cases hrest with
  | cons hx _ => exact ⟨s₁, _, (run_history hbefore).1, hx⟩

lemma run_commit {before after : Trace α} {message : Message} {answer : Option GoError} {s : Phase}
    (h : Runs (Protocol fmts k) .fetching (before ++ ⟨.commitMessages message, answer⟩ :: after) s) :
    ∃ since, Iteration before message since ∧ (Handled fmts message since ∨ PutAside fmts k message since) := by
  obtain ⟨s₁, s₂, hphase, hx⟩ := run_before h
  cases hx with
  | committed _ =>
    obtain ⟨-, since, hcurrent, haccepted, -⟩ := hphase
    exact ⟨since, iteration_of_current hcurrent, haccepted⟩
  | recommit _ =>
    obtain ⟨-, since, hcurrent, haccepted, -⟩ := hphase
    exact ⟨since, iteration_of_current hcurrent, haccepted⟩
  | idle hx | pause hx => cases hx
  | interrupted hx | abandoned hx | uncommitted hx => cases hx
  | setAside _ _ hx | lost hx => cases hx

theorem protocol_discipline {t : Trace α} {s : Phase} (h : Runs (Protocol fmts k) .fetching t s) :
    CommitDiscipline fmts k t where
  commit := by
    rintro before message answer after rfl
    exact run_commit h
  order := committed_initial (run_history h).1
  fetch := by
    rintro before answer after rfl
    obtain ⟨s₁, s₂, hphase, hx⟩ := run_before h
    cases hx with
    | fetched _ | refetch _ => exact hphase
    | idle hx | pause hx => cases hx
    | interrupted hx | abandoned hx | uncommitted hx => cases hx
    | setAside _ _ hx | lost hx => cases hx
  handle := by
    rintro before event answer after rfl
    obtain ⟨s₁, s₂, hphase, hx⟩ := run_before h
    cases hx with
    | handled hdecode _ | failed hdecode _ =>
      obtain ⟨hmessages, since, hcurrent, -, -, hcommits⟩ := hphase
      exact ⟨_, since, iteration_of_current hcurrent, hdecode, decodeEvent_position hdecode, hmessages, hcommits⟩
    | idle hx | pause hx => cases hx
    | interrupted hx | abandoned hx | uncommitted hx => cases hx
    | setAside _ _ hx | lost hx => cases hx
  halt := by
    rintro hhalt before message answer after rfl
    obtain ⟨since, hiteration, haccepted⟩ := run_commit h
    refine ⟨since, hiteration, ?_⟩
    rcases haccepted with hhandled | ⟨hdlq, -⟩
    · exact hhandled.not_allFailed
    · rw [hhalt] at hdlq
      cases hdlq
  bounded := by
    rintro before after message since rfl hiteration
    obtain ⟨s₁, hbefore, -⟩ := h.split
    exact (run_history hbefore).2 message since (current_of_iteration hiteration)

/-- Whatever the reader, the handler, the poison handler, the DLQ writer, the timer and the context
do: every run of `Consume`, up to any moment, keeps the commit discipline. -/
theorem kafka_commit_discipline (fmts : Formats α) (k : KafkaConsumer) (handler : Bool) (rounds : Nat)
    (t : Trace α) (result : Option (Option ConsumeError))
    (h : Prog.Traces (consume fmts k handler rounds) t result) : CommitDiscipline fmts k t := by
  have hconforms : (consume fmts k handler rounds).Conforms (Protocol fmts k) .fetching fun _ _ => True := by
    unfold consume
    split
    · exact consumeLoop_conforms rounds
    · exact Prog.conforms_pure trivial
  obtain ⟨s, hs, -⟩ := h.conforms hconforms
  exact protocol_discipline hs

/-- A consumer with two attempts and a poison handler, for records that are bare ids. -/
def poisonConsumer : KafkaConsumer := ⟨2, 50000000, .dlq, true, false, ascii "events", by decide⟩

def bareFormats : Formats Nat where
  unmarshal value := if value = [] then .error ⟨"unexpected end of JSON input"⟩
    else .ok ⟨value, ascii "account", 1, 100, 7, 7⟩
  rfc3339Nano _ := []

def poisonMessage : Message := ⟨ascii "events", 0, 3, [], ascii "e1", [], 100⟩

/-- Both attempts fail, the poison handler accepts the record, the second commit succeeds. -/
def poisonTrace : Trace Nat :=
  let event : Event Nat := ⟨ascii "e1", ascii "account", 1, 100, 0, 3⟩
  [⟨.fetchMessage, .ok poisonMessage⟩, ⟨.handle event, some ⟨"sink"⟩⟩, ⟨.wait 50000000, none⟩,
    ⟨.handle event, some ⟨"sink"⟩⟩, ⟨.poisonHandler (ascii "e1") (some ⟨"sink"⟩), none⟩,
    ⟨.commitMessages poisonMessage, some ⟨"broker"⟩⟩, ⟨.ctxErr, none⟩, ⟨.wait 50000000, none⟩,
    ⟨.commitMessages poisonMessage, none⟩]

theorem kafka_commit_discipline_poison :
    Prog.Traces (consume bareFormats poisonConsumer true 1) poisonTrace (some none) ∧
      CommitDiscipline bareFormats poisonConsumer poisonTrace := by
  have htrace : Prog.Traces (consume bareFormats poisonConsumer true 1) poisonTrace (some none) := by
    repeat refine .exchange _ _ _ _ _ ?_
    exact .returned _
  exact ⟨htrace, kafka_commit_discipline bareFormats poisonConsumer true 1 poisonTrace (some none) htrace⟩

end FraudDetection.Proofs
