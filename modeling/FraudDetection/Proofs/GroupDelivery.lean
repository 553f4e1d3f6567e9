import FraudDetection.StreamProcessor
import FraudDetection.Proofs.KafkaCommit

/-!
# Delivery in a consumer group

Across all processes, restarts, reassigned partitions and lost acknowledgements: whatever lies below a
committed offset has been handled, or put aside after its last attempt. A process moves past a record
only after the protocol of the consumer has settled it, so the positions of its reader are as good as
committed offsets, up to the record it works on.
-/

namespace FraudDetection.Proofs
open FraudDetection.Library FraudDetection.Ingestion FraudDetection.StreamProcessor

variable {α σ : Type} {d : Deployment α} {g g' g₁ : ConsumerGroup α σ}

inductive Replied (d : Deployment α) (g : ConsumerGroup α σ) (i : Nat) (r : Reply σ) :
    Exchange (Call α) Answer → ConsumerGroup α σ → Prop where
  | fetched {partition offset message} : d.topic.record partition offset = some message →
      d.topic.next partition ((g.members i).position partition) offset = true →
      Replied d g i r ⟨.fetchMessage, .ok message⟩ (g.modify i fun m => m.reaches partition (offset + 1))
  | committed (message answer) : Replied d g i r ⟨.commitMessages message, answer⟩ (g.commits message)
  | uncommitted (message err) : Replied d g i r ⟨.commitMessages message, some err⟩ g
  | handled (event now client) {err processor store} : r = .handled now client →
      handle d.ar (FeatureVector.put d.ar d.sc (some client)) now (g.members i).processor g.store event =
        (err, processor, store) →
      Replied d g i r ⟨.handle event, err⟩ (({ g with store } : ConsumerGroup α σ).modify i fun m => { m with processor })
  | other {x} : Quiet x → Replied d g i r x g

lemma reply_replied {i : Nat} {c : Call α} {r : Reply σ} {answer : Answer c}
    (h : reply d g i c r = some (answer, g₁)) : Replied d g i r ⟨c, answer⟩ g₁ := by
  cases c with
  | fetchMessage =>
    cases r with
    | fetched partition offset =>
      unfold reply at h
      dsimp only at h
      cases hrecord : d.topic.record partition offset with
      | none =>
        rw [hrecord] at h
        cases h
      | some message =>
        rw [hrecord] at h
        dsimp only at h
        split at h
        · rename_i hnext
          cases h
          exact .fetched hrecord hnext
        · cases h
    | fetchFailed err =>
      cases h
      exact .other (refetch_quiet err)
    | _ => cases h
  | commitMessages message =>
    cases r with
    | committed =>
      cases h
      exact .committed message none
    | commitFailed err carriedOut =>
      cases h
      cases carriedOut with
      | true => exact .committed message (some err)
      | false => exact .uncommitted message err
    | _ => cases h
  | handle event =>
    cases r with
    | handled now client =>
      cases h
      exact .handled event now client rfl rfl
    | _ => cases h
  | _ =>
    cases r with
    | answered err =>
      cases h
      exact .other ⟨⟨rfl, rfl, rfl, fun _ => rfl⟩, rfl⟩
    | _ => cases h

/-- A call of a process: an exchange of its program, answered by the broker, Redis or its surroundings. -/
lemma step_call {i : Nat} {r : Reply σ} (h : step d g (.call i r) = some g') :
    ∃ c rest answer g₁, (g.members i).program = .call c rest ∧ Replied d g i r ⟨c, answer⟩ g₁ ∧
      g' = g₁.modify i fun m => { m with program := rest answer, session := m.session ++ [⟨c, answer⟩] } := by
  unfold step at h
  dsimp only at h
  cases hprogram : (g.members i).program with
  | pure a =>
    rw [hprogram] at h
    cases h
  | call c rest =>
    rw [hprogram] at h
    obtain ⟨⟨answer, g₁⟩, hreply, rfl⟩ := Option.map_eq_some_iff.mp h
    exact ⟨c, rest, answer, g₁, rfl, reply_replied hreply, rfl⟩

lemma step_leave {i : Nat} {exit : Exit} (h : step d g (.leave i exit) = some g') :
    (g.members i).departure = none ∧ ∃ failed, g' = (g.modify i fun m => m.leaves failed) ∧
      (failed = true → ∃ err, (g.members i).program = .pure (some err) ∧ d.canceled err = false) := by
  change leave d g i exit = some g' at h
  unfold leave at h
  split at h
  · rename_i err hdeparture hprogram
    exact ⟨hdeparture, _, (Option.some.inj h).symm, fun hfailed => ⟨err, hprogram, by simpa using hfailed⟩⟩
  · rename_i hdeparture
    exact ⟨hdeparture, false, (Option.some.inj h).symm, fun hfailed => by cases hfailed⟩
  · rename_i hdeparture
    exact ⟨hdeparture, false, (Option.some.inj h).symm, fun hfailed => by cases hfailed⟩
  · cases h

lemma modify_members (g : ConsumerGroup α σ) (i : Nat) (f : Member α → Member α) :
    (g.modify i f).members i = f (g.members i) := Function.update_self ..

lemma modify_members_ne (g : ConsumerGroup α σ) {i j : Nat} (f : Member α → Member α) (h : j ≠ i) :
    (g.modify i f).members j = g.members j := Function.update_of_ne h ..

lemma modify_keeps {P : Member α → Prop} {g : ConsumerGroup α σ} {i j : Nat} {f : Member α → Member α}
    (hself : j = i → P (f (g.members i))) (hother : j ≠ i → P (g.members j)) : P ((g.modify i f).members j) := by
  by_cases hj : j = i
  · rw [hj, modify_members]
    exact hself hj
  · rw [modify_members_ne _ _ hj]
    exact hother hj

section replies

variable {i : Nat} {r : Reply σ} {x : Exchange (Call α) Answer}

lemma Replied.others (h : Replied d g i r x g₁) {j : Nat} (hj : j ≠ i) : g₁.members j = g.members j := by
  cases h with
  | fetched _ _ => exact modify_members_ne g _ hj
  | handled _ _ _ _ _ => exact modify_members_ne _ _ hj
  | _ => rfl

lemma Replied.ended (h : Replied d g i r x g₁) : g₁.ended = g.ended := by cases h <;> rfl

lemma Replied.session (h : Replied d g i r x g₁) : (g₁.members i).session = (g.members i).session := by
  cases h with
  | fetched _ _ =>
    rw [modify_members]
    rfl
  | handled _ _ _ _ _ =>
    rw [modify_members]
  | _ => rfl

lemma Replied.departure (h : Replied d g i r x g₁) : (g₁.members i).departure = (g.members i).departure := by
  cases h with
  | fetched _ _ =>
    rw [modify_members]
    rfl
  | handled _ _ _ _ _ =>
    rw [modify_members]
  | _ => rfl

lemma Replied.position (h : Replied d g i r x g₁) (hx : fetchedMessages [x] = []) :
    (g₁.members i).position = (g.members i).position := by
  cases h with
  | fetched _ _ => cases hx
  | handled _ _ _ _ _ =>
    rw [modify_members]
  | _ => rfl

lemma Replied.offsets (h : Replied d g i r x g₁) (hx : commitCalls [x] = []) : g₁.committed = g.committed := by
  cases h with
  | committed _ _ => cases hx
  | _ => rfl

end replies

section settled

/-- In one of the iterations of the session the record was handled, or put aside after its last attempt. -/
def SettledIn (fmts : Formats α) (k : KafkaConsumer) (message : Message) (session : Trace α) : Prop :=
  ∃ before after since, session = before ++ after ∧ Iteration before message since ∧
    (Handled fmts message since ∨ PutAside fmts k message since)

def GroupSession (g : ConsumerGroup α σ) (session : Trace α) : Prop :=
  session ∈ g.ended ∨ ∃ i, (g.members i).session = session

def Settled (d : Deployment α) (g : ConsumerGroup α σ) (message : Message) : Prop :=
  ∃ session, GroupSession g session ∧ SettledIn d.fmts d.consumer message session

lemma SettledIn.append {fmts : Formats α} {k : KafkaConsumer} {message : Message} {session : Trace α}
    (h : SettledIn fmts k message session) (more : Trace α) : SettledIn fmts k message (session ++ more) := by
  obtain ⟨before, after, since, rfl, hsince⟩ := h
  exact ⟨before, after ++ more, since, List.append_assoc .., hsince⟩

lemma step_sessions {a : Occurrence σ} (h : step d g a = some g') {session : Trace α} (hs : GroupSession g session) :
    ∃ more, GroupSession g' (session ++ more) := by
  cases a with
  | start i rounds =>
    cases h
    rcases hs with hended | ⟨j, rfl⟩
    · exact ⟨[], .inl (by rw [List.append_nil]; exact List.mem_append_left _ hended)⟩
    · by_cases hj : j = i
      · refine ⟨[], .inl ?_⟩
        rw [List.append_nil, hj]
        exact List.mem_append_right _ List.mem_cons_self
      · exact ⟨[], .inr ⟨j, by rw [List.append_nil]; rw [modify_members_ne _ _ hj]⟩⟩
  | assign i partition =>
    cases h
    refine ⟨[], hs.imp (fun hended => by rwa [List.append_nil]) ?_⟩
    rintro ⟨j, rfl⟩
    refine ⟨j, ?_⟩
    rw [List.append_nil]
    exact modify_keeps (P := fun m => m.session = (g.members j).session) (fun hj => hj ▸ rfl) fun _ => rfl
  | call i r =>
    obtain ⟨c, rest, answer, g₁, -, hreplied, rfl⟩ := step_call h
    rcases hs with hended | ⟨j, rfl⟩
    · refine ⟨[], .inl ?_⟩
      rw [List.append_nil]
      exact hreplied.ended ▸ hended
    · by_cases hj : j = i
      · refine ⟨[⟨c, answer⟩], .inr ⟨i, ?_⟩⟩
        rw [modify_members, hj, ← hreplied.session]
      · refine ⟨[], .inr ⟨j, ?_⟩⟩
        rw [modify_members_ne _ _ hj, hreplied.others hj, List.append_nil]
  | leave i exit =>
    obtain ⟨-, failed, rfl, -⟩ := step_leave h
    refine ⟨[], hs.imp (fun hended => by rwa [List.append_nil]) ?_⟩
    rintro ⟨j, rfl⟩
    refine ⟨j, ?_⟩
    rw [List.append_nil]
    exact modify_keeps (P := fun m => m.session = (g.members j).session) (fun hj => hj ▸ rfl) fun _ => rfl
  | change store =>
    cases h
    exact ⟨[], by rwa [List.append_nil]⟩

lemma step_settled {a : Occurrence σ} (h : step d g a = some g') {message : Message} (hm : Settled d g message) :
    Settled d g' message := by
  obtain ⟨session, hs, hsettled⟩ := hm
  obtain ⟨more, hmore⟩ := step_sessions h hs
  exact ⟨_, hmore, hsettled.append more⟩

end settled

section reached

def Below (topic : Topic) (offsets : Int → Nat) (P : Message → Prop) : Prop :=
  ∀ partition offset message, offset < offsets partition → topic.record partition offset = some message → P message

lemma Below.mono {topic : Topic} {offsets : Int → Nat} {P Q : Message → Prop} (h : Below topic offsets P)
    (hPQ : ∀ message, P message → Q message) : Below topic offsets Q :=
  fun partition offset message hlt hrecord => hPQ message (h partition offset message hlt hrecord)

lemma Below.update {topic : Topic} {offsets : Int → Nat} {P : Message → Prop} {partition : Int} {bound : Nat}
    (h : Below topic offsets P)
    (hbound : ∀ offset message, offset < bound → topic.record partition offset = some message → P message) :
    Below topic (Function.update offsets partition bound) P := by
  intro q offset message hlt hrecord
  by_cases hq : q = partition
  · subst hq
    rw [Function.update_self] at hlt
    exact hbound offset message hlt hrecord
  · rw [Function.update_of_ne hq] at hlt
    exact h q offset message hlt hrecord

def UpTo (topic : Topic) (message : Message) (P : Message → Prop) : Prop :=
  ∀ offset other, offset ≤ message.offset.toNat → topic.record message.partition offset = some other → P other

/-- What the positions of a reader stand for: the record at hand is the only one that may be open. -/
def ReaderAt (topic : Topic) (settled : Message → Prop) (position : Int → Nat) : Phase → Prop
  | .fetching => Below topic position settled
  | .processing message _ => Below topic position (fun other => other = message ∨ settled other) ∧
      UpTo topic message fun other => other = message ∨ settled other
  | .accepted message _ => Below topic position settled ∧ UpTo topic message settled
  | .stopped => True

lemma ReaderAt.mono {topic : Topic} {settled settled' : Message → Prop} {position : Int → Nat} {phase : Phase}
    (h : ReaderAt topic settled position phase) (hmono : ∀ message, settled message → settled' message) :
    ReaderAt topic settled' position phase := by
  cases phase with
  | fetching => exact Below.mono h hmono
  | processing message failures =>
    exact ⟨h.1.mono fun other ho => ho.imp_right (hmono other),
      fun offset other hle hrecord => (h.2 offset other hle hrecord).imp_right (hmono other)⟩
  | accepted message commits =>
    exact ⟨h.1.mono hmono, fun offset other hle hrecord => hmono other (h.2 offset other hle hrecord)⟩
  | stopped => trivial

/-- A partition may start again wherever the records before it are settled. -/
lemma ReaderAt.update {topic : Topic} {settled : Message → Prop} {position : Int → Nat} {phase : Phase}
    {partition : Int} {bound : Nat} (h : ReaderAt topic settled position phase)
    (hbound : ∀ offset message, offset < bound → topic.record partition offset = some message → settled message) :
    ReaderAt topic settled (Function.update position partition bound) phase := by
  cases phase with
  | fetching => exact Below.update h hbound
  | processing message failures =>
    exact ⟨h.1.update fun offset other hlt hrecord => .inr (hbound offset other hlt hrecord), h.2⟩
  | accepted message commits => exact ⟨h.1.update hbound, h.2⟩
  | stopped => trivial

/-- The record that a fetch returns comes right behind settled ones. -/
lemma readerAt_fetched {topic : Topic} {settled : Message → Prop} {position : Int → Nat} {partition : Int}
    {offset : Nat} {message : Message} (hrecord : topic.record partition offset = some message)
    (hnext : topic.next partition (position partition) offset = true) (h : Below topic position settled) :
    ReaderAt topic settled (Function.update position partition (offset + 1)) (.processing message 0) := by
  have hupTo : ∀ o other, o < offset + 1 → topic.record partition o = some other → other = message ∨ settled other := by
    intro o other ho hother
    by_cases hsame : o = offset
    · rw [hsame, hrecord] at hother
      exact .inl (Option.some.inj hother).symm
    by_cases hbelow : o < position partition
    · exact .inr (h partition o other hbelow hother)
    -- the broker has skipped nothing
    unfold Topic.next at hnext
    rw [Bool.and_eq_true, List.all_eq_true] at hnext
    have hskipped := hnext.2 o (List.mem_range.mpr (by omega))
    rw [hother, decide_eq_false hbelow] at hskipped
    cases hskipped
  obtain ⟨hpartition, hoffset⟩ := topic.placed partition offset message hrecord
  refine ⟨Below.update (h.mono fun _ => .inr) hupTo, fun o other hle hother => ?_⟩
  rw [hpartition] at hother
  exact hupTo o other (by omega) hother

end reached

section invariant

structure MemberInvariant (d : Deployment α) (settled : Message → Prop) (m : Member α) (phase : Phase) : Prop where
  runs : Runs (Protocol d.fmts d.consumer) .fetching m.session phase
  conforms : m.program.Conforms (Protocol d.fmts d.consumer) phase fun _ _ => True
  reached : ReaderAt d.topic settled m.position phase

structure GroupInvariant (d : Deployment α) (g : ConsumerGroup α σ) : Prop where
  committed : Below d.topic g.committed (Settled d g)
  members : ∀ i, ∃ phase, MemberInvariant d (Settled d g) (g.members i) phase

lemma memberInvariant_start (rounds : Nat) {committed : Int → Nat} {settled : Message → Prop}
    (h : Below d.topic committed settled) : MemberInvariant d settled (d.start rounds committed) .fetching :=
  ⟨.nil _, consumeLoop_conforms rounds, h⟩

/-- An accepted record is settled by the session that accepted it. -/
lemma accepted_settled {fmts : Formats α} {k : KafkaConsumer} {session : Trace α} {message : Message} {commits : Nat}
    (h : Runs (Protocol fmts k) .fetching session (.accepted message commits)) : SettledIn fmts k message session := by
  obtain ⟨-, since, hcurrent, haccepted, -⟩ := (run_history h).1
  exact ⟨session, [], since, (List.append_nil _).symm, iteration_of_current hcurrent, haccepted⟩

/-- The reader of a process after an exchange, once the record it has accepted counts as settled. -/
lemma readerAt_step {settled : Message → Prop} {i : Nat} {r : Reply σ} {x : Exchange (Call α) Answer} {phase phase' : Phase}
    (hstep : Protocol d.fmts d.consumer phase x phase') (hreplied : Replied d g i r x g₁)
    (h : ReaderAt d.topic settled (g.members i).position phase)
    (haccepted : ∀ message commits, phase' = .accepted message commits → settled message) :
    ReaderAt d.topic settled (g₁.members i).position phase' := by
  cases hstep with
  | fetched message =>
    cases hreplied with
    | fetched hrecord hnext =>
      rw [modify_members]
      exact readerAt_fetched hrecord hnext h
    | other hx => cases hx.fetched
  | refetch err =>
    rw [hreplied.position rfl]
    exact h
  | idle hx =>
    rw [hreplied.position hx.quiet.fetched]
    exact h
  | interrupted _ | abandoned _ | uncommitted _ | lost _ => trivial
  | @handled message failures event _ _ =>
    rw [hreplied.position rfl]
    have hsettled := haccepted message 0 rfl
    have hmerge : ∀ other, other = message ∨ settled other → settled other :=
      fun other ho => ho.elim (fun heq => heq ▸ hsettled) id
    exact ⟨h.1.mono hmerge, fun offset other hle hrecord => hmerge other (h.2 offset other hle hrecord)⟩
  | failed _ _ =>
    rw [hreplied.position rfl]
    exact h
  | retry _ =>
    rw [hreplied.position rfl]
    exact h
  | undecodable _ _ =>
    rw [hreplied.position rfl]
    exact h
  | @setAside message failures _ _ _ hx =>
    rw [hreplied.position hx.quiet.fetched]
    have hsettled := haccepted message 0 rfl
    have hmerge : ∀ other, other = message ∨ settled other → settled other :=
      fun other ho => ho.elim (fun heq => heq ▸ hsettled) id
    exact ⟨h.1.mono hmerge, fun offset other hle hrecord => hmerge other (h.2 offset other hle hrecord)⟩
  | committed _ =>
    rw [hreplied.position rfl]
    exact h.1
  | recommit _ =>
    rw [hreplied.position rfl]
    exact h
  | pause hx =>
    rw [hreplied.position hx.quiet.fetched]
    exact h

lemma committed_step {settled : Message → Prop} {i : Nat} {r : Reply σ} {x : Exchange (Call α) Answer} {phase phase' : Phase}
    (hstep : Protocol d.fmts d.consumer phase x phase') (hreplied : Replied d g i r x g₁)
    (h : ReaderAt d.topic settled (g.members i).position phase) (hcommitted : Below d.topic g.committed settled) :
    Below d.topic g₁.committed settled := by
  have hcommit : ∀ message, UpTo d.topic message settled → Below d.topic (g.commits message).committed settled := by
    intro message hupTo
    refine hcommitted.update fun offset other hlt hrecord => hupTo offset other ?_ hrecord
    omega
  cases hstep with
  | @committed message commits _ =>
    cases hreplied with
    | committed _ _ => exact hcommit message h.2
    | other hx => cases hx.commits
  | @recommit message commits err _ =>
    cases hreplied with
    | committed _ _ => exact hcommit message h.2
    | uncommitted _ _ => exact hcommitted
    | other hx => cases hx.commits
  | fetched _ | refetch _ | handled _ _ | failed _ _ | retry _ | undecodable _ _ =>
    rw [hreplied.offsets rfl]
    exact hcommitted
  | idle hx | pause hx | interrupted hx | abandoned hx | uncommitted hx | setAside _ _ hx | lost hx =>
    rw [hreplied.offsets hx.quiet.commits]
    exact hcommitted

theorem step_groupInvariant {a : Occurrence σ} (hi : GroupInvariant d g) (h : step d g a = some g') :
    GroupInvariant d g' := by
  have hmono : ∀ message, Settled d g message → Settled d g' message := fun _ => step_settled h
  have hcommitted := hi.committed.mono hmono
  have hmembers : ∀ i, ∃ phase, MemberInvariant d (Settled d g') (g.members i) phase := fun i =>
    (hi.members i).imp fun _ hm => ⟨hm.runs, hm.conforms, hm.reached.mono hmono⟩
  have hkeeps : ∀ (i : Nat) (f : Member α → Member α),
      (∃ phase, MemberInvariant d (Settled d g') (f (g.members i)) phase) →
      ∀ j, ∃ phase, MemberInvariant d (Settled d g') ((g.modify i f).members j) phase := fun i f hself j =>
    modify_keeps (P := fun m => ∃ phase, MemberInvariant d (Settled d g') m phase) (fun _ => hself) fun _ => hmembers j
  cases a with
  | start i rounds =>
    cases h
    exact ⟨hcommitted, hkeeps i (fun _ => d.start rounds g.committed)
      ⟨.fetching, memberInvariant_start rounds hcommitted⟩⟩
  | assign i partition =>
    cases h
    obtain ⟨phase, hm⟩ := hmembers i
    exact ⟨hcommitted, hkeeps i _ ⟨phase, hm.runs, hm.conforms,
      hm.reached.update fun offset message hlt hrecord => hcommitted partition offset message hlt hrecord⟩⟩
  | call i r =>
    obtain ⟨c, rest, answer, g₁, hprogram, hreplied, rfl⟩ := step_call h
    obtain ⟨phase, hm⟩ := hmembers i
    have hconforms := hm.conforms
    rw [hprogram] at hconforms
    obtain ⟨phase', hstep, hrest⟩ := hconforms answer
    have hruns : Runs (Protocol d.fmts d.consumer) .fetching ((g.members i).session ++ [⟨c, answer⟩]) phase' :=
      hm.runs.append (.cons hstep (.nil _))
    have hbelow := committed_step hstep hreplied hm.reached hcommitted
    refine ⟨hbelow, fun j => ?_⟩
    by_cases hj : j = i
    · rw [hj]
      refine ⟨phase', ?_⟩
      rw [modify_members]
      refine ⟨hreplied.session ▸ hruns, hrest, readerAt_step hstep hreplied hm.reached ?_⟩
      rintro message commits rfl
      refine ⟨_, .inr ⟨i, rfl⟩, ?_⟩
      rw [modify_members]
      exact hreplied.session ▸ accepted_settled hruns
    · rw [modify_members_ne _ _ hj, hreplied.others hj]
      exact hmembers j
  | leave i exit =>
    obtain ⟨-, failed, rfl, -⟩ := step_leave h
    obtain ⟨phase, hm⟩ := hmembers i
    exact ⟨hcommitted, hkeeps i _ ⟨phase, hm.runs, hm.conforms, hm.reached⟩⟩
  | change store =>
    cases h
    exact ⟨hcommitted, hmembers⟩

lemma reachable_groupInvariant {store : σ} {actions : List (Occurrence σ)}
    (h : runSteps (step d) (d.initial store) actions = some g) : GroupInvariant d g := by
  have hnothing : Below d.topic (fun _ => 0) (Settled d (d.initial store)) :=
    fun _ _ _ hlt => absurd hlt (Nat.not_lt_zero _)
  have hinitial : GroupInvariant d (d.initial store) :=
    ⟨hnothing, fun _ => ⟨.fetching, memberInvariant_start 0 hnothing⟩⟩
  exact runSteps_invariant (fun _ _ _ hi hstep => step_groupInvariant hi hstep) hinitial actions h

end invariant

/-- In a group of any number of processes that stop and start anywhere, with partitions reassigned at any
time and commits and writes that fail after they were carried out: every record below a committed offset
has been handled, or was put aside after its last attempt, in a session of one of the processes. -/
theorem committed_records_settled (d : Deployment α) (store : σ) (actions : List (Occurrence σ)) (g : ConsumerGroup α σ)
    (h : runSteps (step d) (d.initial store) actions = some g) (partition : Int) (offset : Nat) (message : Message)
    (hoffset : offset < g.committed partition) (hrecord : d.topic.record partition offset = some message) :
    ∃ session, GroupSession g session ∧ ∃ before after since, session = before ++ after ∧
      Iteration before message since ∧
      (Handled d.fmts message since ∨ PutAside d.fmts d.consumer message since)  :=
  (reachable_groupInvariant h).committed partition offset message hoffset hrecord

def wholeArithmetic : Arithmetic Nat :=
  ⟨0, (· + ·), (· - ·), fun a b => decide (a < b), fun a b => decide (a ≤ b), fun _ => false, fun _ => false, 1000000⟩

def oneRecord : Deployment Nat where
  fmts := bareFormats
  consumer := poisonConsumer
  canceled err := err = .plain ⟨"context canceled"⟩
  ar := wholeArithmetic
  sc := ⟨fun amount => itoa amount, fun _ => .error ⟨"invalid syntax"⟩⟩
  topic :=
    { record := fun partition offset => if partition = 0 ∧ offset = 3 then some poisonMessage else none
      placed := by
        intro partition offset message h
        split at h
        · rename_i hplace
          cases h
          exact ⟨hplace.1.symm, by rw [hplace.2]; rfl⟩
        · cases h }
  windowDuration := 60
  maxEntities := 10
  maxEvents := 10

/-- The first write is lost, the second one succeeds, the commit is carried out without an answer, and
the process starts again. -/
def lostAnswers : List (Occurrence Unit) :=
  let client (err : Option GoError) : FeatureVector.RedisClient Unit := ⟨fun _ _ _ => (err, ()), fun _ _ => .error .nil⟩
  [.start 0 5, .call 0 (.fetched 0 3), .call 0 (.handled 200 (client (some ⟨"timeout"⟩))), .call 0 (.answered none),
    .call 0 (.handled 201 (client none)), .call 0 (.commitFailed ⟨"timeout"⟩ true), .start 0 5]

theorem committed_records_settled_restart :
    ∃ g, runSteps (step oneRecord) (oneRecord.initial ()) lostAnswers = some g ∧ g.committed 0 = 4 ∧
      ∃ session, GroupSession g session ∧ ∃ before after since, session = before ++ after ∧
        Iteration before poisonMessage since ∧
        (Handled bareFormats poisonMessage since ∨ PutAside bareFormats poisonConsumer poisonMessage since) := by
  have hrun : (runSteps (step oneRecord) (oneRecord.initial ()) lostAnswers).map (fun g => g.committed 0) =
      some 4 := by decide +kernel
  obtain ⟨g, hg, hcommitted⟩ := Option.map_eq_some_iff.mp hrun
  exact ⟨g, hg, hcommitted, committed_records_settled oneRecord _ lostAnswers g hg 0 3 poisonMessage
    (by rw [hcommitted]; decide) rfl⟩

end FraudDetection.Proofs
