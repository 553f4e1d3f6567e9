import FraudDetection.Proofs.RingSafety
import FraudDetection.Proofs.DaemonResponses

/-!
# The daemon's answers in the ring

Where the daemon is the only consumer, every completed position has the answer that `process_batch`
computes from what was published there, and the daemon's writes leave the request id of a slot
alone. `ServiceRely` is what this adds to what the threads of the gateway may expect of the others.
-/

namespace FraudDetection.Proofs
open FraudDetection.Library
open FraudDetection.Ring

variable {cfg : Config} {dc : DaemonConfig} {t u : Party} {g g' : Ghost} {m m' : Shared} {label : Label}

section answers

/-- A response of `process_batch` to a slot: the status after the launch is one of two. -/
def AnswerTo (cfg : Config) (dc : DaemonConfig) (data : SlotData) (r : Response) : Prop :=
  ∃ status syncFailed now, (status = 200 ∨ status = 503) ∧
    r = respond (decodeTransaction cfg dc data) status syncFailed now

/-- A transaction that decodes gets its verdict, or is told that there is none. -/
lemma answerTo_view {data : SlotData} {r : Response} {view : TransactionView} (h : AnswerTo cfg dc data r)
    (hview : decodeTransaction cfg dc data = some view) :
    r.status = 200 ∧ r.decision = referenceDecision view ∧ r.score = referenceScore view ∨
      r.status = 503 ∧ r.decision = 0 ∧ r.score = 0 := by
  obtain ⟨status, syncFailed, now, hstatus, rfl⟩ := h
  rw [hview]
  cases syncFailed with
  | true => exact .inr ⟨rfl, rfl, rfl⟩
  | false =>
    rcases hstatus with rfl | rfl
    · exact .inl ⟨rfl, rfl, rfl⟩
    · exact .inr ⟨rfl, rfl, rfl⟩

def FieldWrite.isAnswer : FieldWrite → Bool
  | .responseStatus _ | .decision _ | .score _ | .completeNs _ => true
  | _ => false

lemma apply_requestId {w : FieldWrite} (hw : FieldWrite.isAnswer w = true) (data : SlotData) :
    (w.apply data).requestId = data.requestId := by
  cases w <;> first | rfl | cases hw

def Answering (cfg : Config) (dc : DaemonConfig) (g : Ghost) : DaemonPC → Prop
  | .preparing _ _ status _ _ | .synchronizing _ _ status _ _ => status = 200 ∨ status = 503
  | .completing _ todo => ∀ c ∈ todo, (∃ data, g.published c.position = some data ∧ AnswerTo cfg dc data c.response) ∧
      ∀ w ∈ c.todo, FieldWrite.isAnswer w = true
  | _ => True

/-- A step of the daemon answers the published data and keeps the request ids. -/
structure AnswerStep (cfg : Config) (dc : DaemonConfig) (g : Ghost) (m m' : Shared) (label : Label) : Prop where
  answer : ∀ slot value r, label = .complete slot value r → ∃ p data, slot = p % cfg.slotCount ∧ value = p + 2 ∧
    g.published p = some data ∧ AnswerTo cfg dc data r
  requestId : ∀ i, (m'.data i).requestId = (m.data i).requestId

lemma answers_plain (hdata : m'.data = m.data) (hlabel : ∀ slot value r, label ≠ .complete slot value r) :
    AnswerStep cfg dc g m m' label :=
  ⟨fun slot value r h => absurd h (hlabel slot value r), fun i => by rw [hdata]⟩

lemma addReady_keeps_data (m : Shared) (delta : Nat) : (m.addReady delta).data = m.data := rfl

lemma consumeStep_plain {pc : ConsumePC} {next : ConsumePC ⊕ Option Nat}
    (h : consumeStep cfg m pc = (next, m', label)) :
    m'.data = m.data ∧ ∀ slot value r, label ≠ .complete slot value r := by
  cases pc with
  | loadDequeue =>
    cases h
    exact ⟨rfl, by rintro _ _ _ ⟨⟩⟩
  | takeReady p =>
    cases h
    exact ⟨addReady_keeps_data m _, by rintro _ _ _ ⟨⟩⟩
  | loadSequence p =>
    simp only [consumeStep] at h
    split_ifs at h <;> cases h <;> exact ⟨rfl, by rintro _ _ _ ⟨⟩⟩
  | compareExchange p =>
    simp only [consumeStep] at h
    split_ifs at h <;> cases h <;> exact ⟨rfl, by rintro _ _ _ ⟨⟩⟩

lemma pollStep_answering {pc pc' : DaemonPC} {choice : DaemonChoice}
    (h : pollStep cfg dc pc m choice = some (pc', m', label)) :
    Answering cfg dc g' pc' ∧ AnswerStep cfg dc g m m' label := by
  have hquiet : AnswerStep cfg dc g m m .quiet := answers_plain rfl (by rintro _ _ _ ⟨⟩)
  unfold pollStep at h
  split at h
  · cases h
    exact ⟨trivial, hquiet⟩
  · split at h
    · cases h
      exact ⟨trivial, hquiet⟩
    · split at h <;> cases h <;> exact ⟨trivial, hquiet⟩
  · split at h <;> cases h <;> exact ⟨trivial, hquiet⟩
  · rename_i b pc
    generalize hstep : consumeStep cfg m pc = out at h
    obtain ⟨next, m₁, label₁⟩ := out
    obtain ⟨hdata, hlabel⟩ := consumeStep_plain hstep
    rcases next with pc₁ | _ | slot <;> cases h
    · exact ⟨trivial, answers_plain hdata hlabel⟩
    · refine ⟨?_, answers_plain hdata hlabel⟩
      split <;> trivial
    · exact ⟨trivial, answers_plain hdata hlabel⟩
  · cases h
    exact ⟨trivial, hquiet⟩
  · dsimp only at h
    split at h <;> cases h <;> exact ⟨trivial, hquiet⟩
  · cases h
    exact ⟨trivial, answers_plain rfl (by rintro _ _ _ ⟨⟩)⟩
  · split at h <;> cases h <;> exact ⟨trivial, hquiet⟩
  · cases h

lemma answering_completions (hg : RingGuard cfg dc g m) {h : Handling} {status : UInt32}
    (ht : TakenSlots cfg .daemon g m h.batcher.staged) (hstatus : status = 200 ∨ status = 503) (syncFailed : Bool) :
    Answering cfg dc g (.completing h (completions h (h.batcher.staged.map (decodedAt cfg dc m)) status syncFailed
      (h.batcher.staged.map (positionAt m)))) := by
  rw [completions_eq]
  intro c hc
  obtain ⟨i, hi, rfl⟩ := List.mem_map.mp hc
  obtain ⟨p, hp, -, hs, hpub⟩ := ht.taken i hi
  refine ⟨⟨m.data i, ?_, status, syncFailed, h.now, hstatus, rfl⟩, ?_⟩
  · change g.published (m.sequence i - 1) = _
    rw [takenSlot_sequence hg hp hs]
    exact hpub
  · simp only [Completing.start, List.mem_cons, List.not_mem_nil, or_false]
    rintro w (rfl | rfl | rfl | rfl) <;> rfl

lemma completeStep_answering {h : Handling} {c : Completing} {rest : List Completing} {next : Option Completing}
    (hown : CompletingOwn cfg dc .daemon g m c) (ha : Answering cfg dc g (.completing h (c :: rest)))
    (hstep : completeStep m c = (next, m', label)) :
    Answering cfg dc (g.record cfg.slotCount (.daemon, label)) (.completing h (next.toList ++ rest)) ∧
      AnswerStep cfg dc g m m' label := by
  obtain ⟨⟨data, hpub, hanswer⟩, hwrites⟩ := ha c List.mem_cons_self
  have hrest : Answering cfg dc g (.completing h rest) := fun d hd => ha d (List.mem_cons_of_mem _ hd)
  obtain ⟨slot, position, response, todo⟩ := c
  dsimp only at hpub hanswer hwrites
  unfold completeStep at hstep
  cases todo with
  | cons w todo =>
    cases hstep
    refine ⟨fun d hd => ?_, by rintro _ _ _ ⟨⟩, fun i => ?_⟩
    · rcases List.mem_cons.mp hd with rfl | hd
      · exact ⟨⟨data, hpub, hanswer⟩, fun w hw => hwrites w (List.mem_cons_of_mem _ hw)⟩
      · exact hrest d hd
    · rw [setData_data, Function.update_apply]
      split_ifs with hi
      · rw [hi]
        exact apply_requestId (hwrites w List.mem_cons_self) _
      · rfl
  | nil =>
    cases hstep
    refine ⟨hrest, fun slot' value r he => ?_, fun i => by rw [setSequence_data]⟩
    cases he
    exact ⟨position, data, hown.slot, rfl, hpub, hanswer⟩

lemma handleStep_answering {pc pc' : DaemonPC} {choice : DaemonChoice} (hg : RingGuard cfg dc g m)
    (ho : DaemonOwn cfg dc g m pc) (ha : Answering cfg dc g pc)
    (h : handleStep cfg dc pc m choice = some (pc', m', label)) :
    Answering cfg dc (g.record cfg.slotCount (.daemon, label)) pc' ∧ AnswerStep cfg dc g m m' label := by
  have hquiet : AnswerStep cfg dc g m m .quiet := answers_plain rfl (by rintro _ _ _ ⟨⟩)
  unfold handleStep at h
  split at h
  · split at h <;> cases h <;> exact ⟨trivial, hquiet⟩
  · rename_i ready
    split at h <;> cases h
    · refine ⟨?_, hquiet⟩
      cases ready with
      | true => exact .inl rfl
      | false => exact .inr rfl
    · exact ⟨.inl rfl, hquiet⟩
  · split at h <;> cases h <;> exact ⟨ha, hquiet⟩
  · obtain ⟨hs, rfl, rfl⟩ := ho
    cases h
    exact ⟨answering_completions hg hs ha _, hquiet⟩
  · split at h
    · rename_i c rest
      generalize hstep : completeStep m c = out at h
      obtain ⟨next, m₁, label₁⟩ := out
      have hnext := completeStep_answering (ho.own c List.mem_cons_self) ha hstep
      cases next <;> cases h <;> exact hnext
    · cases h
      refine ⟨?_, hquiet⟩
      split <;> trivial
  · cases h

theorem daemonStep_answering {pc pc' : DaemonPC} {choice : DaemonChoice} (hg : RingGuard cfg dc g m)
    (ho : DaemonOwn cfg dc g m pc) (ha : Answering cfg dc g pc)
    (h : daemonStep cfg dc pc m choice = some (pc', m', label)) :
    Answering cfg dc (g.record cfg.slotCount (.daemon, label)) pc' ∧ AnswerStep cfg dc g m m' label := by
  unfold daemonStep at h
  rcases Option.or_eq_some_iff.mp h with hpoll | ⟨-, hhandle⟩
  · exact pollStep_answering hpoll
  · exact handleStep_answering hg ho ha hhandle

lemma answering_stable (hr : Rely cfg .daemon g m g' m') {pc : DaemonPC} (ho : DaemonOwn cfg dc g m pc)
    (ha : Answering cfg dc g pc) : Answering cfg dc g' pc := by
  cases pc with
  | completing h todo =>
    intro c hc
    have hstage := (ho.own c hc).stage
    rw [hr.published _ (by rw [hstage]; decide)]
    exact ha c hc
  | _ => exact ha

end answers

section guard

/-- What the ring guarantees where the daemon alone consumes. -/
structure ServiceGuard (cfg : Config) (dc : DaemonConfig) (g : Ghost) (m : Shared) : Prop extends
    RingGuard cfg dc g m where
  takers : ∀ p x, g.taker p = some x → x = .daemon
  answers : ∀ p, 4 ≤ (g.stage p).rank → ∃ data r, g.published p = some data ∧ g.answered p = some r ∧
    AnswerTo cfg dc data r

/-- A position is completed by the store of its response only. -/
lemma effect_completed (h : Effect cfg dc t g m label m') {p : Nat}
    (hrank : 4 ≤ ((g.record cfg.slotCount (t, label)).stage p).rank) :
    4 ≤ (g.stage p).rank ∨ ∃ r, label = .complete (p % cfg.slotCount) (p + 2) r ∧
      (g.record cfg.slotCount (t, label)).answered p = some r ∧
      (g.record cfg.slotCount (t, label)).published p = g.published p := by
  have hupdate : ∀ {q : Nat} {st : Stage}, st.rank < 4 → 4 ≤ (Function.update g.stage q st p).rank →
      4 ≤ (g.stage p).rank := by
    intro q st hst hle
    rw [Function.update_apply] at hle
    split_ifs at hle
    · omega
    · exact hle
  cases h with
  | quiet | write | handoff | swap => exact .inl hrank
  | claim | consume => exact .inl (hupdate (by decide) hrank)
  | publish q howner hstage => exact .inl (hupdate (by decide) hrank)
  | complete q r howner hstage hdata hcomputed =>
    by_cases hq : p = q
    · subst hq
      exact .inr ⟨r, rfl, Function.update_self .., rfl⟩
    · simp only [Ghost.record, Nat.add_sub_cancel, Function.update_of_ne hq] at hrank
      exact .inl hrank
  | release q howner hstage =>
    left
    by_cases hq : p = q
    · rw [hq, hstage]
      decide
    · simp only [Ghost.record, Nat.add_sub_cancel, Function.update_of_ne hq] at hrank
      exact hrank

/-- A step keeps the guard if it consumes for the daemon and completes with answers. -/
lemma serviceGuard_step (hg : ServiceGuard cfg dc g m) (h : Effect cfg dc t g m label m')
    (ht : t.consumes = true → t = .daemon)
    (hanswer : ∀ slot value r, label = .complete slot value r → ∃ p data, slot = p % cfg.slotCount ∧ value = p + 2 ∧
      g.published p = some data ∧ AnswerTo cfg dc data r) :
    ServiceGuard cfg dc (g.record cfg.slotCount (t, label)) m' := by
  have hprogress := effect_progress hg.toRingGuard h
  refine ⟨effect_guard hg.toRingGuard h, fun p x hx => ?_, fun p hrank => ?_⟩
  · cases h with
    | consume hconsumes hobserved =>
      by_cases hp : p = m.dequeue
      · subst hp
        cases (Function.update_self ..).symm.trans hx
        exact ht hconsumes
      · exact hg.takers p x ((Function.update_of_ne hp ..).symm.trans hx)
    | _ => exact hg.takers p x hx
  · rcases effect_completed h hrank with hold | ⟨r, hlabel, hanswered, hpublished⟩
    · obtain ⟨data, r, hpub, hans, hto⟩ := hg.answers p hold
      exact ⟨data, r, (hprogress.published p (by omega)).trans hpub, (hprogress.answered p hold).trans hans, hto⟩
    · obtain ⟨q, data, -, hq, hpub, hto⟩ := hanswer _ _ _ hlabel
      obtain rfl : p = q := by omega
      exact ⟨data, r, hpublished.trans hpub, hanswered, hto⟩

/-- What a thread of the service expects of the others: the data of its claimed slot stays, and the
request id in a slot that it has published. -/
structure ServiceRely (cfg : Config) (u : Party) (g : Ghost) (m : Shared) (g' : Ghost) (m' : Shared) : Prop extends
    Rely cfg u g m g' m' where
  claimed : ∀ p, g.claimant p = some u → g.stage p = .claimed →
    m'.data (p % cfg.slotCount) = m.data (p % cfg.slotCount)
  requestId : ∀ p, g.claimant p = some u → 2 ≤ (g.stage p).rank → g.stage p ≠ .released →
    (m'.data (p % cfg.slotCount)).requestId = (m.data (p % cfg.slotCount)).requestId

lemma mod_ne_of_near (cfg : Config) {p q : Nat} (hlt : p < q) (hle : q ≤ p + 2) :
    q % cfg.slotCount ≠ p % cfg.slotCount := by
  have hN := four_le_slotCount cfg
  intro he
  have hdvd := (Nat.modEq_iff_dvd' hlt.le).mp (show p ≡ q [MOD cfg.slotCount] from he.symm)
  have := Nat.le_of_dvd (by omega) hdvd
  omega

lemma effect_claimed (hg : RingGuard cfg dc g m) (h : Effect cfg dc t g m label m') (hu : u ≠ t) {p : Nat}
    (hc : g.claimant p = some u) (hs : g.stage p = .claimed) :
    m'.data (p % cfg.slotCount) = m.data (p % cfg.slotCount) := by
  by_contra hne
  have hword : m.sequence (p % cfg.slotCount) = p := hg.word_of hs Stage.noConfusion Stage.noConfusion
  obtain ⟨q, hq, ⟨howner, hseq⟩ | ⟨-, hseq⟩⟩ := effect_data hg h (.inr hne)
  · obtain rfl : q = p := by omega
    exact hu (Option.some.inj (hc.symm.trans howner))
  · exact mod_ne_of_near cfg (show q < p by omega) (by omega) hq.symm

/-- Nobody but a consumer writes to a slot that is published. -/
lemma effect_published (hg : ServiceGuard cfg dc g m) (h : Effect cfg dc t g m label m') (ht : t ≠ .daemon) {p : Nat}
    (hrank : 2 ≤ (g.stage p).rank) (hlive : g.stage p ≠ .released) :
    m'.data (p % cfg.slotCount) = m.data (p % cfg.slotCount) := by
  by_contra hne
  have hfree : g.stage p ≠ .free := by
    intro hfree
    rw [hfree] at hrank
    exact absurd hrank (by decide)
  have hword := hg.word hfree hlive
  have hbounds : p < (g.stage p).word p ∧ (g.stage p).word p ≤ p + 2 := by
    revert hrank hlive
    cases g.stage p <;> simp [Stage.rank, Stage.word]
  obtain ⟨q, hq, ⟨-, hseq⟩ | ⟨htaker, -⟩⟩ := effect_data hg.toRingGuard h (.inr hne)
  · exact mod_ne_of_near cfg (show p < q by omega) (by omega) hq
  · exact ht (hg.takers q t htaker)

end guard

end FraudDetection.Proofs
