import Mathlib.Data.Set.Card
import FraudDetection.Proofs.RingSafety

/-!
# The ready counter

`ready_count` is raised after a position was published and lowered after one was taken, each in an
atomic operation of its own. A consumer that overtakes the producer of its position lowers the
counter first. In every state of a run the counter is, modulo 2^64, the number of positions that
are published or taken and not yet discounted, minus the number of positions whose increment is
outstanding; it exceeds the capacity exactly where the second number is the larger one.
-/

namespace FraudDetection.Proofs
open FraudDetection.Library
open FraudDetection.Ring

variable {cfg : Config} {dc : DaemonConfig} {t : Party} {g g' : Ghost} {m m' : Shared} {label : Label}

/-- A change of the ready counter that a thread still owes. -/
inductive ReadyUpdate where
  | increment (position : Nat)
  | decrement (position : Nat)
  deriving DecidableEq, Repr

def produceUpdate : ProducePC → Option ReadyUpdate
  | .addReady p => some (.increment p)
  | _ => none

def consumeUpdate : ConsumePC → Option ReadyUpdate
  | .takeReady p => some (.decrement p)
  | _ => none

def nextUpdate : (t : Party) → Local t → Option ReadyUpdate
  | .submit _, .publishReady v _ => some (.increment v.position)
  | .producer _, .producing _ _ pc => produceUpdate pc
  | .daemon, .consuming _ pc => consumeUpdate pc
  | .consumer _, .consuming _ pc => consumeUpdate pc
  | _, _ => none

/-- The positions between their publication and the increment. -/
def uncounted (s : System) : Set Nat :=
  {p | ∃ t, nextUpdate t (s.locals t) = some (.increment p)}

/-- The positions that are published and not taken, or between their taking and the decrement. -/
def undiscounted (cfg : Config) (s : System) : Set Nat :=
  {p | s.shared.dequeue ≤ p ∧ p < s.shared.enqueue ∧ s.shared.sequence (slotAt cfg p) = p + 1 ∨
    ∃ t, nextUpdate t (s.locals t) = some (.decrement p)}

section steps

/-- What a step does to the counter and to the change that its thread owes. -/
inductive ReadyEffect (cfg : Config) (m m' : Shared) :
    Option ReadyUpdate → Label → Option ReadyUpdate → Prop where
  | publish (p : Nat) (data : SlotData) (hcount : m'.readyCount = m.readyCount) :
      ReadyEffect cfg m m' none (.publish (p % cfg.slotCount) (p + 1) data) (some (.increment p))
  | increment (p : Nat) (hcount : m'.readyCount = (m.readyCount + 1) % 2 ^ 64) :
      ReadyEffect cfg m m' (some (.increment p)) .quiet none
  | consume (p : Nat) (hcount : m'.readyCount = m.readyCount) :
      ReadyEffect cfg m m' none (.consume p) (some (.decrement p))
  | decrement (p : Nat) (hcount : m'.readyCount = (m.readyCount + (2 ^ 64 - 1)) % 2 ^ 64) :
      ReadyEffect cfg m m' (some (.decrement p)) .quiet none
  | other (label : Label) (hcount : m'.readyCount = m.readyCount)
      (hpublish : ∀ slot value data, label ≠ .publish slot value data)
      (hconsume : ∀ p, label ≠ .consume p) : ReadyEffect cfg m m' none label none

lemma ReadyEffect.quiet (hcount : m'.readyCount = m.readyCount) : ReadyEffect cfg m m' none .quiet none :=
  .other .quiet hcount (fun _ _ _ => Label.noConfusion) (fun _ => Label.noConfusion)

lemma ReadyEffect.write (slot : Nat) (data : SlotData) :
    ReadyEffect cfg m (m.setData slot data) none (.write slot) none :=
  .other _ rfl (fun _ _ _ => Label.noConfusion) (fun _ => Label.noConfusion)

lemma ReadyEffect.release (slot value : Nat) :
    ReadyEffect cfg m (m.setSequence slot value) none (.release slot value) none :=
  .other _ rfl (fun _ _ _ => Label.noConfusion) (fun _ => Label.noConfusion)

lemma produce_ready {args : Produce} {pc : ProducePC} {next : ProducePC ⊕ Option Nat}
    (h : produceStep cfg args m pc = (next, m', label)) :
    ReadyEffect cfg m m' (produceUpdate pc) label (next.elim produceUpdate fun _ => none) := by
  cases pc with
  | loadEnqueue =>
    simp only [produceStep] at h
    split at h <;> cases h <;> exact .quiet rfl
  | loadSequence p =>
    simp only [produceStep] at h
    split at h
    · cases h
      exact .quiet rfl
    · split at h <;> cases h <;> exact .quiet rfl
  | compareExchange p =>
    simp only [produceStep] at h
    split at h <;> cases h
    · exact .other _ rfl (fun _ _ _ => Label.noConfusion) (fun _ => Label.noConfusion)
    · exact .quiet rfl
  | writing p todo =>
    simp only [produceStep] at h
    split at h <;> cases h
    · exact .write _ _
    · exact .quiet rfl
  | storeSequence p =>
    cases h
    exact .publish p _ rfl
  | addReady p =>
    cases h
    exact .increment p rfl

lemma consume_ready {pc : ConsumePC} {next : ConsumePC ⊕ Option Nat}
    (h : consumeStep cfg m pc = (next, m', label)) :
    ReadyEffect cfg m m' (consumeUpdate pc) label (next.elim consumeUpdate fun _ => none) := by
  cases pc with
  | loadDequeue =>
    cases h
    exact .quiet rfl
  | loadSequence p =>
    simp only [consumeStep] at h
    split at h
    · cases h
      exact .quiet rfl
    · split at h <;> cases h <;> exact .quiet rfl
  | compareExchange p =>
    simp only [consumeStep] at h
    split at h <;> cases h
    · exact .consume p rfl
    · exact .quiet rfl
  | takeReady p =>
    cases h
    exact .decrement p rfl

variable (cfg) in
lemma complete_ready {c : Completing} {next : Option Completing} (h : completeStep m c = (next, m', label)) :
    ReadyEffect cfg m m' none label none := by
  unfold completeStep at h
  split at h <;> cases h
  · exact .write _ _
  · exact .other _ rfl (fun _ _ _ => Label.noConfusion) (fun _ => Label.noConfusion)

lemma producer_ready {k : Nat} {pc pc' : ProducerPC} {choice : ProducerChoice}
    (h : producerStep cfg pc m choice = some (pc', m', label)) :
    ReadyEffect cfg m m' (nextUpdate (.producer k) pc) label (nextUpdate (.producer k) pc') := by
  cases pc with
  | idle held =>
    simp only [producerStep] at h
    split at h
    · cases h
      exact .quiet rfl
    · split at h <;> cases h
      exact .quiet rfl
    · cases h
  | producing held args pc =>
    simp only [producerStep] at h
    generalize hstep : produceStep cfg args m pc = out at h
    obtain ⟨next, m₁, label₁⟩ := out
    have hready := produce_ready hstep
    rcases next with pc₁ | _ | p <;> cases h <;> exact hready
  | checking held p =>
    simp only [producerStep] at h
    split at h <;> cases h <;> exact .quiet rfl
  | releasing held p =>
    cases h
    exact .release _ _

lemma consumer_ready {k : Nat} {pc pc' : ConsumerPC} {choice : ConsumerChoice}
    (h : consumerStep cfg pc m choice = some (pc', m', label)) :
    ReadyEffect cfg m m' (nextUpdate (.consumer k) pc) label (nextUpdate (.consumer k) pc') := by
  cases pc with
  | idle held =>
    simp only [consumerStep] at h
    split at h
    · cases h
      exact .quiet rfl
    · split at h <;> cases h
      exact .quiet rfl
    · cases h
  | consuming held pc =>
    simp only [consumerStep] at h
    generalize hstep : consumeStep cfg m pc = out at h
    obtain ⟨next, m₁, label₁⟩ := out
    have hready := consume_ready hstep
    rcases next with pc₁ | _ | slot <;> cases h <;> exact hready
  | locating held slot response =>
    cases h
    exact .quiet rfl
  | completing held c =>
    simp only [consumerStep] at h
    generalize hstep : completeStep m c = out at h
    obtain ⟨next, m₁, label₁⟩ := out
    have hready := complete_ready cfg hstep
    cases next <;> cases h <;> exact hready

lemma reclaimer_ready {pc pc' : ReclaimerPC} (h : reclaimerStep cfg pc m = (pc', m', label)) :
    ReadyEffect cfg m m' (nextUpdate .reclaimer pc) label (nextUpdate .reclaimer pc') := by
  cases pc with
  | swap outstanding =>
    cases h
    exact .quiet rfl
  | scan outstanding index =>
    simp only [reclaimerStep] at h
    split at h
    · cases h
      exact .quiet rfl
    · split at h <;> cases h <;> exact .quiet rfl
  | store outstanding index position =>
    cases h
    exact .release _ _
  | remove outstanding index =>
    cases h
    exact .quiet rfl

lemma poll_ready {pc pc' : DaemonPC} {choice : DaemonChoice}
    (h : pollStep cfg dc pc m choice = some (pc', m', label)) :
    ReadyEffect cfg m m' (nextUpdate .daemon pc) label (nextUpdate .daemon pc') := by
  unfold pollStep at h
  split at h
  · cases h
    exact .quiet rfl
  · split at h
    · cases h
      exact .quiet rfl
    · split at h <;> cases h <;> exact .quiet rfl
  · split at h <;> cases h <;> exact .quiet rfl
  · rename_i b pc
    generalize hstep : consumeStep cfg m pc = out at h
    obtain ⟨next, m₁, label₁⟩ := out
    have hready := consume_ready hstep
    rcases next with pc₁ | _ | slot <;> cases h
    · exact hready
    · split <;> exact hready
    · exact hready
  · cases h
    exact .quiet rfl
  · dsimp only at h
    split at h <;> cases h <;> exact .quiet rfl
  · cases h
    exact .quiet rfl
  · split at h <;> cases h <;> exact .quiet rfl
  · cases h

lemma handle_ready {pc pc' : DaemonPC} {choice : DaemonChoice}
    (h : handleStep cfg dc pc m choice = some (pc', m', label)) :
    ReadyEffect cfg m m' (nextUpdate .daemon pc) label (nextUpdate .daemon pc') := by
  unfold handleStep at h
  split at h
  · split at h <;> cases h <;> exact .quiet rfl
  · split at h <;> cases h <;> exact .quiet rfl
  · split at h <;> cases h <;> exact .quiet rfl
  · cases h
    exact .quiet rfl
  · rename_i handling todo
    cases todo with
    | cons c rest =>
      dsimp only at h
      generalize hstep : completeStep m c = out at h
      obtain ⟨next, m₁, label₁⟩ := out
      have hready := complete_ready cfg hstep
      cases next <;> cases h <;> exact hready
    | nil =>
      cases h
      split <;> exact .quiet rfl
  · cases h

lemma reserve_ready {call : Nat} {pc pc' : SubmitPC} {choice : SubmitChoice}
    (h : reserveStep cfg pc m choice = some (pc', m', label)) :
    ReadyEffect cfg m m' (nextUpdate (.submit call) pc) label (nextUpdate (.submit call) pc') := by
  unfold reserveStep at h
  split at h
  · cases h
    exact .quiet rfl
  · cases h
    exact .quiet rfl
  · cases h
    exact .quiet rfl
  · split at h <;> cases h <;> exact .quiet rfl
  · cases h
    exact .quiet rfl
  · cases h
    exact .quiet rfl
  · split at h <;> cases h <;> exact .quiet rfl
  · cases h
    exact .quiet rfl
  · dsimp only at h
    split at h
    · cases h
      exact .quiet rfl
    · split at h <;> cases h <;> exact .quiet rfl
  · split at h <;> cases h
    · exact .other _ rfl (fun _ _ _ => Label.noConfusion) (fun _ => Label.noConfusion)
    · exact .quiet rfl
  · split at h <;> cases h <;> exact .quiet rfl
  · cases h

lemma publish_ready {call : Nat} {pc pc' : SubmitPC} {choice : SubmitChoice}
    (h : publishStep cfg pc m choice = some (pc', m', label)) :
    ReadyEffect cfg m m' (nextUpdate (.submit call) pc) label (nextUpdate (.submit call) pc') := by
  unfold publishStep at h
  simp only [slotIndex_eq] at h
  split at h
  · split at h <;> cases h
    exact .write _ _
  · split at h <;> cases h <;> exact .quiet rfl
  · cases h
    exact .quiet rfl
  · cases h
    exact .quiet rfl
  · split at h <;> cases h <;> exact .quiet rfl
  · split at h <;> cases h
    · exact .write _ _
    · exact .quiet rfl
  · cases h
    exact .publish _ _ rfl
  · split at h <;> cases h <;> exact .increment _ rfl
  · cases h

lemma finish_ready {call : Nat} {pc pc' : SubmitPC} {choice : SubmitChoice}
    (h : finishStep cfg pc m choice = some (pc', m', label)) :
    ReadyEffect cfg m m' (nextUpdate (.submit call) pc) label (nextUpdate (.submit call) pc') := by
  unfold finishStep at h
  split at h
  · split at h <;> cases h <;> exact .quiet rfl
  · split at h <;> cases h <;> exact .quiet rfl
  · split at h <;> cases h <;> exact .quiet rfl
  · split at h
    · cases h
      exact .quiet rfl
    · split at h <;> cases h
      · exact .other _ rfl (fun _ _ _ => Label.noConfusion) (fun _ => Label.noConfusion)
      · exact .quiet rfl
  · split at h <;> cases h <;> exact .quiet rfl
  · split at h <;> cases h <;> exact .quiet rfl
  · dsimp only at h
    split at h <;> cases h <;> exact .quiet rfl
  · cases h
    exact .quiet rfl
  · cases h
    exact .quiet rfl
  · cases h
    exact .release _ _
  · cases h

variable (cfg dc) in
theorem program_ready (t : Party) {l l' : Local t} {choice : Choice t}
    (h : program cfg dc t l m choice = some (l', m', label)) :
    ReadyEffect cfg m m' (nextUpdate t l) label (nextUpdate t l') := by
  cases t with
  | submit call =>
    rcases Option.or_eq_some_iff.mp h with hreserve | ⟨-, hrest⟩
    · exact reserve_ready hreserve
    · rcases Option.or_eq_some_iff.mp hrest with hpublish | ⟨-, hfinish⟩
      · exact publish_ready hpublish
      · exact finish_ready hfinish
  | reclaimer => exact reclaimer_ready (Option.some.inj h)
  | daemon =>
    rcases Option.or_eq_some_iff.mp h with hpoll | ⟨-, hhandle⟩
    · exact poll_ready hpoll
    · exact handle_ready hhandle
  | producer k => exact producer_ready h
  | consumer k => exact consumer_ready h

end steps

section ledger

/-- The thread that owes a change owns its position: it has published and not released it, or it
has taken and not completed it. -/
def UpdateOwn (g : Ghost) (t : Party) : Option ReadyUpdate → Prop
  | none => True
  | some (.increment p) => g.claimant p = some t ∧ g.handed p = false ∧ 2 ≤ (g.stage p).rank ∧
    g.stage p ≠ .released
  | some (.decrement p) => g.taker p = some t ∧ g.stage p = .taken

lemma updateOwn_stable (hr : Rely cfg t g m g' m') {u : Option ReadyUpdate} (h : UpdateOwn g t u) :
    UpdateOwn g' t u := by
  match u, h with
  | none, _ => trivial
  | some (.increment p), ⟨hc, hh, hrank, hreleased⟩ =>
    refine ⟨hr.claimant p t hc, ?_, hrank.trans (hr.stage p), fun hs => ?_⟩
    · exact Bool.eq_false_iff.mpr fun hx => Bool.eq_false_iff.mp hh (hr.handed_only p hc hx)
    · exact hreleased (hr.kept p (holder_of_unhanded hc hh) hs)
  | some (.decrement p), ⟨htaker, hs⟩ => exact ⟨hr.taker p t htaker, (hr.taken p htaker hs).1⟩

/-- The counter against the positions that are still to be counted and to be discounted. -/
structure ReadyLedger (g : Ghost) (owed : Party → Option ReadyUpdate) (count : Nat)
    (adding ready : Finset Nat) : Prop where
  own : ∀ t, UpdateOwn g t (owed t)
  mem_adding : ∀ p, p ∈ adding ↔ ∃ t, owed t = some (.increment p)
  mem_ready : ∀ p, p ∈ ready ↔ g.stage p = .published ∨ ∃ t, owed t = some (.decrement p)
  balance : (count + adding.card) % 2 ^ 64 = ready.card % 2 ^ 64
  bounded : count < 2 ^ 64

lemma publish_owner {slot p : Nat} {data : SlotData}
    (h : Effect cfg dc t g m (.publish slot (p + 1) data) m') : g.claimant p = some t ∧ g.stage p = .claimed := by
  generalize hlabel : Label.publish slot (p + 1) data = label at h
  cases h with
  | publish q howner hstage =>
    obtain rfl : p = q := Nat.succ.inj (Label.publish.inj hlabel).2.1
    exact ⟨howner, hstage⟩
  | _ => cases hlabel

lemma consume_published (hg : RingGuard cfg dc g m) {p : Nat} (h : Effect cfg dc t g m (.consume p) m') :
    g.stage p = .published := by
  cases h with
  | consume ht hobserved => exact hg.published_of_observed hobserved

lemma published_other (hg : RingGuard cfg dc g m) (h : Effect cfg dc t g m label m')
    (hpublish : ∀ slot value data, label ≠ .publish slot value data) (hconsume : ∀ p, label ≠ .consume p)
    (q : Nat) : (g.record cfg.slotCount (t, label)).stage q = .published ↔ g.stage q = .published := by
  have hupdate : ∀ {p : Nat} {st : Stage}, g.stage p ≠ .published → st ≠ .published →
      (Function.update g.stage p st q = .published ↔ g.stage q = .published) := by
    intro p st hold hnew
    by_cases hq : q = p
    · rw [hq, Function.update_self]
      exact iff_of_false hnew hold
    · rw [Function.update_of_ne hq]
  cases h with
  | quiet | write | handoff | swap => exact Iff.rfl
  | publish p => exact absurd rfl (hpublish _ _ _)
  | consume => exact absurd rfl (hconsume _)
  | claim ht hobserved =>
    exact hupdate ((hg.free_of_observed hobserved).trans_ne Stage.noConfusion) Stage.noConfusion
  | complete p response howner hstage => exact hupdate (hstage.trans_ne Stage.noConfusion) Stage.noConfusion
  | release p howner hstage =>
    simp only [Ghost.record, Nat.add_sub_cancel]
    exact hupdate (hstage.trans_ne Stage.noConfusion) Stage.noConfusion

variable {owed : Party → Option ReadyUpdate} {old next : Option ReadyUpdate} {adding ready : Finset Nat}
  {count count' : Nat}

lemma exists_update_iff (hu : owed t = old) {u : ReadyUpdate} (hold : old ≠ some u) (hnext : next ≠ some u) :
    (∃ x, Function.update owed t next x = some u) ↔ ∃ x, owed x = some u := by
  constructor
  · rintro ⟨x, hx⟩
    by_cases hxt : x = t
    · rw [hxt, Function.update_self] at hx
      exact absurd hx hnext
    · rw [Function.update_of_ne hxt] at hx
      exact ⟨x, hx⟩
  · rintro ⟨x, hx⟩
    have hxt : x ≠ t := by
      rintro rfl
      exact hold (hu.symm.trans hx)
    exact ⟨x, by rw [Function.update_of_ne hxt, hx]⟩

lemma exists_update_self {u : ReadyUpdate} : ∃ x, Function.update owed t (some u) x = some u :=
  ⟨t, Function.update_self ..⟩

/-- A change that its thread has made is owed by nobody: a position has one claimant and one taker. -/
lemma ReadyLedger.paid (hl : ReadyLedger g owed count adding ready) {u : ReadyUpdate}
    (hu : owed t = some u) : ¬ ∃ x, Function.update owed t none x = some u := by
  rintro ⟨x, hx⟩
  have hxt : x ≠ t := by
    rintro rfl
    rw [Function.update_self] at hx
    cases hx
  rw [Function.update_of_ne hxt] at hx
  have hown := hl.own t
  have hother := hl.own x
  rw [hu] at hown
  rw [hx] at hother
  cases u with
  | increment p => exact hxt (Option.some.inj (hother.1.symm.trans hown.1))
  | decrement p => exact hxt (Option.some.inj (hother.1.symm.trans hown.1))

lemma ReadyLedger.claimed_notMem (hl : ReadyLedger g owed count adding ready) {p : Nat}
    (hs : g.stage p = .claimed) : p ∉ adding ∧ p ∉ ready := by
  constructor
  · intro hp
    obtain ⟨x, hx⟩ := (hl.mem_adding p).mp hp
    have hown := hl.own x
    rw [hx] at hown
    have hrank := hown.2.2.1
    rw [hs] at hrank
    exact absurd hrank (by decide)
  · intro hp
    rcases (hl.mem_ready p).mp hp with hpub | ⟨x, hx⟩
    · cases hs.symm.trans hpub
    · have hown := hl.own x
      rw [hx] at hown
      cases hs.symm.trans hown.2

section moves

variable (hl : ReadyLedger g owed count adding ready)
include hl

lemma ReadyLedger.publish {p : Nat} (hu : owed t = none) (hs : g.stage p = .claimed)
    (hown : ∀ x, UpdateOwn g' x (Function.update owed t (some (.increment p)) x))
    (hpublished : ∀ q, g'.stage q = .published ↔ q = p ∨ g.stage q = .published) :
    ReadyLedger g' (Function.update owed t (some (.increment p))) count (insert p adding) (insert p ready) := by
  obtain ⟨hadding, hready⟩ := hl.claimed_notMem hs
  refine ⟨hown, fun q => ?_, fun q => ?_, ?_, hl.bounded⟩
  · rw [Finset.mem_insert, hl.mem_adding]
    by_cases hq : q = p
    · rw [hq]
      exact iff_of_true (.inl rfl) exists_update_self
    · rw [exists_update_iff hu (by simp) (by simpa using Ne.symm hq), or_iff_right hq]
  · rw [Finset.mem_insert, hl.mem_ready, exists_update_iff hu (by simp) (by simp), hpublished, or_assoc]
  · have hbalance := hl.balance
    rw [Finset.card_insert_of_notMem hadding, Finset.card_insert_of_notMem hready]
    omega

lemma ReadyLedger.increment {p : Nat} (hu : owed t = some (.increment p))
    (hown : ∀ x, UpdateOwn g x (Function.update owed t none x)) (hcount : count' = (count + 1) % 2 ^ 64) :
    ReadyLedger g (Function.update owed t none) count' (adding.erase p) ready := by
  have hbalance := hl.balance
  have hcard := Finset.card_erase_add_one ((hl.mem_adding p).mpr ⟨t, hu⟩)
  refine ⟨hown, fun q => ?_, fun q => ?_, by omega, by omega⟩
  · rw [Finset.mem_erase, hl.mem_adding]
    by_cases hq : q = p
    · rw [hq]
      exact iff_of_false (fun h => h.1 rfl) (hl.paid hu)
    · rw [exists_update_iff hu (by simpa using Ne.symm hq) (by simp), and_iff_right hq]
  · rw [hl.mem_ready, exists_update_iff hu (by simp) (by simp)]

lemma ReadyLedger.consume {p : Nat} (hu : owed t = none) (hs : g.stage p = .published)
    (hown : ∀ x, UpdateOwn g' x (Function.update owed t (some (.decrement p)) x))
    (hpublished : ∀ q ≠ p, g'.stage q = g.stage q) :
    ReadyLedger g' (Function.update owed t (some (.decrement p))) count adding ready := by
  refine ⟨hown, fun q => ?_, fun q => ?_, hl.balance, hl.bounded⟩
  · rw [hl.mem_adding, exists_update_iff hu (by simp) (by simp)]
  · rw [hl.mem_ready]
    by_cases hq : q = p
    · rw [hq]
      exact iff_of_true (.inl hs) (.inr exists_update_self)
    · rw [exists_update_iff hu (by simp) (by simpa using Ne.symm hq), hpublished q hq]

lemma ReadyLedger.decrement {p : Nat} (hu : owed t = some (.decrement p))
    (hown : ∀ x, UpdateOwn g x (Function.update owed t none x))
    (hcount : count' = (count + (2 ^ 64 - 1)) % 2 ^ 64) :
    ReadyLedger g (Function.update owed t none) count' adding (ready.erase p) := by
  have hbalance := hl.balance
  have hcard := Finset.card_erase_add_one ((hl.mem_ready p).mpr (.inr ⟨t, hu⟩))
  refine ⟨hown, fun q => ?_, fun q => ?_, by omega, by omega⟩
  · rw [hl.mem_adding, exists_update_iff hu (by simp) (by simp)]
  · rw [Finset.mem_erase, hl.mem_ready]
    by_cases hq : q = p
    · have htaken := hl.own t
      rw [hu] at htaken
      rw [hq, htaken.2]
      exact iff_of_false (fun h => h.1 rfl) (not_or_intro Stage.noConfusion (hl.paid hu))
    · rw [exists_update_iff hu (by simpa using Ne.symm hq) (by simp), and_iff_right hq]

lemma ReadyLedger.other (hu : owed t = none) (hown : ∀ x, UpdateOwn g' x (Function.update owed t none x))
    (hpublished : ∀ q, g'.stage q = .published ↔ g.stage q = .published) :
    ReadyLedger g' (Function.update owed t none) count adding ready := by
  refine ⟨hown, fun q => ?_, fun q => ?_, hl.balance, hl.bounded⟩
  · rw [hl.mem_adding, exists_update_iff hu (by simp) (by simp)]
  · rw [hl.mem_ready, exists_update_iff hu (by simp) (by simp), hpublished]

end moves

lemma updateOwn_step (hg : RingGuard cfg dc g m) (heffect : Effect cfg dc t g m label m')
    (hready : ReadyEffect cfg m m' old label next) :
    UpdateOwn (g.record cfg.slotCount (t, label)) t next := by
  cases hready with
  | publish p data hcount =>
    obtain ⟨hc, hs⟩ := publish_owner heffect
    have hstage : (g.record cfg.slotCount (t, .publish (p % cfg.slotCount) (p + 1) data)).stage p = .published :=
      Function.update_self ..
    refine ⟨hc, ?_, ?_, ?_⟩
    · refine Bool.eq_false_iff.mpr fun hx => ?_
      have hrank := hg.handed p hx
      rw [hs] at hrank
      exact absurd hrank (by decide)
    · rw [hstage]
      decide
    · rw [hstage]
      exact Stage.noConfusion
  | consume p hcount => exact ⟨Function.update_self .., Function.update_self ..⟩
  | increment | decrement | other => trivial

theorem ReadyLedger.step (hl : ReadyLedger g owed m.readyCount adding ready) (hg : RingGuard cfg dc g m)
    (heffect : Effect cfg dc t g m label m') (hready : ReadyEffect cfg m m' (owed t) label next) :
    ∃ adding' ready', ReadyLedger (g.record cfg.slotCount (t, label)) (Function.update owed t next)
      m'.readyCount adding' ready' := by
  have hown : ∀ x, UpdateOwn (g.record cfg.slotCount (t, label)) x (Function.update owed t next x) := by
    intro x
    by_cases hx : x = t
    · rw [hx, Function.update_self]
      exact updateOwn_step hg heffect hready
    · rw [Function.update_of_ne hx]
      exact updateOwn_stable (effect_rely hg heffect hx) (hl.own x)
  generalize hu : owed t = old at hready
  cases hready with
  | publish p data hcount =>
    rw [hcount]
    refine ⟨_, _, hl.publish hu (publish_owner heffect).2 hown fun q => ?_⟩
    simp only [Ghost.record, Nat.add_sub_cancel, Function.update_apply]
    by_cases hq : q = p <;> simp [hq]
  | increment p hcount => exact ⟨_, _, hl.increment hu hown hcount⟩
  | consume p hcount =>
    rw [hcount]
    exact ⟨_, _, hl.consume hu (consume_published hg heffect) hown fun q hq => Function.update_of_ne hq _ _⟩
  | decrement p hcount => exact ⟨_, _, hl.decrement hu hown hcount⟩
  | other label hcount hpublish hconsume =>
    rw [hcount]
    exact ⟨_, _, hl.other hu hown (published_other hg heffect hpublish hconsume)⟩

theorem run_readyLedger {s : System} {actions : List Action} {trace : Trace}
    (h : runThreads (program cfg dc) (System.initial cfg) actions = some (s, trace)) :
    Reached cfg dc s trace ∧ ∃ adding ready, ReadyLedger (ghostOf cfg trace)
      (fun t => nextUpdate t (s.locals t)) s.shared.readyCount adding ready := by
  refine runThreads_induction (P := fun s trace => Reached cfg dc s trace ∧ ∃ adding ready,
    ReadyLedger (ghostOf cfg trace) (fun t => nextUpdate t (s.locals t)) s.shared.readyCount adding ready)
    ?_ [] ?_ actions h
  · rintro s trace a s' event ⟨hr, adding, ready, hl⟩ hstep
    obtain ⟨-, heffect, hr'⟩ := reached_step hr hstep
    refine ⟨hr', ?_⟩
    obtain ⟨next, shared, label, hp, rfl, rfl⟩ := stepThread_eq hstep
    have hnext := hl.step hr.guard heffect (program_ready cfg dc a.1 hp)
    have howed : (fun t => nextUpdate t (Function.update s.locals a.1 next t)) =
        Function.update (fun t => nextUpdate t (s.locals t)) a.1 (nextUpdate a.1 next) := by
      funext t
      by_cases ht : t = a.1
      · subst ht
        rw [Function.update_self, Function.update_self]
      · rw [Function.update_of_ne ht, Function.update_of_ne ht]
    rw [show ghostOf cfg (trace ++ [(a.1, label)]) = (ghostOf cfg trace).record cfg.slotCount (a.1, label) from
      replay_snoc ..]
    dsimp only
    rw [howed]
    exact hnext
  · have howed : (fun t => nextUpdate t ((System.initial cfg).locals t)) = fun _ => none := by
      funext t
      cases t <;> rfl
    refine ⟨⟨guard_initial cfg dc, threadOwn_initial cfg dc, history_initial cfg.slotCount⟩, ∅, ∅, ?_⟩
    rw [howed]
    refine ⟨fun _ => trivial, fun p => ?_, fun p => ?_, rfl, Nat.two_pow_pos 64⟩
    · simp
    · simp [ghostOf, replay, Ghost.initial]

end ledger

section bound

lemma card_le_slotCount (hg : RingGuard cfg dc g m) {positions : Finset Nat}
    (hused : ∀ p ∈ positions, g.stage p ≠ .free ∧ g.stage p ≠ .released) :
    positions.card ≤ cfg.slotCount := by
  have hN := four_le_slotCount cfg
  have hle : positions.card ≤ (Finset.range cfg.slotCount).card := by
    refine Finset.card_le_card_of_injOn (fun p => p % cfg.slotCount) (fun p _ => ?_) fun p hp q hq hslot => ?_
    · exact Finset.mem_coe.mpr (Finset.mem_range.mpr (Nat.mod_lt p (by omega)))
    · by_contra hne
      obtain ⟨hpf, hpr⟩ := hused p hp
      obtain ⟨hqf, hqr⟩ := hused q hq
      exact hg.slots_differ hqf hqr hpf hpr hne hslot
  rwa [Finset.card_range] at hle

/-- A position is published exactly while it is between the cursors with its word raised. -/
lemma published_iff (hg : RingGuard cfg dc g m) (p : Nat) :
    g.stage p = .published ↔ m.dequeue ≤ p ∧ p < m.enqueue ∧ m.sequence (slotAt cfg p) = p + 1 := by
  have hconsumed := hg.ring.consumed p
  have hclaimed := hg.ring.claimed p
  constructor
  · intro hs
    refine ⟨?_, hclaimed.mp (hs.trans_ne Stage.noConfusion),
      hg.word_of hs Stage.noConfusion Stage.noConfusion⟩
    by_contra hlt
    have hrank := hconsumed.mpr (by omega)
    rw [hs] at hrank
    exact absurd hrank (by decide)
  · rintro ⟨hdequeue, henqueue, hword⟩
    have hfree := hclaimed.mpr henqueue
    have hrank : ¬ 3 ≤ (g.stage p).rank := fun hx => absurd (hconsumed.mp hx) (by omega)
    cases hs : g.stage p with
    | published => rfl
    | free => exact absurd hs hfree
    | claimed =>
      rw [show m.sequence (slotAt cfg p) = p from hg.word_of hs Stage.noConfusion Stage.noConfusion] at hword
      omega
    | taken | completed | released =>
      rw [hs] at hrank
      exact absurd (by decide) hrank

/-- For fewer than 2^32 slots, the width of `slot_count`: in every state of every run the counter
is within the capacity exactly if at most as many positions wait for their increment as wait to be
taken or discounted. -/
theorem ready_count_le_iff (cfg : Config) (dc : DaemonConfig) (hslots : cfg.slotCount < 2 ^ 32)
    (actions : List Action) (s : System) (trace : Trace)
    (hrun : runThreads (program cfg dc) (System.initial cfg) actions = some (s, trace)) :
    s.shared.readyCount ≤ cfg.slotCount ↔ (uncounted s).ncard ≤ (undiscounted cfg s).ncard := by
  obtain ⟨hr, adding, ready, hl⟩ := run_readyLedger hrun
  have hadding : uncounted s = adding := by
    ext p
    exact (hl.mem_adding p).symm
  have hready : undiscounted cfg s = ready := by
    ext p
    rw [Finset.mem_coe, hl.mem_ready, published_iff hr.guard]
    rfl
  rw [hadding, hready, Set.ncard_coe_finset, Set.ncard_coe_finset]
  have hadding_le : adding.card ≤ cfg.slotCount := by
    refine card_le_slotCount hr.guard fun p hp => ?_
    obtain ⟨t, ht⟩ := (hl.mem_adding p).mp hp
    have hown := hl.own t
    rw [ht] at hown
    refine ⟨fun hfree => ?_, hown.2.2.2⟩
    have hrank := hown.2.2.1
    rw [hfree] at hrank
    exact absurd hrank (by decide)
  have hready_le : ready.card ≤ cfg.slotCount := by
    refine card_le_slotCount hr.guard fun p hp => ?_
    rcases (hl.mem_ready p).mp hp with hs | ⟨t, ht⟩
    · rw [hs]
      exact ⟨Stage.noConfusion, Stage.noConfusion⟩
    · have hown := hl.own t
      rw [ht] at hown
      rw [hown.2]
      exact ⟨Stage.noConfusion, Stage.noConfusion⟩
  have hbalance := hl.balance
  have hbounded := hl.bounded
  constructor
  · intro hle
    by_contra hlt
    omega
  · intro hle
    omega

theorem ready_count_le_iff_published : ∃ (s : System) (trace : Trace),
    runThreads (program fourSlots singleBatches) (System.initial fourSlots) (submitActions 0 publishChoices) =
        some (s, trace) ∧
      s.shared.readyCount ≤ 4 ∧ (uncounted s).ncard ≤ (undiscounted fourSlots s).ncard := by
  have hcount : (runThreads (program fourSlots singleBatches) (System.initial fourSlots)
      (submitActions 0 publishChoices)).map (fun x => x.1.shared.readyCount) = some 1 := by rfl
  obtain ⟨⟨s, trace⟩, hrun, hone⟩ := Option.map_eq_some_iff.mp hcount
  have hle : s.shared.readyCount ≤ 4 := hone.trans_le (by decide)
  exact ⟨s, trace, hrun, hle, (ready_count_le_iff fourSlots singleBatches (by decide)
    (submitActions 0 publishChoices) s trace hrun).mp hle⟩

/-- The daemon takes a position between its publication and the increment. -/
def overtakenRun : List Action :=
  submitActions 0 publishChoices.dropLast ++ daemonActions (List.replicate 6 .next)

/-- The daemon's decrement comes first and wraps the counter. -/
theorem ready_count_wraps : ∃ (s : System) (trace : Trace),
    runThreads (program fourSlots singleBatches) (System.initial fourSlots) overtakenRun = some (s, trace) ∧
      s.shared.readyCount = 2 ^ 64 - 1 ∧ ¬ s.shared.readyCount ≤ fourSlots.slotCount := by
  have hcount : (runThreads (program fourSlots singleBatches) (System.initial fourSlots) overtakenRun).map
      (fun x => x.1.shared.readyCount) = some (2 ^ 64 - 1) := by rfl
  obtain ⟨⟨s, trace⟩, hrun, hwrapped⟩ := Option.map_eq_some_iff.mp hcount
  exact ⟨s, trace, hrun, hwrapped, hwrapped.trans_gt (by decide) |>.not_ge⟩

end bound

end FraudDetection.Proofs
