import FraudDetection.Proofs.RingSubmit
import FraudDetection.Proofs.RingDaemon

/-!
# Runs of the ring

All threads keep their assertions in every run, and the trace of a run says the same as the ghost
state that follows it: who claimed and took a position, what was published and answered, and how
often each sequence word was stored.
-/

namespace FraudDetection.Proofs
open FraudDetection.Library
open FraudDetection.Ring

variable {cfg : Config} {dc : DaemonConfig} {t : Party} {g g' : Ghost} {m m' : Shared} {label : Label}

section invariant

def ThreadOwn (cfg : Config) (dc : DaemonConfig) : (t : Party) → Local t → Ghost → Shared → Prop
  | .submit call, pc, g, m => SubmitOwn cfg (.submit call) g m pc
  | .reclaimer, pc, g, m => ReclaimerOwn g m pc
  | .daemon, pc, g, m => DaemonOwn cfg dc g m pc
  | .producer k, pc, g, m => ProducerOwn cfg (.producer k) g m pc
  | .consumer k, pc, g, m => ConsumerOwn cfg dc (.consumer k) g m pc

/-- A step of any thread has one of the permitted effects and keeps its assertion. -/
theorem threadOwn_step (t : Party) {l l' : Local t} {choice : Choice t} (hg : RingGuard cfg dc g m)
    (ho : ThreadOwn cfg dc t l g m) (h : program cfg dc t l m choice = some (l', m', label)) :
    Effect cfg dc t g m label m' ∧ ThreadOwn cfg dc t l' (g.record cfg.slotCount (t, label)) m' := by
  cases t with
  | submit call => exact submit_step rfl hg ho h
  | reclaimer => exact reclaimer_step hg ho (Option.some.inj h)
  | daemon => exact daemon_step hg ho h
  | producer k => exact producer_step rfl hg ho h
  | consumer k => exact consumer_step rfl Party.noConfusion hg ho h

theorem threadOwn_stable (t : Party) {l : Local t} (hg : RingGuard cfg dc g m) (hg' : RingGuard cfg dc g' m')
    (hr : Rely cfg t g m g' m') (ho : ThreadOwn cfg dc t l g m) : ThreadOwn cfg dc t l g' m' := by
  cases t with
  | submit call => exact submitOwn_stable hr ho
  | reclaimer => exact reclaimerOwn_stable hr ho
  | daemon => exact daemonOwn_stable hr hg hg' ho
  | producer k => exact producerOwn_stable hr ho
  | consumer k => exact consumerOwn_stable hr ho

variable (cfg dc) in
theorem program_relyGuarantee : RelyGuarantee (program cfg dc) (Ghost.record cfg.slotCount)
    (RingGuard cfg dc) (ThreadOwn cfg dc) (Rely cfg) where
  step t l g m choice l' m' label hg ho h := by
    obtain ⟨heffect, hown⟩ := threadOwn_step t hg ho h
    exact ⟨effect_guard hg heffect, hown, fun u hu => effect_rely hg heffect hu⟩
  stable t l g m g' m' hg hg' hr ho := threadOwn_stable t hg hg' hr ho

variable (cfg dc) in
lemma guard_initial : RingGuard cfg dc Ghost.initial (Shared.initial cfg) where
  ring := RingInvariant.initial cfg.slotCount fun _ _ => rfl
  unclaimed _ := iff_of_true rfl rfl
  untaken _ := iff_of_true (Nat.zero_lt_succ 2) rfl
  handed _ h := by cases h
  published _ h := by cases h
  answered _ h := by cases h
  computed _ h := by cases h
  pending_nodup := List.nodup_nil
  pending_handed _ h := by cases h

variable (cfg dc) in
lemma threadOwn_initial (t : Party) :
    ThreadOwn cfg dc t ((System.initial cfg).locals t) Ghost.initial (Shared.initial cfg) := by
  cases t with
  | submit call => exact fun _ h => by cases h
  | reclaimer =>
    refine ⟨List.nodup_nil, fun p => ⟨fun h => ?_, fun h => ?_⟩⟩
    · cases h
    · cases h.1
  | daemon => exact ⟨List.nodup_nil, fun _ h => by cases h⟩
  | producer k => exact fun _ h => by cases h
  | consumer k => exact ⟨List.nodup_nil, fun _ h => by cases h⟩

end invariant

section history

/-- Offset of the sequence word that is stored when a position reaches the stage. -/
def storedOffset (N : Nat) : Stage → Option Nat
  | .published => some 1
  | .completed => some 2
  | .released => some N
  | _ => none

/-- Words of different positions of a slot, or of different stages, are different. -/
lemma storedOffset_injective {N p q k j : Nat} {st st' : Stage} (hN : 4 ≤ N) (hk : storedOffset N st = some k)
    (hj : storedOffset N st' = some j) (hslot : p % N = q % N) (hvalue : p + k = q + j) :
    p = q ∧ st = st' := by
  have hmod : k % N = j % N :=
    Nat.ModEq.add_left_cancel (show p ≡ q [MOD N] from hslot) (by rw [hvalue])
  have h1 : 1 % N = 1 := Nat.mod_eq_of_lt (by omega)
  have h2 : 2 % N = 2 := Nat.mod_eq_of_lt (by omega)
  have h0 : N % N = 0 := Nat.mod_self N
  cases st <;> cases hk <;> cases st' <;> cases hj <;> first | exact ⟨by omega, rfl⟩ | omega

def storeCount (slot value : Nat) (trace : Trace) : Nat :=
  trace.countP fun e => e.2.stored = some (slot, value)

lemma storeCount_snoc (slot value : Nat) (trace : Trace) (event : Party × Label) :
    storeCount slot value (trace ++ [event]) =
      storeCount slot value trace + if event.2.stored = some (slot, value) then 1 else 0 := by
  simp only [storeCount, List.countP_append, List.countP_singleton, decide_eq_true_eq]

/-- The trace says the same as the ghost state. -/
structure RingHistory (N : Nat) (g : Ghost) (trace : Trace) : Prop where
  claims : ∀ t p, (t, .claim p) ∈ trace ↔ g.claimant p = some t
  claims_by : ∀ t p, (t, .claim p) ∈ trace → t.produces = true
  claims_nodup : (trace.filterMap fun e => e.2.claimed).Nodup
  consumes : ∀ t p, (t, .consume p) ∈ trace ↔ g.taker p = some t
  consumes_by : ∀ t p, (t, .consume p) ∈ trace → t.consumes = true
  consumes_nodup : (trace.filterMap fun e => e.2.consumed).Nodup
  publishes : ∀ t slot value data, (t, .publish slot value data) ∈ trace ↔ ∃ p, slot = p % N ∧
    value = p + 1 ∧ g.claimant p = some t ∧ 2 ≤ (g.stage p).rank ∧ g.published p = some data
  completes : ∀ t slot value response, (t, .complete slot value response) ∈ trace ↔ ∃ p, slot = p % N ∧
    value = p + 2 ∧ g.taker p = some t ∧ 4 ≤ (g.stage p).rank ∧ g.answered p = some response
  stores : ∀ p st k, storedOffset N st = some k →
    storeCount (p % N) (p + k) trace = if st.rank ≤ (g.stage p).rank then 1 else 0

lemma history_initial (N : Nat) : RingHistory N Ghost.initial [] := by
  refine ⟨fun t p => ?_, fun _ _ h => (by cases h), List.nodup_nil, fun t p => ?_, fun _ _ h => (by cases h),
    List.nodup_nil, fun t slot value data => ?_,
    fun t slot value response => ?_, fun p st k hk => ?_⟩
  · simp [Ghost.initial]
  · simp [Ghost.initial]
  · simp [Ghost.initial]
  · simp [Ghost.initial]
  · cases st <;> cases hk <;> rfl

/-- A step that changes position `p` alone adds at most the event about `p`. -/
lemma exists_or_iff {P P' : Nat → Prop} {E : Prop} (p : Nat) (hothers : ∀ q ≠ p, (P' q ↔ P q))
    (hp : P' p ↔ P p ∨ E) : ((∃ q, P q) ∨ E) ↔ ∃ q, P' q := by
  constructor
  · rintro (⟨q, hq⟩ | he)
    · by_cases hqp : q = p
      · exact ⟨p, hp.mpr (.inl (hqp ▸ hq))⟩
      · exact ⟨q, (hothers q hqp).mpr hq⟩
    · exact ⟨p, hp.mpr (.inr he)⟩
  · rintro ⟨q, hq⟩
    by_cases hqp : q = p
    · exact (hp.mp (hqp ▸ hq)).imp (fun h => ⟨p, h⟩) id
    · exact .inl ⟨q, (hothers q hqp).mp hq⟩

lemma nodup_filterMap_snoc {trace : Trace} {f : Party × Label → Option Nat} {event : Party × Label}
    (hnodup : (trace.filterMap f).Nodup) (hnew : ∀ e ∈ trace, ∀ p, f event = some p → f e ≠ some p) :
    ((trace ++ [event]).filterMap f).Nodup := by
  rw [List.filterMap_append]
  refine List.nodup_append.mpr ⟨hnodup, ?_, ?_⟩
  · rw [List.filterMap_cons, List.filterMap_nil]
    split
    · exact List.nodup_nil
    · exact List.nodup_singleton _
  · rintro p hp q hq rfl
    obtain ⟨e, he, hep⟩ := List.mem_filterMap.mp hp
    obtain ⟨e', he', hp'⟩ := List.mem_filterMap.mp hq
    rw [List.mem_singleton.mp he'] at hp'
    exact hnew e he p hp' hep

/-- A step that stores no sequence word moves no position past a stage that stores one. -/
lemma stores_quiet {trace : Trace} (hh : RingHistory cfg.slotCount g trace) (hstored : label.stored = none)
    (hrank : ∀ p st k, storedOffset cfg.slotCount st = some k →
      (st.rank ≤ ((g.record cfg.slotCount (t, label)).stage p).rank ↔ st.rank ≤ (g.stage p).rank))
    (p : Nat) (st : Stage) (k : Nat) (hk : storedOffset cfg.slotCount st = some k) :
    storeCount (p % cfg.slotCount) (p + k) (trace ++ [(t, label)]) =
      if st.rank ≤ ((g.record cfg.slotCount (t, label)).stage p).rank then 1 else 0 := by
  rw [storeCount_snoc, hstored, if_neg (by simp), Nat.add_zero, hh.stores p st k hk]
  simp only [hrank p st k hk]

lemma stores_next {trace : Trace} (hh : RingHistory cfg.slotCount g trace) {p k : Nat}
    (st : Stage) (hk : storedOffset cfg.slotCount st = some k)
    (hstored : label.stored = some (p % cfg.slotCount, p + k))
    (hstage : (g.record cfg.slotCount (t, label)).stage = Function.update g.stage p st)
    (hrank : (g.stage p).rank + 1 = st.rank)
    (q : Nat) (st' : Stage) (j : Nat) (hj : storedOffset cfg.slotCount st' = some j) :
    storeCount (q % cfg.slotCount) (q + j) (trace ++ [(t, label)]) =
      if st'.rank ≤ ((g.record cfg.slotCount (t, label)).stage q).rank then 1 else 0 := by
  rw [storeCount_snoc, hstored, hh.stores q st' j hj, hstage]
  by_cases hsame : q = p ∧ st' = st
  · obtain ⟨rfl, rfl⟩ := hsame
    obtain rfl := Option.some.inj (hk.symm.trans hj)
    rw [Function.update_self, if_pos rfl, if_pos le_rfl, if_neg (by omega)]
  · have hne : ¬some (p % cfg.slotCount, p + k) = some (q % cfg.slotCount, q + j) := by
      intro he
      simp only [Option.some.injEq, Prod.mk.injEq] at he
      obtain ⟨hp, hst⟩ := storedOffset_injective (four_le_slotCount cfg) hk hj he.1 he.2
      exact hsame ⟨hp.symm, hst.symm⟩
    rw [if_neg hne, Nat.add_zero]
    by_cases hq : q = p
    · have hst : st'.rank ≠ st.rank := fun he => hsame ⟨hq, Stage.rank_injective he⟩
      rw [hq, Function.update_self]
      have hiff : st'.rank ≤ (g.stage p).rank ↔ st'.rank ≤ st.rank := by omega
      simp only [hiff]
    · rw [Function.update_of_ne hq]

section step

variable {trace : Trace} (hg : RingGuard cfg dc g m) (h : Effect cfg dc t g m label m')
  (hh : RingHistory cfg.slotCount g trace)
include hg h hh

lemma history_claims (u : Party) (p : Nat) : (u, .claim p) ∈ trace ++ [(t, label)] ↔
    (g.record cfg.slotCount (t, label)).claimant p = some u := by
  rw [List.mem_append, List.mem_singleton, hh.claims]
  cases h with
  | claim ht hobserved =>
    have hnone := (hg.unclaimed _).mp (hg.free_of_observed hobserved)
    by_cases hp : p = m.enqueue
    · rw [hp, hnone]
      simp [Ghost.record, eq_comm]
    · simp [Ghost.record, hp]
  | _ => simp [Ghost.record]

lemma history_consumes (u : Party) (p : Nat) : (u, .consume p) ∈ trace ++ [(t, label)] ↔
    (g.record cfg.slotCount (t, label)).taker p = some u := by
  rw [List.mem_append, List.mem_singleton, hh.consumes]
  cases h with
  | consume ht hobserved =>
    have hpub := hg.published_of_observed hobserved
    have hnone := (hg.untaken m.dequeue).mp (by rw [hpub]; decide)
    by_cases hp : p = m.dequeue
    · rw [hp, hnone]
      simp [Ghost.record, eq_comm]
    · simp [Ghost.record, hp]
  | _ => simp [Ghost.record]

lemma history_claims_nodup : ((trace ++ [(t, label)]).filterMap fun e => e.2.claimed).Nodup := by
  refine nodup_filterMap_snoc hh.claims_nodup ?_
  rintro ⟨u, label'⟩ hmem p hp hp'
  cases h <;> cases hp
  cases label' <;> cases hp'
  rename_i hobserved
  have hnone := (hg.unclaimed _).mp (hg.free_of_observed hobserved)
  cases hnone.symm.trans ((hh.claims u _).mp hmem)

lemma history_consumes_nodup : ((trace ++ [(t, label)]).filterMap fun e => e.2.consumed).Nodup := by
  refine nodup_filterMap_snoc hh.consumes_nodup ?_
  rintro ⟨u, label'⟩ hmem p hp hp'
  cases h <;> cases hp
  cases label' <;> cases hp'
  rename_i hobserved
  have hpub := hg.published_of_observed hobserved
  have hnone := (hg.untaken m.dequeue).mp (by rw [hpub]; decide)
  cases hnone.symm.trans ((hh.consumes u _).mp hmem)

lemma history_publishes (u : Party) (slot value : Nat) (data : SlotData) :
    (u, .publish slot value data) ∈ trace ++ [(t, label)] ↔ ∃ p, slot = p % cfg.slotCount ∧ value = p + 1 ∧
      (g.record cfg.slotCount (t, label)).claimant p = some u ∧
      2 ≤ ((g.record cfg.slotCount (t, label)).stage p).rank ∧
      (g.record cfg.slotCount (t, label)).published p = some data := by
  rw [List.mem_append, List.mem_singleton, hh.publishes]
  cases h with
  | publish p howner hstage =>
    refine exists_or_iff p (fun q hq => by simp [Ghost.record, hq]) ?_
    simp [Ghost.record, hstage, Stage.rank, howner, eq_comm, and_left_comm]
  | claim ht hobserved =>
    refine exists_or_iff m.enqueue (fun q hq => by simp [Ghost.record, hq]) ?_
    simp [Ghost.record, hg.free_of_observed hobserved, Stage.rank]
  | consume ht hobserved =>
    refine exists_or_iff m.dequeue (fun q hq => by simp [Ghost.record, hq]) ?_
    simp [Ghost.record, hg.published_of_observed hobserved, Stage.rank]
  | complete p response howner hstage | release p howner hstage =>
    refine exists_or_iff p (fun q hq => by simp [Ghost.record, hq]) ?_
    simp [Ghost.record, hstage, Stage.rank]
  | _ => simp [Ghost.record]

lemma history_completes (u : Party) (slot value : Nat) (response : Response) :
    (u, .complete slot value response) ∈ trace ++ [(t, label)] ↔ ∃ p, slot = p % cfg.slotCount ∧
      value = p + 2 ∧ (g.record cfg.slotCount (t, label)).taker p = some u ∧
      4 ≤ ((g.record cfg.slotCount (t, label)).stage p).rank ∧
      (g.record cfg.slotCount (t, label)).answered p = some response := by
  rw [List.mem_append, List.mem_singleton, hh.completes]
  cases h with
  | complete p response' howner hstage =>
    refine exists_or_iff p (fun q hq => by simp [Ghost.record, hq]) ?_
    simp [Ghost.record, hstage, Stage.rank, howner, eq_comm, and_left_comm]
  | claim ht hobserved =>
    refine exists_or_iff m.enqueue (fun q hq => by simp [Ghost.record, hq]) ?_
    simp [Ghost.record, hg.free_of_observed hobserved, Stage.rank]
  | consume ht hobserved =>
    refine exists_or_iff m.dequeue (fun q hq => by simp [Ghost.record, hq]) ?_
    simp [Ghost.record, hg.published_of_observed hobserved, Stage.rank]
  | publish p howner hstage | release p howner hstage =>
    refine exists_or_iff p (fun q hq => by simp [Ghost.record, hq]) ?_
    simp [Ghost.record, hstage, Stage.rank]
  | _ => simp [Ghost.record]

lemma history_stores (p : Nat) (st : Stage) (k : Nat) (hk : storedOffset cfg.slotCount st = some k) :
    storeCount (p % cfg.slotCount) (p + k) (trace ++ [(t, label)]) =
      if st.rank ≤ ((g.record cfg.slotCount (t, label)).stage p).rank then 1 else 0 := by
  have hpassed : ∀ {st : Stage} {k : Nat}, storedOffset cfg.slotCount st = some k →
      st.rank = 2 ∨ st.rank = 4 ∨ st.rank = 5 := by
    intro st k hst
    cases st <;> cases hst <;> simp [Stage.rank]
  cases h with
  | publish q howner hstage => exact stores_next hh .published rfl rfl rfl (by rw [hstage]; rfl) p st k hk
  | complete q response howner hstage => exact stores_next hh .completed rfl rfl rfl (by rw [hstage]; rfl) p st k hk
  | release q howner hstage =>
    refine stores_next hh (p := q) .released rfl rfl ?_ (by rw [hstage]; rfl) p st k hk
    simp only [Ghost.record, Nat.add_sub_cancel]
  | claim ht hobserved =>
    have hfree := hg.free_of_observed hobserved
    refine stores_quiet hh rfl (fun q st' j hj => ?_) p st k hk
    by_cases hq : q = m.enqueue
    · have hst := hpassed hj
      have hold : Stage.free.rank = 0 := rfl
      have hnew : Stage.claimed.rank = 1 := rfl
      simp only [Ghost.record, hq, Function.update_self, hfree]
      omega
    · simp only [Ghost.record, Function.update_of_ne hq]
  | consume ht hobserved =>
    have hpub := hg.published_of_observed hobserved
    refine stores_quiet hh rfl (fun q st' j hj => ?_) p st k hk
    by_cases hq : q = m.dequeue
    · have hst := hpassed hj
      have hold : Stage.published.rank = 2 := rfl
      have hnew : Stage.taken.rank = 3 := rfl
      simp only [Ghost.record, hq, Function.update_self, hpub]
      omega
    · simp only [Ghost.record, Function.update_of_ne hq]
  | _ => exact stores_quiet hh rfl (fun _ _ _ _ => Iff.rfl) p st k hk

theorem effect_history :
    RingHistory cfg.slotCount (g.record cfg.slotCount (t, label)) (trace ++ [(t, label)]) where
  claims := history_claims hg h hh
  claims_by u p hmem := by
    rcases List.mem_append.mp hmem with hold | hnew
    · exact hh.claims_by u p hold
    · cases h <;> cases List.mem_singleton.mp hnew
      assumption
  claims_nodup := history_claims_nodup hg h hh
  consumes := history_consumes hg h hh
  consumes_by u p hmem := by
    rcases List.mem_append.mp hmem with hold | hnew
    · exact hh.consumes_by u p hold
    · cases h <;> cases List.mem_singleton.mp hnew
      assumption
  consumes_nodup := history_consumes_nodup hg h hh
  publishes := history_publishes hg h hh
  completes := history_completes hg h hh
  stores := history_stores hg h hh

end step

def ghostOf (cfg : Config) (trace : Trace) : Ghost := replay (Ghost.record cfg.slotCount) Ghost.initial trace

structure Reached (cfg : Config) (dc : DaemonConfig) (s : System) (trace : Trace) : Prop where
  guard : RingGuard cfg dc (ghostOf cfg trace) s.shared
  own : ∀ t, ThreadOwn cfg dc t (s.locals t) (ghostOf cfg trace) s.shared
  history : RingHistory cfg.slotCount (ghostOf cfg trace) trace

theorem reached_step {s s' : System} {trace : Trace} {a : Action} {event : Party × Label}
    (hr : Reached cfg dc s trace) (h : stepThread (program cfg dc) s a = some (s', event)) :
    event.1 = a.1 ∧ Effect cfg dc a.1 (ghostOf cfg trace) s.shared event.2 s'.shared ∧
      Reached cfg dc s' (trace ++ [event]) := by
  have hinv := stepThread_invariant (program_relyGuarantee cfg dc) hr.guard hr.own h
  obtain ⟨next, shared, label, hp, rfl, rfl⟩ := stepThread_eq h
  have heffect := (threadOwn_step a.1 hr.guard (hr.own a.1) hp).1
  have hsnoc : ghostOf cfg (trace ++ [(a.1, label)]) =
      (ghostOf cfg trace).record cfg.slotCount (a.1, label) := replay_snoc ..
  refine ⟨rfl, heffect, ?_, ?_, ?_⟩
  · rw [hsnoc]
    exact hinv.1
  · rw [hsnoc]
    exact hinv.2
  · rw [hsnoc]
    exact effect_history hr.guard heffect hr.history

theorem run_reached {s : System} {actions : List Action} {trace : Trace}
    (h : runThreads (program cfg dc) (System.initial cfg) actions = some (s, trace)) :
    Reached cfg dc s trace := by
  refine runThreads_induction (P := Reached cfg dc) ?_ [] ?_ actions h
  · exact fun s trace a s' event hr hs => (reached_step hr hs).2.2
  · exact ⟨guard_initial cfg dc, threadOwn_initial cfg dc, history_initial cfg.slotCount⟩

end history

end FraudDetection.Proofs
