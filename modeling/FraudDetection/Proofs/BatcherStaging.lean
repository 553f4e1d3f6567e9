import FraudDetection.BatcherSystem
import FraudDetection.Proofs.RingSafety

/-!
# Staging of the batcher

As the only consumer the batcher takes the positions in order. What it handed over and what it has
staged are together the slots of all positions below the dequeue cursor, and the positions that
`process_batch` derives from the sequence words are the ones the slots were taken at.
-/

namespace FraudDetection.Proofs
open FraudDetection.Library
open FraudDetection.Ring

variable {cfg : Config} {dc : DaemonConfig} {g g' : Ghost} {m m' : Shared} {label : Label}

section ownership

def BatcherOwn (cfg : Config) (dc : DaemonConfig) : (t : Party) → BatcherLocal t → Ghost → Shared → Prop
  | .submit call, pc, g, m => SubmitOwn cfg (.submit call) g m pc
  | .reclaimer, pc, g, m => ReclaimerOwn g m pc
  | .daemon, run, g, m => DaemonOwn cfg dc g m run.pc
  | .producer k, pc, g, m => ProducerOwn cfg (.producer k) g m pc
  | .consumer _, _, _, _ => True

theorem batcher_step {pc pc' : DaemonPC} {choice : BatcherChoice} (hg : RingGuard cfg dc g m)
    (ho : DaemonOwn cfg dc g m pc) (h : batcherStep cfg dc pc m choice = some (pc', m', label)) :
    Effect cfg dc .daemon g m label m' ∧ DaemonOwn cfg dc (g.record cfg.slotCount (.daemon, label)) m' pc' := by
  cases choice with
  | daemon choice => exact daemon_step hg ho h
  | flush =>
    simp only [batcherStep] at h
    split at h <;> cases h <;> exact ⟨effect_quiet, ho⟩
  | pollOnce =>
    simp only [batcherStep] at h
    split at h
    · split at h <;> cases h <;> exact ⟨effect_quiet, ho⟩
    · split at h <;> cases h <;> exact ⟨effect_quiet, ho⟩
    · cases h

theorem batcherOwn_step (t : Party) {l l' : BatcherLocal t} {choice : BatcherChoices t} (hg : RingGuard cfg dc g m)
    (ho : BatcherOwn cfg dc t l g m) (h : batcherProgram cfg dc t l m choice = some (l', m', label)) :
    Effect cfg dc t g m label m' ∧ BatcherOwn cfg dc t l' (g.record cfg.slotCount (t, label)) m' := by
  cases t with
  | submit call => exact submit_step rfl hg ho h
  | reclaimer => exact reclaimer_step hg ho (Option.some.inj h)
  | daemon =>
    obtain ⟨⟨pc, m₁, label₁⟩, hstep, he⟩ := Option.map_eq_some_iff.mp h
    cases he
    exact batcher_step hg ho hstep
  | producer k => exact producer_step rfl hg ho h
  | consumer k => cases h

variable (cfg dc) in
theorem batcherProgram_relyGuarantee : RelyGuarantee (batcherProgram cfg dc) (Ghost.record cfg.slotCount)
    (RingGuard cfg dc) (BatcherOwn cfg dc) (Rely cfg) where
  step t l g m choice l' m' label hg ho h := by
    obtain ⟨heffect, hown⟩ := batcherOwn_step t hg ho h
    exact ⟨effect_guard hg heffect, hown, fun u hu => effect_rely hg heffect hu⟩
  stable t l g m g' m' hg hg' hr ho := by
    cases t with
    | submit call => exact submitOwn_stable hr ho
    | reclaimer => exact reclaimerOwn_stable hr ho
    | daemon => exact daemonOwn_stable hr hg hg' ho
    | producer k => exact producerOwn_stable hr ho
    | consumer k => trivial

variable (cfg dc) in
lemma batcherOwn_initial (t : Party) :
    BatcherOwn cfg dc t ((BatcherSystem.initial cfg).locals t) Ghost.initial (Shared.initial cfg) := by
  cases t with
  | submit call => exact threadOwn_initial cfg dc (.submit call)
  | reclaimer => exact threadOwn_initial cfg dc .reclaimer
  | daemon => exact threadOwn_initial cfg dc .daemon
  | producer k => exact threadOwn_initial cfg dc (.producer k)
  | consumer k => trivial

end ownership

section order

variable {trace : Trace} {d n : Nat} {t : Party}

/-- The batcher took the positions below `d` in order and completed those below `n` in order. -/
structure InOrder (cfg : Config) (g : Ghost) (d : Nat) (trace : Trace) (n : Nat) : Prop where
  takers : ∀ q x, g.taker q = some x → x = .daemon
  consumed : consumedPositions trace = List.range d
  completed : completionStores trace = (List.range n).map fun p => (slotAt cfg p, p + 2)
  taken : ∀ q, n ≤ q → q < d → g.stage q = .taken

structure Passive (label : Label) : Prop where
  consumed : label.consumed = none
  completed : ∀ slot value response, label ≠ .complete slot value response

lemma Passive.consumedPositions (h : Passive label) :
    consumedPositions (trace ++ [(t, label)]) = consumedPositions trace := by
  simp [Ring.consumedPositions, h.consumed]

lemma Passive.completionStores (h : Passive label) :
    completionStores (trace ++ [(t, label)]) = completionStores trace := by
  unfold Ring.completionStores
  rw [List.filterMap_append]
  cases label with
  | complete slot value response => exact absurd rfl (h.completed slot value response)
  | _ => exact List.append_nil _

lemma passive_quiet : Passive .quiet := ⟨rfl, nofun⟩

lemma passive_write (slot : Nat) : Passive (.write slot) := ⟨rfl, nofun⟩

/-- A passive event that leaves the ghost state of the taken positions alone. -/
lemma InOrder.passive (h : InOrder cfg g d trace n) (hlabel : Passive label)
    (htaker : g'.taker = g.taker) (hstage : ∀ q, g.stage q = .taken → g'.stage q = .taken) :
    InOrder cfg g' d (trace ++ [(t, label)]) n where
  takers q x hx := h.takers q x (htaker ▸ hx)
  consumed := hlabel.consumedPositions.trans h.consumed
  completed := hlabel.completionStores.trans h.completed
  taken q hn hd := hstage q (h.taken q hn hd)

lemma InOrder.consume (h : InOrder cfg g d trace n) :
    InOrder cfg (g.record cfg.slotCount (.daemon, .consume d)) (d + 1) (trace ++ [(.daemon, .consume d)]) n where
  takers q x hx := by
    simp only [Ghost.record, Function.update_apply] at hx
    split at hx
    · exact (Option.some.inj hx).symm
    · exact h.takers q x hx
  consumed := by
    rw [List.range_succ, ← h.consumed]
    exact List.filterMap_append
  completed := by
    rw [← h.completed]
    exact List.filterMap_append.trans (List.append_nil _)
  taken q hn hd := by
    simp only [Ghost.record, Function.update_apply]
    split
    · rfl
    · exact h.taken q hn (by omega)

lemma InOrder.complete (h : InOrder cfg g d trace n) (response : Response) :
    InOrder cfg (g.record cfg.slotCount (.daemon, .complete (slotAt cfg n) (n + 2) response)) d
      (trace ++ [(.daemon, .complete (slotAt cfg n) (n + 2) response)]) (n + 1) where
  takers q x hx := h.takers q x hx
  consumed := by
    rw [← h.consumed]
    exact List.filterMap_append.trans (List.append_nil _)
  completed := by
    rw [List.range_succ, List.map_append, ← h.completed]
    exact List.filterMap_append
  taken q hn hd := by
    simp only [Ghost.record, Nat.add_sub_cancel]
    rw [Function.update_of_ne (by omega)]
    exact h.taken q (by omega) hd

lemma effect_dequeue (ht : t.consumes = false) (heffect : Effect cfg dc t g m label m') :
    m'.dequeue = m.dequeue := by
  cases heffect with
  | quiet m' _ hdequeue _ _ => exact hdequeue
  | consume hconsumes =>
    rw [ht] at hconsumes
    cases hconsumes
  | _ => rfl

/-- The steps of the others keep the order: they take nothing, and complete nothing because only
the batcher has taken something. -/
lemma InOrder.others (h : InOrder cfg g m.dequeue trace n) (hg : RingGuard cfg dc g m) (ht : t.consumes = false)
    (heffect : Effect cfg dc t g m label m') :
    InOrder cfg (g.record cfg.slotCount (t, label)) m.dequeue (trace ++ [(t, label)]) n := by
  have hne : Party.daemon ≠ t := fun he => by rw [← he] at ht; cases ht
  have hrely := effect_rely hg heffect hne
  have hstage : ∀ q, g.stage q = .taken → (g.record cfg.slotCount (t, label)).stage q = .taken := by
    intro q hq
    have htaken : g.taker q ≠ none := fun hnone => by
      have hrank := (hg.untaken q).mpr hnone
      rw [hq] at hrank
      exact absurd hrank (by decide)
    obtain ⟨x, hx⟩ := Option.ne_none_iff_exists'.mp htaken
    obtain rfl := h.takers q x hx
    exact (hrely.taken q hx hq).1
  cases heffect with
  | consume hconsumes =>
    rw [ht] at hconsumes
    cases hconsumes
  | complete p response howner => exact absurd (h.takers p t howner).symm hne
  | _ => exact h.passive ⟨rfl, nofun⟩ rfl hstage

end order

section buffer

/-- The slots taken and not yet handed over. -/
def stagedSlots (cfg : Config) : DaemonPC → List Nat
  | .loop b | .poll b | .decide b | .stopping b | .flushing b | .finished b => b.staged
  | .consuming b (.takeReady p) => b.staged ++ [slotAt cfg p]
  | .consuming b _ => b.staged
  | .stage b slot => b.staged ++ [slot]
  | .decoding _ _ | .launching _ _ | .preparing _ _ _ _ _ | .synchronizing _ _ _ _ _ | .completing _ _ => []

def unfinished : DaemonPC → Nat
  | .decoding h _ | .launching h _ | .preparing h _ _ _ _ | .synchronizing h _ _ _ _ => h.batcher.staged.length
  | .completing _ todo => todo.length
  | _ => 0

def Counts (b : Batcher) (batches : List (List Nat)) : Prop :=
  b.requests = batches.flatten.length ∧ b.fullBatches + b.deadlineBatches = batches.length

/-- The batch in the handler is the last one, not yet counted. -/
def CountsNext (h : Handling) (batches : List (List Nat)) : Prop :=
  ∃ earlier, batches = earlier ++ [h.batcher.staged] ∧ Counts h.batcher earlier

/-- What the place of the batcher adds; `n` is the first position not yet completed. -/
def BatcherPlace (cfg : Config) (dc : DaemonConfig) (n : Nat) (batches : List (List Nat)) : DaemonPC → Prop
  | .loop b | .poll b | .stopping b | .flushing b | .finished b =>
    Counts b batches ∧ b.staged.length ≤ dc.maxBatchSize
  | .decide b => Counts b batches ∧ b.staged.length ≤ dc.maxBatchSize ∧ 1 ≤ b.staged.length
  | .consuming b _ | .stage b _ => Counts b batches ∧ b.staged.length < dc.maxBatchSize
  | .decoding h _ | .launching h _ => CountsNext h batches
  | .preparing h _ _ _ positions => CountsNext h batches ∧ positions = List.range' n positions.length
  | .synchronizing h _ _ _ positions => CountsNext h batches ∧ positions = List.range' n h.batcher.staged.length
  | .completing h todo => CountsNext h batches ∧
    todo.map (fun c => (c.slot, c.position)) = (List.range' n todo.length).map fun p => (slotAt cfg p, p)

/-- The batches and the staged slots are those of the positions below `d`. -/
structure Buffered (cfg : Config) (dc : DaemonConfig) (d n : Nat) (run : BatcherRun) : Prop where
  slots : run.batches.flatten ++ stagedSlots cfg run.pc = (List.range d).map (slotAt cfg)
  finished : n + unfinished run.pc = run.batches.flatten.length
  sizes : ∀ batch ∈ run.batches, 1 ≤ batch.length ∧ batch.length ≤ dc.maxBatchSize
  place : BatcherPlace cfg dc n run.batches run.pc

variable {d n : Nat} {batches : List (List Nat)} {h : Handling}

lemma suffix_of_range {f : Nat → Nat} {xs ys : List Nat} (h : xs ++ ys = (List.range d).map f) :
    ys = (List.range' xs.length ys.length).map f := by
  have hlen : xs.length + ys.length = d := by
    rw [← List.length_append, h, List.length_map, List.length_range]
  have hdrop : ((List.range d).map f).drop xs.length = ys := by
    rw [← h, List.drop_left]
  rw [← List.map_drop, List.range_eq_range', List.drop_range', ← hlen, Nat.add_sub_cancel_left] at hdrop
  rw [← hdrop, List.length_map, List.length_range']
  simp

lemma handled_slots {run : BatcherRun} (hb : Buffered cfg dc d n run) (hc : CountsNext h run.batches)
    (hstaged : stagedSlots cfg run.pc = []) (hfinished : unfinished run.pc = h.batcher.staged.length) :
    h.batcher.staged = (List.range' n h.batcher.staged.length).map (slotAt cfg) ∧
      n + h.batcher.staged.length = d := by
  obtain ⟨earlier, he, -⟩ := hc
  have hslots := hb.slots
  have hlen := hb.finished
  rw [hstaged, List.append_nil, he, List.flatten_append, List.flatten_singleton] at hslots
  rw [hfinished, he, List.flatten_append, List.flatten_singleton, List.length_append] at hlen
  have hn : n = earlier.flatten.length := by omega
  rw [hn]
  refine ⟨suffix_of_range hslots, ?_⟩
  rw [← List.length_append, hslots, List.length_map, List.length_range]

lemma Buffered.move {pc pc' : DaemonPC} (hb : Buffered cfg dc d n ⟨pc, batches⟩) (hnone : handedSlots pc' = [])
    (hstaged : stagedSlots cfg pc' = stagedSlots cfg pc) (hfinished : unfinished pc' = unfinished pc)
    (hplace : BatcherPlace cfg dc n batches pc') :
    Buffered cfg dc d n ⟨pc', batches ++ handedSlots pc'⟩ := by
  rw [hnone, List.append_nil]
  exact ⟨by rw [hstaged]; exact hb.slots, by rw [hfinished]; exact hb.finished, hb.sizes, hplace⟩

lemma Buffered.enter {pc : DaemonPC} {b : Batcher} (hb : Buffered cfg dc d n ⟨pc, batches⟩)
    (hstaged : stagedSlots cfg pc = b.staged) (hfinished : unfinished pc = 0) (hcounts : Counts b batches)
    (hpos : 1 ≤ b.staged.length) (hle : b.staged.length ≤ dc.maxBatchSize) (now : UInt64)
    (full flushing : Bool) :
    Buffered cfg dc d n ⟨.decoding ⟨b, now, full, flushing⟩ [], batches ++ [b.staged]⟩ where
  slots := by
    have hslots := hb.slots
    rw [hstaged] at hslots
    rw [List.flatten_append, List.flatten_singleton, hslots]
    exact List.append_nil _
  finished := by
    have hlen := hb.finished
    rw [hfinished] at hlen
    rw [List.flatten_append, List.flatten_singleton, List.length_append, ← hlen]
    rfl
  sizes batch hbatch := by
    rcases List.mem_append.mp hbatch with hold | hnew
    · exact hb.sizes batch hold
    · rw [List.mem_singleton.mp hnew]
      exact ⟨hpos, hle⟩
  place := ⟨batches, rfl, hcounts⟩

def Staging (cfg : Config) (dc : DaemonConfig) (g : Ghost) (m : Shared) (trace : Trace) (run : BatcherRun) : Prop :=
  ∃ n, InOrder cfg g m.dequeue trace n ∧ Buffered cfg dc m.dequeue n run

variable {trace : Trace} {pc pc' : DaemonPC}

lemma staging_passive {run : BatcherRun} (ho : InOrder cfg g m.dequeue trace n) (hlabel : Passive label)
    (hrecord : g.record cfg.slotCount (.daemon, label) = g) (hdequeue : m'.dequeue = m.dequeue)
    (hb : Buffered cfg dc m.dequeue n run) :
    Staging cfg dc (g.record cfg.slotCount (.daemon, label)) m' (trace ++ [(.daemon, label)]) run := by
  rw [hrecord]
  refine ⟨n, ?_, ?_⟩
  · rw [hdequeue]
    exact ho.passive hlabel rfl fun _ hq => hq
  · rw [hdequeue]
    exact hb

lemma staging_quiet {run : BatcherRun} (ho : InOrder cfg g m.dequeue trace n) (hdequeue : m'.dequeue = m.dequeue)
    (hb : Buffered cfg dc m.dequeue n run) :
    Staging cfg dc (g.record cfg.slotCount (.daemon, .quiet)) m' (trace ++ [(.daemon, .quiet)]) run :=
  staging_passive ho passive_quiet rfl hdequeue hb

lemma addReady_dequeue (delta : Nat) : (m.addReady delta).dequeue = m.dequeue := rfl

def afterConsume (b : Batcher) : ConsumePC ⊕ Option Nat → DaemonPC
  | .inl cpc => .consuming b cpc
  | .inr none => if b.staged.length = 0 then .loop b else .decide b
  | .inr (some slot) => .stage b slot

lemma consume_staging {b : Batcher} {cpc : ConsumePC} {next : ConsumePC ⊕ Option Nat}
    (ho : InOrder cfg g m.dequeue trace n) (hb : Buffered cfg dc m.dequeue n ⟨.consuming b cpc, batches⟩)
    (h : consumeStep cfg m cpc = (next, m', label)) :
    Staging cfg dc (g.record cfg.slotCount (.daemon, label)) m' (trace ++ [(.daemon, label)])
      ⟨afterConsume b next, batches ++ handedSlots (afterConsume b next)⟩ := by
  obtain ⟨hcounts, hlt⟩ := hb.place
  cases cpc with
  | loadDequeue =>
    cases h
    exact staging_quiet ho rfl (hb.move rfl rfl rfl ⟨hcounts, hlt⟩)
  | loadSequence p =>
    simp only [consumeStep] at h
    split at h
    · cases h
      exact staging_quiet ho rfl (hb.move rfl rfl rfl ⟨hcounts, hlt⟩)
    · split at h
      · cases h
        refine staging_quiet ho rfl ?_
        dsimp only [afterConsume]
        split
        · exact hb.move rfl rfl rfl ⟨hcounts, hlt.le⟩
        · exact hb.move rfl rfl rfl ⟨hcounts, hlt.le, by omega⟩
      · cases h
        exact staging_quiet ho rfl (hb.move rfl rfl rfl ⟨hcounts, hlt⟩)
  | compareExchange p =>
    simp only [consumeStep] at h
    split at h
    · rename_i hp
      subst hp
      cases h
      refine ⟨n, ho.consume, ?_, ?_, ?_, ?_⟩
      · have hslots : batches.flatten ++ b.staged = (List.range m.dequeue).map (slotAt cfg) := hb.slots
        change (batches ++ []).flatten ++ (b.staged ++ [slotAt cfg m.dequeue]) =
          (List.range (m.dequeue + 1)).map (slotAt cfg)
        rw [List.append_nil, ← List.append_assoc, hslots, List.range_succ, List.map_append]
        rfl
      · change n + 0 = (batches ++ []).flatten.length
        rw [List.append_nil]
        exact hb.finished
      · change ∀ batch ∈ batches ++ [], _
        rw [List.append_nil]
        exact hb.sizes
      · change Counts b (batches ++ []) ∧ _
        rw [List.append_nil]
        exact ⟨hcounts, hlt⟩
    · cases h
      exact staging_quiet ho rfl (hb.move rfl rfl rfl ⟨hcounts, hlt⟩)
  | takeReady p =>
    cases h
    exact staging_quiet ho (addReady_dequeue _) (hb.move rfl rfl rfl ⟨hcounts, hlt⟩)

theorem poll_staging {choice : DaemonChoice} (hmax : 1 ≤ dc.maxBatchSize)
    (ho : InOrder cfg g m.dequeue trace n) (hb : Buffered cfg dc m.dequeue n ⟨pc, batches⟩)
    (h : pollStep cfg dc pc m choice = some (pc', m', label)) :
    Staging cfg dc (g.record cfg.slotCount (.daemon, label)) m' (trace ++ [(.daemon, label)])
      ⟨pc', batches ++ handedSlots pc'⟩ := by
  unfold pollStep at h
  split at h
  · cases h
    exact staging_quiet ho rfl (hb.move rfl rfl rfl hb.place)
  · split at h
    · cases h
      exact staging_quiet ho rfl (hb.move rfl rfl rfl hb.place)
    · split at h <;> cases h <;> exact staging_quiet ho rfl (hb.move rfl rfl rfl hb.place)
  · obtain ⟨hcounts, hle⟩ := hb.place
    split at h <;> cases h
    · exact staging_quiet ho rfl (hb.move rfl rfl rfl ⟨hcounts, by assumption⟩)
    · exact staging_quiet ho rfl (hb.move rfl rfl rfl ⟨hcounts, hle, by omega⟩)
  · rename_i b cpc
    generalize hstep : consumeStep cfg m cpc = out at h
    obtain ⟨next, m₁, label₁⟩ := out
    have hstaging := consume_staging ho hb hstep
    rcases next with cpc₁ | _ | slot <;> cases h <;> exact hstaging
  · obtain ⟨hcounts, hlt⟩ := hb.place
    cases h
    refine staging_quiet ho rfl (hb.move rfl rfl rfl ⟨hcounts, ?_⟩)
    rw [List.length_append]
    exact hlt
  · obtain ⟨hcounts, hle, hpos⟩ := hb.place
    dsimp only at h
    split at h <;> cases h
    · exact staging_quiet ho rfl (hb.move rfl rfl rfl ⟨hcounts, hle⟩)
    · exact staging_quiet ho rfl (hb.enter rfl rfl hcounts hpos hle _ _ _)
  · cases h
    exact staging_quiet ho rfl (hb.move rfl rfl rfl hb.place)
  · obtain ⟨hcounts, hle⟩ := hb.place
    split at h <;> cases h
    · exact staging_quiet ho rfl (hb.move rfl rfl rfl ⟨hcounts, hle⟩)
    · exact staging_quiet ho rfl (hb.enter rfl rfl hcounts (by omega) hle _ _ _)
  · cases h

/-- The position that the handler reads from a slot is the one the slot was taken at. -/
lemma position_of_slot (hg : RingGuard cfg dc g m) (ho : InOrder cfg g m.dequeue trace n) {i : Nat}
    {slots : List Nat} (hslots : slots = (List.range' n slots.length).map (slotAt cfg))
    (hd : n + slots.length = m.dequeue) {slot : Nat} (hi : slots[i]? = some slot) :
    m.sequence slot - 1 = n + i := by
  obtain ⟨hlt, -⟩ := List.getElem?_eq_some_iff.mp hi
  rw [hslots, List.getElem?_map, List.getElem?_range' hlt, Nat.one_mul] at hi
  have hslot : slotAt cfg (n + i) = slot := Option.some.inj hi
  have hword := hg.word_of (ho.taken (n + i) (by omega) (by omega)) Stage.noConfusion Stage.noConfusion
  rw [← hslot]
  change m.sequence ((n + i) % cfg.slotCount) - 1 = n + i
  rw [hword]
  rfl

/-- The calls of `complete` go through the positions of the batch in order. -/
lemma completions_places {views : List (Option TransactionView)} {positions : List Nat}
    (hslots : h.batcher.staged = (List.range' n h.batcher.staged.length).map (slotAt cfg))
    (hviews : views.length = h.batcher.staged.length)
    (hpositions : positions = List.range' n h.batcher.staged.length) (status : UInt32) (syncFailed : Bool) :
    (completions h views status syncFailed positions).map (fun c => (c.slot, c.position)) =
      (List.range' n h.batcher.staged.length).map fun p => (slotAt cfg p, p) := by
  have hzip : h.batcher.staged.zip positions =
      (List.range' n h.batcher.staged.length).map fun p => (slotAt cfg p, p) := by
    rw [hpositions]
    nth_rewrite 1 [hslots]
    have hpairs : ((List.range' n h.batcher.staged.length).map (slotAt cfg)).zip
        ((List.range' n h.batcher.staged.length).map id) =
        (List.range' n h.batcher.staged.length).map fun p => (slotAt cfg p, id p) := List.zip_map'
    rwa [List.map_id] at hpairs
  have hlen : (h.batcher.staged.zip positions).length ≤ views.length := by
    rw [List.length_zip, hviews]
    exact Nat.min_le_left ..
  unfold completions
  rw [List.map_map, ← hzip]
  exact List.map_fst_zip hlen

lemma completions_length {views : List (Option TransactionView)} {positions : List Nat}
    (hviews : views.length = h.batcher.staged.length)
    (hpositions : positions = List.range' n h.batcher.staged.length) (status : UInt32) (syncFailed : Bool) :
    (completions h views status syncFailed positions).length = h.batcher.staged.length := by
  simp [completions, hviews, hpositions]

lemma complete_staging {c : Completing} {rest : List Completing}
    (ho : InOrder cfg g m.dequeue trace n) (hb : Buffered cfg dc m.dequeue n ⟨.completing h (c :: rest), batches⟩)
    (hstep : handleStep cfg dc (.completing h (c :: rest)) m .next = some (pc', m', label)) :
    Staging cfg dc (g.record cfg.slotCount (.daemon, label)) m' (trace ++ [(.daemon, label)])
      ⟨pc', batches ++ handedSlots pc'⟩ := by
  obtain ⟨hcounts, hplaces⟩ := hb.place
  rw [List.length_cons, List.range'_succ, List.map_cons, List.map_cons] at hplaces
  obtain ⟨hfirst, hrest⟩ := List.cons.inj hplaces
  obtain ⟨hslot, hposition⟩ := Prod.mk.inj hfirst
  unfold handleStep completeStep at hstep
  cases htodo : c.todo with
  | cons write writes =>
    simp only [htodo] at hstep
    cases hstep
    refine staging_passive ho (passive_write _) rfl rfl (hb.move rfl rfl rfl ⟨hcounts, ?_⟩)
    exact hb.place.2
  | nil =>
    simp only [htodo, hslot, hposition] at hstep
    cases hstep
    refine ⟨n + 1, ho.complete _, ?_, ?_, ?_, ?_⟩
    all_goals dsimp only [handedSlots]; rw [List.append_nil]
    · exact hb.slots
    · have hlen : n + (rest.length + 1) = batches.flatten.length := hb.finished
      change n + 1 + rest.length = batches.flatten.length
      omega
    · exact hb.sizes
    · exact ⟨hcounts, hrest⟩

lemma counts_finish (hc : CountsNext h batches) : Counts h.finish batches := by
  obtain ⟨earlier, rfl, hrequests, hbatches⟩ := hc
  refine ⟨?_, ?_⟩
  · rw [List.flatten_append, List.flatten_singleton, List.length_append, ← hrequests]
    rfl
  · rw [List.length_append, List.length_singleton, ← hbatches]
    unfold Handling.finish
    split <;> dsimp only <;> omega

theorem handle_staging {choice : DaemonChoice} (hg : RingGuard cfg dc g m) (hown : DaemonOwn cfg dc g m pc)
    (ho : InOrder cfg g m.dequeue trace n) (hb : Buffered cfg dc m.dequeue n ⟨pc, batches⟩)
    (h : handleStep cfg dc pc m choice = some (pc', m', label)) :
    Staging cfg dc (g.record cfg.slotCount (.daemon, label)) m' (trace ++ [(.daemon, label)])
      ⟨pc', batches ++ handedSlots pc'⟩ := by
  unfold handleStep at h
  split at h
  · rename_i views
    split at h <;> cases h
    · exact staging_quiet ho rfl (hb.move (by cases views <;> rfl) rfl rfl hb.place)
    · exact staging_quiet ho rfl (hb.move rfl rfl rfl hb.place)
  · split at h <;> cases h <;> exact staging_quiet ho rfl (hb.move rfl rfl rfl ⟨hb.place, rfl⟩)
  · rename_i handling views status launched positions
    obtain ⟨hcounts, hpositions⟩ := hb.place
    obtain ⟨hslots, hd⟩ := handled_slots hb hcounts rfl rfl
    split at h <;> cases h
    · rename_i slot hslot
      refine staging_quiet ho rfl (hb.move rfl rfl rfl ⟨hcounts, ?_⟩)
      rw [position_of_slot hg ho hslots hd hslot, List.length_append, List.length_singleton, List.range'_1_concat,
        ← hpositions]
    · rename_i hnone
      refine staging_quiet ho rfl (hb.move rfl rfl rfl ⟨hcounts, ?_⟩)
      have hall := congrArg List.length (gathered_all hown.2.2 hnone)
      rw [List.length_map] at hall
      rw [← hall]
      exact hpositions
  · rename_i handling views status launched positions ready
    obtain ⟨hcounts, hpositions⟩ := hb.place
    obtain ⟨hslots, -⟩ := handled_slots hb hcounts rfl rfl
    have hviews : views.length = handling.batcher.staged.length := by
      rw [hown.2.1, List.length_map]
    cases h
    have hlen := completions_length hviews hpositions status (launched && !ready)
    refine staging_quiet ho rfl (hb.move rfl rfl hlen ⟨hcounts, ?_⟩)
    rw [hlen]
    exact completions_places hslots hviews hpositions status (launched && !ready)
  · rename_i handling todo
    cases todo with
    | cons c rest => exact complete_staging ho hb h
    | nil =>
      obtain ⟨hcounts, -⟩ := hb.place
      cases h
      refine staging_quiet ho rfl ?_
      split
      · exact hb.move rfl rfl rfl ⟨counts_finish hcounts, Nat.zero_le _⟩
      · exact hb.move rfl rfl rfl ⟨counts_finish hcounts, Nat.zero_le _⟩
  · cases h

lemma batcherStep_staging {choice : BatcherChoice} (hmax : 1 ≤ dc.maxBatchSize) (hg : RingGuard cfg dc g m)
    (hown : DaemonOwn cfg dc g m pc) (ho : InOrder cfg g m.dequeue trace n)
    (hb : Buffered cfg dc m.dequeue n ⟨pc, batches⟩)
    (h : batcherStep cfg dc pc m choice = some (pc', m', label)) :
    Staging cfg dc (g.record cfg.slotCount (.daemon, label)) m' (trace ++ [(.daemon, label)])
      ⟨pc', batches ++ handedSlots pc'⟩ := by
  cases choice with
  | pollOnce =>
    simp only [batcherStep] at h
    split at h
    · split at h <;> cases h <;> exact staging_quiet ho rfl (hb.move rfl rfl rfl hb.place)
    · split at h <;> cases h <;> exact staging_quiet ho rfl (hb.move rfl rfl rfl hb.place)
    · cases h
  | flush =>
    simp only [batcherStep] at h
    split at h <;> cases h <;> exact staging_quiet ho rfl (hb.move rfl rfl rfl hb.place)
  | daemon choice =>
    rcases Option.or_eq_some_iff.mp h with hpoll | ⟨-, hhandle⟩
    · exact poll_staging hmax ho hb hpoll
    · exact handle_staging hg hown ho hb hhandle

end buffer

section run

variable {s s' : BatcherSystem} {trace : Trace}

structure BatcherReached (cfg : Config) (dc : DaemonConfig) (s : BatcherSystem) (trace : Trace) (g : Ghost) :
    Prop where
  guard : RingGuard cfg dc g s.shared
  own : ∀ t, BatcherOwn cfg dc t (s.locals t) g s.shared
  staging : Staging cfg dc g s.shared trace (s.locals .daemon)

lemma batcherReached_step (hmax : 1 ≤ dc.maxBatchSize) (hr : BatcherReached cfg dc s trace g)
    {a : (t : Party) × BatcherChoices t} {event : Party × Label}
    (h : stepThread (batcherProgram cfg dc) s a = some (s', event)) :
    BatcherReached cfg dc s' (trace ++ [event]) (g.record cfg.slotCount event) := by
  obtain ⟨hguard, hown⟩ := stepThread_invariant (batcherProgram_relyGuarantee cfg dc) hr.guard hr.own h
  refine ⟨hguard, hown, ?_⟩
  obtain ⟨next, shared, label, hp, rfl, rfl⟩ := stepThread_eq h
  obtain ⟨n, ho, hb⟩ := hr.staging
  obtain ⟨t, choice⟩ := a
  by_cases ht : t = .daemon
  · subst ht
    obtain ⟨⟨pc, m₁, label₁⟩, hstep, he⟩ := Option.map_eq_some_iff.mp hp
    cases he
    dsimp only
    rw [Function.update_self]
    exact batcherStep_staging hmax hr.guard (hr.own .daemon) ho hb hstep
  · obtain ⟨heffect, -⟩ := batcherOwn_step t hr.guard (hr.own t) hp
    have hconsumes : t.consumes = false := by
      cases t with
      | daemon => exact absurd rfl ht
      | consumer k => cases hp
      | _ => rfl
    have hdequeue := effect_dequeue hconsumes heffect
    dsimp only
    rw [Function.update_of_ne (Ne.symm ht)]
    refine ⟨n, ?_, ?_⟩
    · rw [hdequeue]
      exact ho.others hr.guard hconsumes heffect
    · rw [hdequeue]
      exact hb

variable (cfg dc) in
lemma batcherReached_initial : BatcherReached cfg dc (BatcherSystem.initial cfg) [] Ghost.initial where
  guard := guard_initial cfg dc
  own := batcherOwn_initial cfg dc
  staging := by
    refine ⟨0, ⟨fun q x hx => ?_, rfl, rfl, fun q _ hq => ?_⟩, rfl, rfl, fun batch hbatch => ?_, ⟨rfl, rfl⟩, ?_⟩
    · cases hx
    · exact absurd hq (Nat.not_lt_zero q)
    · cases hbatch
    · exact Nat.zero_le _

theorem batcher_reached (hmax : 1 ≤ dc.maxBatchSize) {actions : List ((t : Party) × BatcherChoices t)}
    (h : runThreads (batcherProgram cfg dc) (BatcherSystem.initial cfg) actions = some (s, trace)) :
    ∃ g, BatcherReached cfg dc s trace g := by
  refine runThreads_induction (P := fun s trace => ∃ g, BatcherReached cfg dc s trace g) ?_ []
    ⟨_, batcherReached_initial cfg dc⟩ actions h
  rintro s trace a s' event ⟨g, hr⟩ hs
  exact ⟨_, batcherReached_step hmax hr hs⟩

/-- In every reachable state the next staged slot has room, and between two calls of `poll_once` or
`flush` nothing is lost or duplicated: the batches handed over and the staged slots are those of
the positions below the dequeue cursor in order, every batch has between one and `maxBatchSize`
slots, the handed slots have been completed once each, in order, with the positions they were taken
at, and the metrics count the batches. -/
theorem staging_lossless (cfg : Config) (dc : DaemonConfig) (hmin : 1 ≤ dc.maxBatchSize)
    (actions : List ((t : Party) × BatcherChoices t)) (s : BatcherSystem) (trace : Trace)
    (h : runThreads (batcherProgram cfg dc) (BatcherSystem.initial cfg) actions = some (s, trace)) :
    (∀ b slot, (s.locals .daemon).pc = .stage b slot → b.staged.length < dc.maxBatchSize) ∧
    ∀ b, (s.locals .daemon).pc = .loop b ∨ (s.locals .daemon).pc = .finished b →
      (s.locals .daemon).batches.flatten ++ b.staged = (List.range s.shared.dequeue).map (slotAt cfg) ∧
      (∀ batch ∈ (s.locals .daemon).batches, 1 ≤ batch.length ∧ batch.length ≤ dc.maxBatchSize) ∧
      b.staged.length ≤ dc.maxBatchSize ∧
      consumedPositions trace = List.range s.shared.dequeue ∧
      completionStores trace =
        (List.range (s.locals .daemon).batches.flatten.length).map (fun p => (slotAt cfg p, p + 2)) ∧
      b.requests = (s.locals .daemon).batches.flatten.length ∧
      b.fullBatches + b.deadlineBatches = (s.locals .daemon).batches.length := by
  obtain ⟨g, hr⟩ := batcher_reached hmin h
  obtain ⟨n, ho, hb⟩ := hr.staging
  refine ⟨fun b slot hpc => ?_, fun b hpc => ?_⟩
  · have hplace := hb.place
    rw [hpc] at hplace
    exact hplace.2
  · have hslots := hb.slots
    have hfinished := hb.finished
    have hplace := hb.place
    have hcompleted := ho.completed
    rcases hpc with hpc | hpc
    all_goals
      rw [hpc] at hslots hfinished hplace
      obtain ⟨⟨hrequests, hbatches⟩, hle⟩ := hplace
      rw [show n = _ from hfinished] at hcompleted
      exact ⟨hslots, hb.sizes, hle, ho.consumed, hcompleted, hrequests, hbatches⟩

def pairBatches : DaemonConfig := ⟨2, 1000, false, fun _ => some ⟨3, 12000000⟩⟩

/-- One request is staged by `poll_once`, which returns without a batch, and handed over by `flush`. -/
def flushedRun : List ((t : Party) × BatcherChoices t) :=
  let daemon (choices : List BatcherChoice) : List ((t : Party) × BatcherChoices t) :=
    choices.map fun choice => ⟨.daemon, choice⟩
  (⟨.producer 0, ProducerChoice.produce ⟨[1, 2], 3, 4⟩⟩ ::
    List.replicate 15 ⟨.producer 0, ProducerChoice.next⟩) ++
  daemon (BatcherChoice.pollOnce :: List.replicate 9 (.daemon .next) ++ [BatcherChoice.daemon (.clock 5)]) ++
  daemon ([BatcherChoice.flush, .daemon (.clock 6), .daemon .next, .daemon .next, .daemon (.cuda true), .daemon .next,
    .daemon .next, .daemon (.cuda true)] ++ List.replicate 6 (BatcherChoice.daemon .next))

theorem staging_lossless_flushed : ∃ (s : BatcherSystem) (trace : Trace) (b : Batcher),
    runThreads (batcherProgram fourSlots pairBatches) (BatcherSystem.initial fourSlots) flushedRun = some (s, trace) ∧
      (s.locals .daemon).pc = .finished b ∧ (s.locals .daemon).batches = [[0]] ∧
      completionStores trace = [(0, 2)] ∧ b.requests = 1 := by
  have hsome : (runThreads (batcherProgram fourSlots pairBatches) (BatcherSystem.initial fourSlots)
      flushedRun).isSome := by rfl
  obtain ⟨⟨s, trace⟩, hrun⟩ := Option.isSome_iff_exists.mp hsome
  have hlocal : (runThreads (batcherProgram fourSlots pairBatches) (BatcherSystem.initial fourSlots)
      flushedRun).map (fun x => x.1.locals .daemon) = some ⟨.finished ⟨[], 0, 1, 0, 1⟩, [[0]]⟩ := by rfl
  rw [hrun] at hlocal
  have hdaemon : s.locals .daemon = (⟨.finished ⟨[], 0, 1, 0, 1⟩, [[0]]⟩ : BatcherRun) := Option.some.inj hlocal
  obtain ⟨-, hboundary⟩ := staging_lossless fourSlots pairBatches (by decide) flushedRun s trace hrun
  have hpc : (s.locals .daemon).pc = .finished ⟨[], 0, 1, 0, 1⟩ := by rw [hdaemon]
  obtain ⟨-, -, -, -, hcompleted, hrequests, -⟩ := hboundary _ (.inr hpc)
  rw [hdaemon] at hcompleted hrequests
  exact ⟨s, trace, _, hrun, hpc, by rw [hdaemon], hcompleted, hrequests⟩

end run

end FraudDetection.Proofs
