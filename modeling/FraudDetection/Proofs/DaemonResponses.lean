import FraudDetection.Proofs.RingSafety

/-!
# The responses of a batch

`process_batch` over arbitrary slot contents, with the two outcomes of the CUDA graph chosen freely
and other threads running in between, which leave the slots of the batch alone. It returns after a
number of steps that depends on the size of the batch only, and it has then completed every slot
once, in order, with an answer that is a function of the slot's own data and of the two outcomes.
-/

namespace FraudDetection.Proofs
open FraudDetection.Library
open FraudDetection.Ring

variable {cfg : Config} {dc : DaemonConfig} {g : Ghost} {m m' m₀ : Shared} {label : Label}

section runs

structure HandlerEvent where
  choice : DaemonChoice
  label : Label
  memory : Shared

def heldSlots : DaemonPC → List Nat
  | .decoding h _ | .launching h _ | .preparing h _ _ _ _ | .synchronizing h _ _ _ _ => h.batcher.staged
  | .completing _ todo => todo.map Completing.slot
  | _ => []

def Undisturbed (slots : List Nat) (m m' : Shared) : Prop :=
  ∀ slot ∈ slots, m'.data slot = m.data slot ∧ m'.sequence slot = m.sequence slot

/-- `process_batch` from its call, interleaved with others that leave its slots alone. -/
inductive ProcessRun (cfg : Config) (dc : DaemonConfig) (h₀ : Handling) (m₀ : Shared) :
    List HandlerEvent → DaemonPC → Shared → Prop where
  | start : ProcessRun cfg dc h₀ m₀ [] (.decoding h₀ []) m₀
  | step {events : List HandlerEvent} {pc pc' : DaemonPC} {m m' : Shared} {choice : DaemonChoice} {label : Label}
      (hrun : ProcessRun cfg dc h₀ m₀ events pc m)
      (hstep : handleStep cfg dc pc m choice = some (pc', m', label)) :
      ProcessRun cfg dc h₀ m₀ (events ++ [⟨choice, label, m'⟩]) pc' m'
  | others {events : List HandlerEvent} {pc : DaemonPC} {m m' : Shared}
      (hrun : ProcessRun cfg dc h₀ m₀ events pc m) (hkept : Undisturbed (heldSlots pc) m m') :
      ProcessRun cfg dc h₀ m₀ events pc m'

def outcomeOf : DaemonChoice → Option Bool
  | .cuda ready => some ready
  | _ => none

def answerOf : Label → Option (Nat × Nat × Response)
  | .complete slot value response => some (slot, value, response)
  | _ => none

/-- The outcomes of launching and of synchronizing, in order. -/
def cudaOutcomes (events : List HandlerEvent) : List Bool := events.filterMap fun e => outcomeOf e.choice

/-- The completed slots with the stored word and the response, in order. -/
def answers (events : List HandlerEvent) : List (Nat × Nat × Response) :=
  events.filterMap fun e => answerOf e.label

def remaining : DaemonPC → Nat
  | .decoding h views => (h.batcher.staged.length - views.length) + (6 * h.batcher.staged.length + 5)
  | .launching h _ => 6 * h.batcher.staged.length + 4
  | .preparing h _ _ _ positions => (h.batcher.staged.length - positions.length) + (5 * h.batcher.staged.length + 3)
  | .synchronizing h _ _ _ _ => 5 * h.batcher.staged.length + 2
  | .completing _ todo => (todo.map fun c => c.todo.length + 1).sum + 1
  | _ => 0

/-- The answer to a slot: invalid input, the reference response, or unavailable if the graph was to
run and did not. -/
def answer (cfg : Config) (dc : DaemonConfig) (launched synchronized : Bool) (data : SlotData) (now : UInt64) :
    Response :=
  match decodeTransaction cfg dc data with
  | none => ⟨422, 0, 0, now⟩
  | some view =>
    if dc.cudaGraphsReady && !(launched && synchronized) then ⟨503, 0, 0, now⟩
    else ⟨200, referenceDecision view, referenceScore view, now⟩

variable {launched synchronized : Bool} {data : SlotData} {now : UInt64} {view : TransactionView}

lemma answer_invalid (h : decodeTransaction cfg dc data = none) :
    answer cfg dc launched synchronized data now = ⟨422, 0, 0, now⟩ := by
  rw [answer, h]

lemma answer_scored (h : decodeTransaction cfg dc data = some view)
    (hready : dc.cudaGraphsReady = false ∨ launched = true ∧ synchronized = true) :
    answer cfg dc launched synchronized data now =
      ⟨200, referenceDecision view, referenceScore view, now⟩ := by
  rw [answer, h]
  rcases hready with hready | ⟨hlaunched, hsynchronized⟩
  · simp [hready]
  · simp [hlaunched, hsynchronized]

lemma answer_unavailable (h : decodeTransaction cfg dc data = some view)
    (hfailed : dc.cudaGraphsReady = true ∧ (launched = false ∨ synchronized = false)) :
    answer cfg dc launched synchronized data now = ⟨503, 0, 0, now⟩ := by
  rw [answer, h]
  obtain ⟨hready, hlaunched | hsynchronized⟩ := hfailed
  · simp [hready, hlaunched]
  · simp [hready, hsynchronized]

lemma answer_cases (cfg : Config) (dc : DaemonConfig) (launched synchronized : Bool) (data : SlotData)
    (now : UInt64) :
    decodeTransaction cfg dc data = none ∧ (answer cfg dc launched synchronized data now).status = 422 ∨
      (decodeTransaction cfg dc data).isSome ∧ ((answer cfg dc launched synchronized data now).status = 200 ∨
        (answer cfg dc launched synchronized data now).status = 503) := by
  cases h : decodeTransaction cfg dc data with
  | none => exact .inl ⟨rfl, by rw [answer_invalid h]⟩
  | some view =>
    refine .inr ⟨rfl, ?_⟩
    by_cases hready : dc.cudaGraphsReady = false ∨ launched = true ∧ synchronized = true
    · exact .inl (by rw [answer_scored h hready])
    · refine .inr ?_
      rw [answer_unavailable h]
      revert hready
      cases dc.cudaGraphsReady <;> cases launched <;> cases synchronized <;> decide

lemma answer_invalid_iff :
    ((answer cfg dc launched synchronized data now).status = 422 ∧
        (answer cfg dc launched synchronized data now).decision = 0 ∧
        (answer cfg dc launched synchronized data now).score = 0) ↔
      data.payloadSize = 0 ∨ decodeTransaction cfg dc data = none := by
  have hempty : data.payloadSize = 0 → decodeTransaction cfg dc data = none := by
    intro hzero
    simp [decodeTransaction, hzero]
  rw [or_iff_right_of_imp hempty]
  constructor
  · rintro ⟨hstatus, -⟩
    rcases answer_cases cfg dc launched synchronized data now with ⟨hnone, -⟩ | ⟨-, hother | hother⟩
    · exact hnone
    · exact absurd (hstatus.symm.trans hother) (by decide)
    · exact absurd (hstatus.symm.trans hother) (by decide)
  · intro hnone
    rw [answer_invalid hnone]
    exact ⟨rfl, rfl, rfl⟩

lemma answer_accepted :
    ∃ status, DaemonResponseStatus.tryFrom (answer cfg dc launched synchronized data now).status = .ok status := by
  rcases answer_cases cfg dc launched synchronized data now with ⟨-, hstatus⟩ | ⟨-, hstatus | hstatus⟩
  · exact ⟨.invalidInput, by rw [hstatus]; rfl⟩
  · exact ⟨.scored, by rw [hstatus]; rfl⟩
  · exact ⟨.unavailable, by rw [hstatus]; rfl⟩

end runs

section place

variable {h₀ : Handling} {outcomes : List Bool} {done : List (Nat × Nat × Response)}

def entry (cfg : Config) (dc : DaemonConfig) (h₀ : Handling) (m₀ : Shared) (launched synchronized : Bool)
    (slot : Nat) : Nat × Nat × Response :=
  (slot, positionAt m₀ slot + 2, answer cfg dc launched synchronized (m₀.data slot) h₀.now)

/-- Status and flag after the launch, whose outcome counts only where a graph was to run. -/
def AfterLaunch (dc : DaemonConfig) (views : List (Option TransactionView)) (ready : Bool) (status : UInt32)
    (launched : Bool) : Prop :=
  let used := dc.cudaGraphsReady && views.countP Option.isSome != 0
  status = (if used && !ready then 503 else 200) ∧ launched = (used && ready)

/-- The rest of the completions: those of the last slots, each with writes that give its response. -/
structure CompletesRest (cfg : Config) (dc : DaemonConfig) (h₀ : Handling) (m₀ m : Shared)
    (launched synchronized : Bool) (done : List (Nat × Nat × Response)) (todo : List Completing) : Prop where
  slots : done ++ todo.map (fun c => (c.slot, c.position + 2, c.response)) =
    h₀.batcher.staged.map (entry cfg dc h₀ m₀ launched synchronized)
  nodup : (todo.map Completing.slot).Nodup
  writes : ∀ c ∈ todo, (c.todo.foldl FieldWrite.apply (m.data c.slot)).response = c.response

def ProcessPlace (cfg : Config) (dc : DaemonConfig) (h₀ : Handling) (m₀ m : Shared) (outcomes : List Bool)
    (done : List (Nat × Nat × Response)) : DaemonPC → Prop
  | .decoding h views => h = h₀ ∧ Undisturbed h₀.batcher.staged m₀ m ∧ outcomes = [] ∧ done = [] ∧
    Gathered (decodedAt cfg dc m₀) h₀.batcher.staged views
  | .launching h views => h = h₀ ∧ Undisturbed h₀.batcher.staged m₀ m ∧ outcomes = [] ∧ done = [] ∧
    views = h₀.batcher.staged.map (decodedAt cfg dc m₀)
  | .preparing h views status launched positions => h = h₀ ∧ Undisturbed h₀.batcher.staged m₀ m ∧ done = [] ∧
    views = h₀.batcher.staged.map (decodedAt cfg dc m₀) ∧
    (∃ ready, outcomes = [ready] ∧ AfterLaunch dc views ready status launched) ∧
    Gathered (positionAt m₀) h₀.batcher.staged positions
  | .synchronizing h views status launched positions => h = h₀ ∧ Undisturbed h₀.batcher.staged m₀ m ∧
    done = [] ∧ views = h₀.batcher.staged.map (decodedAt cfg dc m₀) ∧
    (∃ ready, outcomes = [ready] ∧ AfterLaunch dc views ready status launched) ∧
    positions = h₀.batcher.staged.map (positionAt m₀)
  | .completing h todo => h = h₀ ∧ ∃ launched synchronized, outcomes = [launched, synchronized] ∧
    CompletesRest cfg dc h₀ m₀ m launched synchronized done todo
  | .loop b | .finished b => b = h₀.finish ∧ ∃ launched synchronized, outcomes = [launched, synchronized] ∧
    done = h₀.batcher.staged.map (entry cfg dc h₀ m₀ launched synchronized)
  | _ => False

/-- The answer of the code is the one above: a slot with a transaction makes the graph run. -/
lemma respond_eq_answer {views : List (Option TransactionView)} {ready synchronized launched : Bool}
    {status : UInt32} (hlaunch : AfterLaunch dc views ready status launched) {data : SlotData}
    (hview : decodeTransaction cfg dc data ∈ views) (now : UInt64) :
    respond (decodeTransaction cfg dc data) status (launched && !synchronized) now =
      answer cfg dc ready synchronized data now := by
  obtain ⟨rfl, rfl⟩ := hlaunch
  unfold answer
  cases hv : decodeTransaction cfg dc data with
  | none => rfl
  | some view =>
    have hcount : views.countP Option.isSome ≠ 0 := by
      have hpos : 0 < views.countP Option.isSome := List.countP_pos_iff.mpr ⟨_, hview, by rw [hv]; rfl⟩
      omega
    cases hready : dc.cudaGraphsReady <;> cases ready <;> cases synchronized <;>
      simp [respond, hcount]

lemma completions_eq {f : Nat → Option TransactionView} {pos : Nat → Nat} (h : Handling) (status : UInt32)
    (syncFailed : Bool) :
    completions h (h.batcher.staged.map f) status syncFailed (h.batcher.staged.map pos) =
      h.batcher.staged.map fun slot => Completing.start slot (pos slot) (respond (f slot) status syncFailed h.now) := by
  unfold completions
  generalize h.batcher.staged = slots
  induction slots with
  | nil => rfl
  | cons slot slots ih =>
    simp only [List.map_cons, List.zip_cons_cons, ih]

section steps

variable {h : Handling} {views : List (Option TransactionView)} {status : UInt32} {launched : Bool}
  {positions : List Nat} {todo : List Completing} {choice : DaemonChoice} {pc pc' : DaemonPC}

def ProcessNext (cfg : Config) (dc : DaemonConfig) (h₀ : Handling) (m₀ m' : Shared) (outcomes : List Bool)
    (done : List (Nat × Nat × Response)) (choice : DaemonChoice) (label : Label) (pc pc' : DaemonPC) : Prop :=
  ProcessPlace cfg dc h₀ m₀ m' (outcomes ++ (outcomeOf choice).toList) (done ++ (answerOf label).toList) pc' ∧
    remaining pc' + 1 = remaining pc

lemma place_decoding (hp : ProcessPlace cfg dc h₀ m₀ m outcomes done (.decoding h views))
    (hstep : handleStep cfg dc (.decoding h views) m choice = some (pc', m', label)) :
    ProcessNext cfg dc h₀ m₀ m' outcomes done choice label (.decoding h views) pc' := by
  obtain ⟨rfl, hsame, rfl, rfl, hviews⟩ := hp
  cases choice with
  | next =>
    unfold handleStep at hstep
    dsimp only at hstep
    split at hstep
    · rename_i slot hslot
      cases hstep
      have hlt := (List.getElem?_eq_some_iff.mp hslot).1
      refine ⟨⟨rfl, hsame, rfl, rfl, ?_⟩, ?_⟩
      · rw [(hsame slot (List.mem_of_getElem? hslot)).1]
        exact gathered_snoc hviews hslot
      · simp only [remaining, List.length_append, List.length_singleton]
        omega
    · rename_i hnone
      cases hstep
      have hlen := List.getElem?_eq_none_iff.mp hnone
      refine ⟨⟨rfl, hsame, rfl, rfl, gathered_all hviews hnone⟩, ?_⟩
      simp only [remaining]
      omega
  | stop | clock | cuda => cases hstep

lemma place_launching (hp : ProcessPlace cfg dc h₀ m₀ m outcomes done (.launching h views))
    (hstep : handleStep cfg dc (.launching h views) m choice = some (pc', m', label)) :
    ProcessNext cfg dc h₀ m₀ m' outcomes done choice label (.launching h views) pc' := by
  obtain ⟨rfl, hsame, rfl, rfl, hviews⟩ := hp
  cases choice with
  | cuda ready =>
    unfold handleStep at hstep
    dsimp only at hstep
    split at hstep
    · rename_i hused
      cases hstep
      refine ⟨⟨rfl, hsame, rfl, hviews, ⟨ready, rfl, ?_, ?_⟩, rfl⟩, ?_⟩
      · cases ready <;> simp [hused]
      · simp [hused]
      · simp only [remaining, List.length_nil]
        omega
    · rename_i hused
      cases hstep
      refine ⟨⟨rfl, hsame, rfl, hviews, ⟨ready, rfl, ?_, ?_⟩, rfl⟩, ?_⟩
      · simp [hused]
      · simp [hused]
      · simp only [remaining, List.length_nil]
        omega
  | next | stop | clock => cases hstep

lemma place_preparing (hp : ProcessPlace cfg dc h₀ m₀ m outcomes done (.preparing h views status launched positions))
    (hstep : handleStep cfg dc (.preparing h views status launched positions) m choice = some (pc', m', label)) :
    ProcessNext cfg dc h₀ m₀ m' outcomes done choice label (.preparing h views status launched positions) pc' := by
  obtain ⟨rfl, hsame, rfl, hviews, ⟨ready, rfl, hlaunch⟩, hpositions⟩ := hp
  cases choice with
  | next =>
    unfold handleStep at hstep
    dsimp only at hstep
    split at hstep
    · rename_i slot hslot
      cases hstep
      have hlt := (List.getElem?_eq_some_iff.mp hslot).1
      refine ⟨⟨rfl, hsame, rfl, hviews, ⟨ready, rfl, hlaunch⟩, ?_⟩, ?_⟩
      · rw [(hsame slot (List.mem_of_getElem? hslot)).2]
        exact gathered_snoc hpositions hslot
      · simp only [remaining, List.length_append, List.length_singleton]
        omega
    · rename_i hnone
      cases hstep
      have hlen := List.getElem?_eq_none_iff.mp hnone
      refine ⟨⟨rfl, hsame, rfl, hviews, ⟨ready, rfl, hlaunch⟩, gathered_all hpositions hnone⟩, ?_⟩
      simp only [remaining]
      omega
  | stop | clock | cuda => cases hstep

lemma place_synchronizing (hnodup : h₀.batcher.staged.Nodup)
    (hp : ProcessPlace cfg dc h₀ m₀ m outcomes done (.synchronizing h views status launched positions))
    (hstep : handleStep cfg dc (.synchronizing h views status launched positions) m choice = some (pc', m', label)) :
    ProcessNext cfg dc h₀ m₀ m' outcomes done choice label (.synchronizing h views status launched positions) pc' := by
  obtain ⟨rfl, hsame, rfl, hviews, ⟨ready, rfl, hlaunch⟩, hpositions⟩ := hp
  cases choice with
  | cuda synchronized =>
    unfold handleStep at hstep
    dsimp only at hstep
    cases hstep
    have hcompletions : completions h views status (launched && !synchronized) positions =
        h.batcher.staged.map fun slot => Completing.start slot (positionAt m₀ slot)
          (answer cfg dc ready synchronized (m₀.data slot) h.now) := by
      rw [hviews, hpositions, completions_eq]
      refine List.map_congr_left fun slot hslot => ?_
      have hmem : decodeTransaction cfg dc (m₀.data slot) ∈ views := by
        rw [hviews]
        exact List.mem_map.mpr ⟨slot, hslot, rfl⟩
      rw [← respond_eq_answer hlaunch hmem]
      rfl
    rw [hcompletions]
    refine ⟨⟨rfl, ready, synchronized, rfl, ?_, ?_, ?_⟩, ?_⟩
    · rw [List.map_map]
      rfl
    · rw [List.map_map]
      exact (List.map_id _).symm ▸ hnodup
    · intro c hc
      obtain ⟨slot, -, rfl⟩ := List.mem_map.mp hc
      rfl
    · simp only [remaining, List.map_map]
      simp [Function.comp_def, Completing.start]
      omega
  | next | stop | clock => cases hstep

lemma place_completing (hp : ProcessPlace cfg dc h₀ m₀ m outcomes done (.completing h todo))
    (hstep : handleStep cfg dc (.completing h todo) m choice = some (pc', m', label)) :
    ProcessNext cfg dc h₀ m₀ m' outcomes done choice label (.completing h todo) pc' := by
  obtain ⟨rfl, launched, synchronized, rfl, hslots, hnodup, hwrites⟩ := hp
  cases choice with
  | next =>
    match todo with
    | [] =>
      unfold handleStep at hstep
      dsimp only at hstep
      cases hstep
      rw [List.map_nil, List.append_nil] at hslots
      split
      all_goals
        refine ⟨⟨rfl, launched, synchronized, rfl, ?_⟩, rfl⟩
        rw [← hslots]
        exact List.append_nil _
    | ⟨slot, position, response, []⟩ :: rest =>
      unfold handleStep completeStep at hstep
      dsimp only at hstep
      cases hstep
      refine ⟨⟨rfl, launched, synchronized, rfl, ?_, (List.nodup_cons.mp hnodup).2, fun c hc => ?_⟩, ?_⟩
      · rw [← hslots, List.map_cons, List.append_assoc]
        rfl
      · rw [setSequence_data]
        exact hwrites c (List.mem_cons_of_mem _ hc)
      · simp only [remaining, List.map_cons, List.sum_cons, List.length_nil]
        omega
    | ⟨slot, position, response, write :: writes⟩ :: rest =>
      unfold handleStep completeStep at hstep
      dsimp only at hstep
      cases hstep
      refine ⟨⟨rfl, launched, synchronized, rfl, ?_, hnodup, fun c hc => ?_⟩, ?_⟩
      · rw [← hslots]
        exact congrArg (· ++ _) (List.append_nil done)
      · rcases List.mem_cons.mp hc with rfl | hc
        · rw [setData_data, Function.update_self]
          exact hwrites _ List.mem_cons_self
        · -- the other slots are different ones
          have hne : c.slot ≠ slot := by
            intro he
            exact (List.nodup_cons.mp hnodup).1 (List.mem_map.mpr ⟨c, hc, he⟩)
          rw [setData_data, Function.update_of_ne hne]
          exact hwrites c (List.mem_cons_of_mem _ hc)
      · simp only [remaining, List.map_cons, List.sum_cons, List.length_cons]
        omega
  | stop | clock | cuda => cases hstep

theorem place_step (hnodup : h₀.batcher.staged.Nodup) (hp : ProcessPlace cfg dc h₀ m₀ m outcomes done pc)
    (hstep : handleStep cfg dc pc m choice = some (pc', m', label)) :
    ProcessNext cfg dc h₀ m₀ m' outcomes done choice label pc pc' := by
  cases pc with
  | decoding => exact place_decoding hp hstep
  | launching => exact place_launching hp hstep
  | preparing => exact place_preparing hp hstep
  | synchronizing => exact place_synchronizing hnodup hp hstep
  | completing => exact place_completing hp hstep
  | loop | poll | consuming | stage | decide | stopping | flushing | finished =>
    cases choice <;> cases hstep

lemma place_others (hp : ProcessPlace cfg dc h₀ m₀ m outcomes done pc) (hkept : Undisturbed (heldSlots pc) m m') :
    ProcessPlace cfg dc h₀ m₀ m' outcomes done pc := by
  have htrans : ∀ {slots : List Nat}, Undisturbed slots m₀ m → Undisturbed slots m m' → Undisturbed slots m₀ m' := by
    intro slots hbefore hafter slot hslot
    exact ⟨(hafter slot hslot).1.trans (hbefore slot hslot).1, (hafter slot hslot).2.trans (hbefore slot hslot).2⟩
  cases pc with
  | decoding | launching | preparing | synchronizing =>
    obtain ⟨rfl, hsame, hrest⟩ := hp
    exact ⟨rfl, htrans hsame hkept, hrest⟩
  | completing =>
    obtain ⟨rfl, launched, synchronized, houtcomes, hslots, hnodup, hwrites⟩ := hp
    refine ⟨rfl, launched, synchronized, houtcomes, hslots, hnodup, fun c hc => ?_⟩
    rw [(hkept c.slot (List.mem_map_of_mem hc)).1]
    exact hwrites c hc
  | loop | finished => exact hp
  | poll | consuming | stage | decide | stopping | flushing => exact hp.elim

/-- The memory after a completion holds the response and the word of the event. -/
lemma place_stored (hp : ProcessPlace cfg dc h₀ m₀ m outcomes done pc)
    (hstep : handleStep cfg dc pc m choice = some (pc', m', label)) {slot value : Nat} {response : Response}
    (hlabel : label = .complete slot value response) :
    m'.sequence slot = value ∧ (m'.data slot).response = response := by
  subst hlabel
  unfold handleStep at hstep
  split at hstep
  · split at hstep <;> cases hstep
  · split at hstep <;> cases hstep
  · split at hstep <;> cases hstep
  · cases hstep
  · rename_i h todo
    obtain ⟨-, -, -, -, -, -, hwrites⟩ := hp
    match todo with
    | [] => cases hstep
    | ⟨slot, position, response, []⟩ :: rest =>
      simp only [completeStep] at hstep
      cases hstep
      rw [setSequence_sequence, setSequence_data, Function.update_self]
      exact ⟨rfl, hwrites _ List.mem_cons_self⟩
    | ⟨slot, position, response, write :: writes⟩ :: rest =>
      simp only [completeStep] at hstep
      cases hstep
  · cases hstep

end steps

end place

section batch

variable {h₀ : Handling} {events : List HandlerEvent} {pc : DaemonPC}

/-- Along a run: where the handler is, how far, and what its completions have stored. -/
theorem processRun_place (hnodup : h₀.batcher.staged.Nodup) (hrun : ProcessRun cfg dc h₀ m₀ events pc m) :
    ProcessPlace cfg dc h₀ m₀ m (cudaOutcomes events) (answers events) pc ∧
      events.length + remaining pc = 7 * h₀.batcher.staged.length + 5 ∧
      ∀ e ∈ events, ∀ slot value response, e.label = .complete slot value response →
        e.memory.sequence slot = value ∧ (e.memory.data slot).response = response := by
  induction hrun with
  | start =>
    refine ⟨⟨rfl, fun _ _ => ⟨rfl, rfl⟩, rfl, rfl, rfl⟩, ?_, fun e he => by cases he⟩
    simp only [remaining, List.length_nil]
    omega
  | @step events pc pc' m m' choice label hrun hstep ih =>
    obtain ⟨hplace, hlength, hstored⟩ := ih
    obtain ⟨hnext, hremaining⟩ := place_step hnodup hplace hstep
    have houtcomes : cudaOutcomes (events ++ [⟨choice, label, m'⟩]) =
        cudaOutcomes events ++ (outcomeOf choice).toList := by
      simp [cudaOutcomes, List.filterMap_append, List.filterMap_cons]
      cases outcomeOf choice <;> rfl
    have hanswers : answers (events ++ [⟨choice, label, m'⟩]) = answers events ++ (answerOf label).toList := by
      simp [answers, List.filterMap_append, List.filterMap_cons]
      cases answerOf label <;> rfl
    rw [houtcomes, hanswers, List.length_append, List.length_singleton]
    refine ⟨hnext, by omega, fun e he slot value response hlabel => ?_⟩
    rcases List.mem_append.mp he with hold | hnew
    · exact hstored e hold slot value response hlabel
    · rw [List.mem_singleton.mp hnew] at hlabel ⊢
      exact place_stored hplace hstep hlabel
  | others hrun hkept ih => exact ⟨place_others ih.1 hkept, ih.2⟩

/-- Until it returns the handler has a next step, whatever the outcome of the CUDA call it makes. -/
lemma handleStep_progress (hremaining : remaining pc ≠ 0) (ready : Bool) :
    (handleStep cfg dc pc m .next).isSome ∨ (handleStep cfg dc pc m (.cuda ready)).isSome := by
  cases pc with
  | decoding h views =>
    left
    unfold handleStep
    dsimp only
    split <;> rfl
  | launching h views =>
    right
    unfold handleStep
    dsimp only
    split <;> rfl
  | preparing h views status launched positions =>
    left
    unfold handleStep
    dsimp only
    split <;> rfl
  | synchronizing => exact .inr rfl
  | completing h todo =>
    left
    match todo with
    | [] => rfl
    | ⟨_, _, _, []⟩ :: _ => rfl
    | ⟨_, _, _, _ :: _⟩ :: _ => rfl
  | loop | poll | consuming | stage | decide | stopping | flushing | finished => exact absurd rfl hremaining

/-- In the system around the ring the steps of all other threads leave the slots of the batch alone. -/
theorem others_undisturbed {s s' : System} {trace : Trace} {a : Action} {event : Party × Label}
    (hr : Reached cfg dc s trace) (hstep : stepThread (program cfg dc) s a = some (s', event))
    (hother : a.1 ≠ .daemon) : Undisturbed (heldSlots (s.locals .daemon)) s.shared s'.shared := by
  obtain ⟨he, heffect, hr'⟩ := reached_step hr hstep
  have hrely := effect_rely hr.guard heffect (Ne.symm hother)
  have hguard := effect_guard hr.guard heffect
  have hposition : ∀ p, (ghostOf cfg trace).taker p = some .daemon → (ghostOf cfg trace).stage p = .taken →
      s'.shared.data (p % cfg.slotCount) = s.shared.data (p % cfg.slotCount) ∧
        s'.shared.sequence (p % cfg.slotCount) = s.shared.sequence (p % cfg.slotCount) := by
    intro p htaker hstage
    obtain ⟨hstage', hdata⟩ := hrely.taken p htaker hstage
    exact ⟨hdata, (takenSlot_sequence hguard rfl hstage').trans (takenSlot_sequence hr.guard rfl hstage).symm⟩
  have hslots : ∀ {slots : List Nat}, TakenSlots cfg .daemon (ghostOf cfg trace) s.shared slots →
      Undisturbed slots s.shared s'.shared := by
    intro slots htaken slot hslot
    obtain ⟨p, rfl, htaker, hstage, -⟩ := htaken.taken slot hslot
    exact hposition p htaker hstage
  have hown := hr.own .daemon
  generalize s.locals .daemon = pc at hown
  cases pc with
  | decoding | launching | preparing | synchronizing => exact hslots hown.1
  | completing h todo =>
    intro slot hslot
    obtain ⟨c, hc, rfl⟩ := List.mem_map.mp hslot
    have hcompleting := hown.own c hc
    rw [hcompleting.slot]
    exact hposition c.position hcompleting.taker hcompleting.stage
  | loop | poll | consuming | stage | decide | stopping | flushing | finished =>
    exact fun _ hslot => by cases hslot

/-- For every batch of different slots with any contents, every configuration and every outcome of
the CUDA calls: `process_batch` is never stuck and returns after a fixed number of steps, having
completed every slot once, in order, at its position and with its answer in memory. The answer is
422 exactly for an empty or rejected payload, otherwise the reference response, or 503 where the
graph was to run and its launch or synchronization failed; the gateway accepts its status. -/
theorem process_batch_responses (cfg : Config) (dc : DaemonConfig) (h₀ : Handling) (m₀ : Shared)
    (hnodup : h₀.batcher.staged.Nodup) (events : List HandlerEvent) (pc : DaemonPC) (m : Shared)
    (hrun : ProcessRun cfg dc h₀ m₀ events pc m) :
    (remaining pc ≠ 0 → ∀ ready,
      (handleStep cfg dc pc m .next).isSome ∨ (handleStep cfg dc pc m (.cuda ready)).isSome) ∧
    events.length + remaining pc = 7 * h₀.batcher.staged.length + 5 ∧
    (remaining pc = 0 → (pc = .loop h₀.finish ∨ pc = .finished h₀.finish) ∧
      ∃ launched synchronized, cudaOutcomes events = [launched, synchronized] ∧
        answers events = h₀.batcher.staged.map (fun slot => (slot, positionAt m₀ slot + 2,
          answer cfg dc launched synchronized (m₀.data slot) h₀.now)) ∧
        (∀ e ∈ events, ∀ slot value response, e.label = .complete slot value response →
          e.memory.sequence slot = value ∧ (e.memory.data slot).response = response) ∧
        ∀ slot ∈ h₀.batcher.staged, ∃ response,
          response = answer cfg dc launched synchronized (m₀.data slot) h₀.now ∧
          ((response.status = 422 ∧ response.decision = 0 ∧ response.score = 0) ↔
            (m₀.data slot).payloadSize = 0 ∨ decodeTransaction cfg dc (m₀.data slot) = none) ∧
          (∀ view, decodeTransaction cfg dc (m₀.data slot) = some view →
            (dc.cudaGraphsReady = false ∨ launched = true ∧ synchronized = true →
              response = ⟨200, referenceDecision view, referenceScore view, h₀.now⟩) ∧
            (dc.cudaGraphsReady = true ∧ (launched = false ∨ synchronized = false) →
              response = ⟨503, 0, 0, h₀.now⟩)) ∧
          ∃ status, DaemonResponseStatus.tryFrom response.status = .ok status) := by
  obtain ⟨hplace, hlength, hstored⟩ := processRun_place hnodup hrun
  refine ⟨fun hremaining ready => handleStep_progress hremaining ready, hlength, fun hreturned => ?_⟩
  obtain ⟨hpc, launched, synchronized, houtcomes, hanswers⟩ :
      (pc = .loop h₀.finish ∨ pc = .finished h₀.finish) ∧ ∃ launched synchronized,
        cudaOutcomes events = [launched, synchronized] ∧
        answers events = h₀.batcher.staged.map (entry cfg dc h₀ m₀ launched synchronized) := by
    cases pc with
    | loop b =>
      obtain ⟨rfl, hrest⟩ := hplace
      exact ⟨.inl rfl, hrest⟩
    | finished b =>
      obtain ⟨rfl, hrest⟩ := hplace
      exact ⟨.inr rfl, hrest⟩
    | poll | consuming | stage | decide | stopping | flushing => exact hplace.elim
    | decoding | launching | preparing | synchronizing | completing =>
      simp only [remaining] at hreturned
      omega
  refine ⟨hpc, launched, synchronized, houtcomes, hanswers, hstored, fun slot _ => ⟨_, rfl, ?_, ?_, ?_⟩⟩
  · exact answer_invalid_iff
  · exact fun view hview => ⟨answer_scored hview, answer_unavailable hview⟩
  · exact answer_accepted

def runHandler (cfg : Config) (dc : DaemonConfig) :
    List HandlerEvent → DaemonPC → Shared → List DaemonChoice → Option (List HandlerEvent × DaemonPC × Shared)
  | events, pc, m, [] => some (events, pc, m)
  | events, pc, m, choice :: choices =>
    (handleStep cfg dc pc m choice).bind fun (pc', m', label) =>
      runHandler cfg dc (events ++ [⟨choice, label, m'⟩]) pc' m' choices

lemma processRun_of_choices {choices : List DaemonChoice} {events' : List HandlerEvent} {pc' : DaemonPC} {m' : Shared}
    (hrun : ProcessRun cfg dc h₀ m₀ events pc m)
    (h : runHandler cfg dc events pc m choices = some (events', pc', m')) :
    ProcessRun cfg dc h₀ m₀ events' pc' m' := by
  induction choices generalizing events pc m with
  | nil =>
    cases h
    exact hrun
  | cons choice choices ih =>
    obtain ⟨⟨pc₁, m₁, label⟩, hstep, hrest⟩ := Option.bind_eq_some_iff.mp h
    exact ih (hrun.step hstep) hrest

def graphBatches : DaemonConfig := ⟨2, 0, true, fun _ => some ⟨7, 12000000⟩⟩

/-- Slot 0 has a transaction, slot 1 a cancellation record. -/
def mixedMemory : Shared :=
  let published (i : Nat) (data : SlotData) (m : Shared) : Shared := (m.setData i data).setSequence i (i + 1)
  published 0 ⟨64, 1, 0, 0, 0, 7, 1, 0, [1]⟩ (published 1 ⟨64, 0, 0, 0, 0, 8, 2, 0, []⟩ (Shared.initial fourSlots))

def mixedBatch : Handling := ⟨⟨[0, 1], 1, 0, 0, 0⟩, 9, true, false⟩

def lateFailure : List DaemonChoice :=
  [DaemonChoice.next, .next, .next, .cuda true, .next, .next, .next, .cuda false] ++
    List.replicate 11 DaemonChoice.next

/-- The graph is launched and its synchronization fails: the transaction is unavailable, the
cancellation record stays invalid. -/
theorem process_batch_responses_mixed : ∃ (events : List HandlerEvent) (pc : DaemonPC) (m : Shared),
    ProcessRun fourSlots graphBatches mixedBatch mixedMemory events pc m ∧ pc = .loop mixedBatch.finish ∧
      answers events = [(0, 2, ⟨503, 0, 0, 9⟩), (1, 3, ⟨422, 0, 0, 9⟩)] := by
  have hrun : (runHandler fourSlots graphBatches [] (.decoding mixedBatch []) mixedMemory lateFailure).map
      (fun x => (x.2.1, cudaOutcomes x.1)) = some (.loop mixedBatch.finish, [true, false]) := by rfl
  obtain ⟨⟨events, pc, m⟩, hrun, he⟩ := Option.map_eq_some_iff.mp hrun
  have hpc : pc = .loop mixedBatch.finish := congrArg Prod.fst he
  have hprocess := processRun_of_choices .start hrun
  obtain ⟨-, -, hreturned⟩ := process_batch_responses fourSlots graphBatches mixedBatch mixedMemory (by decide)
    events pc m hprocess
  obtain ⟨-, launched, synchronized, houtcomes, hanswers, -⟩ := hreturned (by rw [hpc]; rfl)
  cases houtcomes.symm.trans (congrArg Prod.snd he)
  exact ⟨events, pc, m, hprocess, hpc, hanswers⟩

end batch

end FraudDetection.Proofs
