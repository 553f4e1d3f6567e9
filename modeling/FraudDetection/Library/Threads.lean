import Mathlib.Logic.Function.Basic

/-!
# Threads over shared memory

A system of threads with private local states and one shared state. A step belongs to one
thread; it reads and writes its own local state and the shared state and emits a label. A run is
a list of steps in any order, with the labels it leaves as its trace.

`stepThread_invariant` is the rely-guarantee rule: every thread maintains an assertion about its
local state, and needs from the steps of the others only what its rely says.
-/

namespace FraudDetection.Library

variable {τ : Type} [DecidableEq τ] {Local Choice : τ → Type} {σ β : Type}

/-- The step function of each thread; `none` where the choice is not possible. -/
abbrev Program (Local Choice : τ → Type) (σ β : Type) :=
  (t : τ) → Local t → σ → Choice t → Option (Local t × σ × β)

structure Threads (Local : τ → Type) (σ : Type) where
  shared : σ
  locals : (t : τ) → Local t

def stepThread (program : Program Local Choice σ β) (s : Threads Local σ) (a : (t : τ) × Choice t) :
    Option (Threads Local σ × τ × β) :=
  (program a.1 (s.locals a.1) s.shared a.2).map fun (next, shared, label) =>
    (⟨shared, Function.update s.locals a.1 next⟩, a.1, label)

def runThreads (program : Program Local Choice σ β) :
    Threads Local σ → List ((t : τ) × Choice t) → Option (Threads Local σ × List (τ × β))
  | s, [] => some (s, [])
  | s, a :: actions =>
    (stepThread program s a).bind fun (s', event) =>
      (runThreads program s' actions).map fun (final, trace) => (final, event :: trace)

lemma runThreads_cons {program : Program Local Choice σ β} {s s' : Threads Local σ}
    {a : (t : τ) × Choice t} {actions : List ((t : τ) × Choice t)} {trace : List (τ × β)} :
    runThreads program s (a :: actions) = some (s', trace) ↔ ∃ s₁ event rest,
      stepThread program s a = some (s₁, event) ∧ runThreads program s₁ actions = some (s', rest) ∧
        trace = event :: rest := by
  constructor
  · intro h
    obtain ⟨⟨s₁, event⟩, h₁, hrest⟩ := Option.bind_eq_some_iff.mp h
    obtain ⟨⟨final, rest⟩, h₂, he⟩ := Option.map_eq_some_iff.mp hrest
    cases he
    exact ⟨s₁, event, rest, h₁, h₂, rfl⟩
  · rintro ⟨s₁, event, rest, h₁, h₂, rfl⟩
    exact Option.bind_eq_some_iff.mpr ⟨_, h₁, Option.map_eq_some_iff.mpr ⟨_, h₂, rfl⟩⟩

lemma stepThread_eq {program : Program Local Choice σ β} {s s' : Threads Local σ}
    {a : (t : τ) × Choice t} {event : τ × β} (h : stepThread program s a = some (s', event)) :
    ∃ next shared label, program a.1 (s.locals a.1) s.shared a.2 = some (next, shared, label) ∧
      s' = ⟨shared, Function.update s.locals a.1 next⟩ ∧ event = (a.1, label) := by
  obtain ⟨⟨next, shared, label⟩, hp, he⟩ := Option.map_eq_some_iff.mp h
  cases he
  exact ⟨next, shared, label, hp, rfl, rfl⟩

lemma runThreads_append {program : Program Local Choice σ β} {s s' : Threads Local σ}
    {past later : List ((t : τ) × Choice t)} {trace : List (τ × β)}
    (h : runThreads program s (past ++ later) = some (s', trace)) :
    ∃ s₁ before after, runThreads program s past = some (s₁, before) ∧
      runThreads program s₁ later = some (s', after) ∧ trace = before ++ after := by
  induction past generalizing s trace with
  | nil => exact ⟨s, [], trace, rfl, h, rfl⟩
  | cons a past ih =>
    obtain ⟨s₁, event, rest, h₁, hrest, rfl⟩ := runThreads_cons.mp h
    obtain ⟨s₂, before, after, h₂, h₃, rfl⟩ := ih hrest
    exact ⟨s₂, event :: before, after, runThreads_cons.mpr ⟨s₁, event, before, h₁, h₂, rfl⟩, h₃, rfl⟩

lemma runThreads_trans {program : Program Local Choice σ β} {s s₁ s' : Threads Local σ}
    {past later : List ((t : τ) × Choice t)} {before after : List (τ × β)}
    (hpast : runThreads program s past = some (s₁, before))
    (hlater : runThreads program s₁ later = some (s', after)) :
    runThreads program s (past ++ later) = some (s', before ++ after) := by
  induction past generalizing s before with
  | nil =>
    cases hpast
    exact hlater
  | cons a past ih =>
    obtain ⟨s₂, event, rest, hstep, hrest, rfl⟩ := runThreads_cons.mp hpast
    exact runThreads_cons.mpr ⟨s₂, event, rest ++ after, hstep, ih hrest, rfl⟩

lemma mem_trace_of_step {program : Program Local Choice σ β} {s s₁ s₂ s' : Threads Local σ}
    {past later : List ((t : τ) × Choice t)} {a : (t : τ) × Choice t} {before trace : List (τ × β)} {event : τ × β}
    (h : runThreads program s (past ++ a :: later) = some (s', trace))
    (hpast : runThreads program s past = some (s₁, before)) (hstep : stepThread program s₁ a = some (s₂, event)) :
    event ∈ trace := by
  obtain ⟨t₁, first, after, hfirst, hafter, rfl⟩ := runThreads_append h
  cases hpast.symm.trans hfirst
  obtain ⟨t₂, event', rest, hevent, -, rfl⟩ := runThreads_cons.mp hafter
  cases hstep.symm.trans hevent
  exact List.mem_append_right _ List.mem_cons_self

theorem runThreads_induction {program : Program Local Choice σ β}
    {P : Threads Local σ → List (τ × β) → Prop}
    (hstep : ∀ s trace a s' event, P s trace → stepThread program s a = some (s', event) →
      P s' (trace ++ [event]))
    {s s' : Threads Local σ} (trace : List (τ × β)) {new : List (τ × β)} (hs : P s trace)
    (actions : List ((t : τ) × Choice t)) (h : runThreads program s actions = some (s', new)) :
    P s' (trace ++ new) := by
  induction actions generalizing s trace new with
  | nil =>
    cases h
    rw [List.append_nil]
    exact hs
  | cons a actions ih =>
    obtain ⟨s₁, event, rest, h₁, h₂, rfl⟩ := runThreads_cons.mp h
    have hnext := ih _ (hstep s trace a s₁ event hs h₁) h₂
    rwa [List.append_assoc] at hnext

/-- Where each step keeps `P` or is one of `E`, a run keeps `P` or has a step of `E`. -/
theorem runThreads_until {program : Program Local Choice σ β} {P : Threads Local σ → List (τ × β) → Prop}
    {E : Threads Local σ → (t : τ) × Choice t → Prop}
    (hstep : ∀ s trace a s' event, P s trace → stepThread program s a = some (s', event) →
      P s' (trace ++ [event]) ∨ E s a)
    {s s' : Threads Local σ} (trace : List (τ × β)) {new : List (τ × β)} (hs : P s trace)
    (actions : List ((t : τ) × Choice t)) (h : runThreads program s actions = some (s', new)) :
    P s' (trace ++ new) ∨ ∃ past a later s₁ before, actions = past ++ a :: later ∧
      runThreads program s past = some (s₁, before) ∧ E s₁ a := by
  induction actions generalizing s trace new with
  | nil =>
    cases h
    rw [List.append_nil]
    exact .inl hs
  | cons a actions ih =>
    obtain ⟨s₁, event, rest, h₁, h₂, rfl⟩ := runThreads_cons.mp h
    rcases hstep s trace a s₁ event hs h₁ with hnext | hE
    · rcases ih _ hnext h₂ with hend | ⟨past, b, later, s₂, before, rfl, hpast, hE⟩
      · rw [List.append_assoc] at hend
        exact .inl hend
      · exact .inr ⟨a :: past, b, later, s₂, event :: before, rfl,
          runThreads_cons.mpr ⟨s₁, event, before, h₁, hpast, rfl⟩, hE⟩
    · exact .inr ⟨[], a, actions, s, [], rfl, rfl, hE⟩

lemma runThreads_split {program : Program Local Choice σ β} {s s' : Threads Local σ}
    {actions : List ((t : τ) × Choice t)} {before after : List (τ × β)} {event : τ × β}
    (h : runThreads program s actions = some (s', before ++ event :: after)) :
    ∃ actions₁ a actions₂ s₁ s₂, actions = actions₁ ++ a :: actions₂ ∧
      runThreads program s actions₁ = some (s₁, before) ∧ stepThread program s₁ a = some (s₂, event) := by
  induction before generalizing s actions with
  | nil =>
    cases actions with
    | nil => cases h
    | cons a actions =>
      obtain ⟨s₁, first, rest, h₁, h₂, he⟩ := runThreads_cons.mp h
      cases he
      exact ⟨[], a, actions, s, s₁, rfl, rfl, h₁⟩
  | cons e before ih =>
    cases actions with
    | nil => cases h
    | cons a actions =>
      obtain ⟨s₁, first, rest, h₁, h₂, he⟩ := runThreads_cons.mp h
      cases he
      obtain ⟨actions₁, b, actions₂, s₂, s₃, hactions, hrun, hstep⟩ := ih h₂
      exact ⟨a :: actions₁, b, actions₂, s₂, s₃, by rw [hactions]; rfl,
        runThreads_cons.mpr ⟨s₁, e, before, h₁, hrun, rfl⟩, hstep⟩

lemma runThreads_party {program : Program Local Choice σ β} {s s' : Threads Local σ}
    {actions : List ((t : τ) × Choice t)} {trace : List (τ × β)}
    (h : runThreads program s actions = some (s', trace)) {event : τ × β} (he : event ∈ trace) :
    ∃ a ∈ actions, a.1 = event.1 := by
  obtain ⟨before, after, rfl⟩ := List.append_of_mem he
  obtain ⟨actions₁, a, actions₂, s₁, s₂, rfl, -, hstep⟩ := runThreads_split h
  obtain ⟨next, shared, label, -, -, rfl⟩ := stepThread_eq hstep
  exact ⟨a, List.mem_append_right _ List.mem_cons_self, rfl⟩

lemma runThreads_frame {program : Program Local Choice σ β} {s s' : Threads Local σ} {u : τ}
    {actions : List ((t : τ) × Choice t)} {trace : List (τ × β)}
    (h : runThreads program s actions = some (s', trace)) (hu : ∀ a ∈ actions, a.1 ≠ u) :
    s'.locals u = s.locals u := by
  induction actions generalizing s trace with
  | nil =>
    cases h
    rfl
  | cons a actions ih =>
    obtain ⟨s₁, event, rest, hstep, hrest, rfl⟩ := runThreads_cons.mp h
    obtain ⟨next, shared, label, -, rfl, -⟩ := stepThread_eq hstep
    rw [ih hrest fun b hb => hu b (List.mem_cons_of_mem _ hb)]
    exact Function.update_of_ne (hu a List.mem_cons_self).symm ..

/-- Where each state of `P` short of the goal has a step of `A` that stays in `P` and reaches the
goal or lowers a rank, the goal is reached by steps of `A`. -/
theorem runThreads_reaches {program : Program Local Choice σ β} (P Goal : Threads Local σ → List (τ × β) → Prop)
    {A : (t : τ) × Choice t → Prop} {ρ : Type} {r : ρ → ρ → Prop} (hwf : WellFounded r) (rank : Threads Local σ → ρ)
    (hstep : ∀ s trace, P s trace → ¬Goal s trace → ∃ a s' event, A a ∧
      stepThread program s a = some (s', event) ∧ P s' (trace ++ [event]) ∧
        (Goal s' (trace ++ [event]) ∨ r (rank s') (rank s)))
    {s : Threads Local σ} {trace : List (τ × β)} (hs : P s trace) :
    ∃ actions s' new, (∀ a ∈ actions, A a) ∧ runThreads program s actions = some (s', new) ∧
      P s' (trace ++ new) ∧ Goal s' (trace ++ new) := by
  generalize hk : rank s = k
  induction k using hwf.induction generalizing s trace with
  | _ k ih =>
    by_cases hgoal : Goal s trace
    · refine ⟨[], s, [], fun _ h => absurd h List.not_mem_nil, rfl, ?_, ?_⟩
      · rwa [List.append_nil]
      · rwa [List.append_nil]
    obtain ⟨a, s₁, event, ha, hrun, hnext, hlower⟩ := hstep s trace hs hgoal
    rcases hlower with hreached | hlower
    · exact ⟨[a], s₁, [event], fun b hb => List.mem_singleton.mp hb ▸ ha,
        runThreads_cons.mpr ⟨s₁, event, [], hrun, rfl, rfl⟩, hnext, hreached⟩
    · obtain ⟨actions, s', new, hactions, hrest, hend, hreached⟩ := ih _ (hk ▸ hlower) hnext rfl
      rw [List.append_assoc] at hend hreached
      exact ⟨a :: actions, s', event :: new, List.forall_mem_cons.mpr ⟨ha, hactions⟩,
        runThreads_cons.mpr ⟨s₁, event, new, hrun, hrest, rfl⟩, hend, hreached⟩

section relyGuarantee

variable {γ : Type}

def replay (record : γ → τ × β → γ) (start : γ) (trace : List (τ × β)) : γ :=
  trace.foldl record start

omit [DecidableEq τ] in
lemma replay_snoc (record : γ → τ × β → γ) (start : γ) (trace : List (τ × β)) (event : τ × β) :
    replay record start (trace ++ [event]) = record (replay record start trace) event := by
  unfold replay
  rw [List.foldl_append, List.foldl_cons, List.foldl_nil]

/-- The obligations of the rely-guarantee rule. `guard` relates the auxiliary to the shared state,
`own` is the assertion of each thread, `rely` what it expects of the others. -/
structure RelyGuarantee (program : Program Local Choice σ β) (record : γ → τ × β → γ)
    (guard : γ → σ → Prop) (own : (t : τ) → Local t → γ → σ → Prop)
    (rely : τ → γ → σ → γ → σ → Prop) : Prop where
  step : ∀ t l g m c l' m' label, guard g m → own t l g m → program t l m c = some (l', m', label) →
    guard (record g (t, label)) m' ∧ own t l' (record g (t, label)) m' ∧
      ∀ u ≠ t, rely u g m (record g (t, label)) m'
  stable : ∀ u l g m g' m', guard g m → guard g' m' → rely u g m g' m' → own u l g m → own u l g' m'

variable {program : Program Local Choice σ β} {record : γ → τ × β → γ} {guard : γ → σ → Prop}
  {own : (t : τ) → Local t → γ → σ → Prop} {rely : τ → γ → σ → γ → σ → Prop}
  (hrg : RelyGuarantee program record guard own rely)
include hrg

lemma stepThread_invariant {s s' : Threads Local σ} {g : γ} (hguard : guard g s.shared)
    (hown : ∀ t, own t (s.locals t) g s.shared) {a : (t : τ) × Choice t} {event : τ × β}
    (h : stepThread program s a = some (s', event)) :
    guard (record g event) s'.shared ∧ ∀ t, own t (s'.locals t) (record g event) s'.shared := by
  obtain ⟨next, shared, label, hp, rfl, rfl⟩ := stepThread_eq h
  obtain ⟨hguard', hnext, hr⟩ := hrg.step a.1 _ _ _ _ _ _ _ hguard (hown a.1) hp
  refine ⟨hguard', fun t => ?_⟩
  by_cases ht : t = a.1
  · subst ht
    dsimp only
    rw [Function.update_self]
    exact hnext
  · dsimp only
    rw [Function.update_of_ne ht]
    exact hrg.stable t _ _ _ _ _ hguard hguard' (hr t ht) (hown t)

end relyGuarantee

end FraudDetection.Library
