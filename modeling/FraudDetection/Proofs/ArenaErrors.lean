import FraudDetection.CudaArena

/-!
# Errors and devices of the arena

What each operation adds to the calls of the runtime, with the error that it keeps. No failure is lost:
`synchronize` reports the first one since the last report. The calls on the stream are made on the
arena's device, and the caller's device is current again after each operation, or an error is pending.
-/

namespace FraudDetection.Proofs
open FraudDetection.Engine

section operations

variable {effect : DeviceEffect} {m m' m'' : CudaMachine} {r : CallResults}

/-- A call of `cudaSetDevice` that succeeds makes its device current; one that fails may leave any. -/
def SetsDevice (effect : DeviceEffect) : Prop := ∀ m device, effect m device none = device

def firstError (events : List CudaEvent) : Option CudaError := events.findSome? CudaEvent.result

lemma firstError_append (events more : List CudaEvent) :
    firstError (events ++ more) = (firstError events).or (firstError more) := List.findSome?_append

/-- From `m` to `m'` these calls were made, those on the stream with the arena's device current, and the
first failure is kept. -/
structure Records (effect : DeviceEffect) (m m' : CudaMachine) (events : List CudaEvent) : Prop where
  log : m'.log = m.log ++ events
  pending : m'.context.pendingError = m.context.pendingError.or (firstError events)
  home : m'.context.device = m.context.device
  placed : SetsDevice effect → ∀ x ∈ events, x.call.onStream = true → x.current = m.context.device

lemma Records.refl (m : CudaMachine) : Records effect m m [] where
  log := (List.append_nil _).symm
  pending := (Option.or_none).symm
  home := rfl
  placed := fun _ _ hx => absurd hx List.not_mem_nil

lemma Records.trans {events more : List CudaEvent} (h : Records effect m m' events)
    (h' : Records effect m' m'' more) : Records effect m m'' (events ++ more) where
  log := by rw [h'.log, h.log, List.append_assoc]
  pending := by rw [h'.pending, h.pending, firstError_append, Option.or_assoc]
  home := h'.home.trans h.home
  placed := fun heffect x hx hstream => (List.mem_append.mp hx).elim (fun hx => h.placed heffect x hx hstream)
    fun hx => (h'.placed heffect x hx hstream).trans h.home

lemma remember_pending (m : CudaMachine) (error : Option CudaError) :
    (remember m error).context.pendingError = m.context.pendingError.or error := by
  unfold remember
  cases hpending : m.context.pendingError with
  | none => rfl
  | some err => exact hpending

lemma remember_keeps (m : CudaMachine) (error : Option CudaError) :
    (remember m error).context.device = m.context.device ∧ (remember m error).log = m.log ∧
      (remember m error).current = m.current := by
  unfold remember
  split_ifs
  · exact ⟨rfl, rfl, rfl⟩
  · exact ⟨rfl, rfl, rfl⟩

lemma remember_of_pending {error : Option CudaError} (h : m.context.pendingError.isSome = true) :
    remember m error = m := by
  unfold remember
  rw [if_neg]
  rw [Option.isNone_iff_eq_none]
  exact Option.isSome_iff_ne_none.mp h

lemma records_call {call : CudaCall} {result : Option CudaError}
    (hplaced : SetsDevice effect → call.onStream = true → m.current = m.context.device) :
    Records effect m (remember (m.record call result) result) [⟨call, m.current, result⟩] := by
  obtain ⟨hdevice, hlog, -⟩ := remember_keeps (m.record call result) result
  refine ⟨hlog, ?_, hdevice, fun heffect x hx => ?_⟩
  · rw [remember_pending]
    cases result <;> rfl
  · cases List.mem_singleton.mp hx
    exact hplaced heffect

/-- The caller's device is current again, unless the call that restores it has failed. -/
def Restored (effect : DeviceEffect) (r : CallResults) (device : Int) (m : CudaMachine) (events : List CudaEvent) :
    Prop :=
  SetsDevice effect → m.current = device ∨ (r.restore ≠ none ∧ firstError events ≠ none)

lemma Restored.append {device : Int} {events : List CudaEvent} (h : Restored effect r device m events)
    (past : List CudaEvent) : Restored effect r device m (past ++ events) := by
  intro heffect
  refine (h heffect).imp_right fun ⟨hfailed, hfirst⟩ => ⟨hfailed, fun hnone => hfirst ?_⟩
  rw [firstError_append] at hnone
  exact (Option.or_eq_none_iff.mp hnone).2

variable (effect)

lemma records_setDevice (device : Int) (result : Option CudaError) :
    Records effect m (remember (m.setDevice effect device result) result) [⟨.setDevice device, m.current, result⟩] ∧
      (remember (m.setDevice effect device result) result).current = effect m device result := by
  obtain ⟨hdevice, hlog, hcurrent⟩ := remember_keeps (m.setDevice effect device result) result
  refine ⟨⟨hlog, ?_, hdevice, fun _ x hx hstream => ?_⟩, hcurrent⟩
  · rw [remember_pending]
    cases result <;> rfl
  · cases List.mem_singleton.mp hx
    cases hstream

/-- What is left to restore: nothing if `previous` is the arena's device, and else `previous` is the
caller's. -/
structure Restorable (m : CudaMachine) (previous : Int) (m' : CudaMachine) : Prop where
  same : previous = m.context.device → m'.current = m.current
  caller : previous ≠ m.context.device → previous = m.current

lemma activate_spec (m : CudaMachine) (r : CallResults) :
    ∃ events, Records effect m (activate effect m r).2.2 events ∧ firstError events = (activate effect m r).1 ∧
      Restorable m (activate effect m r).2.1 (activate effect m r).2.2 ∧
      (SetsDevice effect → (activate effect m r).1 = none → (activate effect m r).2.2.current = m.context.device) := by
  have hasked : Records effect m (remember (m.record .getDevice r.getDevice) r.getDevice)
      [⟨.getDevice, m.current, r.getDevice⟩] := records_call fun _ h => by cases h
  have hcurrent := (remember_keeps (m.record .getDevice r.getDevice) r.getDevice).2.2
  unfold activate
  dsimp only
  cases hget : r.getDevice with
  | some err =>
    rw [hget] at hasked hcurrent
    rw [if_pos Option.isSome_some]
    exact ⟨_, hasked, rfl, ⟨fun _ => hcurrent, fun h => absurd rfl h⟩, fun _ h => by cases h⟩
  | none =>
    rw [hget] at hasked hcurrent
    rw [if_neg (by decide : ¬(none : Option CudaError).isSome = true)]
    by_cases hother : m.current ≠ m.context.device
    · rw [if_pos hother]
      obtain ⟨hset, hnow⟩ := records_setDevice effect (m := m.record .getDevice none) m.context.device r.setDevice
      have hquery : Records effect m (m.record .getDevice none) [⟨.getDevice, m.current, none⟩] :=
        ⟨rfl, (Option.or_none).symm, rfl, fun _ x hx hstream => by cases List.mem_singleton.mp hx; cases hstream⟩
      refine ⟨_, hquery.trans hset, ?_, ⟨fun h => absurd h hother, fun _ => rfl⟩, fun heffect h => ?_⟩
      · cases r.setDevice <;> rfl
      · dsimp only at h ⊢
        rw [hnow, h]
        exact heffect _ _
    · rw [if_neg hother]
      exact ⟨_, hasked, rfl, ⟨fun _ => hcurrent, fun h => absurd h hother⟩,
        fun _ _ => hcurrent.trans (not_not.mp hother)⟩

lemma operate_spec (call : CudaCall) (m : CudaMachine) (r : CallResults) :
    ∃ events, Records effect m (operate effect call m r).2.2 events ∧
      Restorable m (operate effect call m r).2.1 (operate effect call m r).2.2 := by
  obtain ⟨events, hrecords, hfirst, hrestorable, hactive⟩ := activate_spec effect m r
  unfold operate
  cases hactivate : activate effect m r with
  | mk error rest =>
    obtain ⟨previous, activated⟩ := rest
    rw [hactivate] at hrecords hfirst hrestorable hactive
    dsimp only at hrecords hfirst hrestorable hactive ⊢
    cases error with
    | some err =>
      have hpending : activated.context.pendingError.isSome = true := by
        rw [hrecords.pending, hfirst]
        cases m.context.pendingError <;> rfl
      rw [if_pos Option.isSome_some, remember_of_pending hpending]
      exact ⟨events, hrecords, hrestorable⟩
    | none =>
      rw [if_neg (by decide : ¬(none : Option CudaError).isSome = true)]
      have hcall : Records effect activated (remember (activated.record call r.operation) r.operation)
          [⟨call, activated.current, r.operation⟩] :=
        records_call fun heffect _ => (hactive heffect rfl).trans hrecords.home.symm
      have hcurrent := (remember_keeps (activated.record call r.operation) r.operation).2.2
      exact ⟨_, hrecords.trans hcall, fun h => hcurrent.trans (hrestorable.same h), hrestorable.caller⟩

def restoreEvents (m : CudaMachine) (previous : Int) (r : CallResults) : List CudaEvent :=
  if previous ≠ m.context.device then [⟨.setDevice previous, m.current, r.restore⟩] else []

lemma restore_spec {previous : Int} (r : CallResults) (h : Restorable m previous m')
    (hhome : m'.context.device = m.context.device) :
    Records effect m' (restore effect m' previous r) (restoreEvents m' previous r) ∧
      Restored effect r m.current (restore effect m' previous r) (restoreEvents m' previous r) := by
  unfold restore restoreEvents
  by_cases hprevious : previous ≠ m'.context.device
  · rw [if_pos hprevious, if_pos hprevious]
    obtain ⟨hrecords, hcurrent⟩ := records_setDevice effect (m := m') previous r.restore
    refine ⟨hrecords, fun heffect => ?_⟩
    cases hrestore : r.restore with
    | none =>
      rw [hrestore, heffect] at hcurrent
      exact .inl (hcurrent.trans (h.caller (hhome ▸ hprevious)))
    | some err => exact .inr ⟨hrestore ▸ Option.some_ne_none err, Option.some_ne_none err⟩
  · rw [if_neg hprevious, if_neg hprevious]
    exact ⟨.refl m', fun _ => .inl (h.same ((not_not.mp hprevious).trans hhome))⟩

lemma operated_spec (call : CudaCall) (m : CudaMachine) (r : CallResults) :
    ∃ events, Records effect m (restore effect (operate effect call m r).2.2 (operate effect call m r).2.1 r) events ∧
      Restored effect r m.current (restore effect (operate effect call m r).2.2 (operate effect call m r).2.1 r)
        events := by
  obtain ⟨events, hrecords, hrestorable⟩ := operate_spec effect call m r
  obtain ⟨hrestored, hcurrent⟩ := restore_spec effect r hrestorable hrecords.home
  exact ⟨_, hrecords.trans hrestored, hcurrent.append events⟩

def cleared (m : CudaMachine) : CudaMachine := { m with context := { m.context with pendingError := none } }

/-- `synchronize` reports what was pending, its own calls and the restoration; only the last is pending after it. -/
structure Synchronized (effect : DeviceEffect) (m : CudaMachine) (r : CallResults) (events restored : List CudaEvent) :
    Prop where
  log : (cudaArenaSynchronize effect m r).2.log = m.log ++ (events ++ restored)
  operated : (operate effect .streamSynchronize m r).2.2.log = m.log ++ events
  status : (cudaArenaSynchronize effect m r).1 =
    arenaStatus (m.context.pendingError.or (firstError (events ++ restored)))
  pending : (cudaArenaSynchronize effect m r).2.context.pendingError = firstError restored
  home : (cudaArenaSynchronize effect m r).2.context.device = m.context.device
  placed : SetsDevice effect → ∀ x ∈ events ++ restored, x.call.onStream = true → x.current = m.context.device
  current : Restored effect r m.current (cudaArenaSynchronize effect m r).2 restored

lemma synchronize_spec (m : CudaMachine) (r : CallResults) :
    ∃ events restored, Synchronized effect m r events restored := by
  obtain ⟨events, hrecords, hrestorable⟩ := operate_spec effect .streamSynchronize m r
  have hsync : cudaArenaSynchronize effect m r =
      (if (operate effect .streamSynchronize m r).2.2.context.pendingError.isSome then
        arenaStatus (operate effect .streamSynchronize m r).2.2.context.pendingError
      else arenaStatus (restore effect (cleared (operate effect .streamSynchronize m r).2.2)
        (operate effect .streamSynchronize m r).2.1 r).context.pendingError,
      restore effect (cleared (operate effect .streamSynchronize m r).2.2)
        (operate effect .streamSynchronize m r).2.1 r) := rfl
  have hcleared : Restorable m (operate effect .streamSynchronize m r).2.1
      (cleared (operate effect .streamSynchronize m r).2.2) :=
    ⟨hrestorable.same, hrestorable.caller⟩
  obtain ⟨hrestored, hcurrent⟩ := restore_spec effect r hcleared hrecords.home
  have hpending := hrestored.pending
  rw [show (cleared (operate effect .streamSynchronize m r).2.2).context.pendingError = none from rfl, Option.none_or]
    at hpending
  refine ⟨events, restoreEvents (cleared (operate effect .streamSynchronize m r).2.2)
    (operate effect .streamSynchronize m r).2.1 r, ?_, hrecords.log, ?_, ?_, ?_, ?_, ?_⟩
  · rw [hsync, hrestored.log, ← List.append_assoc]
    exact congrArg (· ++ _) hrecords.log
  · rw [hsync, hpending, hrecords.pending, firstError_append, ← Option.or_assoc]
    cases m.context.pendingError.or (firstError events) <;> rfl
  · rw [hsync]
    exact hpending
  · rw [hsync]
    exact hrestored.home.trans hrecords.home
  · exact fun heffect x hx hstream => (List.mem_append.mp hx).elim (fun hx => hrecords.placed heffect x hx hstream)
      fun hx => (hrestored.placed heffect x hx hstream).trans hrecords.home
  · rw [hsync]
    exact hcurrent

end operations

section runs

variable {effect : DeviceEffect} {m m' : CudaMachine}

def carried (effect : DeviceEffect) (m : CudaMachine) (past : List CudaEvent) (r : CallResults) :
    ArenaOperation → List CudaEvent
  -- the restoration comes after the error is cleared: a failure there stays pending, even if it is returned
  | .synchronize => (cudaArenaSynchronize effect m r).2.log.drop (operate effect .streamSynchronize m r).2.2.log.length
  | operation => past ++ (m.perform effect r operation).2.log.drop m.log.length

/-- The calls of a run after the last point where `synchronize` cleared the error. -/
def sinceReport (effect : DeviceEffect) (m : CudaMachine) (past : List CudaEvent) :
    List (Int × CallResults × ArenaOperation) → List CudaEvent
  | [] => past
  | (device, r, operation) :: rest =>
    sinceReport effect ({ m with current := device }.perform effect r operation).2
      (carried effect { m with current := device } past r operation) rest

/-- What holds of an arena of device `device` between two operations. -/
structure ArenaInvariant (effect : DeviceEffect) (device : Int) (past : List CudaEvent) (m : CudaMachine) : Prop where
  pending : m.context.pendingError = firstError past
  home : m.context.device = device
  placed : SetsDevice effect → ∀ x ∈ m.log, x.call.onStream = true → x.current = device

lemma drop_log {events : List CudaEvent} (h : m'.log = m.log ++ events) : m'.log.drop m.log.length = events := by
  rw [h, List.drop_left]

lemma ArenaInvariant.placed_append {device : Int} {past events : List CudaEvent}
    (h : ArenaInvariant effect device past m) (hlog : m'.log = m.log ++ events)
    (hplaced : SetsDevice effect → ∀ x ∈ events, x.call.onStream = true → x.current = m.context.device) :
    SetsDevice effect → ∀ x ∈ m'.log, x.call.onStream = true → x.current = device := by
  intro heffect x hx hstream
  rw [hlog] at hx
  exact (List.mem_append.mp hx).elim (fun hx => h.placed heffect x hx hstream)
    fun hx => (hplaced heffect x hx hstream).trans h.home

lemma ArenaInvariant.records {device : Int} {past events : List CudaEvent} (h : ArenaInvariant effect device past m)
    (hrecords : Records effect m m' events) : ArenaInvariant effect device (past ++ m'.log.drop m.log.length) m' := by
  rw [drop_log hrecords.log]
  refine ⟨?_, hrecords.home.trans h.home, h.placed_append hrecords.log hrecords.placed⟩
  rw [hrecords.pending, h.pending, firstError_append]

lemma perform_records (effect : DeviceEffect) (m : CudaMachine) (r : CallResults) {operation : ArenaOperation}
    (hkeeps : operation ≠ .synchronize) : ∃ events, Records effect m (m.perform effect r operation).2 events ∧
      Restored effect r m.current (m.perform effect r operation).2 events := by
  cases operation with
  | allocate bytes address => exact operated_spec effect (.mallocAsync bytes) m r
  | free address =>
    dsimp only [CudaMachine.perform]
    unfold cudaArenaFree
    by_cases hnull : address = 0
    · rw [if_pos hnull]
      exact ⟨[], .refl m, fun _ => .inl rfl⟩
    · rw [if_neg hnull]
      exact operated_spec effect (.freeAsync address) m r
  | synchronize => exact absurd rfl hkeeps

lemma perform_spec {device : Int} {past : List CudaEvent} (h : ArenaInvariant effect device past m) (r : CallResults)
    (operation : ArenaOperation) :
    ArenaInvariant effect device (carried effect m past r operation) (m.perform effect r operation).2 ∧
      Restored effect r m.current (m.perform effect r operation).2 (carried effect m past r operation) := by
  by_cases hsynchronize : operation = .synchronize
  · subst hsynchronize
    obtain ⟨events, restored, hsync⟩ := synchronize_spec effect m r
    have hcarried : carried effect m past r .synchronize = restored := by
      unfold carried
      rw [hsync.log, hsync.operated, ← List.append_assoc, List.drop_left]
    rw [hcarried]
    exact ⟨⟨hsync.pending, hsync.home.trans h.home, h.placed_append hsync.log hsync.placed⟩, hsync.current⟩
  · obtain ⟨events, hrecords, hcurrent⟩ := perform_records effect m r hsynchronize
    have hcarried : carried effect m past r operation = past ++ (m.perform effect r operation).2.log.drop m.log.length := by
      cases operation with
      | allocate bytes address => rfl
      | free address => rfl
      | synchronize => exact absurd rfl hsynchronize
    rw [hcarried]
    refine ⟨h.records hrecords, ?_⟩
    rw [drop_log hrecords.log]
    exact hcurrent.append past

lemma run_spec {device : Int} {past : List CudaEvent} (h : ArenaInvariant effect device past m)
    (operations : List (Int × CallResults × ArenaOperation)) :
    ArenaInvariant effect device (sinceReport effect m past operations) (m.run effect operations) := by
  induction operations generalizing m past with
  | nil => exact h
  | cons first rest ih =>
    obtain ⟨caller, r, operation⟩ := first
    exact ih (perform_spec (m := { m with current := caller }) ⟨h.pending, h.home, h.placed⟩ r operation).1

def createdMachine (home : Int) : CudaMachine := ⟨⟨home, none⟩, home, []⟩

lemma createdMachine_invariant (effect : DeviceEffect) (home : Int) :
    ArenaInvariant effect home [] (createdMachine home) :=
  ⟨rfl, rfl, fun _ _ hx => absurd hx List.not_mem_nil⟩

lemma arenaStatus_ok (error : Option CudaError) : (arenaStatus error).ok = true ↔ error = none := by
  cases error with
  | none => decide
  | some err => cases err <;> decide

end runs

/-- After every sequence of operations, from threads with any device current and with any results of the
calls: `synchronize` reports the first failure among its own calls and those since the last `synchronize`
cleared the error, and succeeds exactly if none of them failed. -/
theorem arena_failures_reported (effect : DeviceEffect) (home device : Int)
    (operations : List (Int × CallResults × ArenaOperation)) (r : CallResults) :
    let m := (createdMachine home).run effect operations
    let outcome := cudaArenaSynchronize effect { m with current := device } r
    let calls := sinceReport effect (createdMachine home) [] operations ++ outcome.2.log.drop m.log.length
    outcome.1 = arenaStatus (firstError calls) ∧ (outcome.1.ok = true ↔ ∀ x ∈ calls, x.result = none) := by
  intro m outcome calls
  have hm : ArenaInvariant effect home (sinceReport effect (createdMachine home) [] operations) m :=
    run_spec (createdMachine_invariant effect home) operations
  obtain ⟨events, restored, hsync⟩ := synchronize_spec effect { m with current := device } r
  have hcalls : calls = sinceReport effect (createdMachine home) [] operations ++ (events ++ restored) :=
    congrArg (_ ++ ·) (drop_log (m := m) hsync.log)
  have hstatus : outcome.1 = arenaStatus (firstError calls) := by
    rw [hcalls, firstError_append, ← hm.pending]
    exact hsync.status
  refine ⟨hstatus, ?_⟩
  rw [hstatus, arenaStatus_ok]
  exact List.findSome?_eq_none_iff

/-- After every sequence of operations one more operation leaves the caller's device current, unless the
call that restores it fails, which then is pending. The calls on the stream are all made with the arena's
device current. -/
theorem arena_device_restored {effect : DeviceEffect} (heffect : SetsDevice effect) (home device : Int)
    (operations : List (Int × CallResults × ArenaOperation)) (r : CallResults) (operation : ArenaOperation) :
    let after := ({ (createdMachine home).run effect operations with current := device }.perform effect r operation).2
    (after.current = device ∨ (r.restore ≠ none ∧ after.context.pendingError ≠ none)) ∧
      ∀ x ∈ after.log, x.call.onStream = true → x.current = home := by
  intro after
  have hm := run_spec (createdMachine_invariant effect home) operations
  obtain ⟨hafter, hcurrent⟩ := perform_spec (m := { (createdMachine home).run effect operations with current := device })
    ⟨hm.pending, hm.home, hm.placed⟩ r operation
  exact ⟨(hcurrent heffect).imp_right fun ⟨hfailed, hfirst⟩ =>
    ⟨hfailed, fun hnone => hfirst (hafter.pending.symm.trans hnone)⟩, hafter.placed heffect⟩

/-- A runtime that keeps the current device where the call fails. -/
def steadyDevice : DeviceEffect := fun m device result => if result.isNone then device else m.current

/-- A thread on device 0 frees memory of an arena on device 1. -/
theorem arena_device_restored_foreign_free : SetsDevice steadyDevice ∧
    let after := ({ (createdMachine 1).run steadyDevice [] with current := 0 }.perform steadyDevice
      ⟨none, none, none, none⟩ (.free 4096)).2
    after.current = 0 ∧ ∀ x ∈ after.log, x.call.onStream = true → x.current = 1 := by
  have heffect : SetsDevice steadyDevice := fun _ _ => rfl
  obtain ⟨hrestored, hplaced⟩ := arena_device_restored heffect 1 0 [] ⟨none, none, none, none⟩ (.free 4096)
  exact ⟨heffect, hrestored.resolve_right fun h => h.1 rfl, hplaced⟩

end FraudDetection.Proofs
