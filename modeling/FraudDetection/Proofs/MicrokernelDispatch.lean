import FraudDetection.Proofs.MicrokernelRun

/-!
# What a run of the pipeline reports

A run stores a finished result or nothing. The result names the implementation that computed its
values, and its fallback fields are the first and the last of the events on the way there.
-/

namespace FraudDetection.Proofs
open FraudDetection.Library FraudDetection.Engine

variable {α : Type} {ops : FloatOps α}

section failures

lemma codeIs_failsWith_not_ok {β : Type} {code : StatusCode} (hcode : code ≠ .ok) {m : Except Status β}
    (h : FailsWith (CodeIs code) m) : FailsWith (CodeIsNot .ok) m :=
  fun status hstatus => (h status hstatus).codeIsNot hcode

lemma projectionGemmFp32_failsWith_not_ok (weights : MicrokernelWeights α) (features : Nat → α) :
    FailsWith (CodeIsNot .ok) (projectionGemmFp32 ops weights features) :=
  codeIs_failsWith_not_ok (by decide) (projectionGemmFp32_failsWith ops weights features)

lemma finalizeScore_failsWith_not_ok (result : MicrokernelResult α) :
    FailsWith (CodeIsNot .ok) (finalizeScore ops result) :=
  codeIs_failsWith_not_ok (by decide) (finalizeScore_failsWith ops result)

lemma attentionLogit_failsWith (query : List α) (context : Nat → α) (row : Nat) :
    FailsWith (CodeIs .outOfRange) (attentionLogit ops query context row) := by
  unfold attentionLogit
  dsimp only
  refine .bind (.foldlM fun dot channel => ?_) fun _ _ => .throw_if (fun _ => rfl) fun _ => .pure _
  exact .throw_if (fun _ => rfl) fun _ => .throw_if (fun _ => rfl) fun _ => .pure _

lemma shortContextAttentionFp32_failsWith (query : List α) (context : Nat → α) (contextLength : Nat) :
    FailsWith (CodeIsNot .ok) (shortContextAttentionFp32 ops query context contextLength) := by
  have hlogits (token : Nat) : FailsWith (CodeIsNot .ok) (attentionLogit ops query context token) :=
    codeIs_failsWith_not_ok (by decide) (attentionLogit_failsWith query context token)
  unfold shortContextAttentionFp32
  dsimp only
  refine .throw_if (fun _ => nofun) fun _ => .throw_if (fun _ => nofun) fun _ => .ite (fun _ => .pure _) fun _ => ?_
  refine .bind (.mapM fun token => hlogits _) fun _ _ => .throw_if (fun _ => nofun) fun _ => ?_
  exact .foldlM fun output token => .mapM fun channel => .throw_if (fun _ => nofun) fun _ => .pure _

lemma validateFp8Eligibility_failsWith (weights : MicrokernelWeights α) (request : MicrokernelRequest α) :
    FailsWith (CodeIsNot .ok) (validateFp8Eligibility ops weights request) := by
  have hmetadata (metadata : E4M3TensorMetadata α) : FailsWith (CodeIsNot .ok) (validateTensorMetadata ops metadata) :=
    codeIs_failsWith_not_ok (by decide) (validateTensorMetadata_failsWith ops metadata)
  unfold validateFp8Eligibility
  dsimp only
  refine .throw_if (fun _ => nofun) fun _ => .bind (hmetadata _) fun _ _ => .bind (hmetadata _) fun _ _ => ?_
  refine .bind (hmetadata _) fun _ _ => .bind (hmetadata _) fun _ _ => .throw_if (fun _ => nofun) fun _ => ?_
  refine .throw_if (fun _ => nofun) fun _ => .throw_if (fun _ => nofun) fun _ => .throw_if (fun _ => nofun) fun _ => ?_
  refine .throw_if (fun _ => nofun) fun _ => .throw_if (fun _ => nofun) fun _ => ?_
  refine .bind (projectionGemmFp32_failsWith_not_ok _ _) fun _ _ => ?_
  exact .ite (fun _ => .throw nofun) fun _ => .pure _

lemma eq_ok_of_statusOf_ok {check : Except Status Unit} (hcheck : FailsWith (CodeIsNot .ok) check)
    (h : (statusOf check).ok = true) : check = .ok () := by
  cases check with
  | ok u => rfl
  | error status => exact absurd (of_decide_eq_true h) (hcheck status rfl)

lemma not_ok_of_ok_eq_false {status : Status} (h : ¬ status.ok = true) : CodeIsNot .ok status := by
  intro hcode
  exact h (decide_eq_true hcode)

lemma runCuda_failsWith_not_ok (cuda : CudaRunner α) (weights : MicrokernelWeights α) (request : MicrokernelRequest α)
    (candidate : Backend) (next : MicrokernelResult α) :
    FailsWith (CodeIsNot .ok) (runCuda ops cuda weights request candidate next) := by
  unfold runCuda
  dsimp only
  refine .ite (fun _ => .bind (finalizeScore_failsWith_not_ok _) fun _ _ => .pure _) fun hfirst => ?_
  refine .throw_if (fun _ => not_ok_of_ok_eq_false hfirst) fun _ => ?_
  refine .ite (fun _ => .ite (fun _ => ?_) fun hsecond => ?_) fun _ => .pure _
  · exact .bind (finalizeScore_failsWith_not_ok _) fun _ _ => .pure _
  · exact .throw_if (fun _ => not_ok_of_ok_eq_false hsecond) fun _ => .pure _

lemma runPipeline_failsWith_not_ok (cuda : Option (CudaRunner α)) (preferred : Backend)
    (weights : MicrokernelWeights α) (request : MicrokernelRequest α) :
    FailsWith (CodeIsNot .ok) (runPipeline ops cuda preferred weights request) := by
  unfold runPipeline
  dsimp only
  refine .throw_if (fun _ => nofun) fun _ => .bind (projectionGemmFp32_failsWith_not_ok _ _) fun _ _ => ?_
  refine .bind (shortContextAttentionFp32_failsWith _ _ _) fun _ _ => ?_
  refine .throw_if (fun h => by rw [CodeIsNot, h]; nofun) fun _ => .throw_if (fun h => ?_) fun _ => ?_
  · exact not_ok_of_ok_eq_false (by simpa using h.1.2)
  cases cuda with
  | none => exact .ite (fun _ => finalizeScore_failsWith_not_ok _) fun _ => finalizeScore_failsWith_not_ok _
  | some runner =>
    refine .ite (fun _ => .bind (runCuda_failsWith_not_ok runner weights request _ _) fun executed _ => ?_)
      fun _ => finalizeScore_failsWith_not_ok _
    cases executed with
    | inl finished => exact .pure _
    | inr rest => exact finalizeScore_failsWith_not_ok _

end failures

section events

abbrev FallbackEvent := Status × FallbackReason

/-- The fallback fields of a result hold the first and the last of the events. -/
structure RecordedFallbacks (events : List FallbackEvent) (result : MicrokernelResult α) : Prop where
  used : result.fallbackUsed = !events.isEmpty
  first : (result.fallbackStatus, result.fallbackReason) = events.headD (.Ok, .none)
  last : (result.terminalFallbackStatus, result.terminalFallbackReason) = events.getLastD (.Ok, .none)

lemma RecordedFallbacks.record {events : List FallbackEvent} {result : MicrokernelResult α}
    (h : RecordedFallbacks events result) (status : Status) (reason : FallbackReason) :
    RecordedFallbacks (events ++ [(status, reason)]) (recordFallback result status reason) := by
  have hused := h.used
  have hfirst := h.first
  refine ⟨?_, ?_, ?_⟩
  · simp [recordFallback]
  · cases events with
    | nil => simp [recordFallback, hused]
    | cons event events => simpa [recordFallback, hused] using hfirst
  · simp [recordFallback]

def withOutputs (next : MicrokernelResult α) (out : List α × List α) : MicrokernelResult α :=
  { next with projection := out.1, attendedContext := out.2 }

lemma RecordedFallbacks.withOutputs {events : List FallbackEvent} {result : MicrokernelResult α}
    (h : RecordedFallbacks events result) (out : List α × List α) :
    RecordedFallbacks events (withOutputs result out) := ⟨h.used, h.first, h.last⟩

lemma RecordedFallbacks.finished {events : List FallbackEvent} {result : MicrokernelResult α}
    (h : RecordedFallbacks events result) (backend : Backend) (score : α) :
    RecordedFallbacks events { result with backend := backend, anomalyScore := score } := ⟨h.used, h.first, h.last⟩

def eligibilityEvents (preferred : Backend) (weights : MicrokernelWeights α) (eligibility : Status) :
    List FallbackEvent :=
  if preferred = .cudaFp8 ∧ !eligibility.ok then
    [(eligibility, if weights.fp8Format = .e5m2Unsupported then .unsupportedFp8Format else .fp8Ineligible)]
  else []

def cudaEvents (cuda : CudaRunner α) (weights : MicrokernelWeights α) (request : MicrokernelRequest α)
    (candidate : Backend) (out : List α × List α) : List FallbackEvent :=
  let first := cuda weights request candidate out
  if first.1.ok then []
  else if candidate = .cudaFp8 ∧ first.1.code = .unsupported then
    let second := cuda weights request .cudaFp16 first.2
    (first.1, .unsupportedDevice) :: if second.1.ok then [] else [(second.1, fallbackReasonFor second.1)]
  else [(first.1, fallbackReasonFor first.1)]

def dispatchEvents (ops : FloatOps α) (cuda : Option (CudaRunner α)) (preferred : Backend)
    (weights : MicrokernelWeights α) (request : MicrokernelRequest α) : List FallbackEvent :=
  let eligibility := statusOf (validateFp8Eligibility ops weights request)
  let zeros := List.replicate embeddingWidth (ops.literal 0)
  eligibilityEvents preferred weights eligibility ++
    match cuda with
    | some runner =>
      if preferred = .cudaFp8 ∨ preferred = .cudaFp16 then
        cudaEvents runner weights request
          (if preferred = .cudaFp8 ∧ !eligibility.ok then .cudaFp16 else preferred) (zeros, zeros)
      else []
    | none =>
      if preferred ≠ .cpuReference then
        [(⟨.unavailable, "CUDA support was not compiled into this microkernel"⟩, .cudaUnavailable)]
      else []

end events

section cuda

variable {cuda : CudaRunner α} {weights : MicrokernelWeights α} {request : MicrokernelRequest α}
  {candidate : Backend} {next : MicrokernelResult α}

lemma finalizeScore_ok {result finished : MicrokernelResult α} (h : finalizeScore ops result = .ok finished) :
    ∃ score, finished = { result with anomalyScore := score } := by
  unfold finalizeScore at h
  dsimp only at h
  rw [bind_eq_ok_iff] at h
  obtain ⟨magnitude, -, h⟩ := h
  rw [throw_if_eq_ok_iff] at h
  obtain ⟨-, h⟩ := h
  cases h
  exact ⟨_, rfl⟩

/-- How the attempts on a device end, if they do not fail the run. -/
inductive CudaOutcome (cuda : CudaRunner α) (weights : MicrokernelWeights α) (request : MicrokernelRequest α)
    (candidate : Backend) (next : MicrokernelResult α) : MicrokernelResult α ⊕ MicrokernelResult α → Prop where
  | computed (answer : Status × List α × List α) (score : α)
      (hattempt : cuda weights request candidate (next.projection, next.attendedContext) = answer)
      (hok : answer.1.ok = true) :
      CudaOutcome cuda weights request candidate next (.inl { withOutputs next answer.2 with
        backend := candidate, fallbackUsed := next.fallbackUsed || candidate ≠ next.preferredBackend
        anomalyScore := score })
  | lowered (first second : Status × List α × List α) (score : α)
      (hfirst : cuda weights request candidate (next.projection, next.attendedContext) = first)
      (hlowered : candidate = .cudaFp8 ∧ first.1.code = .unsupported)
      (hsecond : cuda weights request .cudaFp16 first.2 = second) (hok : second.1.ok = true) :
      CudaOutcome cuda weights request candidate next
        (.inl { withOutputs (recordFallback (withOutputs next first.2) first.1 .unsupportedDevice) second.2 with
          backend := .cudaFp16, anomalyScore := score })
  | failedTwice (first second : Status × List α × List α)
      (hfirst : cuda weights request candidate (next.projection, next.attendedContext) = first)
      (hlowered : candidate = .cudaFp8 ∧ first.1.code = .unsupported)
      (hsecond : cuda weights request .cudaFp16 first.2 = second) (hfailed : ¬ second.1.ok = true)
      (hrecoverable : recoverableCudaFailure second.1 = true) :
      CudaOutcome cuda weights request candidate next
        (.inr (recordFallback
          (withOutputs (recordFallback (withOutputs next first.2) first.1 .unsupportedDevice) second.2)
          second.1 (fallbackReasonFor second.1)))
  | failed (first : Status × List α × List α)
      (hfirst : cuda weights request candidate (next.projection, next.attendedContext) = first)
      (hfailed : ¬ first.1.ok = true) (hrecoverable : recoverableCudaFailure first.1 = true)
      (hlowered : ¬ (candidate = .cudaFp8 ∧ first.1.code = .unsupported)) :
      CudaOutcome cuda weights request candidate next
        (.inr (recordFallback (withOutputs next first.2) first.1 (fallbackReasonFor first.1)))

lemma runCuda_ok {executed : MicrokernelResult α ⊕ MicrokernelResult α}
    (h : runCuda ops cuda weights request candidate next = .ok executed) :
    CudaOutcome cuda weights request candidate next executed := by
  unfold runCuda attempt at h
  dsimp only at h
  by_cases hfirst : (cuda weights request candidate (next.projection, next.attendedContext)).1.ok = true
  · rw [if_pos hfirst, bind_eq_ok_iff] at h
    obtain ⟨finished, hfinal, h⟩ := h
    cases h
    obtain ⟨score, rfl⟩ := finalizeScore_ok hfinal
    exact .computed _ score rfl hfirst
  rw [if_neg hfirst, throw_if_eq_ok_iff] at h
  obtain ⟨hrecoverable, h⟩ := h
  rw [Bool.not_eq_true, Bool.not_eq_false'] at hrecoverable
  by_cases hlowered : candidate = .cudaFp8 ∧
      (cuda weights request candidate (next.projection, next.attendedContext)).1.code = .unsupported
  · rw [if_pos hlowered] at h
    by_cases hsecond : (cuda weights request .cudaFp16
        (cuda weights request candidate (next.projection, next.attendedContext)).2).1.ok = true
    · rw [if_pos (by exact hsecond), bind_eq_ok_iff] at h
      obtain ⟨finished, hfinal, h⟩ := h
      cases h
      obtain ⟨score, rfl⟩ := finalizeScore_ok hfinal
      exact .lowered _ _ score rfl hlowered rfl hsecond
    · rw [if_neg (by exact hsecond), throw_if_eq_ok_iff] at h
      obtain ⟨hrecoverable', h⟩ := h
      rw [Bool.not_eq_true, Bool.not_eq_false'] at hrecoverable'
      cases h
      exact .failedTwice _ _ rfl hlowered rfl hsecond hrecoverable'
  · rw [if_neg hlowered] at h
    cases h
    exact .failed _ rfl hfirst hrecoverable hlowered

end cuda

section honesty

structure HonestResult (ops : FloatOps α) (cuda : Option (CudaRunner α)) (preferred : Backend)
    (weights : MicrokernelWeights α) (request : MicrokernelRequest α) (result : MicrokernelResult α) : Prop where
  preferred_eq : result.preferredBackend = preferred
  computed : result.backend = .cpuReference ∧
        ReferenceComputed ops weights request result.projection result.attendedContext ∨
      (result.backend = .cudaFp16 ∨ result.backend = .cudaFp8) ∧ ∃ runner ∈ cuda, ∃ out status,
        runner weights request result.backend out = (status, result.projection, result.attendedContext) ∧
          status.ok = true
  fallback_iff : result.fallbackUsed = true ↔ result.backend ≠ result.preferredBackend
  recorded : RecordedFallbacks (dispatchEvents ops cuda preferred weights request) result
  reason_iff : result.fallbackReason ≠ .none ↔ result.fallbackUsed = true
  terminal_iff : result.terminalFallbackReason ≠ .none ↔ result.fallbackUsed = true
  eligible_eq : result.eligibleForFp8 = (statusOf (validateFp8Eligibility ops weights request)).ok
  fp8_eligible : result.backend = .cudaFp8 → validateFp8Eligibility ops weights request = .ok ()

lemma RecordedFallbacks.reason_iff {events : List FallbackEvent} {result : MicrokernelResult α}
    (h : RecordedFallbacks events result) (hreasons : ∀ event ∈ events, event.2 ≠ .none) :
    (result.fallbackReason ≠ .none ↔ result.fallbackUsed = true) ∧
      (result.terminalFallbackReason ≠ .none ↔ result.fallbackUsed = true) := by
  have hfirst : result.fallbackReason = (events.headD (.Ok, .none)).2 := congrArg Prod.snd h.first
  have hlast : result.terminalFallbackReason = (events.getLastD (.Ok, .none)).2 := congrArg Prod.snd h.last
  rw [hfirst, hlast, h.used]
  cases events with
  | nil => simp
  | cons event events =>
    have hlastmem : (event :: events).getLastD (.Ok, .none) ∈ event :: events := by
      rw [List.getLastD_cons]
      exact List.getLastD_mem_cons
    exact ⟨iff_of_true (hreasons event List.mem_cons_self) rfl, iff_of_true (hreasons _ hlastmem) rfl⟩

lemma fallbackReasonFor_ne_none {status : Status} (h : recoverableCudaFailure status = true) :
    fallbackReasonFor status ≠ .none := by
  simp only [recoverableCudaFailure, Bool.or_eq_true, decide_eq_true_eq] at h
  unfold fallbackReasonFor
  rcases h with (h | h) | h <;> rw [h] <;> decide

variable {cuda : Option (CudaRunner α)} {preferred : Backend} {weights : MicrokernelWeights α}
  {request : MicrokernelRequest α}

/-- The result on which a run starts its attempts, and the backend it tries first. -/
structure Prepared (ops : FloatOps α) (preferred : Backend) (weights : MicrokernelWeights α)
    (request : MicrokernelRequest α) (candidate : Backend) (next : MicrokernelResult α) : Prop where
  preferred_eq : next.preferredBackend = preferred
  eligible_eq : next.eligibleForFp8 = (statusOf (validateFp8Eligibility ops weights request)).ok
  outputs_eq : (next.projection, next.attendedContext) =
    (List.replicate embeddingWidth (ops.literal 0), List.replicate embeddingWidth (ops.literal 0))
  recorded : RecordedFallbacks
    (eligibilityEvents preferred weights (statusOf (validateFp8Eligibility ops weights request))) next
  candidate_eq : candidate = if preferred = .cudaFp8 ∧ !(statusOf (validateFp8Eligibility ops weights request)).ok
    then .cudaFp16 else preferred
  used_iff : next.fallbackUsed = true ↔ candidate ≠ preferred
  eligible_of_fp8 : candidate = .cudaFp8 → validateFp8Eligibility ops weights request = .ok ()

lemma eligibilityEvents_reasons (preferred : Backend) (weights : MicrokernelWeights α) (eligibility : Status) :
    ∀ event ∈ eligibilityEvents preferred weights eligibility, event.2 ≠ .none := by
  unfold eligibilityEvents
  split
  · intro event hevent
    rw [List.mem_singleton.mp hevent]
    dsimp only
    split <;> nofun
  · nofun

def initialResult (ops : FloatOps α) (preferred : Backend) (eligibility : Status) : MicrokernelResult α :=
  ⟨preferred, .notExecuted, false, eligibility.ok, .none, .Ok, .none, .Ok,
    List.replicate embeddingWidth (ops.literal 0), List.replicate embeddingWidth (ops.literal 0), ops.literal 0⟩

lemma prepared_initial (ops : FloatOps α) (preferred : Backend) (weights : MicrokernelWeights α)
    (request : MicrokernelRequest α) :
    let eligibility := statusOf (validateFp8Eligibility ops weights request)
    let next := initialResult ops preferred eligibility
    Prepared ops preferred weights request
      (if preferred = .cudaFp8 ∧ !eligibility.ok then .cudaFp16 else preferred)
      (if preferred = .cudaFp8 ∧ !eligibility.ok then recordFallback next eligibility
        (if weights.fp8Format = .e5m2Unsupported then .unsupportedFp8Format else .fp8Ineligible) else next) := by
  intro eligibility next
  have hnext : RecordedFallbacks [] next := ⟨rfl, rfl, rfl⟩
  by_cases hineligible : preferred = .cudaFp8 ∧ (!eligibility.ok) = true
  · rw [if_pos hineligible, if_pos hineligible]
    have hrecorded := hnext.record eligibility
      (if weights.fp8Format = .e5m2Unsupported then .unsupportedFp8Format else .fp8Ineligible)
    have hevents : eligibilityEvents preferred weights eligibility = [(eligibility,
      if weights.fp8Format = .e5m2Unsupported then .unsupportedFp8Format else .fp8Ineligible)] := if_pos hineligible
    refine ⟨rfl, rfl, rfl, ?_, (if_pos hineligible).symm, ?_, nofun⟩
    · rw [hevents]
      exact hrecorded
    · exact iff_of_true rfl (by rw [hineligible.1]; nofun)
  · rw [if_neg hineligible, if_neg hineligible]
    have hevents : eligibilityEvents preferred weights eligibility = [] := if_neg hineligible
    refine ⟨rfl, rfl, rfl, ?_, (if_neg hineligible).symm, iff_of_false nofun (fun h => h rfl), fun hfp8 => ?_⟩
    · rw [hevents]
      exact hnext
    · apply eq_ok_of_statusOf_ok (validateFp8Eligibility_failsWith weights request)
      simpa [hfp8] using hineligible

/-- A run that succeeds was prepared, and ended on a device or on the CPU. -/
inductive RunOutcome (ops : FloatOps α) (cuda : Option (CudaRunner α)) (preferred : Backend)
    (weights : MicrokernelWeights α) (request : MicrokernelRequest α) (result : MicrokernelResult α) : Prop where
  | device (runner : CudaRunner α) (hrunner : runner ∈ cuda) (candidate : Backend) (next : MicrokernelResult α)
      (hprepared : Prepared ops preferred weights request candidate next)
      (hpreferred : preferred = .cudaFp8 ∨ preferred = .cudaFp16)
      (hexecuted : CudaOutcome runner weights request candidate next (.inl result))
  | fallback (runner : CudaRunner α) (hrunner : runner ∈ cuda) (candidate : Backend) (next rest : MicrokernelResult α)
      (hprepared : Prepared ops preferred weights request candidate next)
      (hpreferred : preferred = .cudaFp8 ∨ preferred = .cudaFp16)
      (hexecuted : CudaOutcome runner weights request candidate next (.inr rest)) (out : List α × List α) (score : α)
      (hcomputed : ReferenceComputed ops weights request out.1 out.2)
      (hresult : result = { withOutputs rest out with backend := .cpuReference, anomalyScore := score })
  | cpu (candidate : Backend) (next : MicrokernelResult α)
      (hprepared : Prepared ops preferred weights request candidate next)
      (hcpu : preferred ≠ .cudaFp8 ∧ preferred ≠ .cudaFp16) (out : List α × List α) (score : α)
      (hcomputed : ReferenceComputed ops weights request out.1 out.2)
      (hresult : result = { withOutputs next out with backend := .cpuReference, anomalyScore := score })
  | unavailable (candidate : Backend) (next : MicrokernelResult α)
      (hprepared : Prepared ops preferred weights request candidate next) (hbuild : cuda = none)
      (hpreferred : preferred ≠ .cpuReference) (out : List α × List α) (score : α)
      (hcomputed : ReferenceComputed ops weights request out.1 out.2)
      (hresult : result = { withOutputs (recordFallback next
        ⟨.unavailable, "CUDA support was not compiled into this microkernel"⟩ .cudaUnavailable) out with
          backend := .cpuReference, anomalyScore := score })

lemma runPipeline_ok {result : MicrokernelResult α} (h : runPipeline ops cuda preferred weights request = .ok result) :
    RunOutcome ops cuda preferred weights request result := by
  unfold runPipeline at h
  dsimp only at h
  rw [throw_if_eq_ok_iff] at h
  obtain ⟨-, h⟩ := h
  rw [bind_eq_ok_iff] at h
  obtain ⟨projection, hprojection, h⟩ := h
  rw [bind_eq_ok_iff] at h
  obtain ⟨attended, hattended, h⟩ := h
  rw [throw_if_eq_ok_iff, throw_if_eq_ok_iff] at h
  obtain ⟨-, -, h⟩ := h
  have hcomputed : ReferenceComputed ops weights request projection attended := ⟨hprojection, hattended⟩
  generalize hcandidate : (if preferred = Backend.cudaFp8 ∧
      (!(statusOf (validateFp8Eligibility ops weights request)).ok) = true then Backend.cudaFp16 else preferred) =
    candidate at h
  generalize hnext : (if preferred = Backend.cudaFp8 ∧
      (!(statusOf (validateFp8Eligibility ops weights request)).ok) = true then recordFallback _ _ _ else _) =
    next at h
  have hprepared : Prepared ops preferred weights request candidate next := by
    subst hcandidate hnext
    exact prepared_initial ops preferred weights request
  cases cuda with
  | none =>
    dsimp only at h
    by_cases hpreferred : preferred = .cpuReference
    · rw [if_neg (not_not.mpr hpreferred)] at h
      obtain ⟨score, hresult⟩ := finalizeScore_ok h
      have hcpu : preferred ≠ .cudaFp8 ∧ preferred ≠ .cudaFp16 := by
        rw [hpreferred]
        exact ⟨nofun, nofun⟩
      exact .cpu candidate next hprepared hcpu (projection, attended) score hcomputed hresult
    · rw [if_pos hpreferred] at h
      obtain ⟨score, hresult⟩ := finalizeScore_ok h
      exact .unavailable candidate next hprepared rfl hpreferred (projection, attended) score hcomputed hresult
  | some runner =>
    dsimp only at h
    by_cases hpreferred : preferred = .cudaFp8 ∨ preferred = .cudaFp16
    · rw [if_pos hpreferred, bind_eq_ok_iff] at h
      obtain ⟨executed, hrun, h⟩ := h
      cases executed with
      | inl finished =>
        cases h
        exact .device runner rfl candidate next hprepared hpreferred (runCuda_ok hrun)
      | inr rest =>
        obtain ⟨score, hresult⟩ := finalizeScore_ok h
        exact .fallback runner rfl candidate next rest hprepared hpreferred (runCuda_ok hrun) (projection, attended)
          score hcomputed hresult
    · rw [if_neg hpreferred] at h
      obtain ⟨score, hresult⟩ := finalizeScore_ok h
      exact .cpu candidate next hprepared (not_or.mp hpreferred) (projection, attended) score hcomputed hresult

/-- The attempts record their events after those before them, and nothing else about the request. -/
structure CudaRecorded (cuda : CudaRunner α) (weights : MicrokernelWeights α) (request : MicrokernelRequest α)
    (candidate : Backend) (events : List FallbackEvent) (next result : MicrokernelResult α) : Prop where
  recorded : RecordedFallbacks
    (events ++ cudaEvents cuda weights request candidate (next.projection, next.attendedContext)) result
  reasons : ∀ event ∈ cudaEvents cuda weights request candidate (next.projection, next.attendedContext), event.2 ≠ .none
  preferred_eq : result.preferredBackend = next.preferredBackend
  eligible_eq : result.eligibleForFp8 = next.eligibleForFp8

lemma CudaOutcome.events {runner : CudaRunner α} {candidate : Backend} {next : MicrokernelResult α}
    {executed : MicrokernelResult α ⊕ MicrokernelResult α} {events : List FallbackEvent}
    (h : CudaOutcome runner weights request candidate next executed) (hnext : RecordedFallbacks events next)
    (hcandidate : candidate ≠ next.preferredBackend → next.fallbackUsed = true) :
    CudaRecorded runner weights request candidate events next (executed.elim id id) := by
  have hnotOk : ∀ {status : Status}, status.code = .unsupported → ¬ status.ok = true := by
    intro status hcode hok
    cases hcode.symm.trans (of_decide_eq_true hok)
  cases h with
  | computed answer score hattempt hok =>
    have hevents : cudaEvents runner weights request candidate (next.projection, next.attendedContext) = [] := by
      simp only [cudaEvents, hattempt, hok, if_true]
    refine ⟨?_, ?_, rfl, rfl⟩
    · rw [hevents, List.append_nil]
      refine ⟨?_, hnext.first, hnext.last⟩
      rw [← hnext.used]
      by_cases hsame : candidate = next.preferredBackend
      · simp [withOutputs, hsame]
      · simp [withOutputs, hcandidate hsame]
    · rw [hevents]
      nofun
  | lowered first second score hfirst hlowered hsecond hok =>
    have hevents : cudaEvents runner weights request candidate (next.projection, next.attendedContext) =
        [(first.1, .unsupportedDevice)] := by
      simp only [cudaEvents, hfirst, hsecond, if_neg (hnotOk hlowered.2), if_pos hlowered, hok, if_true]
    refine ⟨?_, ?_, rfl, rfl⟩
    · rw [hevents]
      exact (((hnext.withOutputs first.2).record first.1 .unsupportedDevice).withOutputs second.2).finished _ score
    · rw [hevents]
      exact List.forall_mem_singleton.mpr nofun
  | failedTwice first second hfirst hlowered hsecond hfailed hrecoverable =>
    have hevents : cudaEvents runner weights request candidate (next.projection, next.attendedContext) =
        [(first.1, .unsupportedDevice)] ++ [(second.1, fallbackReasonFor second.1)] := by
      simp only [cudaEvents, hfirst, hsecond, if_neg (hnotOk hlowered.2), if_pos hlowered, if_neg hfailed,
        List.singleton_append]
    refine ⟨?_, ?_, rfl, rfl⟩
    · rw [hevents, ← List.append_assoc]
      have hfirstRecorded := (hnext.withOutputs first.2).record first.1 .unsupportedDevice
      exact (hfirstRecorded.withOutputs second.2).record second.1 (fallbackReasonFor second.1)
    · rw [hevents]
      refine List.forall_mem_append.mpr ⟨List.forall_mem_singleton.mpr nofun, ?_⟩
      exact List.forall_mem_singleton.mpr (fallbackReasonFor_ne_none hrecoverable)
  | failed first hfirst hfailed hrecoverable hlowered =>
    have hevents : cudaEvents runner weights request candidate (next.projection, next.attendedContext) =
        [(first.1, fallbackReasonFor first.1)] := by
      simp only [cudaEvents, hfirst, if_neg hfailed, if_neg hlowered]
    refine ⟨?_, ?_, rfl, rfl⟩
    · rw [hevents]
      exact (hnext.withOutputs first.2).record first.1 (fallbackReasonFor first.1)
    · rw [hevents]
      exact List.forall_mem_singleton.mpr (fallbackReasonFor_ne_none hrecoverable)

lemma dispatchEvents_cuda {runner : CudaRunner α} {candidate : Backend} {next : MicrokernelResult α}
    (hrunner : runner ∈ cuda) (hpreferred : preferred = .cudaFp8 ∨ preferred = .cudaFp16)
    (hprepared : Prepared ops preferred weights request candidate next) :
    dispatchEvents ops cuda preferred weights request =
      eligibilityEvents preferred weights (statusOf (validateFp8Eligibility ops weights request)) ++
        cudaEvents runner weights request candidate (next.projection, next.attendedContext) := by
  rw [Option.mem_def] at hrunner
  rw [hprepared.outputs_eq, hprepared.candidate_eq, hrunner]
  unfold dispatchEvents
  dsimp only
  rw [if_pos hpreferred]

lemma Prepared.candidate_cuda {candidate : Backend} {next : MicrokernelResult α}
    (h : Prepared ops preferred weights request candidate next)
    (hpreferred : preferred = .cudaFp8 ∨ preferred = .cudaFp16) :
    (candidate = .cudaFp16 ∨ candidate = .cudaFp8) ∧ (candidate = .cudaFp8 → preferred = .cudaFp8) := by
  have hcandidate := h.candidate_eq
  split at hcandidate
  · rw [hcandidate]
    exact ⟨.inl rfl, nofun⟩
  · rw [hcandidate]
    exact ⟨hpreferred.symm, id⟩

/-- A device that finishes the run is the one that the result names. -/
lemma CudaOutcome.device {runner : CudaRunner α} {candidate : Backend} {next result : MicrokernelResult α}
    (h : CudaOutcome runner weights request candidate next (.inl result))
    (hprepared : Prepared ops preferred weights request candidate next)
    (hpreferred : preferred = .cudaFp8 ∨ preferred = .cudaFp16) :
    (result.backend = .cudaFp16 ∨ result.backend = .cudaFp8) ∧
    (∃ out status, runner weights request result.backend out = (status, result.projection, result.attendedContext) ∧
      status.ok = true) ∧
    (result.fallbackUsed = true ↔ result.backend ≠ preferred) ∧
    (result.backend = .cudaFp8 → validateFp8Eligibility ops weights request = .ok ()) := by
  obtain ⟨hcandidate, hfp8⟩ := hprepared.candidate_cuda hpreferred
  cases h with
  | computed answer score hattempt hok =>
    refine ⟨hcandidate, ⟨_, answer.1, hattempt, hok⟩, ?_, hprepared.eligible_of_fp8⟩
    have hused := hprepared.used_iff
    simp only [hprepared.preferred_eq, Bool.or_eq_true, decide_eq_true_eq]
    exact ⟨fun h => h.elim hused.mp id, .inr⟩
  | lowered first second score hfirst hlowered hsecond hok =>
    refine ⟨.inl rfl, ⟨_, second.1, hsecond, hok⟩, iff_of_true rfl ?_, nofun⟩
    rw [hfp8 hlowered.1]
    nofun

lemma CudaOutcome.rest_used {runner : CudaRunner α} {candidate : Backend} {next rest : MicrokernelResult α}
    (h : CudaOutcome runner weights request candidate next (.inr rest)) : rest.fallbackUsed = true := by
  cases h with
  | failedTwice => rfl
  | failed => rfl

lemma honest_cpu {rest : MicrokernelResult α} {out : List α × List α}
    (hrecorded : RecordedFallbacks (dispatchEvents ops cuda preferred weights request) rest)
    (hreasons : ∀ event ∈ dispatchEvents ops cuda preferred weights request, event.2 ≠ .none)
    (hpreferred : rest.preferredBackend = preferred)
    (heligible : rest.eligibleForFp8 = (statusOf (validateFp8Eligibility ops weights request)).ok)
    (hused : rest.fallbackUsed = true ↔ preferred ≠ .cpuReference)
    (hcomputed : ReferenceComputed ops weights request out.1 out.2) (score : α) :
    HonestResult ops cuda preferred weights request
      { withOutputs rest out with backend := .cpuReference, anomalyScore := score } := by
  have hresult := (hrecorded.withOutputs out).finished .cpuReference score
  obtain ⟨hreason, hterminal⟩ := hresult.reason_iff hreasons
  refine ⟨hpreferred, .inl ⟨rfl, hcomputed⟩, ?_, hresult, hreason, hterminal, heligible, nofun⟩
  dsimp only [withOutputs]
  rw [hused, hpreferred]
  exact ne_comm

lemma RunOutcome.honest {result : MicrokernelResult α} (hexecutable : preferred ≠ .notExecuted)
    (h : RunOutcome ops cuda preferred weights request result) :
    HonestResult ops cuda preferred weights request result := by
  have heligibility := eligibilityEvents_reasons preferred weights
    (statusOf (validateFp8Eligibility ops weights request))
  -- the events of the attempts follow that of the eligibility check
  have hattempts : ∀ {runner candidate next executed}, runner ∈ cuda →
      Prepared ops preferred weights request candidate next → preferred = .cudaFp8 ∨ preferred = .cudaFp16 →
      CudaOutcome runner weights request candidate next executed →
      RecordedFallbacks (dispatchEvents ops cuda preferred weights request) (executed.elim id id) ∧
        (∀ event ∈ dispatchEvents ops cuda preferred weights request, event.2 ≠ .none) ∧
        (executed.elim id id).preferredBackend = preferred ∧
        (executed.elim id id).eligibleForFp8 = (statusOf (validateFp8Eligibility ops weights request)).ok := by
    intro runner candidate next executed hrunner hprepared hcuda hexecuted
    have hevents := hexecuted.events hprepared.recorded fun hne =>
      hprepared.used_iff.mpr (hprepared.preferred_eq ▸ hne)
    rw [dispatchEvents_cuda hrunner hcuda hprepared]
    exact ⟨hevents.recorded, List.forall_mem_append.mpr ⟨heligibility, hevents.reasons⟩,
      hevents.preferred_eq.trans hprepared.preferred_eq, hevents.eligible_eq.trans hprepared.eligible_eq⟩
  cases h with
  | device runner hrunner candidate next hprepared hcuda hexecuted =>
    obtain ⟨hrecorded, hreasons, hpreferred, heligible⟩ := hattempts hrunner hprepared hcuda hexecuted
    obtain ⟨hreason, hterminal⟩ := hrecorded.reason_iff hreasons
    obtain ⟨hbackend, hcomputed, hused, hfp8⟩ := hexecuted.device hprepared hcuda
    rw [← hpreferred] at hused
    exact ⟨hpreferred, .inr ⟨hbackend, runner, hrunner, hcomputed⟩, hused, hrecorded, hreason, hterminal, heligible,
      hfp8⟩
  | fallback runner hrunner candidate next rest hprepared hcuda hexecuted out score hcomputed hresult =>
    obtain ⟨hrecorded, hreasons, hpreferred, heligible⟩ := hattempts hrunner hprepared hcuda hexecuted
    have hnotCpu : preferred ≠ .cpuReference := by
      rcases hcuda with rfl | rfl <;> nofun
    subst hresult
    exact honest_cpu hrecorded hreasons hpreferred heligible (iff_of_true hexecuted.rest_used hnotCpu) hcomputed score
  | cpu candidate next hprepared hcpu out score hcomputed hresult =>
    have hpreferred : preferred = .cpuReference := by
      cases preferred with
      | cpuReference => rfl
      | notExecuted => exact absurd rfl hexecutable
      | cudaFp16 => exact absurd rfl hcpu.2
      | cudaFp8 => exact absurd rfl hcpu.1
    subst hpreferred hresult
    have hevents : dispatchEvents ops cuda .cpuReference weights request = [] := by
      cases cuda <;> rfl
    refine honest_cpu ?_ (by rw [hevents]; nofun) hprepared.preferred_eq hprepared.eligible_eq ?_ hcomputed score
    · rw [hevents]
      exact hprepared.recorded
    · rw [hprepared.used_iff, hprepared.candidate_eq]
      simp
  | unavailable candidate next hprepared hbuild hnotCpu out score hcomputed hresult =>
    subst hbuild hresult
    have hevents : dispatchEvents ops none preferred weights request =
        eligibilityEvents preferred weights (statusOf (validateFp8Eligibility ops weights request)) ++
          [(⟨.unavailable, "CUDA support was not compiled into this microkernel"⟩, .cudaUnavailable)] := by
      unfold dispatchEvents
      dsimp only
      rw [if_pos hnotCpu]
    have hrecorded := hprepared.recorded.record
      ⟨.unavailable, "CUDA support was not compiled into this microkernel"⟩ .cudaUnavailable
    rw [← hevents] at hrecorded
    refine honest_cpu hrecorded ?_ hprepared.preferred_eq hprepared.eligible_eq (iff_of_true rfl hnotCpu) hcomputed
      score
    rw [hevents]
    exact List.forall_mem_append.mpr ⟨heligibility, List.forall_mem_singleton.mpr nofun⟩

end honesty

lemma selectBackend_ne_notExecuted (minCudaCC fp8MinCudaCC : Int) (capabilities : DeviceCapabilities) :
    selectBackend minCudaCC fp8MinCudaCC capabilities ≠ .notExecuted := by
  unfold selectBackend
  dsimp only
  split
  · nofun
  · split
    · nofun
    · split <;> nofun

/-- A run that fails leaves the result and the last executed backend. A run that succeeds stores a
result that tells which implementation computed it, and that implementation is the last executed one. -/
theorem run_reports_honestly (ops : FloatOps α) (cuda : Option (CudaRunner α)) (minCudaCC fp8MinCudaCC : Int)
    (capabilities : DeviceCapabilities) (weights : MicrokernelWeights α) (request : MicrokernelRequest α)
    (result : Option (MicrokernelResult α)) (last : Backend) :
    let preferred := selectBackend minCudaCC fp8MinCudaCC capabilities
    let after := run ops cuda preferred weights request result last
    (after.1.ok = false → after.2 = (result, last)) ∧
    (after.1.ok = true → ∃ stored, after.2 = (some stored, stored.backend) ∧
      HonestResult ops cuda preferred weights request stored) := by
  intro preferred after
  have hexecutable := selectBackend_ne_notExecuted minCudaCC fp8MinCudaCC capabilities
  change (after.1.ok = false → _) ∧ (after.1.ok = true → _)
  cases result with
  | none => exact ⟨fun _ => rfl, fun hok => absurd hok Bool.false_ne_true⟩
  | some result =>
    cases hrun : runPipeline ops cuda preferred weights request with
    | error status =>
      have hafter : after = (status, some result, last) := by
        simp only [after, run, hrun]
      rw [hafter]
      refine ⟨fun _ => rfl, fun hok => ?_⟩
      exact absurd (of_decide_eq_true hok) (runPipeline_failsWith_not_ok cuda preferred weights request status hrun)
    | ok next =>
      have hafter : after = (.Ok, some next, next.backend) := by
        simp only [after, run, hrun]
      rw [hafter]
      exact ⟨fun hok => absurd hok.symm Bool.false_ne_true,
        fun _ => ⟨next, rfl, (runPipeline_ok hrun).honest hexecutable⟩⟩

end FraudDetection.Proofs
