import FraudDetection.GatewayMetrics
import FraudDetection.Library.Tally

/-!
# What a scrape of the gateway shows

A counter is the number of the requests that have raised it, and a scrape loads the counters one
after the other while requests go on. Its lines agree exactly if the requests that were under way at
the loads make no difference.
-/

namespace FraudDetection.Proofs
open FraudDetection.Library
open FraudDetection.HttpGateway

section places

def HasCounted (c : Counter) (pc : RequestPC) : Prop :=
  match c, pc with
  | .requests, .serving | .requests, .failing _ | .requests, .leaving _ | .requests, .observing _ _ _ => True
  | .denied, .denied => True
  | .failures, .failing _ | .failures, .leaving (some _) | .failures, .observing (some _) _ _ => True
  | .fallback reason, .leaving (some counted) | .fallback reason, .observing (some counted) _ _ => reason = counted
  | .requestBucket i, .observing _ duration dealt => inBucket duration i = true ∧ i.val < dealt
  | _, _ => False

/-- What a step of a request does to a counter: nothing, or it raises it for the first time. -/
inductive CountEffect (c : Counter) (pc pc' : RequestPC) (counters counters' : Counters) : Prop
  | same (hplace : HasCounted c pc' ↔ HasCounted c pc) (hcount : counters' c = counters c)
  | raised (hbefore : ¬ HasCounted c pc) (hafter : HasCounted c pc') (hcount : counters' c = counters c + 1)

lemma bump_effect {c raised : Counter} {pc pc' : RequestPC} {counters : Counters}
    (hraised : c = raised → ¬ HasCounted c pc ∧ HasCounted c pc')
    (hother : c ≠ raised → (HasCounted c pc' ↔ HasCounted c pc)) :
    CountEffect c pc pc' counters (counters.bump raised) := by
  by_cases hc : c = raised
  · obtain ⟨hbefore, hafter⟩ := hraised hc
    refine .raised hbefore hafter ?_
    rw [hc, Counters.bump, Function.update_self]
  · refine .same (hother hc) ?_
    rw [Counters.bump, Function.update_of_ne hc]

/-- Dealing with one more bucket changes nothing but, maybe, that bucket. -/
lemma hasCounted_dealt {fallback : Option FallbackReason} {duration : Int} {dealt : Nat} (hdealt : dealt < 7)
    {c : Counter} (hother : c = .requestBucket ⟨dealt, hdealt⟩ → inBucket duration ⟨dealt, hdealt⟩ = false) :
    HasCounted c (.observing fallback duration (dealt + 1)) ↔ HasCounted c (.observing fallback duration dealt) := by
  cases c with
  | requestBucket i =>
    refine and_congr_right fun hin => ?_
    have hne : i.val ≠ dealt := by
      rintro rfl
      exact Bool.false_ne_true ((hother rfl).symm.trans hin)
    omega
  | failures => cases fallback <;> rfl
  | fallback reason => cases fallback <;> rfl
  | requests => rfl
  | denied => rfl
  | requestNanos => rfl

lemma scoreStep_effect {pc pc' : RequestPC} {counters counters' : Counters} {choice : RequestChoice} {c : Counter}
    (hc : c ≠ .requestNanos) (h : scoreStep pc counters choice = some (pc', counters', ())) :
    CountEffect c pc pc' counters counters' := by
  unfold scoreStep at h
  split at h
  · cases h
    exact bump_effect (by rintro rfl; exact ⟨id, trivial⟩) (by cases c <;> simp_all [HasCounted])
  · cases h
    exact bump_effect (by rintro rfl; exact ⟨id, trivial⟩) (by cases c <;> simp_all [HasCounted])
  · cases h
    exact .same (by cases c <;> simp [HasCounted]) rfl
  · cases h
    exact bump_effect (by rintro rfl; exact ⟨id, trivial⟩) (by cases c <;> simp_all [HasCounted])
  · cases h
    exact bump_effect (by rintro rfl; exact ⟨id, rfl⟩) (by cases c <;> simp_all [HasCounted])
  · rename_i fallback duration
    cases h
    refine .same ?_ ?_
    · cases c <;> cases fallback <;> simp [HasCounted]
    · rw [Counters.addNanos, Function.update_of_ne hc]
  · rename_i fallback duration dealt
    split_ifs at h with hdealt hin
    · cases h
      refine bump_effect ?_ fun hne => hasCounted_dealt hdealt fun heq => absurd heq hne
      rintro rfl
      exact ⟨fun hbefore => lt_irrefl _ hbefore.2, hin, Nat.lt_succ_self _⟩
    · cases h
      exact .same (hasCounted_dealt hdealt fun _ => by simpa using hin) rfl
  · cases h

lemma CountEffect.mono {c : Counter} {pc pc' : RequestPC} {counters counters' : Counters}
    (h : CountEffect c pc pc' counters counters') (hcounted : HasCounted c pc) : HasCounted c pc' := by
  cases h with
  | same hplace hcount => exact hplace.mpr hcounted
  | raised hbefore hafter hcount => exact hafter

lemma hasCounted_requests_of_bucket {pc : RequestPC} {i : Fin 7} (h : HasCounted (.requestBucket i) pc) :
    HasCounted .requests pc := by
  cases pc with
  | observing fallback duration dealt => trivial
  | _ => exact h.elim

lemma hasCounted_fallback_cases {pc : RequestPC} {reason : FallbackReason} (h : HasCounted (.fallback reason) pc) :
    pc = .leaving (some reason) ∨ ∃ duration dealt, pc = .observing (some reason) duration dealt := by
  cases pc with
  | leaving fallback =>
    cases fallback with
    | none => exact h.elim
    | some counted =>
      cases h
      exact .inl rfl
  | observing fallback duration dealt =>
    cases fallback with
    | none => exact h.elim
    | some counted =>
      cases h
      exact .inr ⟨duration, dealt, rfl⟩
  | _ => exact h.elim

lemma hasCounted_failures_of_fallback {pc : RequestPC} {reason : FallbackReason}
    (h : HasCounted (.fallback reason) pc) : HasCounted .failures pc := by
  obtain rfl | ⟨duration, dealt, rfl⟩ := hasCounted_fallback_cases h
  · trivial
  · trivial

lemma hasCounted_fallback_unique {pc : RequestPC} {reason reason' : FallbackReason}
    (h : HasCounted (.fallback reason) pc) (h' : HasCounted (.fallback reason') pc) : reason = reason' := by
  obtain rfl | ⟨duration, dealt, rfl⟩ := hasCounted_fallback_cases h
  · exact Eq.symm h'
  · exact Eq.symm h'

end places

section system

variable {s s' : GatewaySystem}

/-- What a step does: a request takes one, or a scrape makes its next load. -/
inductive GatewayEffect (s s' : GatewaySystem) : (t : Party) × Choice t → Prop
  | score (request : Nat) (choice : RequestChoice) (pc : RequestPC)
      (hstep : scoreStep (s.places request) s.shared choice = some (pc, s'.shared, ()))
      (hplaces : s'.places = Function.update s.places request pc) (hreads : s'.reads = s.reads) :
      GatewayEffect s s' ⟨.score request, choice⟩
  | metrics (scrape : Nat) (line : MetricLine) (hline : metricLines[(s.reads scrape).length]? = some line)
      (hshared : s'.shared = s.shared) (hplaces : s'.places = s.places)
      (hreads : s'.reads = Function.update s.reads scrape (s.reads scrape ++ [s.shared line.counter])) :
      GatewayEffect s s' ⟨.metrics scrape, ()⟩

lemma stepThread_gateway {a : (t : Party) × Choice t} {event : Party × Unit}
    (h : stepThread gatewayProgram s a = some (s', event)) : GatewayEffect s s' a := by
  obtain ⟨t, choice⟩ := a
  obtain ⟨next, shared, label, hp, rfl, rfl⟩ := stepThread_eq h
  cases t with
  | score request =>
    refine .score request choice next hp ?_ ?_
    · exact Function.update_comp_eq_of_injective' s.locals (fun _ _ => Party.score.inj) request next
    · have hne : ∀ scrape, Party.metrics scrape ≠ .score request := nofun
      exact Function.update_comp_eq_of_forall_ne' s.locals next hne
  | metrics scrape =>
    obtain ⟨line, hline, hnext⟩ := Option.map_eq_some_iff.mp hp
    cases hnext
    refine .metrics scrape line hline rfl ?_ ?_
    · have hne : ∀ request, Party.score request ≠ .metrics scrape := nofun
      exact Function.update_comp_eq_of_forall_ne' s.locals (s.reads scrape ++ [s.shared line.counter]) hne
    · exact Function.update_comp_eq_of_injective' s.locals (fun _ _ => Party.metrics.inj) scrape _

def counted (s : GatewaySystem) (c : Counter) : Set Nat := standing (HasCounted c) s.places

/-- A counter is the number of the requests that have raised it. -/
def CountersExact (s : GatewaySystem) : Prop := ∀ c, c ≠ .requestNanos → (counted s c).encard = s.shared c

lemma countersExact_initial : CountersExact GatewaySystem.initial := by
  intro c _
  have hnone : counted GatewaySystem.initial c = ∅ := by
    rw [Set.eq_empty_iff_forall_notMem]
    intro request hrequest
    cases c <;> exact hrequest
  rw [hnone, Set.encard_empty]
  rfl

lemma countersExact_step {a : (t : Party) × Choice t} (h : CountersExact s) (heffect : GatewayEffect s s' a) :
    CountersExact s' := by
  intro c hc
  unfold counted
  cases heffect with
  | score request choice pc hstep hplaces hreads =>
    rw [hplaces]
    cases scoreStep_effect hc hstep with
    | same hplace hcount =>
      rw [standing_update_of_iff hplace, hcount]
      exact h c hc
    | raised hbefore hafter hcount =>
      have hnew : request ∉ standing (HasCounted c) s.places := hbefore
      rw [standing_update_enter hafter, Set.encard_insert_of_notMem hnew, hcount, Nat.cast_add_one]
      exact congrArg (· + 1) (h c hc)
  | metrics scrape line hline hshared hplaces hreads =>
    rw [hplaces, hshared]
    exact h c hc

lemma countersExact_run {actions : List ((t : Party) × Choice t)} {trace : List (Party × Unit)}
    (h : runThreads gatewayProgram GatewaySystem.initial actions = some (s, trace)) : CountersExact s :=
  runThreads_induction (P := fun (s : GatewaySystem) _ => CountersExact s)
    (fun _ _ _ _ _ hexact hstep => countersExact_step hexact (stepThread_gateway hstep)) [] countersExact_initial
    actions h

/-- A request raises a counter once at most, so no counter wraps in a run of fewer than 2^64 requests. -/
theorem counter_fits {actions : List ((t : Party) × Choice t)} {trace : List (Party × Unit)}
    (h : runThreads gatewayProgram GatewaySystem.initial actions = some (s, trace)) {n : Nat} (hn : n < 2 ^ 64)
    (hrequests : ∀ a ∈ actions, ∀ request, a.1 = .score request → request < n) {c : Counter} (hc : c ≠ .requestNanos) :
    s.shared c < 2 ^ 64 := by
  have hcounted : counted s c ⊆ (Finset.range n : Set Nat) := by
    intro request hrequest
    by_contra hout
    have hrest := runThreads_frame h (u := .score request) fun a ha he =>
      hout (Finset.mem_coe.mpr (Finset.mem_range.mpr (hrequests a ha request he)))
    have hwaiting : HasCounted c (s.places request) := hrequest
    rw [GatewaySystem.places, hrest] at hwaiting
    cases c <;> exact hwaiting
  have hcard := Set.encard_le_encard hcounted
  rw [countersExact_run h c hc, Set.encard_coe_eq_coe_finsetCard, Finset.card_range, Nat.cast_le] at hcard
  exact hcard.trans_lt hn

lemma hasCounted_run {actions : List ((t : Party) × Choice t)} {trace : List (Party × Unit)}
    (h : runThreads gatewayProgram s actions = some (s', trace)) {c : Counter} (hc : c ≠ .requestNanos) {request : Nat}
    (hcounted : HasCounted c (s.places request)) : HasCounted c (s'.places request) := by
  refine runThreads_induction (P := fun (s : GatewaySystem) _ => HasCounted c (s.places request)) ?_ [] hcounted
    actions h
  intro s₁ _ a s₂ _ hcounted hstep
  cases stepThread_gateway hstep with
  | score other choice pc hscore hplaces hreads =>
    rw [hplaces]
    by_cases hother : request = other
    · subst hother
      rw [Function.update_self]
      exact (scoreStep_effect hc hscore).mono hcounted
    · rwa [Function.update_of_ne hother]
  | metrics scrape line hline hshared hplaces hreads => rwa [hplaces]

lemma reads_run {actions : List ((t : Party) × Choice t)} {trace : List (Party × Unit)}
    (h : runThreads gatewayProgram s actions = some (s', trace)) (scrape : Nat) :
    ∃ more, s'.reads scrape = s.reads scrape ++ more := by
  refine runThreads_induction (P := fun (s' : GatewaySystem) _ => ∃ more, s'.reads scrape = s.reads scrape ++ more)
    ?_ [] ⟨[], (List.append_nil _).symm⟩ actions h
  rintro s₁ _ a s₂ _ ⟨more, hmore⟩ hstep
  cases stepThread_gateway hstep with
  | score request choice pc hscore hplaces hreads => exact ⟨more, by rw [hreads, hmore]⟩
  | metrics other line hline hshared hplaces hreads =>
    rw [hreads]
    by_cases hother : scrape = other
    · subst hother
      rw [Function.update_self, hmore, List.append_assoc]
      exact ⟨_, rfl⟩
    · rw [Function.update_of_ne hother]
      exact ⟨more, hmore⟩

end system

section responses

variable {K : Type} [Field K] [LinearOrder K] {ε δ : Type} {cfg : Config K} {wraps : ε → Bool}
  {get : Nat → GoString → Except δ (List (Ieee K))}
  {submit : Nat → Worker.Request K → Except (Scheduler.Error ε) (Worker.Result K)} {r : Nat → HttpRequest K}

def responseOf (cfg : Config K) (wraps : ε → Bool) (get : Nat → GoString → Except δ (List (Ieee K)))
    (submit : Nat → Worker.Request K → Except (Scheduler.Error ε) (Worker.Result K)) (r : Nat → HttpRequest K)
    (i : Nat) : HttpResponse K :=
  score (m := Id) cfg wraps (get i) (submit i) (r i)

/-- The counters that a request with this answer raises in the end. -/
def CountsAs (r : HttpRequest K) (response : HttpResponse K) : Counter → Prop
  | .requests => response.status ≠ 401
  | .denied => response.status = 401
  | .failures => response.status = 503
  | .fallback reason => response = respondFallback r reason.name
  | .requestNanos | .requestBucket _ => False

omit [LinearOrder K] in
lemma respondFallback_name_inj {q : HttpRequest K} {reason reason' : FallbackReason} :
    respondFallback q reason.name = respondFallback q reason'.name ↔ reason = reason' := by
  constructor
  · intro h
    have hname : reason.name = reason'.name := by
      injection h with _ hbody
      injection hbody with hbody
      injection hbody
    revert hname
    cases reason <;> cases reason' <;> decide
  · rintro rfl
    rfl

/-- What `score` answers, by the checks of the request and by the fallback it takes. -/
inductive ScoreOutcome (q : HttpRequest K) (allowed : Bool) (response : HttpResponse K) : Option FallbackReason → Prop
  | refused (hallowed : allowed = false) (hstatus : response.status = 401) : ScoreOutcome q allowed response none
  | served (hallowed : allowed = true) (hstatus : response.status = 400 ∨ response.status = 200) :
      ScoreOutcome q allowed response none
  | unavailable (reason : FallbackReason) (hallowed : allowed = true)
      (hresponse : response = respondFallback q reason.name) : ScoreOutcome q allowed response (some reason)

lemma checkRequest_status {q : HttpRequest K} {response : HttpResponse K} (hallowed : authorized cfg q = true)
    (h : checkRequest cfg q = .error response) : response.status = 400 := by
  unfold checkRequest at h
  rw [hallowed, Bool.not_true, if_neg Bool.false_ne_true] at h
  cases hbody : q.body with
  | none =>
    rw [hbody] at h
    cases h
    rfl
  | some input =>
    rw [hbody] at h
    dsimp only at h
    split_ifs at h
    cases h
    rfl

lemma outcome_of_score (i : Nat) : ScoreOutcome (r i) (authorized cfg (r i)) (responseOf cfg wraps get submit r i)
    (servedFallback cfg wraps (get i) (submit i) (r i)) := by
  unfold responseOf score servedFallback
  cases hallowed : authorized cfg (r i) with
  | false =>
    have hcheck : checkRequest cfg (r i) = .error ⟨401, .error "unauthorized"⟩ := by
      unfold checkRequest
      rw [hallowed]
      rfl
    rw [hcheck]
    exact .refused rfl rfl
  | true =>
    cases hcheck : checkRequest cfg (r i) with
    | error response => exact .served rfl (.inl (checkRequest_status hallowed hcheck))
    | ok input =>
      dsimp only [bind, pure]
      cases get i input.entityID with
      | error err => exact .unavailable .featureUnavailable rfl rfl
      | ok features =>
        dsimp only
        cases submit i ⟨features, input.amount⟩ with
        | ok result => exact .served rfl (.inr rfl)
        | error err =>
          dsimp only [respondError]
          cases isQueueError wraps err with
          | true => exact .unavailable .queueDeadline rfl rfl
          | false => exact .unavailable .workerUnavailable rfl rfl

def ScoredPlace (allowed : Bool) (fallback : Option FallbackReason) : RequestPC → Prop
  | .waiting => True
  | .denied => allowed = false
  | .serving => allowed = true
  | .failing reason => allowed = true ∧ fallback = some reason
  | .leaving taken | .observing taken _ _ => allowed = true ∧ fallback = taken

lemma scoreStep_scoredPlace {i : Nat} {pc pc' : RequestPC} {counters counters' : Counters} {choice : RequestChoice}
    (hchoice : Settles cfg wraps get submit r ⟨.score i, choice⟩)
    (h : scoreStep pc counters choice = some (pc', counters', ()))
    (hpc : ScoredPlace (authorized cfg (r i)) (servedFallback cfg wraps (get i) (submit i) (r i)) pc) :
    ScoredPlace (authorized cfg (r i)) (servedFallback cfg wraps (get i) (submit i) (r i)) pc' := by
  unfold scoreStep at h
  split at h
  · cases h
    exact Eq.symm hchoice
  · cases h
    exact Eq.symm hchoice
  · cases h
    exact ⟨hpc, Eq.symm hchoice⟩
  · cases h
    exact ⟨hpc, Eq.symm hchoice⟩
  · cases h
    exact hpc
  · cases h
    exact hpc
  · split_ifs at h
    · cases h
      exact hpc
    · cases h
      exact hpc
  · cases h

lemma scoredPlace_run {s s' : GatewaySystem} {actions : List ((t : Party) × Choice t)} {trace : List (Party × Unit)}
    (h : runThreads gatewayProgram s actions = some (s', trace))
    (hactions : ∀ a ∈ actions, Settles cfg wraps get submit r a)
    (hs : ∀ i, ScoredPlace (authorized cfg (r i)) (servedFallback cfg wraps (get i) (submit i) (r i)) (s.places i))
    (i : Nat) : ScoredPlace (authorized cfg (r i)) (servedFallback cfg wraps (get i) (submit i) (r i)) (s'.places i) := by
  induction actions generalizing s trace with
  | nil =>
    cases h
    exact hs i
  | cons a actions ih =>
    obtain ⟨s₁, event, rest, hstep, hrest, -⟩ := runThreads_cons.mp h
    refine ih hrest (fun b hb => hactions b (List.mem_cons_of_mem a hb)) fun j => ?_
    have hfirst := hactions a List.mem_cons_self
    cases stepThread_gateway hstep with
    | score request choice pc hscore hplaces hreads =>
      rw [hplaces]
      by_cases hj : j = request
      · subst hj
        rw [Function.update_self]
        exact scoreStep_scoredPlace hfirst hscore (hs j)
      · rw [Function.update_of_ne hj]
        exact hs j
    | metrics scrape line hline hshared hplaces hreads =>
      rw [hplaces]
      exact hs j

/-- The request has raised all that it raises before it looks at its duration. -/
def Decided : RequestPC → Prop
  | .denied | .leaving _ | .observing _ _ _ => True
  | .waiting | .serving | .failing _ => False

omit [LinearOrder K] in
lemma hasCounted_denied_iff {q : HttpRequest K} {response : HttpResponse K} {fallback : Option FallbackReason}
    (h : ScoreOutcome q false response fallback) {c : Counter} (hbucket : ∀ i, c ≠ .requestBucket i) :
    HasCounted c .denied ↔ CountsAs q response c := by
  cases h with
  | refused hallowed hstatus =>
    cases c with
    | requests => exact iff_of_false id fun hother => hother hstatus
    | denied => exact iff_of_true trivial hstatus
    | failures => exact iff_of_false id (by change response.status ≠ 503; omega)
    | fallback reason =>
      refine iff_of_false id fun hresponse => ?_
      have hunavailable : response.status = 503 := congrArg HttpResponse.status hresponse
      omega
    | requestNanos => exact Iff.rfl
    | requestBucket i => exact absurd rfl (hbucket i)
  | served hallowed hstatus => cases hallowed
  | unavailable reason hallowed hresponse => cases hallowed

omit [LinearOrder K] in
/-- On the way out of `score`, a request has raised what its answer says. -/
lemma hasCounted_leaving_iff {q : HttpRequest K} {response : HttpResponse K} {fallback : Option FallbackReason}
    (h : ScoreOutcome q true response fallback) {c : Counter} (hnanos : c ≠ .requestNanos)
    (hbucket : ∀ i, c ≠ .requestBucket i) : HasCounted c (.leaving fallback) ↔ CountsAs q response c := by
  cases h with
  | refused hallowed hstatus => cases hallowed
  | served hallowed hstatus =>
    cases c with
    | requests => exact iff_of_true trivial (by change response.status ≠ 401; omega)
    | denied => exact iff_of_false id (by change response.status ≠ 401; omega)
    | failures => exact iff_of_false id (by change response.status ≠ 503; omega)
    | fallback reason =>
      refine iff_of_false id fun hresponse => ?_
      have hunavailable : response.status = 503 := congrArg HttpResponse.status hresponse
      omega
    | requestNanos => exact absurd rfl hnanos
    | requestBucket i => exact absurd rfl (hbucket i)
  | unavailable reason hallowed hresponse =>
    subst hresponse
    cases c with
    | requests => exact iff_of_true trivial (by change 503 ≠ 401; decide)
    | denied => exact iff_of_false id (by change 503 ≠ 401; decide)
    | failures => exact iff_of_true trivial rfl
    | fallback other => exact eq_comm.trans respondFallback_name_inj.symm
    | requestNanos => exact absurd rfl hnanos
    | requestBucket i => exact absurd rfl (hbucket i)

/-- When no request is in the middle of `score`, the totals are the numbers of the answers: those that were
refused, those that were let in, and those that are unavailable for each reason. -/
theorem totals_count_responses {s : GatewaySystem} {actions : List ((t : Party) × Choice t)}
    {trace : List (Party × Unit)} (h : runThreads gatewayProgram GatewaySystem.initial actions = some (s, trace))
    (hactions : ∀ a ∈ actions, Settles cfg wraps get submit r a)
    (hdecided : ∀ i, s.places i = .waiting ∨ Decided (s.places i)) {c : Counter} (hnanos : c ≠ .requestNanos)
    (hbucket : ∀ i, c ≠ .requestBucket i) :
    {i | Decided (s.places i) ∧ CountsAs (r i) (responseOf cfg wraps get submit r i) c}.encard = s.shared c := by
  rw [← countersExact_run h c hnanos]
  refine congrArg Set.encard (Set.ext fun i => ?_)
  have hplace := scoredPlace_run h hactions (fun _ => trivial) i
  have houtcome : ScoreOutcome (r i) (authorized cfg (r i)) (responseOf cfg wraps get submit r i)
      (servedFallback cfg wraps (get i) (submit i) (r i)) := outcome_of_score i
  rw [counted, mem_standing, Set.mem_ofPred_eq]
  rcases hdecided i with hwaiting | hdecided
  · rw [hwaiting]
    refine iff_of_false (fun h => h.1) ?_
    cases c <;> exact id
  · rw [and_iff_right hdecided]
    cases hpc : s.places i with
    | denied =>
      rw [hpc] at hplace
      have hrefused : authorized cfg (r i) = false := hplace
      rw [hrefused] at houtcome
      exact (hasCounted_denied_iff houtcome hbucket).symm
    | leaving taken =>
      rw [hpc] at hplace
      obtain ⟨hallowed, rfl⟩ := hplace
      rw [hallowed] at houtcome
      exact (hasCounted_leaving_iff houtcome hnanos hbucket).symm
    | observing taken duration dealt =>
      rw [hpc] at hplace
      obtain ⟨hallowed, rfl⟩ := hplace
      rw [hallowed] at houtcome
      rw [← hasCounted_leaving_iff houtcome hnanos hbucket]
      cases c <;> cases servedFallback cfg wraps (get i) (submit i) (r i) <;> first | rfl | exact absurd rfl (hbucket _)
    | _ =>
      rw [hpc] at hdecided
      exact hdecided.elim

end responses

section loads

variable {s s' final : GatewaySystem} {actions : List ((t : Party) × Choice t)} {trace : List (Party × Unit)}
  {scrape k k' : Nat}

/-- The state in which a run makes the load of a line for a scrape. -/
def LoadedAt (actions : List ((t : Party) × Choice t)) (scrape line : Nat) (s : GatewaySystem) : Prop :=
  ∃ past later trace, actions = past ++ ⟨.metrics scrape, ()⟩ :: later ∧
    runThreads gatewayProgram GatewaySystem.initial past = some (s, trace) ∧ (s.reads scrape).length = line

lemma read_of_loadedAt (hrun : runThreads gatewayProgram GatewaySystem.initial actions = some (final, trace))
    (h : LoadedAt actions scrape k s) {c : Counter} (hcounter : metricLines[k]?.map MetricLine.counter = some c) :
    (final.reads scrape).getD k 0 = s.shared c := by
  obtain ⟨line, hline, rfl⟩ := Option.map_eq_some_iff.mp hcounter
  obtain ⟨past, later, before, rfl, hpast, hlength⟩ := h
  obtain ⟨s₁, first, after, hfirst, hafter, -⟩ := runThreads_append hrun
  cases hpast.symm.trans hfirst
  obtain ⟨s₂, event, rest, hstep, hrest, -⟩ := runThreads_cons.mp hafter
  obtain ⟨more, hmore⟩ := reads_run hrest scrape
  cases stepThread_gateway hstep with
  | metrics _ line' hline' hshared hplaces hreads =>
    rw [hlength, hline] at hline'
    cases hline'
    rw [hmore, hreads, Function.update_self, List.append_assoc, List.getD_eq_getElem?_getD,
      List.getElem?_append_right hlength.le, hlength, Nat.sub_self]
    rfl

lemma LoadedAt.exact (h : LoadedAt actions scrape k s) : CountersExact s := by
  obtain ⟨past, later, before, -, hpast, -⟩ := h
  exact countersExact_run hpast

lemma encard_read (hrun : runThreads gatewayProgram GatewaySystem.initial actions = some (final, trace))
    (h : LoadedAt actions scrape k s) {c : Counter} (hcounter : metricLines[k]?.map MetricLine.counter = some c)
    (hc : c ≠ .requestNanos) : (counted s c).encard = ((final.reads scrape).getD k 0 : Nat) := by
  rw [read_of_loadedAt hrun h hcounter]
  exact h.exact c hc

lemma exists_loadedAt (hrun : runThreads gatewayProgram GatewaySystem.initial actions = some (final, trace))
    (hk : k < (final.reads scrape).length) : ∃ s, LoadedAt actions scrape k s := by
  induction actions using List.reverseRecOn generalizing final trace with
  | nil =>
    cases hrun
    exact absurd hk (Nat.not_lt_zero k)
  | append_singleton actions a ih =>
    obtain ⟨s₁, first, after, hfirst, hafter, -⟩ := runThreads_append hrun
    obtain ⟨s₂, event, rest, hstep, hrest, -⟩ := runThreads_cons.mp hafter
    cases hrest
    have hearlier : k < (GatewaySystem.reads s₁ scrape).length → ∃ s, LoadedAt (actions ++ [a]) scrape k s := by
      intro hlt
      obtain ⟨s, past, later, before, hactions, hpast, hlength⟩ := ih hfirst hlt
      exact ⟨s, past, later ++ [a], before, by rw [hactions, List.append_assoc]; rfl, hpast, hlength⟩
    cases stepThread_gateway hstep with
    | score request choice pc hscore hplaces hreads =>
      rw [hreads] at hk
      exact hearlier hk
    | metrics other line hline hshared hplaces hreads =>
      rw [hreads] at hk
      by_cases hother : scrape = other
      · subst hother
        rw [Function.update_self, List.length_append, List.length_singleton] at hk
        rcases Nat.lt_succ_iff_lt_or_eq.mp hk with hlt | heq
        · exact hearlier hlt
        · exact ⟨s₁, actions, [], first, rfl, hfirst, heq.symm⟩
      · rw [Function.update_of_ne hother] at hk
        exact hearlier hk

lemma run_between_loads (h : LoadedAt actions scrape k s) (h' : LoadedAt actions scrape k' s') (hlt : k < k') :
    ∃ between trace, runThreads gatewayProgram s between = some (s', trace) := by
  obtain ⟨past, later, before, rfl, hpast, hlength⟩ := h
  obtain ⟨past', later', before', hactions, hpast', hlength'⟩ := h'
  rcases List.append_eq_append_iff.mp hactions with ⟨between, rfl, -⟩ | ⟨between, rfl, -⟩
  · obtain ⟨s₁, first, after, hfirst, hafter, -⟩ := runThreads_append hpast'
    cases hpast.symm.trans hfirst
    exact ⟨between, after, hafter⟩
  · obtain ⟨s₁, first, after, hfirst, hafter, -⟩ := runThreads_append hpast
    cases hpast'.symm.trans hfirst
    obtain ⟨more, hmore⟩ := reads_run hafter scrape
    have hle : k' ≤ k := by
      rw [← hlength, ← hlength', hmore, List.length_append]
      exact Nat.le_add_right _ _
    exact absurd hlt (not_lt.mpr hle)

lemma counted_subset (h : LoadedAt actions scrape k s) (h' : LoadedAt actions scrape k' s') (hlt : k < k')
    {c : Counter} (hc : c ≠ .requestNanos) : counted s c ⊆ counted s' c := by
  obtain ⟨between, trace, hbetween⟩ := run_between_loads h h' hlt
  intro request hrequest
  exact hasCounted_run hbetween hc hrequest

end loads

section scrapes

variable {actions : List ((t : Party) × Choice t)} {trace : List (Party × Unit)} {final : GatewaySystem} {scrape : Nat}
  {states : Nat → GatewaySystem}

structure ConsistentScrape (view : Scrape) : Prop where
  buckets : Monotone view.buckets
  total : view.buckets 6 = view.count
  reasons : view.failClosed = view.fallbacks .featureUnavailable + view.fallbacks .queueDeadline +
    view.fallbacks .workerUnavailable

def LoadStates (actions : List ((t : Party) × Choice t)) (scrape : Nat) (states : Nat → GatewaySystem) : Prop :=
  ∀ line < metricLines.length, LoadedAt actions scrape line (states line)

def shownIn (states : Nat → GatewaySystem) (i : Fin 7) : Set Nat :=
  counted (states (6 + i.val)) (.requestBucket i)

/-- The requests under way make no difference to the lines. Those that had raised a bucket at its load
and not the next one at the load of that are no more than those for which it is the other way round.
Those that had started by the last load were over when the last bucket was loaded. Those that had
failed when the failures were loaded had counted their reason when its total was loaded. -/
structure SettledLoads (states : Nat → GatewaySystem) : Prop where
  buckets : ∀ i : Fin 6, (shownIn states i.castSucc \ shownIn states i.succ).encard ≤
    (shownIn states i.succ \ shownIn states i.castSucc).encard
  finished : ∀ request, HasCounted .requests ((states 14).places request) →
    HasCounted (.requestBucket 6) ((states 12).places request)
  reasons : ∀ request, HasCounted .failures ((states 5).places request) →
    ∃ reason, HasCounted (.fallback reason) ((states reason.line).places request)

lemma loads_bucket : ∀ i : Fin 7, metricLines[6 + i.val]?.map MetricLine.counter = some (.requestBucket i) := by
  decide

lemma loads_fallback (reason : FallbackReason) :
    metricLines[reason.line]?.map MetricLine.counter = some (.fallback reason) := by
  cases reason <;> rfl

lemma line_lt_five (reason : FallbackReason) : reason.line < 5 := by
  cases reason <;> decide

lemma encard_bucket (hrun : runThreads gatewayProgram GatewaySystem.initial actions = some (final, trace))
    (hstates : LoadStates actions scrape states) (i : Fin 7) :
    (shownIn states i).encard = ((Scrape.ofReads (final.reads scrape)).buckets i : Nat) := by
  have hline : 6 + i.val < metricLines.length := by
    have hi := i.isLt
    change 6 + i.val < 15
    omega
  exact encard_read hrun (hstates (6 + i.val) hline) (loads_bucket i) nofun

lemma encard_fallback (hrun : runThreads gatewayProgram GatewaySystem.initial actions = some (final, trace))
    (hstates : LoadStates actions scrape states) (reason : FallbackReason) :
    (counted (states reason.line) (.fallback reason)).encard =
      ((Scrape.ofReads (final.reads scrape)).fallbacks reason : Nat) := by
  have hline : reason.line < metricLines.length := (line_lt_five reason).trans (by decide)
  exact encard_read hrun (hstates reason.line hline) (loads_fallback reason) nofun

lemma monotone_buckets_iff (hrun : runThreads gatewayProgram GatewaySystem.initial actions = some (final, trace))
    (hstates : LoadStates actions scrape states) :
    Monotone (Scrape.ofReads (final.reads scrape)).buckets ↔ ∀ i : Fin 6,
      (shownIn states i.castSucc \ shownIn states i.succ).encard ≤
        (shownIn states i.succ \ shownIn states i.castSucc).encard := by
  rw [Fin.monotone_iff_le_succ]
  refine forall_congr' fun i => ?_
  exact encard_le_iff (encard_bucket hrun hstates i.castSucc) (encard_bucket hrun hstates i.succ)

lemma total_eq_count_iff (hrun : runThreads gatewayProgram GatewaySystem.initial actions = some (final, trace))
    (hstates : LoadStates actions scrape states) :
    (Scrape.ofReads (final.reads scrape)).buckets 6 = (Scrape.ofReads (final.reads scrape)).count ↔
      ∀ request, HasCounted .requests ((states 14).places request) →
        HasCounted (.requestBucket 6) ((states 12).places request) := by
  have hbucket := encard_bucket hrun hstates 6
  have hloaded := hstates 14 (by decide)
  have hcount : (counted (states 14) .requests).encard = ((Scrape.ofReads (final.reads scrape)).count : Nat) :=
    encard_read hrun hloaded rfl nofun
  have hlater : counted (states 12) (.requestBucket 6) ⊆ counted (states 14) (.requestBucket 6) :=
    counted_subset (hstates 12 (by decide)) hloaded (by decide) nofun
  refine encard_eq_iff_of_subset hbucket hcount fun request hrequest => ?_
  exact hasCounted_requests_of_bucket (hlater hrequest)

lemma encard_iUnion_reason {requests : FallbackReason → Set Nat} {totals : FallbackReason → Nat}
    (hunique : ∀ request reason reason', request ∈ requests reason → request ∈ requests reason' → reason = reason')
    (htotals : ∀ reason, (requests reason).encard = totals reason) :
    (⋃ reason, requests reason).encard =
      (totals .featureUnavailable + totals .queueDeadline + totals .workerUnavailable : Nat) := by
  have hdisjoint : ∀ reason reason', reason ≠ reason' → Disjoint (requests reason) (requests reason') := by
    intro reason reason' hne
    rw [Set.disjoint_left]
    intro request h h'
    exact hne (hunique request reason reason' h h')
  have hunion : (⋃ reason, requests reason) =
      requests .featureUnavailable ∪ requests .queueDeadline ∪ requests .workerUnavailable := by
    ext request
    simp only [Set.mem_iUnion, Set.mem_union]
    constructor
    · rintro ⟨reason, h⟩
      cases reason with
      | featureUnavailable => exact .inl (.inl h)
      | queueDeadline => exact .inl (.inr h)
      | workerUnavailable => exact .inr h
    · rintro ((h | h) | h)
      · exact ⟨.featureUnavailable, h⟩
      · exact ⟨.queueDeadline, h⟩
      · exact ⟨.workerUnavailable, h⟩
  have hfirst := hdisjoint .featureUnavailable .queueDeadline nofun
  have hsecond := (hdisjoint .featureUnavailable .workerUnavailable nofun).union_left
    (hdisjoint .queueDeadline .workerUnavailable nofun)
  rw [hunion, Set.encard_union_eq hsecond, Set.encard_union_eq hfirst, htotals, htotals, htotals, Nat.cast_add,
    Nat.cast_add]

lemma reasons_eq_iff (hrun : runThreads gatewayProgram GatewaySystem.initial actions = some (final, trace))
    (hstates : LoadStates actions scrape states) :
    (Scrape.ofReads (final.reads scrape)).failClosed =
        (Scrape.ofReads (final.reads scrape)).fallbacks .featureUnavailable +
        (Scrape.ofReads (final.reads scrape)).fallbacks .queueDeadline +
        (Scrape.ofReads (final.reads scrape)).fallbacks .workerUnavailable ↔
      ∀ request, HasCounted .failures ((states 5).places request) →
        ∃ reason, HasCounted (.fallback reason) ((states reason.line).places request) := by
  have hloaded := hstates 5 (by decide)
  have hfailures : (counted (states 5) .failures).encard = ((Scrape.ofReads (final.reads scrape)).failClosed : Nat) :=
    encard_read hrun hloaded rfl nofun
  have hlater : ∀ reason, counted (states reason.line) (.fallback reason) ⊆ counted (states 5) (.fallback reason) := by
    intro reason
    have hline := line_lt_five reason
    exact counted_subset (hstates reason.line (hline.trans (by decide))) hloaded hline nofun
  have hsum := encard_iUnion_reason
    (fun request reason reason' h h' => hasCounted_fallback_unique (hlater reason h) (hlater reason' h'))
    fun reason => encard_fallback hrun hstates reason
  rw [eq_comm]
  refine (encard_eq_iff_of_subset hsum hfailures ?_).trans ?_
  · refine Set.iUnion_subset fun reason request hrequest => ?_
    exact hasCounted_failures_of_fallback (hlater reason hrequest)
  · refine forall_congr' fun request => imp_congr_right fun _ => ?_
    rw [Set.mem_iUnion]
    rfl

end scrapes

/-- For any interleaving of requests and scrapes: the lines of a scrape agree exactly if the requests
under way at its loads make no difference to them. -/
theorem scrape_consistent_iff (actions : List ((t : Party) × Choice t)) (final : GatewaySystem)
    (trace : List (Party × Unit))
    (hrun : runThreads gatewayProgram GatewaySystem.initial actions = some (final, trace)) (scrape : Nat)
    (hcomplete : (final.reads scrape).length = metricLines.length) :
    (∃ states, LoadStates actions scrape states) ∧
    ∀ states, LoadStates actions scrape states →
      (ConsistentScrape (Scrape.ofReads (final.reads scrape)) ↔ SettledLoads states) := by
  constructor
  · have hloads : ∀ line, ∃ s, line < metricLines.length → LoadedAt actions scrape line s := by
      intro line
      by_cases hline : line < metricLines.length
      · have hread : line < (final.reads scrape).length := hcomplete ▸ hline
        obtain ⟨s, hs⟩ := exists_loadedAt hrun hread
        exact ⟨s, fun _ => hs⟩
      · exact ⟨final, fun h => absurd h hline⟩
    choose states hstates using hloads
    exact ⟨states, hstates⟩
  · intro states hstates
    have hbuckets := monotone_buckets_iff hrun hstates
    have htotal := total_eq_count_iff hrun hstates
    have hreasons := reasons_eq_iff hrun hstates
    constructor
    · rintro ⟨h₁, h₂, h₃⟩
      exact ⟨hbuckets.mp h₁, htotal.mp h₂, hreasons.mp h₃⟩
    · rintro ⟨h₁, h₂, h₃⟩
      exact ⟨hbuckets.mpr h₁, htotal.mpr h₂, hreasons.mpr h₃⟩

def wholeRequest (request : Nat) (fallback : FallbackReason) (duration : Int) : List ((t : Party) × Choice t) :=
  [⟨.score request, .arrive true⟩, ⟨.score request, .serve (some fallback)⟩, ⟨.score request, .proceed⟩,
    ⟨.score request, .elapse duration⟩] ++ List.replicate 7 ⟨.score request, .proceed⟩

def wholeScrape (scrape : Nat) : List ((t : Party) × Choice t) := List.replicate 15 ⟨.metrics scrape, ()⟩

/-- A request that fails and ends after 50 ms, and one that is refused, before a scrape. -/
def settledActions : List ((t : Party) × Choice t) :=
  wholeRequest 0 .queueDeadline 50000000 ++ ⟨.score 1, .arrive false⟩ :: wholeScrape 0

/-- The scrape shows one request in the last bucket and one failure with its reason. -/
theorem scrape_consistent_settled :
    ∃ final trace states, runThreads gatewayProgram GatewaySystem.initial settledActions = some (final, trace) ∧
      GatewaySystem.reads final 0 = [1, 1, 0, 1, 0, 1, 0, 0, 0, 0, 0, 0, 1, 50000000, 1] ∧
      LoadStates settledActions 0 states ∧ ConsistentScrape (Scrape.ofReads (GatewaySystem.reads final 0)) ∧
      SettledLoads states := by
  have hrun : (runThreads gatewayProgram GatewaySystem.initial settledActions).map
      (fun r => GatewaySystem.reads r.1 0) = some [1, 1, 0, 1, 0, 1, 0, 0, 0, 0, 0, 0, 1, 50000000, 1] := by rfl
  obtain ⟨⟨final, trace⟩, h, hreads⟩ := Option.map_eq_some_iff.mp hrun
  dsimp only at hreads
  have hcomplete : (GatewaySystem.reads final 0).length = metricLines.length := by
    rw [hreads]
    rfl
  have hconsistent : ConsistentScrape (Scrape.ofReads (GatewaySystem.reads final 0)) := by
    rw [hreads]
    exact ⟨Fin.monotone_iff_le_succ.mpr (by decide), by decide, by decide⟩
  obtain ⟨⟨states, hstates⟩, hiff⟩ := scrape_consistent_iff settledActions final trace h 0 hcomplete
  exact ⟨final, trace, states, h, hreads, hstates, hconsistent, (hiff states hstates).mp hconsistent⟩

/-- A request that has raised the first bucket only and one that has failed and not yet counted its
reason, at a scrape. -/
def torn : List ((t : Party) × Choice t) :=
  [⟨.score 0, .arrive true⟩, ⟨.score 0, .serve none⟩, ⟨.score 0, .elapse 50000⟩, ⟨.score 0, .proceed⟩,
    ⟨.score 1, .arrive true⟩, ⟨.score 1, .serve (some .featureUnavailable)⟩] ++ wholeScrape 0

/-- The scrape shows falling buckets, a last bucket of 0 with a count of 2, and one failure without a
reason. -/
theorem scrape_torn :
    ∃ final trace, runThreads gatewayProgram GatewaySystem.initial torn = some (final, trace) ∧
      GatewaySystem.reads final 0 = [2, 0, 0, 0, 0, 1, 1, 0, 0, 0, 0, 0, 0, 50000, 2] ∧
      ¬ Monotone (Scrape.ofReads (GatewaySystem.reads final 0)).buckets ∧
      (Scrape.ofReads (GatewaySystem.reads final 0)).buckets 6 ≠ (Scrape.ofReads (GatewaySystem.reads final 0)).count ∧
      (Scrape.ofReads (GatewaySystem.reads final 0)).failClosed ≠
        (Scrape.ofReads (GatewaySystem.reads final 0)).fallbacks .featureUnavailable +
        (Scrape.ofReads (GatewaySystem.reads final 0)).fallbacks .queueDeadline +
        (Scrape.ofReads (GatewaySystem.reads final 0)).fallbacks .workerUnavailable := by
  have hrun : (runThreads gatewayProgram GatewaySystem.initial torn).map (fun r => GatewaySystem.reads r.1 0) =
      some [2, 0, 0, 0, 0, 1, 1, 0, 0, 0, 0, 0, 0, 50000, 2] := by rfl
  obtain ⟨⟨final, trace⟩, h, hreads⟩ := Option.map_eq_some_iff.mp hrun
  dsimp only at hreads
  refine ⟨final, trace, h, hreads, ?_⟩
  rw [hreads, Fin.monotone_iff_le_succ]
  exact ⟨by decide, by decide, by decide⟩

end FraudDetection.Proofs
