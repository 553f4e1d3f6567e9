import FraudDetection.TransactionService
import FraudDetection.Proofs.ServiceGuard
import FraudDetection.Proofs.SlotRefinement

/-!
# Runs of the transaction service

The rely-guarantee rule once more, over what is known of the ring: a call of `submit` keeps the
transaction of its own request in the slot it has claimed until it publishes it, and the daemon
answers what was published. So every answer and every error of the service is one that the request
itself explains.
-/

namespace FraudDetection.Proofs
open FraudDetection.Library
open FraudDetection.Ring
open FraudDetection.TransactionService
open FraudDetection.Codec (IncomingTransaction TransactionReader)

variable {cfg : Config} {dc : DaemonConfig} {t u : Party} {g g' : Ghost} {m m' : Shared} {label : Label}

section call

variable (cfg) (reader : TransactionReader) (service : Service) (request : HttpRequest)

/-- The handler passed the request on, and its body is the transaction. -/
def Submitted (input : IncomingTransaction) (amountMicros : Int64) : Prop :=
  service.calls request = true ∧ service.parseBody request.body = .ok (input, amountMicros)

/-- The errors that the request itself and the state of the service explain. -/
def Refused (err : GatewayError) : Prop :=
  service.calls request = true ∧ (service.parseBody request.body = .error err ∨
    ∃ input amountMicros, service.parseBody request.body = .ok (input, amountMicros) ∧
      (err = exceedsSlot ∧ payloadCapacity cfg < input.worstCaseBytes ∨
        err ∈ .full :: .daemonStopped :: preparationErrors))

/-- A buffer with the transaction stands in the payload area. -/
def SerializedAt (requestId : UInt64) (input : IncomingTransaction) (amountMicros : Int64) (payload : List UInt8)
    (offset size : Nat) : Prop :=
  ∃ start, offset = slotMetadataBytes + start ∧ 0 < size ∧ start + size ≤ payloadCapacity cfg ∧
    ReadsAs reader ((payload.drop start).take size) (writtenTransaction requestId input amountMicros)

def CarriesTransaction (requestId : UInt64) (input : IncomingTransaction) (amountMicros : Int64)
    (data : SlotData) : Prop :=
  data.requestId = requestId ∧
    SerializedAt cfg reader requestId input amountMicros data.payload data.payloadOffset.toNat data.payloadSize.toNat

/-- What was published at the position carries the transaction of the request. -/
def Sent (g : Ghost) (p : Nat) (requestId : UInt64) : Prop :=
  ∃ input amountMicros data, Submitted service request input amountMicros ∧ g.published p = some data ∧
    CarriesTransaction cfg reader requestId input amountMicros data

def CallOwn (t : Party) (g : Ghost) (m : Shared) : SubmitPC → Prop
  | .idle => True
  | .checkBody => service.calls request = true
  | .checkReady | .prepare => ∃ input amountMicros, Submitted service request input amountMicros
  | .reserveReady _ | .loadEnqueue _ | .loadSequence _ _ | .compareExchange _ _ | .reserveDeadline _
  | .serializing _ => ∃ input amountMicros, Submitted service request input amountMicros ∧
      input.worstCaseBytes ≤ payloadCapacity cfg
  | .publishDeadline v offset size => ∃ input amountMicros, Submitted service request input amountMicros ∧
      SerializedAt cfg reader v.requestId input amountMicros (m.data (v.position % cfg.slotCount)).payload offset size
  | .publishing v todo none => ∃ input amountMicros, Submitted service request input amountMicros ∧
      CarriesTransaction cfg reader v.requestId input amountMicros
        (todo.foldl FieldWrite.apply (m.data (v.position % cfg.slotCount)))
  | .publishStore v none => ∃ input amountMicros, Submitted service request input amountMicros ∧
      CarriesTransaction cfg reader v.requestId input amountMicros (m.data (v.position % cfg.slotCount))
  | .publishing _ _ (some err) | .publishStore _ (some err) | .publishReady _ (some err)
  | .handoffLoad _ err | .handoffPush _ err => Refused cfg service request err
  | .publishReady v none | .waitLoad v | .waitDeadline v | .readRequestId v | .readStatus v | .readScore v _
  | .readDecision v _ _ | .readCompleteNs v _ _ _ => Sent cfg reader service request g v.position v.requestId ∧
      (m.data (v.position % cfg.slotCount)).requestId = v.requestId
  | .releaseStore _ (.error err) | .returned (.error err) => Refused cfg service request err
  | .releaseStore v (.ok _) => Sent cfg reader service request g v.position v.requestId
  | .returned (.ok _) => ∃ p requestId, g.claimant p = some t ∧ 2 ≤ (g.stage p).rank ∧
      Sent cfg reader service request g p requestId

variable {cfg reader service request}

lemma sent_progress {p : Nat} {requestId : UInt64} (hp : Progress g m g' m') (hrank : 2 ≤ (g.stage p).rank)
    (h : Sent cfg reader service request g p requestId) : Sent cfg reader service request g' p requestId := by
  unfold Sent
  rw [hp.published p hrank]
  exact h

lemma refused_late {input : IncomingTransaction} {amountMicros : Int64} {err : GatewayError}
    (h : Submitted service request input amountMicros) (herr : err ∈ .full :: .daemonStopped :: preparationErrors) :
    Refused cfg service request err :=
  ⟨h.1, .inr ⟨input, amountMicros, h.2, .inr herr⟩⟩

theorem callOwn_stable (hr : ServiceRely cfg u g m g' m') {pc : SubmitPC} (ho : SubmitOwn cfg u g m pc)
    (h : CallOwn cfg reader service request u g m pc) : CallOwn cfg reader service request u g' m' pc := by
  have hsent : ∀ {v : Reservation}, Holds g u v.position → 2 ≤ (g.stage v.position).rank →
      g.stage v.position ≠ .released → Sent cfg reader service request g v.position v.requestId ∧
        (m.data (v.position % cfg.slotCount)).requestId = v.requestId →
      Sent cfg reader service request g' v.position v.requestId ∧
        (m'.data (v.position % cfg.slotCount)).requestId = v.requestId := by
    intro v hh hrank hlive ⟨hs, hid⟩
    exact ⟨sent_progress hr.toProgress hrank hs, (hr.requestId _ hh.claimant hrank hlive).trans hid⟩
  have hcompleted : ∀ {p}, g.stage p = .completed → 2 ≤ (g.stage p).rank ∧ g.stage p ≠ .released := by
    intro p hp
    rw [hp]
    exact ⟨by decide, Stage.noConfusion⟩
  cases pc with
  | idle | checkBody | checkReady | prepare | reserveReady | loadEnqueue | loadSequence | compareExchange
  | reserveDeadline | serializing | handoffLoad | handoffPush => exact h
  | publishDeadline v offset size =>
    simp only [CallOwn, hr.claimed _ ho.1.claimant ho.2]
    exact h
  | publishing v todo failure =>
    cases failure with
    | some err => exact h
    | none =>
      simp only [CallOwn, hr.claimed _ ho.1.claimant ho.2]
      exact h
  | publishStore v failure =>
    cases failure with
    | some err => exact h
    | none =>
      simp only [CallOwn, hr.claimed _ ho.1.claimant ho.2]
      exact h
  | publishReady v failure =>
    cases failure with
    | some err => exact h
    | none => exact hsent ho.1 ho.2.1 ho.2.2 h
  | waitLoad v | waitDeadline v => exact hsent ho.1 ho.2.1 ho.2.2 h
  | readRequestId v | readStatus v => exact hsent ho.1 (hcompleted ho.2).1 (hcompleted ho.2).2 h
  | readScore v | readDecision v | readCompleteNs v =>
    exact hsent ho.1 (hcompleted ho.2.1).1 (hcompleted ho.2.1).2 h
  | releaseStore v result =>
    cases result with
    | error err => exact h
    | ok response => exact sent_progress hr.toProgress (hcompleted ho.2.1).1 h
  | returned result =>
    cases result with
    | error err => exact h
    | ok response =>
      obtain ⟨p, requestId, hc, hrank, hs⟩ := h
      exact ⟨p, requestId, hr.claimant p u hc, hrank.trans (hr.stage p), sent_progress hr.toProgress hrank hs⟩

end call

section decoding

variable {reader : TransactionReader} {requestId : UInt64} {input : IncomingTransaction} {amountMicros : Int64}
  {data : SlotData}

lemma toNat_toUInt32 {n : Nat} (h : n < 2 ^ 32) : n.toUInt32.toNat = n := Nat.mod_eq_of_lt h

/-- Publication puts the transaction into the metadata of the slot. -/
lemma carries_publication (hsize : cfg.slotSize < 2 ^ 32) {offset size : Nat} {enqueueNs : UInt64}
    (h : SerializedAt cfg reader requestId input amountMicros data.payload offset size) :
    CarriesTransaction cfg reader requestId input amountMicros ((publicationWrites offset.toUInt32 size.toUInt32
      daemonStatusIncomplete requestId enqueueNs).foldl FieldWrite.apply data) := by
  obtain ⟨start, rfl, hpos, hinside, hreads⟩ := h
  have hcapacity : payloadCapacity cfg = cfg.slotSize - 64 := rfl
  have hslot := cfg.prefix_le
  have hoffset : (slotMetadataBytes + start).toUInt32.toNat = slotMetadataBytes + start := by
    refine toNat_toUInt32 ?_
    unfold slotMetadataBytes
    omega
  have hsize' : size.toUInt32.toNat = size := toNat_toUInt32 (by omega)
  refine ⟨rfl, start, hoffset, ?_, ?_, ?_⟩
  · change 0 < size.toUInt32.toNat
    rwa [hsize']
  · change start + size.toUInt32.toNat ≤ _
    rwa [hsize']
  · change ReadsAs reader ((data.payload.drop start).take size.toUInt32.toNat) _
    rwa [hsize']

lemma decode_carries (hparse : dc.parse = ringParse reader)
    (h : CarriesTransaction cfg reader requestId input amountMicros data) :
    decodeTransaction cfg dc data = some ⟨requestId, amountMicros.toInt⟩ := by
  obtain ⟨hid, start, hoffset, hpos, hinside, hverify, hget⟩ := h
  have hcapacity : payloadCapacity cfg = cfg.slotSize - 64 := rfl
  have hslot := cfg.prefix_le
  have hview : dc.parse ((data.payload.drop start).take data.payloadSize.toNat) = some ⟨requestId, amountMicros.toInt⟩ := by
    rw [hparse, ringParse, if_pos hverify, hget]
    rfl
  unfold decodeTransaction slotMetadataBytes at *
  dsimp only
  rw [hoffset, if_neg (by omega), Nat.add_sub_cancel_left, hview]
  exact if_pos hid.symm

end decoding

section permits

variable {service : Service} {request : HttpRequest} {choice : SubmitChoice}

lemma permits_refuse {err : GatewayError} (h : service.permits cfg request .checkBody m (.refuse err) = true) :
    service.parseBody request.body = .error err := by
  unfold Service.permits at h
  cases hparse : service.parseBody request.body with
  | error reason =>
    rw [hparse] at h
    rw [of_decide_eq_true h]
  | ok parsed =>
    rw [hparse] at h
    cases h

lemma permits_next (h : service.permits cfg request .checkBody m .next = true) :
    ∃ input amountMicros, service.parseBody request.body = .ok (input, amountMicros) := by
  unfold Service.permits at h
  cases hparse : service.parseBody request.body with
  | error reason =>
    rw [hparse] at h
    cases h
  | ok parsed => exact ⟨parsed.1, parsed.2, rfl⟩

lemma permits_prepare (h : service.permits cfg request .prepare m choice = true) :
    ∃ input amountMicros, service.parseBody request.body = .ok (input, amountMicros) ∧
      mayPrepare cfg input choice = true := by
  unfold Service.permits at h
  cases hparse : service.parseBody request.body with
  | error reason =>
    rw [hparse] at h
    cases h
  | ok parsed =>
    rw [hparse] at h
    exact ⟨parsed.1, parsed.2, rfl, h⟩

lemma permits_serializing {v : Reservation} {input : IncomingTransaction} {amountMicros : Int64}
    (hparse : service.parseBody request.body = .ok (input, amountMicros))
    (h : service.permits cfg request (.serializing v) m choice = true) :
    maySerialize service.builder cfg input amountMicros v (m.data (slotIndex cfg v.position)).payload choice = true := by
  unfold Service.permits at h
  rw [hparse] at h
  exact h

end permits

section step

variable {reader : TransactionReader} {service : Service} {request : HttpRequest} {pc pc' : SubmitPC}
  {choice : SubmitChoice}

theorem call_reserve (hpermits : service.permits cfg request pc m choice = true)
    (hc : CallOwn cfg reader service request t g m pc) (h : reserveStep cfg pc m choice = some (pc', m', label)) :
    CallOwn cfg reader service request t g' m' pc' := by
  unfold reserveStep at h
  split at h
  · cases h
    exact hpermits
  · cases h
    exact ⟨hc, .inl (permits_refuse hpermits)⟩
  · cases h
    obtain ⟨input, amountMicros, hparse⟩ := permits_next hpermits
    exact ⟨input, amountMicros, hc, hparse⟩
  · obtain ⟨input, amountMicros, hsubmitted⟩ := hc
    split at h <;> cases h
    · exact refused_late hsubmitted (by decide)
    · exact ⟨input, amountMicros, hsubmitted⟩
  · cases h
    obtain ⟨input, amountMicros, hparse, hmay⟩ := permits_prepare hpermits
    obtain ⟨_, _, hcalls, -⟩ := hc
    refine ⟨hcalls, .inr ⟨input, amountMicros, hparse, ?_⟩⟩
    simp only [mayPrepare] at hmay
    split_ifs at hmay with hlarge
    · exact .inl ⟨of_decide_eq_true hmay, hlarge⟩
    · exact .inr (List.mem_cons_of_mem _ (List.mem_cons_of_mem _ (List.contains_iff_mem.mp hmay)))
  · cases h
    obtain ⟨input, amountMicros, hparse, hmay⟩ := permits_prepare hpermits
    obtain ⟨_, _, hcalls, -⟩ := hc
    simp only [mayPrepare, Bool.and_eq_true, decide_eq_true_eq] at hmay
    exact ⟨input, amountMicros, ⟨hcalls, hparse⟩, hmay.1⟩
  · obtain ⟨input, amountMicros, hsubmitted, hfits⟩ := hc
    split at h <;> cases h
    · exact refused_late hsubmitted (by decide)
    · exact ⟨input, amountMicros, hsubmitted, hfits⟩
  · cases h
    exact hc
  · obtain ⟨input, amountMicros, hsubmitted, hfits⟩ := hc
    dsimp only at h
    split at h
    · cases h
      exact ⟨input, amountMicros, hsubmitted, hfits⟩
    · split at h <;> cases h
      · exact refused_late hsubmitted (by decide)
      · exact ⟨input, amountMicros, hsubmitted, hfits⟩
  · split at h <;> cases h <;> exact hc
  · obtain ⟨input, amountMicros, hsubmitted, hfits⟩ := hc
    split at h <;> cases h
    · exact refused_late hsubmitted (by decide)
    · exact ⟨input, amountMicros, hsubmitted, hfits⟩
  · cases h

/-- Behind the preflight serialization neither fails nor unwinds. -/
lemma serialized_of_may (hlibrary : LibraryContract service.builder reader (payloadCapacity cfg)) {v : Reservation}
    {input : IncomingTransaction} {amountMicros : Int64} {payload : List UInt8}
    (hfits : input.worstCaseBytes ≤ payloadCapacity cfg)
    (hmay : maySerialize service.builder cfg input amountMicros v payload choice = true) :
    (∃ start content, choice = .builderWrite start content) ∨ ∃ start size, choice = .serialized start size ∧
      start + size ≤ payloadCapacity cfg ∧
      SerializedAt cfg reader v.requestId input amountMicros payload (slotMetadataBytes + start) size := by
  unfold maySerialize at hmay
  cases choice with
  | builderWrite start content => exact .inl ⟨start, content, rfl⟩
  | serialized start size =>
    obtain ⟨hpos, hinside⟩ := hlibrary.inside _ _ _ _ _ _ hfits hmay
    exact .inr ⟨start, size, rfl, hinside, start, rfl, hpos, hinside, hlibrary.readsBack _ _ _ _ _ _ hfits hmay⟩
  | panicked =>
    rw [hlibrary.completes _ _ _ hfits] at hmay
    cases hmay
  | _ => cases hmay

theorem call_publish (hsize : cfg.slotSize < 2 ^ 32)
    (hlibrary : LibraryContract service.builder reader (payloadCapacity cfg))
    (hpermits : service.permits cfg request pc m choice = true)
    (hc : CallOwn cfg reader service request t g m pc) (h : publishStep cfg pc m choice = some (pc', m', label)) :
    CallOwn cfg reader service request t (g.record cfg.slotCount (t, label)) m' pc' := by
  cases pc with
  | serializing v =>
    obtain ⟨input, amountMicros, hsubmitted, hfits⟩ := hc
    have hmay := permits_serializing hsubmitted.2 hpermits
    rcases serialized_of_may hlibrary hfits hmay with ⟨start, content, rfl⟩ | ⟨start, size, rfl, hbounds, hserialized⟩
    · simp only [publishStep] at h
      split_ifs at h
      cases h
      exact ⟨input, amountMicros, hsubmitted, hfits⟩
    · simp only [publishStep, if_pos hbounds] at h
      cases h
      rw [slotIndex_eq] at hserialized
      exact ⟨input, amountMicros, hsubmitted, hserialized⟩
  | publishDeadline v offset size =>
    obtain ⟨input, amountMicros, hsubmitted, hserialized⟩ := hc
    cases choice with
    | clock late =>
      simp only [publishStep] at h
      split_ifs at h <;> cases h
      · exact refused_late hsubmitted (by decide)
      · exact ⟨input, amountMicros, hsubmitted, carries_publication hsize hserialized⟩
    | _ => cases h
  | publishing v todo failure =>
    cases choice with
    | next =>
      cases todo with
      | nil =>
        cases h
        cases failure <;> exact hc
      | cons w rest =>
        simp only [publishStep, slotIndex_eq] at h
        cases h
        cases failure with
        | some err => exact hc
        | none =>
          simp only [CallOwn, setData_data, Function.update_self]
          exact hc
    | _ => cases h
  | publishStore v failure =>
    cases choice with
    | next =>
      simp only [publishStep, slotIndex_eq] at h
      cases h
      cases failure with
      | some err => exact hc
      | none =>
        obtain ⟨input, amountMicros, hsubmitted, hcarries⟩ := hc
        refine ⟨⟨input, amountMicros, _, hsubmitted, ?_, hcarries⟩, ?_⟩
        · simp only [Ghost.record, Nat.add_sub_cancel]
          exact Function.update_self ..
        · rw [setSequence_data]
          exact hcarries.1
    | _ => cases h
  | publishReady v failure =>
    cases choice with
    | next => cases failure <;> cases h <;> exact hc
    | _ => cases h
  | _ => cases h

lemma answer_of_sent (hparse : dc.parse = ringParse reader)
    (hg : ServiceGuard cfg dc g m) {p : Nat} {requestId : UInt64} (hs : Sent cfg reader service request g p requestId)
    (hrank : 4 ≤ (g.stage p).rank) :
    ∃ input amountMicros r, Submitted service request input amountMicros ∧ g.answered p = some r ∧
      (r.status = 200 ∧ r.decision = referenceDecision ⟨requestId, amountMicros.toInt⟩ ∧
          r.score = referenceScore ⟨requestId, amountMicros.toInt⟩ ∨
        r.status = 503 ∧ r.decision = 0 ∧ r.score = 0) := by
  obtain ⟨input, amountMicros, data, hsubmitted, hpub, hcarries⟩ := hs
  obtain ⟨data', r, hpub', hanswered, hto⟩ := hg.answers p hrank
  cases hpub.symm.trans hpub'
  exact ⟨input, amountMicros, r, hsubmitted, hanswered, answerTo_view hto (decode_carries hparse hcarries)⟩

lemma readable_of_sent (hparse : dc.parse = ringParse reader)
    (hg : ServiceGuard cfg dc g m) {p : Nat} {requestId : UInt64} (hs : Sent cfg reader service request g p requestId)
    (hstage : g.stage p = .completed) :
    (∃ status, DaemonResponseStatus.tryFrom (m.data (p % cfg.slotCount)).responseStatus = .ok status) ∧
      isFinite (m.data (p % cfg.slotCount)).score = true := by
  obtain ⟨input, amountMicros, r, -, hanswered, hverdict⟩ :=
    answer_of_sent hparse hg hs (by rw [hstage]; decide)
  cases hanswered.symm.trans (hg.answered p hstage)
  simp only [SlotData.response] at hverdict
  rcases hverdict with ⟨hstatus, -, hscore⟩ | ⟨hstatus, -, hscore⟩
  · refine ⟨⟨.scored, by rw [hstatus]; rfl⟩, ?_⟩
    rw [hscore]
    unfold referenceScore
    split_ifs <;> decide
  · exact ⟨⟨.unavailable, by rw [hstatus]; rfl⟩, by rw [hscore]; decide⟩

theorem call_finish (hparse : dc.parse = ringParse reader)
    (hg : ServiceGuard cfg dc g m) (ho : SubmitOwn cfg t g m pc) (hc : CallOwn cfg reader service request t g m pc)
    (h : finishStep cfg pc m choice = some (pc', m', label)) :
    CallOwn cfg reader service request t (g.record cfg.slotCount (t, label)) m' pc' := by
  unfold finishStep at h
  simp only [slotIndex_eq] at h
  split at h
  · split at h <;> cases h <;> exact hc
  · obtain ⟨⟨input, amountMicros, data, hsubmitted, hrest⟩, hid⟩ := hc
    split at h <;> cases h
    · exact refused_late hsubmitted (by decide)
    · exact ⟨⟨input, amountMicros, data, hsubmitted, hrest⟩, hid⟩
  · split at h <;> cases h <;> exact hc
  · split at h
    · cases h
      exact hc
    · split at h <;> cases h <;> exact hc
  · -- the daemon leaves the request id alone
    split at h
    · rename_i hne
      exact absurd hc.2 hne
    · cases h
      exact hc
  · obtain ⟨⟨status, hstatus⟩, -⟩ := readable_of_sent hparse hg hc.1 ho.2
    rw [hstatus] at h
    cases h
    exact hc
  · obtain ⟨-, hfinite⟩ := readable_of_sent hparse hg hc.1 ho.2.1
    rw [if_pos hfinite] at h
    cases h
    exact hc
  · cases h
    exact hc
  · cases h
    exact hc.1
  · rename_i v result
    simp only [releaseSlot, slotIndex_eq] at h
    cases h
    cases result with
    | error err => exact hc
    | ok response =>
      refine ⟨v.position, v.requestId, ho.1.claimant, ?_, hc⟩
      simp only [Ghost.record, Nat.add_sub_cancel, Function.update_self]
      decide
  · cases h

theorem call_step (hsize : cfg.slotSize < 2 ^ 32) (hparse : dc.parse = ringParse reader)
    (hlibrary : LibraryContract service.builder reader (payloadCapacity cfg))
    (hg : ServiceGuard cfg dc g m) (ho : SubmitOwn cfg t g m pc) (hc : CallOwn cfg reader service request t g m pc)
    (hpermits : service.permits cfg request pc m choice = true)
    (h : submitStep cfg pc m choice = some (pc', m', label)) :
    CallOwn cfg reader service request t (g.record cfg.slotCount (t, label)) m' pc' := by
  unfold submitStep at h
  rcases Option.or_eq_some_iff.mp h with hreserve | ⟨-, hrest⟩
  · exact call_reserve hpermits hc hreserve
  · rcases Option.or_eq_some_iff.mp hrest with hpublish | ⟨-, hfinish⟩
    · exact call_publish hsize hlibrary hpermits hc hpublish
    · exact call_finish hparse hg ho hc hfinish

end step

section run

variable {reader : TransactionReader} {service : Service} {requests : Nat → HttpRequest}

lemma serviceStep_eq_some {request : HttpRequest} {pc : SubmitPC} {choice : SubmitChoice}
    {out : SubmitPC × Shared × Label} (h : service.step cfg request pc m choice = some out) :
    service.permits cfg request pc m choice = true ∧ submitStep cfg pc m choice = some out := by
  unfold Service.step at h
  split_ifs at h with hpermits
  exact ⟨hpermits, h⟩

def ServiceOwn (cfg : Config) (dc : DaemonConfig) (reader : TransactionReader) (service : Service)
    (requests : Nat → HttpRequest) : (t : Party) → Local t → Ghost → Shared → Prop
  | .submit call, pc, g, m => SubmitOwn cfg (.submit call) g m pc ∧
      CallOwn cfg reader service (requests call) (.submit call) g m pc
  | .reclaimer, pc, g, m => ReclaimerOwn g m pc
  | .daemon, pc, g, m => DaemonOwn cfg dc g m pc ∧ Answering cfg dc g pc
  | .producer _, _, _, _ => True
  | .consumer _, _, _, _ => True

lemma effect_complete_taker {slot value : Nat} {r : Response} (h : Effect cfg dc t g m (.complete slot value r) m') :
    ∃ p, g.taker p = some t := by
  cases h with
  | complete p r howner => exact ⟨p, howner⟩

lemma service_guarantee (hg : ServiceGuard cfg dc g m) (h : Effect cfg dc t g m label m')
    (ht : t.consumes = false) (hdaemon : t ≠ .daemon) :
    ServiceGuard cfg dc (g.record cfg.slotCount (t, label)) m' ∧
      ∀ u ≠ t, ServiceRely cfg u g m (g.record cfg.slotCount (t, label)) m' := by
  constructor
  · refine serviceGuard_step hg h (fun hc => absurd (ht.symm.trans hc) Bool.false_ne_true) fun slot value r he => ?_
    subst he
    obtain ⟨p, htaker⟩ := effect_complete_taker h
    exact absurd (hg.takers p t htaker) hdaemon
  · intro u hu
    refine ⟨effect_rely hg.toRingGuard h hu, fun p => effect_claimed hg.toRingGuard h hu, fun p _ hrank hlive => ?_⟩
    rw [effect_published hg h hdaemon hrank hlive]

theorem service_relyGuarantee (hsize : cfg.slotSize < 2 ^ 32) (hparse : dc.parse = ringParse reader)
    (hlibrary : LibraryContract service.builder reader (payloadCapacity cfg)) :
    RelyGuarantee (service.program cfg dc requests) (Ghost.record cfg.slotCount) (ServiceGuard cfg dc)
      (ServiceOwn cfg dc reader service requests) (ServiceRely cfg) where
  step t l g m choice l' m' label hg ho h := by
    cases t with
    | submit call =>
      obtain ⟨hpermits, hstep⟩ := serviceStep_eq_some h
      obtain ⟨heffect, hown⟩ := submit_step (t := .submit call) rfl hg.toRingGuard ho.1 hstep
      obtain ⟨hguard, hrely⟩ := service_guarantee hg heffect rfl Party.noConfusion
      exact ⟨hguard, ⟨hown, call_step hsize hparse hlibrary hg ho.1 ho.2 hpermits hstep⟩, hrely⟩
    | reclaimer =>
      obtain ⟨heffect, hown⟩ := reclaimer_step hg.toRingGuard ho (Option.some.inj h)
      obtain ⟨hguard, hrely⟩ := service_guarantee hg heffect rfl Party.noConfusion
      exact ⟨hguard, hown, hrely⟩
    | daemon =>
      obtain ⟨heffect, hown⟩ := daemon_step hg.toRingGuard ho.1 h
      obtain ⟨hanswering, hanswers⟩ := daemonStep_answering hg.toRingGuard ho.1 ho.2 h
      refine ⟨serviceGuard_step hg heffect (fun _ => rfl) hanswers.answer, ⟨hown, hanswering⟩, fun u hu => ?_⟩
      exact ⟨effect_rely hg.toRingGuard heffect hu, fun p => effect_claimed hg.toRingGuard heffect hu,
        fun p _ _ _ => hanswers.requestId _⟩
    | producer k => cases h
    | consumer k => cases h
  stable t l g m g' m' hg hg' hr ho := by
    cases t with
    | submit call => exact ⟨submitOwn_stable hr.toRely ho.1, callOwn_stable hr ho.1 ho.2⟩
    | reclaimer => exact reclaimerOwn_stable hr.toRely ho
    | daemon =>
      exact ⟨daemonOwn_stable hr.toRely hg.toRingGuard hg'.toRingGuard ho.1,
        answering_stable hr.toRely ho.1 ho.2⟩
    | producer | consumer => trivial

/-- A position is claimed for a transaction that was accepted and fits its slot. -/
def ClaimsExplained (cfg : Config) (service : Service) (requests : Nat → HttpRequest) (trace : Trace) : Prop :=
  ∀ call p, (.submit call, .claim p) ∈ trace → ∃ input amountMicros,
    Submitted service (requests call) input amountMicros ∧ input.worstCaseBytes ≤ payloadCapacity cfg

structure ServiceReached (cfg : Config) (dc : DaemonConfig) (reader : TransactionReader) (service : Service)
    (requests : Nat → HttpRequest) (s : System) (trace : Trace) : Prop where
  guard : ServiceGuard cfg dc (ghostOf cfg trace) s.shared
  own : ∀ t, ServiceOwn cfg dc reader service requests t (s.locals t) (ghostOf cfg trace) s.shared
  claims : ClaimsExplained cfg service requests trace

lemma submitStep_claim {pc pc' : SubmitPC} {choice : SubmitChoice} {p : Nat}
    (h : submitStep cfg pc m choice = some (pc', m', .claim p)) : ∃ r position, pc = .compareExchange r position := by
  unfold submitStep at h
  rcases Option.or_eq_some_iff.mp h with hreserve | ⟨-, hrest⟩
  · unfold reserveStep at hreserve
    dsimp only at hreserve
    split at hreserve
    case h_10 => exact ⟨_, _, rfl⟩
    all_goals first | (split_ifs at hreserve <;> cases hreserve) | cases hreserve
  · rcases Option.or_eq_some_iff.mp hrest with hpublish | ⟨-, hfinish⟩
    · unfold publishStep at hpublish
      dsimp only at hpublish
      split at hpublish
      all_goals first
        | (split_ifs at hpublish <;> cases hpublish)
        | (split at hpublish <;> cases hpublish)
        | cases hpublish
    · unfold finishStep at hfinish
      dsimp only at hfinish
      split at hfinish
      all_goals first | (split_ifs at hfinish <;> cases hfinish) | (split at hfinish <;> cases hfinish) | cases hfinish

lemma claims_step {s s' : System} {trace : Trace} {a : Action} {event : Party × Label}
    (hr : ServiceReached cfg dc reader service requests s trace)
    (h : stepThread (service.program cfg dc requests) s a = some (s', event)) :
    ClaimsExplained cfg service requests (trace ++ [event]) := by
  intro call p hmem
  rcases List.mem_append.mp hmem with hold | hnew
  · exact hr.claims call p hold
  · obtain ⟨t, choice⟩ := a
    obtain ⟨next, shared, label, hp, -, rfl⟩ := stepThread_eq h
    cases List.mem_singleton.mp hnew
    obtain ⟨-, hstep⟩ := serviceStep_eq_some hp
    obtain ⟨r, position, hpc⟩ := submitStep_claim hstep
    have hown := (hr.own (.submit call)).2
    dsimp only at hpc hown
    rw [hpc] at hown
    exact hown

lemma serviceReached_initial : ServiceReached cfg dc reader service requests (System.initial cfg) [] where
  guard := ⟨guard_initial cfg dc, fun _ _ h => (by cases h), fun _ h => absurd h (show ¬4 ≤ Stage.free.rank by decide)⟩
  own t := by
    have hown := threadOwn_initial cfg dc t
    cases t with
    | submit call => exact ⟨hown, trivial⟩
    | reclaimer => exact hown
    | daemon => exact ⟨hown, trivial⟩
    | producer | consumer => trivial
  claims call p h := by cases h

theorem service_reached (hsize : cfg.slotSize < 2 ^ 32) (hparse : dc.parse = ringParse reader)
    (hlibrary : LibraryContract service.builder reader (payloadCapacity cfg))
    {actions : List Action} {s : System} {trace : Trace}
    (hrun : runThreads (service.program cfg dc requests) (System.initial cfg) actions = some (s, trace)) :
    ServiceReached cfg dc reader service requests s trace := by
  refine runThreads_induction (P := ServiceReached cfg dc reader service requests) ?_ [] serviceReached_initial actions hrun
  intro s trace a s' event hr hstep
  obtain ⟨hguard, hown⟩ := stepThread_invariant (service_relyGuarantee hsize hparse hlibrary) hr.guard hr.own hstep
  have hsnoc : ghostOf cfg (trace ++ [event]) = (ghostOf cfg trace).record cfg.slotCount event := replay_snoc ..
  exact ⟨hsnoc ▸ hguard, hsnoc ▸ hown, claims_step hr hstep⟩

end run

end FraudDetection.Proofs
