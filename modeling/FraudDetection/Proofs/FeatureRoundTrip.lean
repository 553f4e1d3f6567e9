import Mathlib.Algebra.Order.BigOperators.Group.List
import FraudDetection.FeatureVector
import FraudDetection.HttpGateway
import FraudDetection.Proofs.WindowBatch

/-!
# The feature vector round trip

Every vector that a window materializes passes the checks of the sink, is stored under a key that
the serving plane accepts, and is read back value by value. The amounts that a window retains are
amounts of valid events, so the largest of them does not exceed their sum.
-/

namespace FraudDetection.Proofs
open FraudDetection.Library
open FraudDetection.FeatureVector

section keys

lemma continuation_not_lt {lo hi b : UInt8} (h : continuation lo hi b = true) (hlo : 0x80 ≤ lo) : ¬ b < 0x80 := by
  unfold continuation at h
  simp only [Bool.and_eq_true, decide_eq_true_eq] at h
  exact UInt8.not_lt.mpr (UInt8.le_trans hlo h.1)

lemma validSecond_not_lt {b b1 : UInt8} (h : validSecond b b1 = true) : ¬ b1 < 0x80 := by
  refine continuation_not_lt h ?_
  unfold secondByteRange
  repeat' split
  all_goals decide

lemma mem_rest {first b : UInt8} {rest : GoString} (hb : b ∈ first :: rest) (hlt : b < 0x80) (hfirst : ¬ first < 0x80) :
    b ∈ rest :=
  (List.mem_cons.mp hb).resolve_left fun heq => hfirst (heq ▸ hlt)

lemma mem_decodeRunes {s : GoString} {runes : List Nat} {b : UInt8} (h : decodeRunes s = some runes) (hb : b ∈ s)
    (hlt : b < 0x80) : b.toNat ∈ runes := by
  fun_induction decodeRunes s generalizing runes with
  | case1 => nomatch hb
  | case2 first rest hfirst ih =>
    obtain ⟨tail, htail, rfl⟩ := Option.map_eq_some_iff.mp h
    rcases List.mem_cons.mp hb with rfl | hb
    · exact List.mem_cons_self
    · exact List.mem_cons_of_mem _ (ih htail hb)
  | case5 first hfirst second rest hsecond _ ih =>
    obtain ⟨tail, htail, rfl⟩ := Option.map_eq_some_iff.mp h
    simp only [Bool.not_eq_true', Bool.not_eq_false] at hsecond
    have hb := mem_rest (mem_rest hb hlt hfirst) hlt (validSecond_not_lt hsecond)
    exact List.mem_cons_of_mem _ (ih htail hb)
  | case8 first hfirst second hsecond _ third rest hthird _ ih =>
    obtain ⟨tail, htail, rfl⟩ := Option.map_eq_some_iff.mp h
    simp only [Bool.not_eq_true', Bool.not_eq_false] at hsecond hthird
    have hb := mem_rest (mem_rest hb hlt hfirst) hlt (validSecond_not_lt hsecond)
    exact List.mem_cons_of_mem _ (ih htail (mem_rest hb hlt (continuation_not_lt hthird (by decide))))
  | case11 first hfirst second hsecond _ third hthird _ fourth rest hfourth _ ih =>
    obtain ⟨tail, htail, rfl⟩ := Option.map_eq_some_iff.mp h
    simp only [Bool.not_eq_true', Bool.not_eq_false] at hsecond hthird hfourth
    have hb := mem_rest (mem_rest hb hlt hfirst) hlt (validSecond_not_lt hsecond)
    have hb := mem_rest hb hlt (continuation_not_lt hthird (by decide))
    exact List.mem_cons_of_mem _ (ih htail (mem_rest hb hlt (continuation_not_lt hfourth (by decide))))
  | _ => cases h

lemma noControl_lineBreak {s : GoString} (hvalid : validString s = true) (hcontrol : noControl s = true) :
    s.any (fun b => b = 0x0D || b = 0x0A) = false := by
  obtain ⟨runes, hrunes⟩ := Option.isSome_iff_exists.mp hvalid
  rw [noControl, hrunes, Option.getD_some, List.all_eq_true] at hcontrol
  rw [List.any_eq_false]
  intro b hb hbreak
  have hlt : b < 0x80 := by
    simp only [Bool.or_eq_true, decide_eq_true_eq] at hbreak
    rcases hbreak with rfl | rfl <;> decide
  have hrune := hcontrol _ (mem_decodeRunes hrunes hb hlt)
  simp only [Bool.or_eq_true, decide_eq_true_eq] at hbreak
  rcases hbreak with rfl | rfl
  · exact absurd hrune (by decide)
  · exact absurd hrune (by decide)

end keys

section amounts

variable {α σ : Type} {ar : Arithmetic α} {P : α → Prop} {w : Window α} {input : Event α} {features : Features α}

lemma validEvent_key (h : validEvent ar input = true) :
    validFeatureKey input.entityID = true ∧ HttpGateway.validEntityID input.entityID = true ∧
      ar.le ar.zero input.amount = true := by
  unfold validEvent at h
  unfold validFeatureKey HttpGateway.validEntityID
  simp only [Bool.and_eq_true] at h ⊢
  tauto

def AmountsIn (P : α → Prop) (w : Window α) : Prop := ∀ entity, ∀ x ∈ w.eventsOf entity, P x.amount

lemma mem_nextEvents {x : WindowEvent α} (hx : x ∈ w.nextEvents input) :
    x ∈ w.eventsOf input.entityID ∨ x = input.retained := by
  unfold Window.nextEvents at hx
  split at hx
  · rcases List.mem_append.mp ((stableSort_perm _ _).mem_iff.mp hx) with hx | hx
    · exact .inl (List.mem_of_mem_drop hx)
    · exact .inr (List.mem_singleton.mp hx)
  · exact .inl (List.mem_of_mem_drop hx)

lemma AmountsIn.nextEvents (h : AmountsIn P w) (hinput : P input.amount) : ∀ x ∈ w.nextEvents input, P x.amount := by
  intro x hx
  rcases mem_nextEvents hx with hx | rfl
  · exact h _ x hx
  · exact hinput

lemma AmountsIn.advance (h : AmountsIn P w) (hinput : P input.amount) : AmountsIn P (w.advance input) := by
  intro entity x hx
  rw [eventsOf_advance] at hx
  split at hx
  · exact h.nextEvents hinput x hx
  · by_cases hevict : entity = w.evictFor input
    · unfold Window.makeRoom at hx
      split at hx
      · rw [hevict, eventsOf_evict, if_pos rfl] at hx
        nomatch hx
      · exact h entity x hx
    · rw [(makeRoom_of_ne input hevict).1] at hx
      exact h entity x hx

end amounts

section codec

variable {K σ : Type} [Field K] {sc : Strconv K} {isFloat64 : K → Prop} {client : RedisClient σ}

/-- The behaviour of `strconv` on the values of `float64`, and on counts that `float64` holds. -/
structure StrconvContract (sc : Strconv K) (isFloat64 : K → Prop) : Prop where
  zero : isFloat64 0
  parse_format : ∀ x, isFloat64 x → sc.parseFloat (sc.formatFloat x) = .ok (.finite x)
  format_comma : ∀ x, isFloat64 x → 0x2C ∉ sc.formatFloat x
  parse_itoa : ∀ n : Nat, n < 2 ^ 53 → sc.parseFloat (itoa n) = .ok (.finite (n : K))

/-- Redis is reachable and returns the string that was set last. -/
structure RedisContract (client : RedisClient σ) : Prop where
  set_ok : ∀ state key value, (client.set state key value).1 = none
  get_set : ∀ state key value, client.get (client.set state key value).2 key = .ok value

lemma itoa_eq (n : Nat) : itoa n = (Nat.toDigits 10 n).map fun c => c.toNat.toUInt8 := by
  change (String.ofList (Nat.toDigits 10 n)).toList.map _ = _
  rw [String.toList_ofList]

lemma digit_toNat {n : Nat} {c : Char} (hc : c ∈ Nat.toDigits 10 n) :
    c.toNat.toUInt8.toNat = c.toNat ∧ 48 ≤ c.toNat ∧ c.toNat ≤ 57 := by
  have hdigit := Nat.isDigit_of_mem_toDigits (by decide) (by decide) hc
  simp only [Char.isDigit, Bool.and_eq_true, decide_eq_true_eq] at hdigit
  have hhigh : c.toNat ≤ 57 := hdigit.2
  exact ⟨Nat.mod_eq_of_lt (by omega), hdigit⟩

lemma itoa_comma (n : Nat) : 0x2C ∉ itoa n := by
  rw [itoa_eq, List.mem_map]
  rintro ⟨c, hc, hcomma⟩
  obtain ⟨hnat, hlow, -⟩ := digit_toNat hc
  rw [hcomma] at hnat
  change 44 = c.toNat at hnat
  omega

omit [Field K] in
lemma parseParts_eq_ok {parts : List GoString} {values : List K} (i : Nat)
    (h : List.Forall₂ (fun part x => sc.parseFloat part = .ok (.finite x)) parts values) :
    parseParts sc i parts = .ok (values.map .finite) := by
  induction h generalizing i with
  | nil => rfl
  | cons hpart _ ih =>
    rw [parseParts, hpart]
    change (parseParts sc (i + 1) _ >>= _) = _
    rw [ih]
    rfl

def servedValues (features : Features K) : List K :=
  (features.eventCount : K) :: features.totalAmount :: features.maxAmount :: List.replicate 29 0

lemma vectorOf_parses (hsc : StrconvContract sc isFloat64) {features : Features K}
    (hcount : features.eventCount < 2 ^ 53) (htotal : isFloat64 features.totalAmount)
    (hmax : isFloat64 features.maxAmount) :
    List.Forall₂ (fun part x => sc.parseFloat part = .ok (.finite x)) (vectorOf sc features)
      (servedValues features) := by
  refine .cons (hsc.parse_itoa _ hcount) (.cons (hsc.parse_format _ htotal) (.cons (hsc.parse_format _ hmax) ?_))
  have hzero : sc.parseFloat (ascii "0") = .ok (.finite 0) := by
    have hitoa : itoa ((0 : Nat) : Int) = ascii "0" := by decide
    have h := hsc.parse_itoa 0 (by decide)
    rwa [hitoa, Nat.cast_zero] at h
  change List.Forall₂ _ (List.replicate 29 (ascii "0")) (List.replicate 29 0)
  generalize 29 = n
  induction n with
  | zero => exact .nil
  | succ n ih => exact .cons hzero ih

lemma vectorOf_comma (hsc : StrconvContract sc isFloat64) {features : Features K}
    (htotal : isFloat64 features.totalAmount) (hmax : isFloat64 features.maxAmount) :
    ∀ part ∈ vectorOf sc features, 0x2C ∉ part := by
  change ∀ part ∈ itoa features.eventCount :: sc.formatFloat features.totalAmount ::
    sc.formatFloat features.maxAmount :: List.replicate 29 (ascii "0"), 0x2C ∉ part
  simp only [List.forall_mem_cons]
  refine ⟨itoa_comma _, hsc.format_comma _ htotal, hsc.format_comma _ hmax, fun part hpart => ?_⟩
  rw [List.eq_of_mem_replicate hpart]
  decide

/-- A client that returns the string of `Put` serves the values that were put. -/
lemma get_encoded {sc : Strconv K} {isFloat64 : K → Prop} {client : RedisClient σ} (hsc : StrconvContract sc isFloat64)
    {features : Features K} {key : GoString} (hkey : validFeatureKey key = true)
    (hcount : features.eventCount < 2 ^ 53) (htotal : isFloat64 features.totalAmount)
    (hmax : isFloat64 features.maxAmount) {state : σ}
    (hread : client.get state key = .ok (List.intercalate (ascii ",") (vectorOf sc features))) :
    get sc (some ⟨client, 32⟩) none state key = .ok ((servedValues features).map .finite) := by
  have hsplit : (List.intercalate [0x2C] (vectorOf sc features)).splitOn 0x2C = vectorOf sc features :=
    List.splitOn_intercalate _ (vectorOf_comma hsc htotal hmax) nofun
  have hcomma : ascii "," = [0x2C] := by decide
  have hwidth : (vectorOf sc features).length = 32 := rfl
  unfold FeatureVector.get
  simp only [hkey, hread, hcomma, hsplit, hwidth, Bool.not_true, Bool.false_eq_true, if_false, ne_eq,
    not_true_eq_false]
  exact parseParts_eq_ok 0 (vectorOf_parses hsc hcount htotal hmax)

end codec

section roundTrip

variable {K σ : Type} [Field K] [LinearOrder K]

lemma foldr_max_mem (l : List K) : l.foldr max 0 = 0 ∨ l.foldr max 0 ∈ l := by
  induction l with
  | nil => exact .inl rfl
  | cons a l ih =>
    rw [List.foldr_cons]
    rcases max_choice a (l.foldr max 0) with h | h
    · rw [h]
      exact .inr List.mem_cons_self
    · rw [h]
      exact ih.imp_right (List.mem_cons_of_mem a)

/-- The amounts that a window retains are values of `float64`, and none is negative. -/
lemma runCalls_amounts {isFloat64 : K → Prop} (maxFloat64 : K) (duration maxEntities maxEvents : Int)
    (calls : List (WindowCall σ K)) (start : σ) (hcalls : ∀ call ∈ calls, isFloat64 call.input.amount) :
    AmountsIn (fun x => 0 ≤ x ∧ isFloat64 x)
      (runCalls (exactArithmetic maxFloat64) calls (newWithLimits duration maxEntities maxEvents, start)).1 := by
  refine runCalls_induction calls _ (fun _ _ hx => nomatch hx) fun call hcall w features hw ha => hw.advance ?_
  exact ⟨of_decide_eq_true (validEvent_key ha.valid).2.2, hcalls call hcall⟩

structure Served (sc : Strconv K) (client : RedisClient σ) (maxFloat64 : K) (w : Window K) (state : σ)
    (input : Event K) (features : Features K) : Prop where
  valid : validateMaterializedFeatures (exactArithmetic maxFloat64) features = none
  written : applyAndMaterialize (exactArithmetic maxFloat64) w input
      (some (put (exactArithmetic maxFloat64) sc (some client))) state =
    (.ok (features, true), w.advance input,
      (client.set state input.entityID (List.intercalate (ascii ",") (vectorOf sc features))).2)
  featureKey : validFeatureKey input.entityID = true
  entityID : HttpGateway.validEntityID input.entityID = true
  read : get sc (some ⟨client, 32⟩) none
      (client.set state input.entityID (List.intercalate (ascii ",") (vectorOf sc features))).2 input.entityID =
    .ok ((servedValues features).map .finite)

variable [IsStrictOrderedRing K]

lemma foldr_max_le_sum {l : List K} (h : ∀ x ∈ l, 0 ≤ x) : l.foldr max 0 ≤ l.sum := by
  rcases foldr_max_mem l with hzero | hmem
  · rw [hzero]
    exact List.sum_nonneg h
  · exact List.single_le_sum h _ hmem

lemma validate_aggregate {maxFloat64 : K} {entity : GoString} {windowEnd : Int} {events : List (WindowEvent K)}
    (hkey : validFeatureKey entity = true) (hamounts : ∀ x ∈ events, 0 ≤ x.amount) :
    validateMaterializedFeatures (exactArithmetic maxFloat64) (aggregate entity windowEnd events) = none := by
  have hmapped : ∀ x ∈ events.map WindowEvent.amount, 0 ≤ x := by
    intro x hx
    obtain ⟨event, hevent, rfl⟩ := List.mem_map.mp hx
    exact hamounts event hevent
  have hsum := List.sum_nonneg hmapped
  have hmax := foldr_max_le_sum hmapped
  have hnonneg := foldr_max_nonneg (events.map WindowEvent.amount)
  unfold validFeatureKey at hkey
  simp only [Bool.and_eq_true, decide_eq_true_eq] at hkey
  obtain ⟨⟨⟨⟨hne, hlen⟩, hvalid⟩, -⟩, hcontrol⟩ := hkey
  refine if_neg ?_
  simp only [aggregate, exactArithmetic, noControl_lineBreak hvalid hcontrol, hne, not_lt.mpr hlen, not_lt.mpr hsum,
    not_lt.mpr hmax, not_lt.mpr hnonneg, not_lt.mpr (Int.natCast_nonneg _), decide_false, Bool.or_self,
    Bool.false_eq_true, not_false_eq_true]

/-- Every vector that a window puts is served under the id of its entity. -/
theorem feature_vector_round_trip {sc : Strconv K} {isFloat64 : K → Prop} {client : RedisClient σ}
    (hsc : StrconvContract sc isFloat64) (hredis : RedisContract client) (maxFloat64 : K)
    (duration maxEntities maxEvents : Int) (calls : List (WindowCall σ K)) (start state : σ) (w : Window K)
    (hw : w = (runCalls (exactArithmetic maxFloat64) calls (newWithLimits duration maxEntities maxEvents, start)).1)
    (input : Event K) (pending : PendingUpdate K)
    (hprepare : prepareLocked (exactArithmetic maxFloat64) w input = .ok pending)
    (haccepted : pending.accepted = true) (hchanged : pending.changed = true)
    (hcalls : ∀ call ∈ calls, isFloat64 call.input.amount) (hinput : isFloat64 input.amount)
    (hexact : isFloat64 pending.features.totalAmount) (hcount : pending.features.eventCount < 2 ^ 53) :
    Served sc client maxFloat64 w state input pending.features := by
  obtain ⟨err, he⟩ | ⟨he, -⟩ | ⟨features, ha, he⟩ := prepareLocked_outcome (exactArithmetic maxFloat64) w input
  · cases hprepare.symm.trans he
  · cases hprepare.symm.trans he
    cases haccepted
  cases hprepare.symm.trans he
  dsimp only at hexact hcount hchanged ⊢
  obtain ⟨hkey, hentity, hnonneg⟩ := validEvent_key ha.valid
  have hamounts := hw ▸ runCalls_amounts maxFloat64 duration maxEntities maxEvents calls start hcalls
  have hnext : ∀ x ∈ w.nextEvents input, 0 ≤ x.amount ∧ isFloat64 x.amount :=
    hamounts.nextEvents ⟨of_decide_eq_true hnonneg, hinput⟩
  have hfeatures := accepts_features ha
  have hvalid : validateMaterializedFeatures (exactArithmetic maxFloat64) features = none := by
    rw [hfeatures]
    exact validate_aggregate hkey fun x hx => (hnext x hx).1
  -- the maximum is zero or one of the amounts
  have hmax : isFloat64 features.maxAmount := by
    rw [hfeatures]
    change isFloat64 (((w.nextEvents input).map WindowEvent.amount).foldr max 0)
    rcases foldr_max_mem ((w.nextEvents input).map WindowEvent.amount) with hzero | hmem
    · rw [hzero]
      exact hsc.zero
    · obtain ⟨x, hx, heq⟩ := List.mem_map.mp hmem
      rw [← heq]
      exact (hnext x hx).2
  have hid : features.entityID = input.entityID := congrArg Features.entityID hfeatures
  have hput : put (exactArithmetic maxFloat64) sc (some client) state features =
      (none, (client.set state input.entityID (List.intercalate (ascii ",") (vectorOf sc features))).2) := by
    unfold FeatureVector.put
    rw [hvalid, hid]
    exact Prod.ext (hredis.set_ok _ _ _) rfl
  refine ⟨hvalid, ?_, hkey, hentity, get_encoded hsc hkey hcount hexact hmax (hredis.get_set state _ _)⟩
  unfold applyAndMaterialize
  rw [he, ← commitLocked_advance w input features]
  simp only [hchanged, hput, Bool.not_true, Bool.false_eq_true, if_false, if_true]

end roundTrip

section sample

def decimal : Strconv ℚ where
  formatFloat x := itoa x.num
  parseFloat s :=
    if s ≠ [] ∧ s.all (fun b => 0x30 ≤ b && b ≤ 0x39) then
      .ok (.finite (Nat.ofDigitChars 10 (s.map fun b => Char.ofNat b.toNat) 0))
    else .error ⟨"invalid syntax"⟩

lemma decimal_parse (n : Nat) : decimal.parseFloat (itoa n) = .ok (.finite (n : ℚ)) := by
  have hdigits : itoa n ≠ [] ∧ (itoa n).all (fun b => 0x30 ≤ b && b ≤ 0x39) = true := by
    rw [itoa_eq]
    refine ⟨fun h => Nat.toDigits_ne_nil (List.map_eq_nil_iff.mp h), List.all_eq_true.mpr fun b hb => ?_⟩
    obtain ⟨c, hc, rfl⟩ := List.mem_map.mp hb
    obtain ⟨hnat, hrange⟩ := digit_toNat hc
    rw [Bool.and_eq_true, decide_eq_true_eq, decide_eq_true_eq, UInt8.le_iff_toNat_le, UInt8.le_iff_toNat_le, hnat]
    exact hrange
  have hchars : (itoa n).map (fun b => Char.ofNat b.toNat) = Nat.toDigits 10 n := by
    rw [itoa_eq, List.map_map]
    refine (List.map_congr_left fun c hc => ?_).trans (List.map_id _)
    change Char.ofNat c.toNat.toUInt8.toNat = c
    rw [(digit_toNat hc).1, Char.ofNat_toNat]
  unfold decimal
  dsimp only
  rw [if_pos hdigits, hchars, Nat.ofDigitChars_toDigits (by decide) (by decide)]

lemma decimal_contract : StrconvContract decimal fun x => ∃ n : Nat, n < 2 ^ 53 ∧ x = n where
  zero := ⟨0, by decide, rfl⟩
  parse_format := by
    rintro _ ⟨n, -, rfl⟩
    exact decimal_parse n
  format_comma := by
    rintro _ ⟨n, -, rfl⟩
    exact itoa_comma n
  parse_itoa n _ := decimal_parse n

def mapClient : RedisClient (GoString → Option GoString) where
  set state key value := (none, fun k => if k = key then some value else state k)
  get state key :=
    match state key with
    | none => .error .nil
    | some value => .ok value

lemma mapClient_contract : RedisContract mapClient where
  set_ok _ _ _ := rfl
  get_set state key value := by
    simp only [mapClient, if_true]

def firstCharge : Event ℚ := ⟨[49], [97], 10, 100, 0, 1⟩
def secondCharge : Event ℚ := ⟨[50], [97], 5, 110, 0, 2⟩

/-- Two charges of one account, served as count two, sum fifteen and maximum ten. -/
theorem feature_vector_round_trip_charges :
    let ar := exactArithmetic (1000000 : ℚ)
    let w := (runCalls ar [.apply firstCharge] (newWithLimits 60 2 10, fun _ : GoString => (none : Option GoString))).1
    ∃ features, Served decimal mapClient 1000000 w (fun _ => none) secondCharge features ∧
      servedValues features = 2 :: 15 :: 10 :: List.replicate 29 0 := by
  intro ar w
  have haccepts : accepts ar w secondCharge = true := by decide +kernel
  have hupdates : w.updates secondCharge = true := by decide +kernel
  obtain ⟨features, ha⟩ := (accepts_iff ar w secondCharge).mp haccepts
  have hvalues : aggregate secondCharge.entityID (w.nextWatermark secondCharge) (w.nextEvents secondCharge) =
      ⟨[97], 2, 15, 10, 110⟩ := by decide +kernel
  have hfeatures : features = ⟨[97], 2, 15, 10, 110⟩ := (accepts_features ha).trans hvalues
  have hserved := feature_vector_round_trip decimal_contract mapClient_contract (1000000 : ℚ) 60 2 10
    [.apply firstCharge] (fun _ => none) (fun _ => none) w rfl secondCharge _ (prepareLocked_of_accepts ha) rfl hupdates
    (by rintro call hcall; cases List.mem_singleton.mp hcall; exact ⟨10, by decide, rfl⟩) ⟨5, by decide, rfl⟩
    (by rw [hfeatures]; exact ⟨15, by decide, rfl⟩) (by rw [hfeatures]; decide)
  refine ⟨features, hserved, ?_⟩
  rw [hfeatures]
  rfl

end sample

end FraudDetection.Proofs
