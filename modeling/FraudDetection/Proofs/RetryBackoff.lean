import FraudDetection.KafkaSetup
import FraudDetection.Library.Outcomes

/-!
# Retry delays

The delays of `waitBackoff` double up to one second. From a base of at most a second they grow with
the attempt and end at `boundedBackoff`; a larger base is waited for once and then cut to a second.
-/

namespace FraudDetection.Proofs
open FraudDetection.Library
open FraudDetection.Ingestion

/-- The doubling loop on integers without a bound. -/
def exactBackoff : Nat → Int → Int
  | 0, backoff => backoff
  | n + 1, backoff => if 500000000 ≤ backoff then 1000000000 else exactBackoff n (backoff * 2)

lemma wrap64_double {backoff : Int} (hpos : 0 < backoff) (hsmall : backoff < 500000000) :
    wrap64 (backoff * 2) = backoff * 2 := by
  unfold wrap64
  rw [Int.bmod_eq_of_le] <;> omega

lemma backoffLoop_eq_exact (n : Nat) {base : Int} (hpos : 0 < base) :
    backoffLoop n base = exactBackoff n base := by
  induction n generalizing base with
  | zero => rfl
  | succ n ih =>
    unfold backoffLoop exactBackoff
    by_cases hbig : 500000000 ≤ base
    · rw [if_pos hbig, if_pos hbig]
    · rw [if_neg hbig, if_neg hbig, wrap64_double hpos (by omega)]
      exact ih (by omega)

lemma exactBackoff_le_succ (n : Nat) {base : Int} (hpos : 0 < base) (hbase : base ≤ 1000000000) :
    exactBackoff n base ≤ exactBackoff (n + 1) base := by
  induction n generalizing base with
  | zero =>
    simp only [exactBackoff]
    split <;> omega
  | succ n ih =>
    rw [exactBackoff, exactBackoff]
    by_cases hbig : 500000000 ≤ base
    · rw [if_pos hbig, if_pos hbig]
    · rw [if_neg hbig, if_neg hbig]
      exact ih (by omega) (by omega)

lemma waitDelay_mono {base : Int} (hpos : 0 < base) (hbase : base ≤ 1000000000) {j k : Nat} (hjk : j ≤ k) :
    waitDelay base j ≤ waitDelay base k := by
  have hmono : Monotone fun n => exactBackoff n base :=
    monotone_nat_of_le_succ fun n => exactBackoff_le_succ n hpos hbase
  unfold waitDelay
  rw [backoffLoop_eq_exact _ hpos, backoffLoop_eq_exact _ hpos]
  exact hmono (by omega)

lemma waitDelay_two {base : Int} (hbase : 1000000000 < base) : waitDelay base 2 = 1000000000 := by
  have hbig : 500000000 ≤ base := by omega
  change (if 500000000 ≤ base then (1000000000 : Int) else _) = _
  exact if_pos hbig

lemma newKafka_ok {calls : SecurityCalls} {config : KafkaConfig} {client : KafkaClient}
    (h : newKafka calls config = .ok client) :
    client.consumer.maxAttempts = config.attempts ∧ client.consumer.retryBackoff = config.backoff ∧
      ∀ writer, client.dlqWriter = some writer →
        writer.writeBackoffMin = config.backoff ∧
          writer.writeBackoffMax = boundedBackoff config.backoff config.attempts := by
  unfold newKafka at h
  rw [throw_if_eq_ok_iff] at h
  obtain ⟨-, h⟩ := h
  rw [bind_eq_ok_iff] at h
  obtain ⟨policy, -, h⟩ := h
  rw [throw_if_eq_ok_iff, throw_if_eq_ok_iff] at h
  obtain ⟨-, -, h⟩ := h
  rw [bind_eq_ok_iff] at h
  obtain ⟨dialer, -, h⟩ := h
  cases h
  refine ⟨rfl, rfl, ?_⟩
  intro writer hwriter
  dsimp only at hwriter
  split at hwriter
  · cases hwriter
    exact ⟨rfl, rfl⟩
  · cases hwriter

lemma backoff_pos (config : KafkaConfig) : 0 < config.backoff := by
  unfold KafkaConfig.backoff
  split <;> omega

lemma backoff_le_or_attempts_eq_one (config : KafkaConfig) :
    (config.backoff ≤ 1000000000 ∨ config.attempts = 1) ↔
      (config.retryBackoff ≤ 1000000000 ∨ config.maxAttempts = 1) := by
  unfold KafkaConfig.backoff KafkaConfig.attempts
  split <;> split <;> omega

/-- No delay of an accepted configuration overflows, and the delays of its attempts grow up to
`boundedBackoff`, which a DLQ writer waits for at most, exactly when its base is at most a second or
it makes one attempt. -/
theorem retry_delays_bounded_iff {calls : SecurityCalls} {config : KafkaConfig} {client : KafkaClient}
    (h : newKafka calls config = .ok client) :
    ((∀ k, 1 ≤ k → waitDelay client.consumer.retryBackoff k = exactBackoff (k - 1) client.consumer.retryBackoff) ∧
      (∀ j k, 1 ≤ j → j ≤ k → k ≤ client.consumer.maxAttempts →
        waitDelay client.consumer.retryBackoff j ≤ waitDelay client.consumer.retryBackoff k) ∧
      (∀ k, 1 ≤ k → k ≤ client.consumer.maxAttempts → waitDelay client.consumer.retryBackoff k ≤
        boundedBackoff client.consumer.retryBackoff client.consumer.maxAttempts) ∧
      ∀ writer, client.dlqWriter = some writer → writer.writeBackoffMin ≤ writer.writeBackoffMax) ↔
    (config.retryBackoff ≤ 1000000000 ∨ config.maxAttempts = 1) := by
  obtain ⟨hattempts, hbackoff, hwriter⟩ := newKafka_ok h
  rw [hattempts, hbackoff, ← backoff_le_or_attempts_eq_one]
  have hpos := backoff_pos config
  have hone := config.attempts_pos
  have hlast : ∀ base, boundedBackoff base config.attempts = waitDelay base config.attempts := fun _ => rfl
  have hfirst : waitDelay config.backoff 1 = config.backoff := rfl
  constructor
  · rintro ⟨-, hmono, -, -⟩
    by_contra hcon
    push Not at hcon
    obtain ⟨hbase, hmany⟩ := hcon
    have hle := hmono 1 2 le_rfl (by omega) (by omega)
    rw [hfirst, waitDelay_two hbase] at hle
    omega
  · intro hwhen
    have hmono : ∀ j k, 1 ≤ j → j ≤ k → k ≤ config.attempts →
        waitDelay config.backoff j ≤ waitDelay config.backoff k := by
      intro j k hj hjk hk
      rcases hwhen with hbase | hsingle
      · exact waitDelay_mono hpos hbase hjk
      · obtain rfl : j = k := by omega
        exact le_rfl
    refine ⟨fun k _ => backoffLoop_eq_exact (k - 1) hpos, hmono, ?_, ?_⟩
    · intro k hk hle
      rw [hlast]
      exact hmono k config.attempts hk hle le_rfl
    · intro writer hw
      obtain ⟨hmin, hmax⟩ := hwriter writer hw
      rw [hmin, hmax, hlast, ← hfirst]
      exact hmono 1 config.attempts le_rfl hone le_rfl

def plaintextCalls : SecurityCalls where
  readFile _ := .error ⟨"no such file or directory"⟩
  appendCertsFromPEM _ := false
  loadX509KeyPair _ _ := some ⟨"no such file or directory"⟩
  scramSHA512 _ _ := none

def localConfig (maxAttempts retryBackoff : Int) : KafkaConfig where
  brokers := [ascii "localhost:9092"]
  topic := ascii "financial-events"
  groupID := ascii "stream-processor"
  maxAttempts := maxAttempts
  retryBackoff := retryBackoff
  poisonPolicy := ascii "dlq"
  developmentInsecure := true
  tlsCAFile := []
  tlsServerName := []
  tlsClientCertFile := []
  tlsClientKeyFile := []
  saslUsername := []
  saslPassword := []
  dlqTopic := ascii "financial-events-dlq"
  poisonHandler := false

def retrySettings (client : KafkaClient) : Nat × Int × Option (Int × Int) :=
  (client.consumer.maxAttempts, client.consumer.retryBackoff,
    client.dlqWriter.map fun writer => (writer.writeBackoffMin, writer.writeBackoffMax))

lemma newKafka_of_settings {calls : SecurityCalls} {config : KafkaConfig} {attempts : Nat} {base least most : Int}
    (h : (newKafka calls config).toOption.map retrySettings = some (attempts, base, some (least, most))) :
    ∃ client writer, newKafka calls config = .ok client ∧ client.consumer.maxAttempts = attempts ∧
      client.consumer.retryBackoff = base ∧ client.dlqWriter = some writer ∧
      writer.writeBackoffMin = least ∧ writer.writeBackoffMax = most := by
  cases hnew : newKafka calls config with
  | error err =>
    rw [hnew] at h
    cases h
  | ok client =>
    rw [hnew] at h
    simp only [Except.toOption, Option.map_some, Option.some.injEq, retrySettings, Prod.mk.injEq,
      Option.map_eq_some_iff] at h
    obtain ⟨hattempts, hbase, writer, hwriter, hleast, hmost⟩ := h
    exact ⟨client, writer, rfl, hattempts, hbase, hwriter, hleast, hmost⟩

/-- With two attempts and a base of two seconds the second delay is shorter than the first, the
first is above `boundedBackoff`, and the writer's least backoff is above its largest. -/
theorem retry_delays_two_seconds :
    ∃ client writer, newKafka plaintextCalls (localConfig 2 2000000000) = .ok client ∧
      client.consumer.maxAttempts = 2 ∧
      waitDelay client.consumer.retryBackoff 2 < waitDelay client.consumer.retryBackoff 1 ∧
      boundedBackoff client.consumer.retryBackoff client.consumer.maxAttempts <
        waitDelay client.consumer.retryBackoff 1 ∧
      client.dlqWriter = some writer ∧ writer.writeBackoffMax < writer.writeBackoffMin := by
  have hsettings : (newKafka plaintextCalls (localConfig 2 2000000000)).toOption.map retrySettings =
      some (2, 2000000000, some (2000000000, 1000000000)) := by decide +kernel
  obtain ⟨client, writer, hnew, hattempts, hbase, hwriter, hleast, hmost⟩ := newKafka_of_settings hsettings
  refine ⟨client, writer, hnew, hattempts, ?_, ?_, hwriter, ?_⟩
  · rw [hbase]
    decide
  · rw [hbase, hattempts]
    decide
  · rw [hleast, hmost]
    decide

theorem retry_delays_default :
    ∃ client writer, newKafka plaintextCalls (localConfig 3 50000000) = .ok client ∧
      client.dlqWriter = some writer ∧ writer.writeBackoffMin ≤ writer.writeBackoffMax := by
  have hsettings : (newKafka plaintextCalls (localConfig 3 50000000)).toOption.map retrySettings =
      some (3, 50000000, some (50000000, 200000000)) := by decide +kernel
  obtain ⟨client, writer, hnew, -, -, hwriter, -, -⟩ := newKafka_of_settings hsettings
  have hbase : (localConfig 3 50000000).retryBackoff ≤ 1000000000 := by decide
  exact ⟨client, writer, hnew, hwriter, ((retry_delays_bounded_iff hnew).mpr (.inl hbase)).2.2.2 writer hwriter⟩

end FraudDetection.Proofs
