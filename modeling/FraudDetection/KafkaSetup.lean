import FraudDetection.Ingestion

/-!
# Building a Kafka consumer

`NewKafka` of `stream_processor/ingestion/ingestion.go` with the security policy of its dialer and
the configuration of the DLQ writer. Reading certificates and building a SCRAM mechanism are
parameters. The fixed sizes and timeouts of the reader, the writer and the transport are left out.
-/

namespace FraudDetection.Ingestion
open FraudDetection.Library

/-- `poisonHandler` says whether there is one. -/
structure KafkaConfig where
  brokers : List GoString
  topic : GoString
  groupID : GoString
  maxAttempts : Int
  retryBackoff : Int
  poisonPolicy : GoString
  developmentInsecure : Bool
  tlsCAFile : GoString
  tlsServerName : GoString
  tlsClientCertFile : GoString
  tlsClientKeyFile : GoString
  saslUsername : GoString
  saslPassword : GoString
  dlqTopic : GoString
  poisonHandler : Bool
  deriving DecidableEq, Repr

/-- The library calls of `newKafkaDialer`: the bytes of a file, whether they hold a certificate, and
the errors of a key pair and of a SCRAM mechanism. -/
structure SecurityCalls where
  readFile : GoString → Except GoError GoString
  appendCertsFromPEM : GoString → Bool
  loadX509KeyPair : GoString → GoString → Option GoError
  scramSHA512 : GoString → GoString → Option GoError

structure TLSConfig where
  serverName : GoString
  rootCAs : Option GoString
  certificates : Option (GoString × GoString)
  deriving DecidableEq, Repr

structure Dialer where
  tls : Option TLSConfig
  saslMechanism : Option (GoString × GoString)
  deriving DecidableEq, Repr

def kafkaTLSConfig (calls : SecurityCalls) (config : KafkaConfig) : Except GoError TLSConfig := do
  let caFile := trimSpaceBytes config.tlsCAFile
  let certFile := trimSpaceBytes config.tlsClientCertFile
  let keyFile := trimSpaceBytes config.tlsClientKeyFile
  let rootCAs ← if caFile ≠ [] then
      match calls.readFile caFile with
      | .error err => throw ⟨s!"read Kafka TLS CA: {err.text}"⟩
      | .ok pem =>
        if !calls.appendCertsFromPEM pem then throw ⟨"Kafka TLS CA contains no certificates"⟩
        else pure (some pem)
    else pure none
  let certificates ← if certFile ≠ [] then
      match calls.loadX509KeyPair certFile keyFile with
      | some err => throw ⟨s!"load Kafka TLS client certificate: {err.text}"⟩
      | none => pure (some (certFile, keyFile))
    else pure none
  return ⟨trimSpaceBytes config.tlsServerName, rootCAs, certificates⟩

def newKafkaDialer (calls : SecurityCalls) (config : KafkaConfig) : Except GoError Dialer := do
  let caFile := trimSpaceBytes config.tlsCAFile
  let serverName := trimSpaceBytes config.tlsServerName
  let certFile := trimSpaceBytes config.tlsClientCertFile
  let keyFile := trimSpaceBytes config.tlsClientKeyFile
  let username := trimSpaceBytes config.saslUsername
  if decide (certFile = []) ≠ decide (keyFile = []) then
    throw ⟨"Kafka TLS client certificate and key must be supplied together"⟩
  if decide (username = []) ≠ decide (config.saslPassword = []) then
    throw ⟨"Kafka SASL username and password must be supplied together"⟩
  if config.developmentInsecure ∧ (caFile ≠ [] ∨ serverName ≠ [] ∨ certFile ≠ []) then
    throw ⟨"Kafka TLS options cannot be combined with development-insecure plaintext"⟩
  if config.developmentInsecure ∧ username ≠ [] then
    throw ⟨"Kafka SASL credentials cannot be sent over development-insecure plaintext"⟩
  let tls ← if !config.developmentInsecure then some <$> kafkaTLSConfig calls config else pure none
  let saslMechanism ← if username ≠ [] then
      match calls.scramSHA512 username config.saslPassword with
      | some err => throw ⟨s!"configure Kafka SCRAM-SHA-512: {err.text}"⟩
      | none => pure (some (username, config.saslPassword))
    else pure none
  return ⟨tls, saslMechanism⟩

/-- The doubling loop of `waitBackoff` once more: it returns where that one breaks. -/
def boundedBackoff (base : Int) (attempts : Nat) : Int := backoffLoop (attempts - 1) base

structure ReaderConfig where
  brokers : List GoString
  topic : GoString
  groupID : GoString
  dialer : Dialer

/-- `kafka.Writer`, with the security policy that its transport takes from the dialer. -/
structure Writer where
  addr : List GoString
  topic : GoString
  transport : Dialer
  maxAttempts : Nat
  writeBackoffMin : Int
  writeBackoffMax : Int

structure KafkaClient where
  consumer : KafkaConsumer
  reader : ReaderConfig
  dlqWriter : Option Writer

def KafkaConfig.attempts (config : KafkaConfig) : Nat :=
  if config.maxAttempts ≤ 0 then 3 else config.maxAttempts.toNat

lemma KafkaConfig.attempts_pos (config : KafkaConfig) : 1 ≤ config.attempts := by
  unfold KafkaConfig.attempts
  split <;> omega

def KafkaConfig.backoff (config : KafkaConfig) : Int :=
  if config.retryBackoff ≤ 0 then 50000000 else config.retryBackoff

def parsePoisonPolicy (value : GoString) : Except GoError PoisonPolicy :=
  let value := if value = [] then ascii "halt" else value
  if value = ascii "halt" then .ok .halt
  else if value = ascii "dlq" then .ok .dlq
  else .error ⟨"Kafka poison policy must be halt or dlq"⟩

def newKafka (calls : SecurityCalls) (config : KafkaConfig) : Except GoError KafkaClient := do
  if config.brokers.length = 0 ∨ config.topic = [] ∨ config.groupID = [] then
    throw ⟨"kafka brokers, topic, and group ID are required"⟩
  let poisonPolicy ← parsePoisonPolicy config.poisonPolicy
  let builtInDLQ := poisonPolicy = .dlq ∧ !config.poisonHandler
  let dlqTopic := if builtInDLQ then trimSpaceBytes config.dlqTopic else config.dlqTopic
  if builtInDLQ ∧ dlqTopic = [] then
    throw ⟨"Kafka dlq policy requires KAFKA_DLQ_TOPIC or a durable poison handler"⟩
  if builtInDLQ ∧ dlqTopic = config.topic then
    throw ⟨"Kafka DLQ topic must differ from source topic"⟩
  let dialer ← newKafkaDialer calls config
  let dlqWriter : Option Writer := if builtInDLQ then
      some {
        addr := config.brokers
        topic := dlqTopic
        transport := dialer
        maxAttempts := config.attempts
        writeBackoffMin := config.backoff
        writeBackoffMax := boundedBackoff config.backoff config.attempts }
    else none
  return {
    consumer := {
      maxAttempts := config.attempts
      retryBackoff := config.backoff
      poisonPolicy
      poisonHandler := config.poisonHandler
      dlqWriter := dlqWriter.isSome
      sourceTopic := config.topic
      attempts_pos := config.attempts_pos }
    reader := ⟨config.brokers, config.topic, config.groupID, dialer⟩
    dlqWriter }

end FraudDetection.Ingestion
