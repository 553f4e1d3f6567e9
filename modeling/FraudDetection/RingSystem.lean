import FraudDetection.Library.Threads
import FraudDetection.Gateway
import FraudDetection.Daemon

/-!
# The system around the ring

All threads over one segment: any number of calls of `submit`, the reclaimer and the daemon, and
any number of other producers and consumers of the ring.
-/

namespace FraudDetection.Ring
open FraudDetection.Library

abbrev Local : Party → Type
  | .submit _ => SubmitPC
  | .reclaimer => ReclaimerPC
  | .daemon => DaemonPC
  | .producer _ => ProducerPC
  | .consumer _ => ConsumerPC

abbrev Choice : Party → Type
  | .submit _ => SubmitChoice
  | .reclaimer => Unit
  | .daemon => DaemonChoice
  | .producer _ => ProducerChoice
  | .consumer _ => ConsumerChoice

abbrev System := Threads Local Shared

abbrev Action := (t : Party) × Choice t

abbrev Trace := List (Party × Label)

def program (cfg : Config) (dc : DaemonConfig) : Program Local Choice Shared Label
  | .submit _, pc, m, choice => submitStep cfg pc m choice
  | .reclaimer, pc, m, () => some (reclaimerStep cfg pc m)
  | .daemon, pc, m, choice => daemonStep cfg dc pc m choice
  | .producer _, pc, m, choice => producerStep cfg pc m choice
  | .consumer _, pc, m, choice => consumerStep cfg pc m choice

def System.initial (cfg : Config) : System where
  shared := Shared.initial cfg
  locals
    | .submit _ => SubmitPC.idle
    | .reclaimer => ReclaimerPC.swap []
    | .daemon => DaemonPC.loop Batcher.initial
    | .producer _ => ProducerPC.idle []
    | .consumer _ => ConsumerPC.idle []

def Party.produces : Party → Bool
  | .submit _ | .producer _ => true
  | _ => false

def Party.consumes : Party → Bool
  | .daemon | .consumer _ => true
  | _ => false

/-- The threads of the gateway and the daemon, which share the ring in production. -/
def Party.deployed : Party → Bool
  | .submit _ | .reclaimer | .daemon => true
  | .producer _ | .consumer _ => false

/-- No call of `submit` is in progress: each has not started or has returned. -/
def System.settled (s : System) : Prop :=
  ∀ call, s.locals (.submit call) = SubmitPC.idle ∨ ∃ result, s.locals (.submit call) = SubmitPC.returned result

def System.outstanding (s : System) : List Nat :=
  match s.locals .reclaimer with
  | .swap outstanding | .scan outstanding _ | .store outstanding _ _ | .remove outstanding _ => outstanding

end FraudDetection.Ring
