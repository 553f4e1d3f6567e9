import FraudDetection.RingSystem

/-!
# A batcher as the only consumer

`ContinuousBatcher` under any caller: `poll_once` and `flush` in any order, also after the daemon's
main loop has ended, over a ring that is filled by calls of `submit` and by other producers. The
batcher is the only consumer, so the parties `consumer` take no steps. `batches` records the slots
of every call of the handler.
-/

namespace FraudDetection.Ring
open FraudDetection.Library

inductive BatcherChoice where
  | pollOnce
  | flush
  | daemon (choice : DaemonChoice)

structure BatcherRun where
  pc : DaemonPC
  batches : List (List Nat)

/-- `poll_once` and `flush` start between two calls. -/
def batcherStep (cfg : Config) (dc : DaemonConfig) (pc : DaemonPC) (m : Shared) (choice : BatcherChoice) :
    Option (DaemonPC × Shared × Label) :=
  match choice with
  | .pollOnce =>
    match pc with
    | .loop b | .finished b =>
      if dc.maxBatchSize = 0 ∨ maxBatch < dc.maxBatchSize then some (.loop b, m, .quiet)
      else some (.poll b, m, .quiet)
    | _ => none
  | .flush =>
    match pc with
    | .loop b | .finished b => some (.flushing b, m, .quiet)
    | _ => none
  | .daemon choice => daemonStep cfg dc pc m choice

/-- The slots of a call of the handler that has just begun. -/
def handedSlots : DaemonPC → List (List Nat)
  | .decoding h [] => [h.batcher.staged]
  | _ => []

abbrev BatcherLocal : Party → Type
  | .daemon => BatcherRun
  | .consumer _ => Unit
  | t => Local t

abbrev BatcherChoices : Party → Type
  | .daemon => BatcherChoice
  | .consumer _ => Unit
  | t => Choice t

def batcherProgram (cfg : Config) (dc : DaemonConfig) : Program BatcherLocal BatcherChoices Shared Label
  | .submit _, pc, m, choice => submitStep cfg pc m choice
  | .reclaimer, pc, m, () => some (reclaimerStep cfg pc m)
  | .daemon, run, m, choice => (batcherStep cfg dc run.pc m choice).map fun (pc, m, label) =>
    (⟨pc, run.batches ++ handedSlots pc⟩, m, label)
  | .producer _, pc, m, choice => producerStep cfg pc m choice
  | .consumer _, _, _, _ => none

abbrev BatcherSystem := Threads BatcherLocal Shared

def BatcherSystem.initial (cfg : Config) : BatcherSystem where
  shared := Shared.initial cfg
  locals
    | .submit _ => SubmitPC.idle
    | .reclaimer => ReclaimerPC.swap []
    | .daemon => (⟨.loop Batcher.initial, []⟩ : BatcherRun)
    | .producer _ => ProducerPC.idle []
    | .consumer _ => ()

def consumedPositions (trace : Trace) : List Nat := trace.filterMap fun e => e.2.consumed

def completionStores (trace : Trace) : List (Nat × Nat) :=
  trace.filterMap fun e => match e.2 with
    | .complete slot value _ => some (slot, value)
    | _ => none

end FraudDetection.Ring
