import FraudDetection.Microkernel

/-!
# The CUDA context of the arena

`cuda_arena.cu` for a runtime with stream-ordered allocation. The caller may have another device
current than the arena: each operation makes the arena's device current, works on its stream and
makes the caller's device current again. The first failure is kept until `synchronize` reports it.
The results of the calls of the CUDA runtime are arguments, and so is the device that `cudaSetDevice`
leaves current. The pointers to the context and to the result of an allocation are not null; the pointer
to the memory to be freed may be.
-/

namespace FraudDetection.Engine

inductive CudaError where
  | memoryAllocation
  | noDevice
  | invalidDevice
  | insufficientDriver
  | devicesUnavailable
  | other
  deriving DecidableEq, Repr

/-- `none` is `cudaSuccess`. -/
def arenaStatus : Option CudaError → Status
  | none => Status.Ok
  | some .memoryAllocation => ⟨.outOfMemory, "CUDA arena allocation failed"⟩
  | some .noDevice | some .invalidDevice | some .insufficientDriver | some .devicesUnavailable =>
    ⟨.unavailable, "CUDA arena device is unavailable"⟩
  | some .other => ⟨.internal, "CUDA arena stream operation failed"⟩

structure CudaArenaContext where
  device : Int
  pendingError : Option CudaError
  deriving DecidableEq, Repr

inductive CudaCall where
  | getDevice
  | setDevice (device : Int)
  | mallocAsync (bytes : Nat)
  | freeAsync (address : Nat)
  | streamSynchronize
  deriving DecidableEq, Repr

def CudaCall.onStream : CudaCall → Bool
  | .mallocAsync _ | .freeAsync _ | .streamSynchronize => true
  | .getDevice | .setDevice _ => false

structure CudaEvent where
  call : CudaCall
  current : Int
  result : Option CudaError
  deriving DecidableEq, Repr

/-- The context, the device that is current for the calling thread, and the calls so far. -/
structure CudaMachine where
  context : CudaArenaContext
  current : Int
  log : List CudaEvent
  deriving DecidableEq, Repr

structure CallResults where
  getDevice : Option CudaError
  setDevice : Option CudaError
  operation : Option CudaError
  restore : Option CudaError
  deriving DecidableEq, Repr

def CudaMachine.record (m : CudaMachine) (call : CudaCall) (result : Option CudaError) : CudaMachine :=
  { m with log := m.log ++ [⟨call, m.current, result⟩] }

/-- The device that is current after `cudaSetDevice`, by its argument and its result. -/
abbrev DeviceEffect := CudaMachine → Int → Option CudaError → Int

section operations

variable (effect : DeviceEffect)

def CudaMachine.setDevice (m : CudaMachine) (device : Int) (result : Option CudaError) : CudaMachine :=
  { m.record (.setDevice device) result with current := effect m device result }

def remember (m : CudaMachine) (error : Option CudaError) : CudaMachine :=
  if m.context.pendingError.isNone then { m with context := { m.context with pendingError := error } } else m

def activate (m : CudaMachine) (r : CallResults) : Option CudaError × Int × CudaMachine :=
  let asked := m.record .getDevice r.getDevice
  -- `previous_device` starts as the arena's device and stays so where the query fails
  if r.getDevice.isSome then (r.getDevice, m.context.device, remember asked r.getDevice)
  else if m.current ≠ m.context.device then
    (r.setDevice, m.current, remember (asked.setDevice effect m.context.device r.setDevice) r.setDevice)
  else (none, m.current, remember asked none)

def restore (m : CudaMachine) (previous : Int) (r : CallResults) : CudaMachine :=
  if previous ≠ m.context.device then remember (m.setDevice effect previous r.restore) r.restore else m

/-- What all operations do before they restore the device: the call on the stream, if the arena's device
could be made current. -/
def operate (call : CudaCall) (m : CudaMachine) (r : CallResults) : Option CudaError × Int × CudaMachine :=
  let (error, previous, activated) := activate effect m r
  if error.isSome then (error, previous, remember activated error)
  else (r.operation, previous, remember (activated.record call r.operation) r.operation)

def cudaArenaAllocate (m : CudaMachine) (bytes address : Nat) (r : CallResults) : Status × Option Nat × CudaMachine :=
  let (error, previous, m) := operate effect (.mallocAsync bytes) m r
  (arenaStatus error, if error.isNone then some address else none, restore effect m previous r)

def cudaArenaFree (m : CudaMachine) (address : Nat) (r : CallResults) : Status × CudaMachine :=
  if address = 0 then (Status.Ok, m)
  else
    let (error, previous, m) := operate effect (.freeAsync address) m r
    (arenaStatus error, restore effect m previous r)

def cudaArenaSynchronize (m : CudaMachine) (r : CallResults) : Status × CudaMachine :=
  let (_, previous, m) := operate effect .streamSynchronize m r
  let retained := m.context.pendingError
  let restored := restore effect { m with context := { m.context with pendingError := none } } previous r
  (if retained.isSome then arenaStatus retained else arenaStatus restored.context.pendingError, restored)

inductive ArenaOperation where
  | allocate (bytes address : Nat)
  | free (address : Nat)
  | synchronize
  deriving DecidableEq, Repr

def CudaMachine.perform (m : CudaMachine) (r : CallResults) : ArenaOperation → Status × CudaMachine
  | .allocate bytes address =>
    ((cudaArenaAllocate effect m bytes address r).1, (cudaArenaAllocate effect m bytes address r).2.2)
  | .free address => cudaArenaFree effect m address r
  | .synchronize => cudaArenaSynchronize effect m r

/-- The operations on one arena; between them the caller may make any device current. -/
def CudaMachine.run (m : CudaMachine) : List (Int × CallResults × ArenaOperation) → CudaMachine
  | [] => m
  | (device, r, operation) :: rest => ({ m with current := device }.perform effect r operation).2.run rest

end operations

end FraudDetection.Engine
