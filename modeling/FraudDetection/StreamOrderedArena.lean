import FraudDetection.Library.Regions
import FraudDetection.Microkernel

/-!
# The arena of the execution engine

`stream_ordered_arena.cpp`: the list of blocks of an arena and its count of bytes, over a CUDA
stream or over the heap of the host. What the device and the host answer is a parameter of each
call: the status of an allocation with the address that it leaves, the status of each free, and
whether the list has room for one more block. Addresses and sizes are words of 64 bits, and the null
pointer is zero. `withCuda` tells the build with `FRAUD_ENGINE_WITH_CUDA` from that without.
-/

namespace FraudDetection.Engine
open FraudDetection.Library

abbrev Word := BitVec 64

structure Block where
  address : Word
  alignment : Word
  bytes : Word
  cuda : Bool
  deriving DecidableEq

structure Arena where
  blocks : List Block
  bytes : Word
  cudaBacked : Bool

inductive MemoryCall where
  | cudaArenaAllocate (bytes : Word)
  | cudaArenaFree (memory : Word)
  | cudaArenaSynchronize
  | operatorNew (bytes alignment : Word)
  | operatorDelete (memory alignment : Word)
  deriving DecidableEq

def Block.release (block : Block) : MemoryCall :=
  if block.cuda then .cudaArenaFree block.address else .operatorDelete block.address block.alignment

/-- The bytes that were asked for: on the device there is room to align them by hand. -/
def Block.region (block : Block) : Region :=
  ⟨block.address.toNat, if block.cuda then (block.bytes + block.alignment - 1).toNat else block.bytes.toNat⟩

section reset

structure ResetLoop where
  firstError : Status
  retainedCount : Nat
  retainedBytes : Word
  blocks : List Block
  calls : List MemoryCall

/-- One turn of the loop, with the status that `cuda_arena_free` gives in it. -/
def resetTurn (withCuda : Bool) (freeStatus : Nat → Status) (s : ResetLoop) (i : Nat) : ResetLoop :=
  match s.blocks[i]? with
  | none => s
  | some block =>
    if withCuda && block.cuda then
      let calls := s.calls ++ [.cudaArenaFree block.address]
      if !(freeStatus i).ok then
        { firstError := if s.firstError.ok then freeStatus i else s.firstError
          retainedCount := s.retainedCount + 1
          retainedBytes := s.retainedBytes + block.bytes
          blocks := s.blocks.set s.retainedCount block
          calls }
      else { s with calls }
    else { s with calls := s.calls ++ [.operatorDelete block.address block.alignment] }

def resetLoop (withCuda : Bool) (freeStatus : Nat → Status) (blocks : List Block) : ResetLoop :=
  (List.range blocks.length).foldl (resetTurn withCuda freeStatus) ⟨.Ok, 0, 0, blocks, []⟩

structure ResetResult where
  arena : Arena
  status : Status
  calls : List MemoryCall

def Arena.reset (withCuda : Bool) (arena : Arena) (freeStatus : Nat → Status) (synchronizeStatus : Status) :
    ResetResult :=
  let s := resetLoop withCuda freeStatus arena.blocks
  let synchronizes := withCuda && arena.cudaBacked
  let synchronizationStatus := if synchronizes then synchronizeStatus else .Ok
  { arena := { arena with blocks := s.blocks.take s.retainedCount, bytes := s.retainedBytes }
    status := if s.firstError.ok && !synchronizationStatus.ok then synchronizationStatus else s.firstError
    calls := s.calls ++ if synchronizes then [.cudaArenaSynchronize] else [] }

end reset

section allocate

/-- What `push_back` does; it leaves the vector as it is if it throws. -/
inductive PushOutcome where
  | pushed
  | badAlloc
  | lengthError

/-- The answers to the calls that `allocate` may make: the status and the address of
`cuda_arena_allocate`, the address that `operator new` returns unless it throws `bad_alloc`, and what
`push_back` does. -/
structure AllocateReply where
  deviceStatus : Status
  deviceBase : Word
  hostMemory : Option Word
  push : PushOutcome

inductive AllocateOutcome where
  | returned (status : Status)
  | threwLengthError
  deriving DecidableEq

def AllocateOutcome.ok : AllocateOutcome → Bool
  | .returned status => status.ok
  | .threwLengthError => false

/-- The arena after the call, how it ends, what it leaves in `*result`, which is there unless the
pointer is null, and the calls that it makes. -/
structure AllocateResult where
  arena : Arena
  outcome : AllocateOutcome
  result : Option Word
  calls : List MemoryCall

def maxAlign : Word := 16

def actualAlignment (alignment : Word) : Word := if alignment < maxAlign then maxAlign else alignment

def outOfMemory : Status := ⟨.outOfMemory, "arena allocation failed"⟩

def Arena.list (arena : Arena) (block : Block) (memory : Word) (calls : List MemoryCall) (push : PushOutcome) :
    AllocateResult :=
  let cleanup := block.release :: if block.cuda then [.cudaArenaSynchronize] else []
  match push with
  | .pushed =>
    ⟨{ arena with blocks := arena.blocks ++ [block], bytes := arena.bytes + block.bytes }, .returned .Ok, some memory,
      calls⟩
  | .badAlloc => ⟨arena, .returned outOfMemory, some 0, calls ++ cleanup⟩
  | .lengthError => ⟨arena, .threwLengthError, some 0, calls ++ cleanup⟩

/-- `hasResult` is false for a null `result`. -/
def Arena.allocate (withCuda : Bool) (arena : Arena) (bytes alignment : Word) (hasResult : Bool)
    (reply : AllocateReply) : AllocateResult :=
  if !hasResult then
    ⟨arena, .returned ⟨.invalidArgument, "arena result pointer is required"⟩, none, []⟩
  else if bytes = 0 ∨ alignment = 0 ∨ alignment &&& (alignment - 1) ≠ 0 then
    ⟨arena, .returned ⟨.invalidArgument, "bytes, result, and power-of-two alignment are required"⟩, some 0, []⟩
  else
    let actual := actualAlignment alignment
    if withCuda && arena.cudaBacked then
      if BitVec.allOnes 64 - (actual - 1) < bytes then
        ⟨arena, .returned ⟨.invalidArgument, "arena allocation size overflows"⟩, some 0, []⟩
      else
        let base := reply.deviceBase
        let calls := [.cudaArenaAllocate (bytes + actual - 1)]
        if !reply.deviceStatus.ok then
          let cleanup := if base ≠ 0 then [.cudaArenaFree base, .cudaArenaSynchronize] else []
          ⟨arena, .returned reply.deviceStatus, some 0, calls ++ cleanup⟩
        else
          arena.list ⟨base, actual, bytes, true⟩ ((base + actual - 1) &&& ~~~(actual - 1)) calls reply.push
    else
      let calls := [.operatorNew bytes actual]
      match reply.hostMemory with
      | none => ⟨arena, .returned outOfMemory, some 0, calls⟩
      | some memory => arena.list ⟨memory, actual, bytes, false⟩ memory calls reply.push

end allocate

section lifetime

/-- The arena of the constructor before its own allocation; `context` tells whether
`cuda_arena_create` made one. -/
def Arena.empty (withCuda context : Bool) : Arena := ⟨[], 0, withCuda && context⟩

inductive CreateError where
  | badAlloc
  | runtimeError (message : String)
  | lengthError

def Arena.create (withCuda context : Bool) (initialBytes : Word) (reply : AllocateReply) : Except CreateError Arena :=
  if initialBytes = 0 then .ok (.empty withCuda context)
  else
    let result := (Arena.empty withCuda context).allocate withCuda initialBytes maxAlign true reply
    match result.outcome with
    | .returned status =>
      if status.ok then .ok result.arena
      else .error (if status.code = .outOfMemory then .badAlloc else .runtimeError status.message)
    | .threwLengthError => .error .lengthError

def Arena.handedBlock (withCuda : Bool) (arena : Arena) (bytes alignment : Word) (reply : AllocateReply) : Block :=
  if withCuda && arena.cudaBacked then ⟨reply.deviceBase, actualAlignment alignment, bytes, true⟩
  else ⟨reply.hostMemory.getD 0, actualAlignment alignment, bytes, false⟩

inductive ArenaCall where
  | allocate (bytes alignment : Word) (hasResult : Bool) (reply : AllocateReply)
  | reset (freeStatus : Nat → Status) (synchronizeStatus : Status)

def Arena.call (withCuda : Bool) (arena : Arena) : ArenaCall → Arena
  | .allocate bytes alignment hasResult reply => (arena.allocate withCuda bytes alignment hasResult reply).arena
  | .reset freeStatus synchronizeStatus => (arena.reset withCuda freeStatus synchronizeStatus).arena

end lifetime

section ledger

inductive LedgerEvent where
  | allocated (block : Block)
  | released (address : Word)

def ledgerStep (live : List Block) : LedgerEvent → List Block
  | .allocated block => live ++ [block]
  | .released address => live.filter fun block => block.address != address

/-- What a call gives back, if its status is the one of its place; the host's heap takes everything
back. -/
def releasedBy (freeStatus : Nat → Status) (entry : MemoryCall × Nat) : Option LedgerEvent :=
  match entry.1 with
  | .cudaArenaFree memory => if (freeStatus entry.2).ok then some (.released memory) else none
  | .operatorDelete memory _ => some (.released memory)
  | _ => none

def releases (freeStatus : Nat → Status) (calls : List MemoryCall) : List LedgerEvent :=
  calls.zipIdx.filterMap (releasedBy freeStatus)

def Arena.events (withCuda : Bool) (arena : Arena) : ArenaCall → List LedgerEvent
  | .allocate bytes alignment hasResult reply =>
    if (arena.allocate withCuda bytes alignment hasResult reply).outcome.ok then
      [.allocated (arena.handedBlock withCuda bytes alignment reply)]
    else []
  | .reset freeStatus synchronizeStatus => releases freeStatus (arena.reset withCuda freeStatus synchronizeStatus).calls

structure ArenaRun where
  arena : Arena
  live : List Block

def ArenaRun.call (withCuda : Bool) (r : ArenaRun) (call : ArenaCall) : ArenaRun where
  arena := r.arena.call withCuda call
  live := (r.arena.events withCuda call).foldl ledgerStep r.live

def runArena (withCuda context : Bool) (calls : List ArenaCall) : ArenaRun :=
  calls.foldl (ArenaRun.call withCuda) ⟨.empty withCuda context, []⟩

end ledger

end FraudDetection.Engine
