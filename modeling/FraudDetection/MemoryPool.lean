import FraudDetection.Library.Regions
import FraudDetection.Library.Threads

/-!
# The memory pool of the inference daemon

`memory_pool.cpp` and `memory_pool.hpp`: a bump allocator over one mapping whose cursor is an atomic
`size_t`. `allocate` is a load and then a loop of a rounding, a check and a weak compare and
exchange, which may also fail without a reason; between these the steps of other calls interleave.
Words are 64 bits wide. The mapping itself is that of a POSIX system.
-/

namespace FraudDetection.Memory
open FraudDetection.Library

abbrev Size := BitVec 64

inductive PoolError where
  | invalidArgument
  | badAlloc
  | badArrayNewLength
  deriving DecidableEq

def checkedRoundUp (value alignment : Size) : Except PoolError Size :=
  if alignment = 0 ∨ alignment &&& (alignment - 1) ≠ 0 ∨ BitVec.allOnes 64 - (alignment - 1) < value then
    .error .invalidArgument
  else .ok ((value + alignment - 1) &&& ~~~(alignment - 1))

structure MemoryPool where
  base : Size
  bytes : Size
  allocationBytes : Size

/-- The constructor; `mmap` gives the base of a mapping, unless it fails. -/
def MemoryPool.create (bytes alignment : Size) (pageSize : Int) (mmap : Size → Option Size) :
    Except PoolError MemoryPool :=
  if bytes = 0 then .error .invalidArgument
  else do
    let page := if 0 < pageSize then BitVec.ofInt 64 pageSize else alignment
    let allocationBytes ← checkedRoundUp bytes (if alignment < page then page else alignment)
    match mmap allocationBytes with
    | some base => .ok ⟨base, bytes, allocationBytes⟩
    | none => .error .badAlloc

structure Request where
  bytes : Size
  alignment : Size

/-- `ArenaAllocator<T>::allocate(n)`, for a type of the given size and alignment, up to the call of the
pool. -/
def arenaRequest (n size alignment : Size) : Except PoolError Request :=
  if BitVec.allOnes 64 / size < n then .error .badArrayNewLength else .ok ⟨n * size, alignment⟩

inductive Call where
  | allocate (request : Request)
  | arenaAllocate (n size alignment : Size)

def Call.request : Call → Except PoolError Request
  | .allocate request => .ok request
  | .arenaAllocate n size alignment => arenaRequest n size alignment

structure Attempt (capacity : Size) where
  request : Request
  position : Size
  aligned : Size
  rounded : checkedRoundUp position request.alignment = .ok aligned
  fits : ¬ (capacity < aligned ∨ capacity - aligned < request.bytes)

def attempt (capacity : Size) (request : Request) (position : Size) : Except PoolError (Attempt capacity) :=
  match h : checkedRoundUp position request.alignment with
  | .error err => .error err
  | .ok aligned =>
    if hfits : capacity < aligned ∨ capacity - aligned < request.bytes then .error .badAlloc
    else .ok ⟨request, position, aligned, h, hfits⟩

structure Grant where
  request : Request
  offset : Size

variable {capacity : Size}

def Attempt.next (a : Attempt capacity) : Size := a.aligned + a.request.bytes

def Attempt.grant (a : Attempt capacity) : Grant := ⟨a.request, a.aligned⟩

def Grant.address (pool : MemoryPool) (g : Grant) : Size := pool.base + g.offset

/-- The bytes that the caller may use, as offsets in the pool. -/
def Grant.region (g : Grant) : Region := ⟨g.offset.toNat, g.request.bytes.toNat⟩

inductive PC (capacity : Size) where
  | idle
  | load (request : Request)
  | loop (request : Request) (position : Size)
  | exchange (attempt : Attempt capacity)

inductive Choice where
  | call (call : Call)
  | proceed
  | spurious

inductive Label where
  | quiet
  | returned (grant : Grant)
  | threw (err : PoolError)

/-- A step of a thread; the shared state is the cursor. A compare and exchange that fails loads the
cursor into `position`. -/
def allocateStep (pool : MemoryPool) (pc : PC pool.bytes) (cursor : Size) (choice : Choice) :
    Option (PC pool.bytes × Size × Label) :=
  match pc, choice with
  | .idle, .call call => match call.request with
    | .error err => some (.idle, cursor, .threw err)
    | .ok request => some (.load request, cursor, .quiet)
  | .load request, .proceed => some (.loop request cursor, cursor, .quiet)
  | .loop request position, .proceed => match attempt pool.bytes request position with
    | .error err => some (.idle, cursor, .threw err)
    | .ok a => some (.exchange a, cursor, .quiet)
  | .exchange a, .proceed =>
    if cursor = a.position then some (.idle, a.next, .returned a.grant)
    else some (.loop a.request cursor, cursor, .quiet)
  | .exchange a, .spurious => some (.loop a.request cursor, cursor, .quiet)
  | _, _ => none

section system

variable {τ : Type}

def poolProgram (pool : MemoryPool) : Program (fun _ : τ => PC pool.bytes) (fun _ => Choice) Size Label :=
  fun _ => allocateStep pool

def PoolSystem.initial (pool : MemoryPool) : Threads (fun _ : τ => PC pool.bytes) Size where
  shared := 0
  locals _ := .idle

def grants (trace : List (τ × Label)) : List Grant :=
  trace.filterMap fun e => match e.2 with
    | .returned grant => some grant
    | _ => none

end system

end FraudDetection.Memory
