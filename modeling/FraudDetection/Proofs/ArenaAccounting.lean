import FraudDetection.StreamOrderedArena

/-!
# Accounting of the arena

`reset` moves the blocks whose free failed to the front of the vector while it reads on behind
them; what it keeps is the list of these, in order. Together with what an allocation lists, the
blocks of an arena are at any time those that a ledger of all calls shows as allocated and not yet
freed, and the count of bytes is that of their sizes.
-/

namespace FraudDetection.Proofs
open FraudDetection.Library
open FraudDetection.Engine

variable {withCuda : Bool} {freeStatus : Nat → Status}

section sizes

def totalBytes (blocks : List Block) : Nat := (blocks.map fun block => block.bytes.toNat).sum

lemma totalBytes_concat (blocks : List Block) (block : Block) :
    totalBytes (blocks ++ [block]) = totalBytes blocks + block.bytes.toNat := by
  simp [totalBytes]

lemma ofNat_totalBytes_concat (blocks : List Block) (block : Block) :
    BitVec.ofNat 64 (totalBytes (blocks ++ [block])) = BitVec.ofNat 64 (totalBytes blocks) + block.bytes := by
  rw [totalBytes_concat, BitVec.ofNat_add, BitVec.ofNat_toNat, BitVec.setWidth_eq]

lemma totalBytes_le_sizes {blocks : List Block} (h : ∀ block ∈ blocks, block.bytes.toNat ≤ block.region.size) :
    totalBytes blocks ≤ ((blocks.map Block.region).map Region.size).sum := by
  unfold totalBytes
  induction blocks with
  | nil => exact le_rfl
  | cons block blocks ih =>
    obtain ⟨hblock, hrest⟩ := List.forall_mem_cons.mp h
    simp only [List.map_cons, List.sum_cons]
    exact Nat.add_le_add hblock (ih hrest)

end sizes

section reset

/-- The free of the `i`-th block fails; that of the host's heap never does. -/
def freeFails (withCuda : Bool) (freeStatus : Nat → Status) (i : Nat) (block : Block) : Bool :=
  withCuda && block.cuda && !(freeStatus i).ok

def retained (withCuda : Bool) (freeStatus : Nat → Status) (blocks : List Block) : List Block :=
  (blocks.zipIdx.filter fun entry => freeFails withCuda freeStatus entry.2 entry.1).map Prod.fst

lemma retained_concat (withCuda : Bool) (freeStatus : Nat → Status) (blocks : List Block) (block : Block) :
    retained withCuda freeStatus (blocks ++ [block]) = retained withCuda freeStatus blocks ++
      if freeFails withCuda freeStatus blocks.length block then [block] else [] := by
  unfold retained
  rw [List.zipIdx_append, List.filter_append, List.map_append, Nat.zero_add]
  congr 1
  rw [List.zipIdx_singleton, List.filter_singleton]
  cases freeFails withCuda freeStatus blocks.length block <;> rfl

def releaseCall (withCuda : Bool) (block : Block) : MemoryCall :=
  if withCuda && block.cuda then .cudaArenaFree block.address else .operatorDelete block.address block.alignment

/-- The loop after `i` turns: the front of the vector holds what is kept, the rest from `i` on is as
it was. -/
structure Compacted (withCuda : Bool) (freeStatus : Nat → Status) (blocks : List Block) (i : Nat) (s : ResetLoop) :
    Prop where
  count : s.retainedCount = (retained withCuda freeStatus (blocks.take i)).length
  count_le : s.retainedCount ≤ i
  front : s.blocks.take s.retainedCount = retained withCuda freeStatus (blocks.take i)
  rest : s.blocks.drop i = blocks.drop i
  bytes : s.retainedBytes = BitVec.ofNat 64 (totalBytes (retained withCuda freeStatus (blocks.take i)))
  calls : s.calls = (blocks.take i).map (releaseCall withCuda)
  error : s.firstError.ok = true ↔ retained withCuda freeStatus (blocks.take i) = []

variable {blocks : List Block} {i : Nat} {s : ResetLoop} {block : Block}

lemma resetTurn_freed (hread : s.blocks[i]? = some block) (hfree : freeFails withCuda freeStatus i block = false) :
    resetTurn withCuda freeStatus s i = { s with calls := s.calls ++ [releaseCall withCuda block] } := by
  unfold resetTurn releaseCall
  unfold freeFails at hfree
  rw [hread]
  dsimp only
  cases hcuda : withCuda && block.cuda with
  | false => rfl
  | true =>
    rw [hcuda, Bool.true_and] at hfree
    rw [hfree]
    rfl

lemma resetTurn_retained (hread : s.blocks[i]? = some block) (hfree : freeFails withCuda freeStatus i block = true) :
    resetTurn withCuda freeStatus s i =
      { firstError := if s.firstError.ok then freeStatus i else s.firstError
        retainedCount := s.retainedCount + 1
        retainedBytes := s.retainedBytes + block.bytes
        blocks := s.blocks.set s.retainedCount block
        calls := s.calls ++ [releaseCall withCuda block] } := by
  unfold resetTurn releaseCall
  unfold freeFails at hfree
  rw [Bool.and_eq_true] at hfree
  rw [hread]
  dsimp only
  rw [hfree.1, hfree.2]
  rfl

lemma take_set_succ {α : Type} {xs : List α} {count : Nat} (h : count < xs.length) (x : α) :
    (xs.set count x).take (count + 1) = xs.take count ++ [x] := by
  rw [List.take_add_one, List.getElem?_set_self h, List.take_set]
  rw [List.set_eq_of_length_le (by simp)]
  rfl

lemma compacted_turn (h : Compacted withCuda freeStatus blocks i s) (hi : i < blocks.length) :
    Compacted withCuda freeStatus blocks (i + 1) (resetTurn withCuda freeStatus s i) := by
  obtain ⟨block, hblock⟩ : ∃ block, blocks[i]? = some block := ⟨_, List.getElem?_eq_getElem hi⟩
  have hread : s.blocks[i]? = some block := by
    have hdrop := congrArg (fun rest => rest[0]?) h.rest
    simpa only [List.getElem?_drop, Nat.add_zero, hblock] using hdrop
  have hlength : i < s.blocks.length := (List.getElem?_eq_some_iff.mp hread).1
  have hrest : s.blocks.drop (i + 1) = blocks.drop (i + 1) := by
    rw [← List.drop_drop, ← List.drop_drop, h.rest]
  have htake : blocks.take (i + 1) = blocks.take i ++ [block] := by
    rw [List.take_add_one, hblock]
    rfl
  have hcalls : s.calls ++ [releaseCall withCuda block] = (blocks.take (i + 1)).map (releaseCall withCuda) := by
    rw [htake, List.map_append, h.calls]
    rfl
  have hkept := retained_concat withCuda freeStatus (blocks.take i) block
  rw [← htake, List.length_take_of_le hi.le] at hkept
  have hcount := h.count_le
  cases hfree : freeFails withCuda freeStatus i block with
  | false =>
    rw [hfree, if_neg Bool.false_ne_true, List.append_nil] at hkept
    rw [resetTurn_freed hread hfree]
    refine ⟨?_, by dsimp only; omega, ?_, hrest, ?_, hcalls, ?_⟩
    · rw [hkept]
      exact h.count
    · rw [hkept]
      exact h.front
    · rw [hkept]
      exact h.bytes
    · rw [hkept]
      exact h.error
  | true =>
    rw [hfree, if_pos rfl] at hkept
    rw [resetTurn_retained hread hfree]
    refine ⟨?_, by dsimp only; omega, ?_, ?_, ?_, hcalls, ?_⟩
    · rw [hkept, List.length_append, ← h.count]
      rfl
    · rw [hkept, ← h.front]
      exact take_set_succ (by omega) block
    · dsimp only
      rw [List.drop_set_of_lt (by omega)]
      exact hrest
    · rw [hkept, ofNat_totalBytes_concat, ← h.bytes]
    · rw [hkept]
      refine iff_of_false ?_ (by simp)
      have hstatus : (freeStatus i).ok = false := by
        simp only [freeFails, Bool.and_eq_true, Bool.not_eq_true'] at hfree
        exact hfree.2
      dsimp only
      split
      · rw [hstatus]
        exact Bool.false_ne_true
      · assumption

lemma compacted_range (hi : i ≤ blocks.length) :
    Compacted withCuda freeStatus blocks i
      ((List.range i).foldl (resetTurn withCuda freeStatus) ⟨.Ok, 0, 0, blocks, []⟩) := by
  induction i with
  | zero => exact ⟨rfl, le_rfl, rfl, rfl, rfl, rfl, iff_of_true rfl rfl⟩
  | succ i ih =>
    rw [List.range_succ, List.foldl_append]
    exact compacted_turn (ih (by omega)) hi

lemma compacted_resetLoop (withCuda : Bool) (freeStatus : Nat → Status) (blocks : List Block) :
    Compacted withCuda freeStatus blocks blocks.length (resetLoop withCuda freeStatus blocks) :=
  compacted_range le_rfl

lemma reset_arena (arena : Arena) (freeStatus : Nat → Status) (synchronizeStatus : Status) :
    (arena.reset withCuda freeStatus synchronizeStatus).arena =
      { arena with
        blocks := retained withCuda freeStatus arena.blocks
        bytes := BitVec.ofNat 64 (totalBytes (retained withCuda freeStatus arena.blocks)) } := by
  have h := compacted_resetLoop withCuda freeStatus arena.blocks
  have hfront := h.front
  have hbytes := h.bytes
  rw [List.take_length] at hfront hbytes
  unfold Arena.reset
  dsimp only
  rw [hfront, hbytes]

lemma reset_calls (arena : Arena) (freeStatus : Nat → Status) (synchronizeStatus : Status) :
    (arena.reset withCuda freeStatus synchronizeStatus).calls = arena.blocks.map (releaseCall withCuda) ++
      (if withCuda && arena.cudaBacked then [.cudaArenaSynchronize] else []) := by
  have hcalls := (compacted_resetLoop withCuda freeStatus arena.blocks).calls
  rw [List.take_length] at hcalls
  unfold Arena.reset
  dsimp only
  rw [hcalls]

lemma ok_first_error {first other : Status} :
    (if first.ok && !other.ok then other else first).ok = true ↔ first.ok = true ∧ other.ok = true := by
  cases hfirst : first.ok <;> cases hother : other.ok <;> simp [hfirst, hother]

theorem reset_ok_iff (arena : Arena) (freeStatus : Nat → Status) (synchronizeStatus : Status) :
    (arena.reset withCuda freeStatus synchronizeStatus).status.ok = true ↔
      retained withCuda freeStatus arena.blocks = [] ∧
        ((withCuda && arena.cudaBacked) = true → synchronizeStatus.ok = true) := by
  have herror := (compacted_resetLoop withCuda freeStatus arena.blocks).error
  rw [List.take_length] at herror
  rw [← herror]
  refine ok_first_error.trans (and_congr_right' ?_)
  by_cases hbacked : (withCuda && arena.cudaBacked) = true
  · rw [if_pos hbacked]
    exact ⟨fun h _ => h, fun h => h hbacked⟩
  · rw [if_neg hbacked]
    exact iff_of_true rfl fun h => absurd h hbacked

end reset

section allocate

variable {arena : Arena} {bytes alignment : Word} {reply : AllocateReply}

/-- What `allocate` does: it fails and changes nothing, or it lists one block and returns an address
in its memory. -/
inductive AllocateEffect (arena : Arena) (bytes alignment : Word) (hasResult : Bool) (block : Block)
    (result : AllocateResult) : Prop
  | failed (harena : result.arena = arena) (houtcome : result.outcome.ok = false)
      (hresult : result.result = if hasResult then some 0 else none)
  | listed (hbytes : bytes ≠ 0) (halignment : IsAlignment alignment)
      (hroom : block.cuda = true → ¬ BitVec.allOnes 64 - (block.alignment - 1) < block.bytes)
      (harena : result.arena = { arena with blocks := arena.blocks ++ [block], bytes := arena.bytes + block.bytes })
      (houtcome : result.outcome.ok = true)
      (hresult : result.result = some (if block.cuda then roundUp block.address block.alignment else block.address))

lemma list_effect {block : Block} {memory : Word} {calls : List MemoryCall} {push : PushOutcome}
    (hbytes : bytes ≠ 0) (halignment : IsAlignment alignment)
    (hroom : block.cuda = true → ¬ BitVec.allOnes 64 - (block.alignment - 1) < block.bytes)
    (hmemory : memory = if block.cuda then roundUp block.address block.alignment else block.address) :
    AllocateEffect arena bytes alignment true block (arena.list block memory calls push) := by
  cases push with
  | pushed => exact .listed hbytes halignment hroom rfl rfl (congrArg some hmemory)
  | badAlloc => exact .failed rfl rfl rfl
  | lengthError => exact .failed rfl rfl rfl

lemma allocate_effect (withCuda : Bool) (arena : Arena) (bytes alignment : Word) (hasResult : Bool)
    (reply : AllocateReply) :
    AllocateEffect arena bytes alignment hasResult (arena.handedBlock withCuda bytes alignment reply)
      (arena.allocate withCuda bytes alignment hasResult reply) := by
  unfold Arena.allocate Arena.handedBlock
  cases hasResult with
  | false => exact .failed rfl rfl rfl
  | true =>
    rw [if_neg (by decide : ¬ (!true) = true)]
    by_cases hargs : bytes = 0 ∨ alignment = 0 ∨ alignment &&& (alignment - 1) ≠ 0
    · rw [if_pos hargs]
      exact .failed rfl rfl rfl
    rw [if_neg hargs]
    simp only [not_or, not_not] at hargs
    dsimp only
    by_cases hcuda : (withCuda && arena.cudaBacked) = true
    · rw [if_pos hcuda, if_pos hcuda]
      by_cases hroom : BitVec.allOnes 64 - (actualAlignment alignment - 1) < bytes
      · rw [if_pos hroom]
        exact .failed rfl rfl rfl
      rw [if_neg hroom]
      by_cases hstatus : (!reply.deviceStatus.ok) = true
      · rw [if_pos hstatus]
        refine .failed rfl ?_ rfl
        rwa [Bool.not_eq_true'] at hstatus
      · rw [if_neg hstatus]
        exact list_effect hargs.1 hargs.2 (fun _ => hroom) rfl
    · rw [if_neg hcuda, if_neg hcuda]
      cases reply.hostMemory with
      | none => exact .failed rfl rfl rfl
      | some memory => exact list_effect hargs.1 hargs.2 (fun h => nomatch h) rfl

end allocate

section addresses

/-- What the allocators promise of the memory of a block: it lies within the address space, not at its
null, and on the host it is aligned. -/
structure HandedOut (block : Block) : Prop where
  nonnull : 1 ≤ block.region.start
  inside : block.region.start + block.region.size ≤ 2 ^ 64
  aligned : block.cuda = false → block.alignment.toNat ∣ block.address.toNat

lemma isAlignment_actual {alignment : Word} (h : IsAlignment alignment) : IsAlignment (actualAlignment alignment) := by
  unfold actualAlignment
  split
  · decide
  · exact h

lemma dvd_actualAlignment {alignment : Word} (h : IsAlignment alignment) :
    alignment.toNat ∣ (actualAlignment alignment).toNat := by
  unfold actualAlignment
  split
  · rename_i hlt
    obtain ⟨k, hk⟩ := h.exists_pow
    have hk4 : k ≤ 4 := by
      rw [BitVec.lt_def, hk] at hlt
      have hpow : 2 ^ k < 2 ^ 4 := hlt
      exact ((Nat.pow_lt_pow_iff_right (by decide)).mp hpow).le
    rw [hk]
    exact Nat.pow_dvd_pow 2 hk4
  · exact dvd_rfl

variable {block : Block}

/-- The size that the device is asked for does not wrap. -/
lemma region_size (halignment : IsAlignment block.alignment)
    (hroom : block.cuda = true → ¬ BitVec.allOnes 64 - (block.alignment - 1) < block.bytes) :
    block.region.size = block.bytes.toNat + if block.cuda then block.alignment.toNat - 1 else 0 := by
  unfold Block.region
  cases hcuda : block.cuda with
  | false => rfl
  | true => exact toNat_add_pred halignment.1 (add_pred_lt_of_guard halignment.1 (hroom hcuda))

/-- The address that is returned is aligned, and its bytes lie in the block. -/
lemma returned_address {memory : Word} (halignment : IsAlignment block.alignment) (hbytes : block.bytes ≠ 0)
    (hroom : block.cuda = true → ¬ BitVec.allOnes 64 - (block.alignment - 1) < block.bytes)
    (hmemory : memory = if block.cuda then roundUp block.address block.alignment else block.address)
    (hblock : HandedOut block) :
    block.alignment.toNat ∣ memory.toNat ∧ block.region.start ≤ memory.toNat ∧
      memory.toNat + block.bytes.toNat ≤ block.region.start + block.region.size := by
  have hinside := hblock.inside
  have haligned := hblock.aligned
  have hstart : block.region.start = block.address.toNat := rfl
  rw [region_size halignment hroom, hstart] at hinside ⊢
  cases hcuda : block.cuda with
  | false =>
    rw [hcuda, if_neg Bool.false_ne_true] at hmemory
    rw [hmemory, if_neg Bool.false_ne_true]
    exact ⟨haligned hcuda, le_rfl, le_rfl⟩
  | true =>
    rw [hcuda, if_pos rfl] at hmemory hinside
    rw [hmemory, if_pos rfl]
    have hpos := toNat_pos_of_ne_zero hbytes
    have hfits : block.address.toNat + (block.alignment.toNat - 1) < 2 ^ 64 := by omega
    obtain ⟨hmultiple, hle, hlt⟩ := roundUp_spec halignment hfits
    exact ⟨hmultiple, hle, by omega⟩

end addresses

section ledger

variable {blocks : List Block}

def freed (withCuda : Bool) (freeStatus : Nat → Status) (blocks : List Block) : List Block :=
  (blocks.zipIdx.filter fun entry => !freeFails withCuda freeStatus entry.2 entry.1).map Prod.fst

lemma foldl_released (live : List Block) (addresses : List Word) :
    (addresses.map LedgerEvent.released).foldl ledgerStep live =
      live.filter fun block => !addresses.contains block.address := by
  induction addresses generalizing live with
  | nil => simp
  | cons address addresses ih =>
    rw [List.map_cons, List.foldl_cons, ih, ledgerStep, List.filter_filter]
    refine List.filter_congr fun block _ => ?_
    rw [List.contains_cons, Bool.not_or, Bool.and_comm]
    rfl

lemma releasedBy_releaseCall (withCuda : Bool) (freeStatus : Nat → Status) (block : Block) (i : Nat) :
    releasedBy freeStatus (releaseCall withCuda block, i) =
      if freeFails withCuda freeStatus i block then none else some (.released block.address) := by
  unfold releasedBy releaseCall freeFails
  cases withCuda && block.cuda with
  | false => rfl
  | true =>
    dsimp only
    rw [if_pos rfl]
    cases (freeStatus i).ok <;> rfl

/-- The release calls of the loop that succeed are those of the blocks that are freed. -/
lemma releases_eq (blocks : List Block) {later : List MemoryCall}
    (hlater : ∀ call ∈ later, call = .cudaArenaSynchronize) :
    releases freeStatus (blocks.map (releaseCall withCuda) ++ later) =
      ((freed withCuda freeStatus blocks).map Block.address).map .released := by
  have htail : ∀ start, (later.zipIdx start).filterMap (releasedBy freeStatus) = [] := by
    intro start
    rw [List.filterMap_eq_nil_iff]
    intro entry hentry
    rw [releasedBy, hlater _ (List.fst_mem_of_mem_zipIdx hentry)]
  unfold releases freed
  rw [List.zipIdx_append, List.filterMap_append, htail, List.append_nil, List.zipIdx_map, List.filterMap_map,
    List.map_map, List.map_map]
  generalize blocks.zipIdx = entries
  induction entries with
  | nil => rfl
  | cons entry entries ih =>
    obtain ⟨block, i⟩ := entry
    have hentry := releasedBy_releaseCall withCuda freeStatus block i
    rw [List.filterMap_cons, List.filter_cons, ih, Function.comp_apply, Prod.map, id_eq, hentry]
    cases freeFails withCuda freeStatus i block <;> rfl

/-- With distinct addresses, what is kept is what the ledger shows after the releases. -/
lemma retained_eq_filter (hnodup : (blocks.map Block.address).Nodup) :
    retained withCuda freeStatus blocks =
      blocks.filter fun block => !((freed withCuda freeStatus blocks).map Block.address).contains block.address := by
  have hentries : (blocks.zipIdx.map fun entry => entry.1.address).Nodup := by
    have hmap : (blocks.zipIdx.map fun entry => entry.1.address) = blocks.map Block.address := by
      rw [← List.zipIdx_map_fst 0 blocks, List.map_map, List.zipIdx_map_fst]
      rfl
    rwa [hmap]
  unfold retained
  conv_rhs => rw [← List.zipIdx_map_fst 0 blocks, List.filter_map]
  refine congrArg (List.map Prod.fst) (List.filter_congr fun entry hentry => ?_)
  have hmem : entry.1.address ∈ (freed withCuda freeStatus blocks).map Block.address ↔
      freeFails withCuda freeStatus entry.2 entry.1 = false := by
    unfold freed
    rw [List.map_map, List.mem_map]
    constructor
    · rintro ⟨other, hother, hsame⟩
      obtain ⟨hin, hfree⟩ := List.mem_filter.mp hother
      rw [← List.inj_on_of_nodup_map hentries hin hentry hsame]
      simpa using hfree
    · intro hfree
      exact ⟨entry, List.mem_filter.mpr ⟨hentry, by rw [hfree]; rfl⟩, rfl⟩
  rw [List.zipIdx_map_fst, Function.comp_apply, Bool.eq_iff_iff, Bool.not_eq_true', ← Bool.not_eq_true,
    List.contains_iff_mem, hmem, Bool.not_eq_false]

end ledger

section books

variable {r : ArenaRun}

/-- The arena and the ledger agree, and the live blocks share no byte. -/
structure Books (withCuda : Bool) (r : ArenaRun) : Prop where
  blocks : r.arena.blocks = r.live
  bytes : r.arena.bytes = BitVec.ofNat 64 (totalBytes r.live)
  backed : ∀ block ∈ r.live, block.cuda = true → withCuda = true
  handed : ∀ block ∈ r.live, HandedOut block
  sized : ∀ block ∈ r.live, 0 < block.bytes.toNat ∧ block.bytes.toNat ≤ block.region.size
  apart : r.live.Pairwise fun block block' => Disjoint block.region.bytes block'.region.bytes

lemma Books.addresses_nodup (h : Books withCuda r) : (r.live.map Block.address).Nodup := by
  rw [List.Nodup, List.pairwise_map]
  refine h.apart.imp_of_mem fun {block block'} hblock hblock' hdisjoint hsame => ?_
  have hsize := h.sized block hblock
  have hsize' := h.sized block' hblock'
  have hstart : block'.region.start = block.region.start := congrArg BitVec.toNat hsame.symm
  have hin : block.region.start ∈ block.region.bytes := by
    rw [Region.bytes, Finset.mem_Ico]
    omega
  have hin' : block.region.start ∈ block'.region.bytes := by
    rw [Region.bytes, Finset.mem_Ico]
    omega
  exact Finset.disjoint_left.mp hdisjoint hin hin'

/-- The live blocks fit into the address space, so the count of bytes does not wrap. -/
lemma Books.toNat_bytes (h : Books withCuda r) : r.arena.bytes.toNat = totalBytes r.live := by
  have hregions : ((r.live.map Block.region).map Region.size).sum ≤ 2 ^ 64 - 1 := by
    refine Region.sum_size_le (List.pairwise_map.mpr h.apart) fun region hregion => ?_
    obtain ⟨block, hblock, rfl⟩ := List.mem_map.mp hregion
    exact ⟨(h.handed block hblock).nonnull, (h.handed block hblock).inside⟩
  have hle := totalBytes_le_sizes fun block hblock => (h.sized block hblock).2
  rw [h.bytes, BitVec.toNat_ofNat, Nat.mod_eq_of_lt (by omega)]

/-- The memory of a successful allocation is handed out, and apart from that of the live blocks. -/
def HonestCall (withCuda : Bool) (r : ArenaRun) : ArenaCall → Prop
  | .allocate bytes alignment hasResult reply =>
    (r.arena.allocate withCuda bytes alignment hasResult reply).outcome.ok = true →
      HandedOut (r.arena.handedBlock withCuda bytes alignment reply) ∧
      ∀ block ∈ r.live, Disjoint block.region.bytes (r.arena.handedBlock withCuda bytes alignment reply).region.bytes
  | .reset _ _ => True

def HonestAllocators (withCuda : Bool) : ArenaRun → List ArenaCall → Prop
  | _, [] => True
  | r, call :: calls => HonestCall withCuda r call ∧ HonestAllocators withCuda (r.call withCuda call) calls

lemma handedBlock_fields (withCuda : Bool) (arena : Arena) (bytes alignment : Word) (reply : AllocateReply) :
    (arena.handedBlock withCuda bytes alignment reply).bytes = bytes ∧
    (arena.handedBlock withCuda bytes alignment reply).alignment = actualAlignment alignment ∧
    ((arena.handedBlock withCuda bytes alignment reply).cuda = true → withCuda = true) := by
  unfold Arena.handedBlock
  by_cases hcuda : (withCuda && arena.cudaBacked) = true
  · rw [if_pos hcuda]
    exact ⟨rfl, rfl, fun _ => (Bool.and_eq_true _ _ ▸ hcuda).1⟩
  · rw [if_neg hcuda]
    exact ⟨rfl, rfl, fun h => nomatch h⟩

lemma books_allocate {bytes alignment : Word} {hasResult : Bool} {reply : AllocateReply} (h : Books withCuda r)
    (hhonest : HonestCall withCuda r (.allocate bytes alignment hasResult reply)) :
    Books withCuda (r.call withCuda (.allocate bytes alignment hasResult reply)) := by
  obtain ⟨hsize, hactual, hbacked⟩ := handedBlock_fields withCuda r.arena bytes alignment reply
  have hcall : r.call withCuda (.allocate bytes alignment hasResult reply) =
      ⟨(r.arena.allocate withCuda bytes alignment hasResult reply).arena,
        (if (r.arena.allocate withCuda bytes alignment hasResult reply).outcome.ok then
          [LedgerEvent.allocated (r.arena.handedBlock withCuda bytes alignment reply)] else []).foldl ledgerStep
            r.live⟩ := rfl
  rw [hcall]
  cases allocate_effect withCuda r.arena bytes alignment hasResult reply with
  | failed harena houtcome hresult =>
    rw [harena, houtcome]
    exact h
  | listed hbytes halignment hroom harena houtcome hresult =>
    rw [harena, houtcome, if_pos rfl, List.foldl_cons, List.foldl_nil, ledgerStep]
    obtain ⟨hhanded, hapart⟩ := hhonest houtcome
    have hregion := region_size (hactual ▸ isAlignment_actual halignment) hroom
    have hpos := toNat_pos_of_ne_zero hbytes
    refine ⟨?_, ?_, ?_, ?_, ?_, ?_⟩
    · dsimp only
      rw [h.blocks]
    · dsimp only
      rw [h.bytes, ofNat_totalBytes_concat]
    · exact List.forall_mem_append.mpr ⟨h.backed, List.forall_mem_singleton.mpr hbacked⟩
    · exact List.forall_mem_append.mpr ⟨h.handed, List.forall_mem_singleton.mpr hhanded⟩
    · refine List.forall_mem_append.mpr ⟨h.sized, List.forall_mem_singleton.mpr ⟨?_, ?_⟩⟩
      · rwa [hsize]
      · omega
    · refine List.pairwise_append.mpr ⟨h.apart, List.pairwise_singleton _ _, fun live hlive new hnew => ?_⟩
      rw [List.mem_singleton.mp hnew]
      exact hapart live hlive

lemma retained_sublist (blocks : List Block) : (retained withCuda freeStatus blocks).Sublist blocks := by
  have h := (List.filter_sublist (l := blocks.zipIdx)
    (p := fun entry => freeFails withCuda freeStatus entry.2 entry.1)).map Prod.fst
  rwa [List.zipIdx_map_fst] at h

lemma live_reset (h : Books withCuda r) (synchronizeStatus : Status) :
    (r.call withCuda (.reset freeStatus synchronizeStatus)).live = retained withCuda freeStatus r.live := by
  have hlater : ∀ call ∈ (if withCuda && r.arena.cudaBacked then [MemoryCall.cudaArenaSynchronize] else []),
      call = .cudaArenaSynchronize := by
    intro call hcall
    split_ifs at hcall
    · exact List.mem_singleton.mp hcall
    · cases hcall
  change (releases freeStatus (r.arena.reset withCuda freeStatus synchronizeStatus).calls).foldl ledgerStep r.live = _
  rw [reset_calls, releases_eq _ hlater, foldl_released, h.blocks, ← retained_eq_filter h.addresses_nodup]

lemma books_reset (h : Books withCuda r) (synchronizeStatus : Status) :
    Books withCuda (r.call withCuda (.reset freeStatus synchronizeStatus)) := by
  have harena : (r.call withCuda (.reset freeStatus synchronizeStatus)).arena =
      (r.arena.reset withCuda freeStatus synchronizeStatus).arena := rfl
  have hsublist : (retained withCuda freeStatus r.live).Sublist r.live := retained_sublist r.live
  refine ⟨?_, ?_, ?_, ?_, ?_, ?_⟩
  · rw [live_reset h, harena, reset_arena, h.blocks]
  · rw [live_reset h, harena, reset_arena, h.blocks]
  all_goals rw [live_reset h]
  · exact fun block hblock => h.backed block (hsublist.subset hblock)
  · exact fun block hblock => h.handed block (hsublist.subset hblock)
  · exact fun block hblock => h.sized block (hsublist.subset hblock)
  · exact h.apart.sublist hsublist

lemma books_call {call : ArenaCall} (h : Books withCuda r) (hhonest : HonestCall withCuda r call) :
    Books withCuda (r.call withCuda call) := by
  cases call with
  | allocate bytes alignment hasResult reply => exact books_allocate h hhonest
  | reset freeStatus synchronizeStatus => exact books_reset h synchronizeStatus

lemma books_run {calls : List ArenaCall} (h : Books withCuda r) (hhonest : HonestAllocators withCuda r calls) :
    Books withCuda (calls.foldl (ArenaRun.call withCuda) r) := by
  induction calls generalizing r with
  | nil => exact h
  | cons call calls ih => exact ih (books_call h hhonest.1) hhonest.2

lemma honest_append {past later : List ArenaCall} (h : HonestAllocators withCuda r (past ++ later)) :
    HonestAllocators withCuda r past ∧ HonestAllocators withCuda (past.foldl (ArenaRun.call withCuda) r) later := by
  induction past generalizing r with
  | nil => exact ⟨trivial, h⟩
  | cons call past ih => exact ⟨⟨h.1, (ih h.2).1⟩, (ih h.2).2⟩

lemma books_empty (withCuda context : Bool) : Books withCuda ⟨.empty withCuda context, []⟩ :=
  ⟨rfl, rfl, List.forall_mem_nil _, List.forall_mem_nil _, List.forall_mem_nil _, List.Pairwise.nil⟩

end books

section calls

variable {r : ArenaRun}

/-- An allocation that succeeds lists its block and returns an aligned address whose bytes lie in it.
One that fails leaves the arena as it is and a null result. -/
structure AllocateAccounted (withCuda : Bool) (arena : Arena) (bytes alignment : Word) (hasResult : Bool)
    (reply : AllocateReply) (result : AllocateResult) : Prop where
  listed : result.outcome.ok = true → result.arena.blocks = arena.blocks ++
    [arena.handedBlock withCuda bytes alignment reply]
  address : result.outcome.ok = true → ∃ memory, result.result = some memory ∧ alignment.toNat ∣ memory.toNat ∧
    (arena.handedBlock withCuda bytes alignment reply).region.start ≤ memory.toNat ∧
    memory.toNat + bytes.toNat ≤ (arena.handedBlock withCuda bytes alignment reply).region.start +
      (arena.handedBlock withCuda bytes alignment reply).region.size
  failed : result.outcome.ok = false → result.arena = arena ∧
    result.result = if hasResult then some 0 else none

/-- A `reset` frees every listed block once and keeps those whose free failed. -/
structure ResetAccounted (withCuda : Bool) (arena : Arena) (freeStatus : Nat → Status) (result : ResetResult) :
    Prop where
  calls : result.calls = arena.blocks.map Block.release ++
    if withCuda && arena.cudaBacked then [.cudaArenaSynchronize] else []
  blocks : result.arena.blocks = retained withCuda freeStatus arena.blocks

def CallAccounted (withCuda : Bool) (arena : Arena) : ArenaCall → Prop
  | .allocate bytes alignment hasResult reply => AllocateAccounted withCuda arena bytes alignment hasResult reply
      (arena.allocate withCuda bytes alignment hasResult reply)
  | .reset freeStatus synchronizeStatus => ResetAccounted withCuda arena freeStatus
      (arena.reset withCuda freeStatus synchronizeStatus)

lemma allocate_accounted {bytes alignment : Word} {hasResult : Bool} {reply : AllocateReply}
    (hhonest : HonestCall withCuda r (.allocate bytes alignment hasResult reply)) :
    AllocateAccounted withCuda r.arena bytes alignment hasResult reply
      (r.arena.allocate withCuda bytes alignment hasResult reply) := by
  obtain ⟨hsize, hactual, -⟩ := handedBlock_fields withCuda r.arena bytes alignment reply
  cases allocate_effect withCuda r.arena bytes alignment hasResult reply with
  | failed harena houtcome hresult =>
    refine ⟨fun h => ?_, fun h => ?_, fun _ => ⟨harena, hresult⟩⟩
    · exact absurd (houtcome.symm.trans h) Bool.false_ne_true
    · exact absurd (houtcome.symm.trans h) Bool.false_ne_true
  | listed hbytes halignment hroom harena houtcome hresult =>
    refine ⟨fun _ => congrArg Arena.blocks harena, fun _ => ⟨_, hresult, ?_⟩, fun h => ?_⟩
    · have hmultiple : alignment.toNat ∣ (r.arena.handedBlock withCuda bytes alignment reply).alignment.toNat := by
        rw [hactual]
        exact dvd_actualAlignment halignment
      obtain ⟨hdvd, hstart, hend⟩ := returned_address (hactual ▸ isAlignment_actual halignment)
        (by rwa [hsize]) hroom rfl (hhonest houtcome).1
      rw [hsize] at hend
      exact ⟨hmultiple.trans hdvd, hstart, hend⟩
    · exact absurd (h.symm.trans houtcome) Bool.false_ne_true

lemma reset_accounted (h : Books withCuda r) (synchronizeStatus : Status) :
    ResetAccounted withCuda r.arena freeStatus (r.arena.reset withCuda freeStatus synchronizeStatus) := by
  refine ⟨?_, ?_⟩
  · rw [reset_calls]
    congr 1
    refine List.map_congr_left fun block hblock => ?_
    have hbacked := h.backed block (h.blocks ▸ hblock)
    unfold releaseCall Block.release
    cases hcuda : block.cuda with
    | false => rw [Bool.and_false]
    | true => rw [hbacked hcuda, Bool.and_self]
  · rw [reset_arena]

lemma call_accounted {call : ArenaCall} (h : Books withCuda r) (hhonest : HonestCall withCuda r call) :
    CallAccounted withCuda r.arena call := by
  cases call with
  | allocate bytes alignment hasResult reply => exact allocate_accounted hhonest
  | reset freeStatus synchronizeStatus => exact reset_accounted h synchronizeStatus

theorem create_eq {context : Bool} {initialBytes : Word} {reply : AllocateReply} {arena : Arena}
    (h : Arena.create withCuda context initialBytes reply = .ok arena) :
    ∃ calls, arena = (runArena withCuda context calls).arena := by
  unfold Arena.create at h
  by_cases hzero : initialBytes = 0
  · rw [if_pos hzero] at h
    cases h
    exact ⟨[], rfl⟩
  · rw [if_neg hzero] at h
    dsimp only at h
    split at h
    · split_ifs at h
      cases h
      exact ⟨[.allocate initialBytes maxAlign true reply], rfl⟩
    · cases h

end calls

/-- After any calls with any failures, an arena lists the blocks that were allocated and not released,
each once and in their order, and counts their bytes; every call accounts for what it does. -/
theorem arena_accounting (withCuda context : Bool) (calls : List ArenaCall)
    (hhonest : HonestAllocators withCuda ⟨.empty withCuda context, []⟩ calls) :
    (runArena withCuda context calls).arena.blocks = (runArena withCuda context calls).live ∧
    ((runArena withCuda context calls).live.map Block.address).Nodup ∧
    (runArena withCuda context calls).arena.bytes.toNat = totalBytes (runArena withCuda context calls).live ∧
    ∀ past call later, calls = past ++ call :: later →
      CallAccounted withCuda (runArena withCuda context past).arena call := by
  have hbooks := books_run (books_empty withCuda context) hhonest
  refine ⟨hbooks.blocks, hbooks.addresses_nodup, hbooks.toNat_bytes, fun past call later hcalls => ?_⟩
  rw [hcalls] at hhonest
  obtain ⟨hpast, hcall, -⟩ := honest_append hhonest
  exact call_accounted (books_run (books_empty withCuda context) hpast) hcall

/-- Two allocations on the device with one that fails in between, a `reset` that can free the second
only, and one more allocation. -/
def sampleArenaCalls : List ArenaCall :=
  [.allocate 64 256 true ⟨.Ok, 1000, none, .pushed⟩,
    .allocate 10 8 true ⟨⟨.outOfMemory, "CUDA arena allocation failed"⟩, 0, none, .pushed⟩,
    .allocate 32 16 true ⟨.Ok, 4096, none, .pushed⟩,
    .reset (fun i => if i = 0 then ⟨.internal, "CUDA arena stream operation failed"⟩ else .Ok) .Ok,
    .allocate 8 8 true ⟨.Ok, 4096, none, .pushed⟩]

lemma sampleArenaCalls_honest : HonestAllocators true ⟨.empty true true, []⟩ sampleArenaCalls := by
  refine ⟨fun _ => ⟨⟨by decide, by decide, nofun⟩, nofun⟩, (fun h => nomatch h),
    fun _ => ⟨⟨by decide, by decide, nofun⟩, ?_⟩, trivial, fun _ => ⟨⟨by decide, by decide, nofun⟩, ?_⟩, trivial⟩
  · exact List.forall_mem_singleton.mpr (Region.disjoint_of_le (by decide))
  · exact List.forall_mem_singleton.mpr (Region.disjoint_of_le (by decide))

theorem arena_accounting_partial_failure :
    HonestAllocators true ⟨.empty true true, []⟩ sampleArenaCalls ∧
    (runArena true true sampleArenaCalls).live = [⟨1000, 256, 64, true⟩, ⟨4096, 16, 8, true⟩] ∧
    (runArena true true sampleArenaCalls).arena.blocks = (runArena true true sampleArenaCalls).live ∧
    (runArena true true sampleArenaCalls).arena.bytes.toNat = totalBytes (runArena true true sampleArenaCalls).live :=
  have h := arena_accounting true true sampleArenaCalls sampleArenaCalls_honest
  ⟨sampleArenaCalls_honest, by decide, h.1, h.2.2.1⟩

end FraudDetection.Proofs
