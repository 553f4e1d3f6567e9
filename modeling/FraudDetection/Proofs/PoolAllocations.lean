import FraudDetection.MemoryPool
import FraudDetection.Library.Outcomes

/-!
# Allocations of the memory pool

The cursor moves by an exchange only, from a position that the exchange has found there to the end
of what its call gets. So the ranges of the calls follow one another up to the cursor, whatever the
other calls do in between. Offsets are aligned and the base of the pool need not be: as addresses
the ranges are aligned up to the size of a page.
-/

namespace FraudDetection.Proofs
open FraudDetection.Library
open FraudDetection.Memory

section rounding

variable {value alignment rounded : Size}

lemma checkedRoundUp_spec (h : checkedRoundUp value alignment = .ok rounded) :
    IsAlignment alignment ∧ alignment.toNat ∣ rounded.toNat ∧ value.toNat ≤ rounded.toNat := by
  unfold checkedRoundUp at h
  split_ifs at h with hbad
  simp only [not_or, not_not] at hbad
  obtain ⟨hzero, hpower, hfits⟩ := hbad
  cases h
  have halign : IsAlignment alignment := ⟨hzero, hpower⟩
  obtain ⟨hdvd, hle, -⟩ := roundUp_spec halign (add_pred_lt_of_guard hzero hfits)
  exact ⟨halign, hdvd, hle⟩

end rounding

section attempts

variable {capacity : Size}

lemma attempt_position_le (a : Attempt capacity) : a.position.toNat ≤ a.aligned.toNat :=
  (checkedRoundUp_spec a.rounded).2.2

lemma attempt_aligned (a : Attempt capacity) : a.request.alignment.toNat ∣ a.aligned.toNat :=
  (checkedRoundUp_spec a.rounded).2.1

/-- The end of what an attempt asks for lies in the pool, so the sum does not wrap. -/
lemma attempt_next (a : Attempt capacity) :
    a.next.toNat = a.aligned.toNat + a.request.bytes.toNat ∧ a.next.toNat ≤ capacity.toNat := by
  have hfits := a.fits
  simp only [not_or, BitVec.not_lt] at hfits
  obtain ⟨hbelow, hbytes⟩ := hfits
  rw [BitVec.le_def, BitVec.toNat_sub_of_le hbelow] at hbytes
  rw [BitVec.le_def] at hbelow
  have hlt := capacity.isLt
  have hnext : a.next.toNat = a.aligned.toNat + a.request.bytes.toNat :=
    BitVec.toNat_add_of_lt (by omega)
  exact ⟨hnext, by omega⟩

end attempts

section steps

variable {pool : MemoryPool}

inductive CursorEffect (pool : MemoryPool) (cursor : Size) : Size → Label → Prop
  | quiet : CursorEffect pool cursor cursor .quiet
  | threw (err : PoolError) : CursorEffect pool cursor cursor (.threw err)
  | returned (a : Attempt pool.bytes) (hfound : cursor = a.position) :
      CursorEffect pool cursor a.next (.returned a.grant)

lemma allocateStep_effect {pc pc' : PC pool.bytes} {cursor cursor' : Size} {choice : Choice} {label : Label}
    (h : allocateStep pool pc cursor choice = some (pc', cursor', label)) : CursorEffect pool cursor cursor' label := by
  unfold allocateStep at h
  split at h
  · split at h <;> cases h
    · exact .threw _
    · exact .quiet
  · cases h
    exact .quiet
  · split at h <;> cases h
    · exact .threw _
    · exact .quiet
  · split_ifs at h with hfound
    · cases h
      exact .returned _ hfound
    · cases h
      exact .quiet
  · cases h
    exact .quiet
  · cases h

lemma cursorEffect_le {cursor cursor' : Size} {label : Label} (h : CursorEffect pool cursor cursor' label) :
    cursor.toNat ≤ cursor'.toNat := by
  cases h with
  | quiet => exact le_rfl
  | threw err => exact le_rfl
  | returned a hfound =>
    have hnext := (attempt_next a).1
    have hposition := attempt_position_le a
    rw [hfound]
    omega

lemma cursorEffect_unchanged {cursor cursor' : Size} {label : Label} (h : CursorEffect pool cursor cursor' label)
    (hlabel : ∀ grant, label ≠ .returned grant) : cursor' = cursor := by
  cases h with
  | quiet => rfl
  | threw err => rfl
  | returned a hfound => exact absurd rfl (hlabel a.grant)

end steps

section runs

variable {τ : Type} {pool : MemoryPool} {s s' : Threads (fun _ : τ => PC pool.bytes) Size} {trace : List (τ × Label)}

/-- The ranges follow one another, each in its place, up to the cursor. -/
structure Packed (pool : MemoryPool) (cursor : Size) (granted : List Grant) : Prop where
  cursor_le : cursor.toNat ≤ pool.bytes.toNat
  aligned : ∀ g ∈ granted, g.request.alignment.toNat ∣ g.offset.toNat
  below : ∀ g ∈ granted, g.offset.toNat + g.request.bytes.toNat ≤ cursor.toNat
  ordered : granted.Pairwise fun g g' => g.offset.toNat + g.request.bytes.toNat ≤ g'.offset.toNat

lemma Packed.inside {cursor : Size} {granted : List Grant} (h : Packed pool cursor granted) (g : Grant)
    (hg : g ∈ granted) : g.offset.toNat + g.request.bytes.toNat ≤ pool.bytes.toNat :=
  (h.below g hg).trans h.cursor_le

lemma packed_step {cursor cursor' : Size} {granted : List Grant} {t : τ} {label : Label}
    (hpacked : Packed pool cursor granted) (h : CursorEffect pool cursor cursor' label) :
    Packed pool cursor' (granted ++ grants [(t, label)]) := by
  cases h with
  | quiet => rwa [show grants [(t, Label.quiet)] = [] from rfl, List.append_nil]
  | threw err => rwa [show grants [(t, Label.threw err)] = [] from rfl, List.append_nil]
  | returned a hfound =>
    obtain ⟨hnext, hcapacity⟩ := attempt_next a
    have hposition := attempt_position_le a
    have hbefore : ∀ g ∈ granted, g.offset.toNat + g.request.bytes.toNat ≤ a.aligned.toNat := by
      intro g hg
      have hbelow := hpacked.below g hg
      rw [hfound] at hbelow
      omega
    rw [show grants [(t, Label.returned a.grant)] = [a.grant] from rfl]
    refine ⟨hcapacity, fun g hg => ?_, fun g hg => ?_, ?_⟩
    · rcases List.mem_append.mp hg with hold | hnew
      · exact hpacked.aligned g hold
      · rw [List.mem_singleton.mp hnew]
        exact attempt_aligned a
    · rcases List.mem_append.mp hg with hold | hnew
      · have hbelow := hbefore g hold
        omega
      · rw [List.mem_singleton.mp hnew]
        exact hnext.ge
    · refine List.pairwise_append.mpr ⟨hpacked.ordered, List.pairwise_singleton _ _, fun g hg g' hg' => ?_⟩
      rw [List.mem_singleton.mp hg']
      exact hbefore g hg

variable [DecidableEq τ]

lemma stepThread_effect {a : (_ : τ) × Choice} {event : τ × Label}
    (h : stepThread (poolProgram pool) s a = some (s', event)) : CursorEffect pool s.shared s'.shared event.2 := by
  obtain ⟨next, shared, label, hstep, rfl, rfl⟩ := stepThread_eq h
  exact allocateStep_effect hstep

lemma packed_run {actions : List ((_ : τ) × Choice)}
    (h : runThreads (poolProgram pool) (PoolSystem.initial pool) actions = some (s, trace)) :
    Packed pool s.shared (grants trace) := by
  have hinitial : Packed pool (PoolSystem.initial (τ := τ) pool).shared (grants (τ := τ) []) :=
    ⟨Nat.zero_le _, List.forall_mem_nil _, List.forall_mem_nil _, List.Pairwise.nil⟩
  have hrun := runThreads_induction (P := fun s trace => Packed pool s.shared (grants trace)) ?_ [] hinitial actions h
  · exact hrun
  intro s trace a s' event hpacked hstep
  rw [grants, List.filterMap_append]
  exact packed_step hpacked (stepThread_effect hstep)

lemma cursor_monotone {actions : List ((_ : τ) × Choice)}
    (h : runThreads (poolProgram pool) s actions = some (s', trace)) : s.shared.toNat ≤ s'.shared.toNat := by
  refine runThreads_induction (P := fun s' _ => s.shared.toNat ≤ s'.shared.toNat) ?_ [] le_rfl actions h
  intro s₁ trace a s₂ event hle hstep
  exact hle.trans (cursorEffect_le (stepThread_effect hstep))

end runs

/-- Whatever the calls and their interleaving: what a successful call gets lies in the pool at a
multiple of its alignment, and no two get a common byte. The cursor never decreases, stays within
the capacity, and moves with the step only by which a call returns: a call that throws takes no
such step. -/
theorem allocations_disjoint {τ : Type} [DecidableEq τ] (pool : MemoryPool) (actions : List ((_ : τ) × Choice))
    (s : Threads (fun _ : τ => PC pool.bytes) Size) (trace : List (τ × Label))
    (h : runThreads (poolProgram pool) (PoolSystem.initial pool) actions = some (s, trace)) :
    (∀ g ∈ grants trace, g.request.alignment.toNat ∣ g.offset.toNat ∧
      g.offset.toNat + g.request.bytes.toNat ≤ pool.bytes.toNat) ∧
    (grants trace).Pairwise (fun g g' => Disjoint g.region.bytes g'.region.bytes) ∧
    s.shared.toNat ≤ pool.bytes.toNat ∧
    ∀ past a later, actions = past ++ a :: later →
      ∃ s₁ before s₂ event, runThreads (poolProgram pool) (PoolSystem.initial pool) past = some (s₁, before) ∧
        stepThread (poolProgram pool) s₁ a = some (s₂, event) ∧ s₁.shared.toNat ≤ s₂.shared.toNat ∧
        s₂.shared.toNat ≤ pool.bytes.toNat ∧ ((∀ g, event.2 ≠ .returned g) → s₂.shared = s₁.shared) := by
  have hpacked := packed_run h
  refine ⟨fun g hg => ⟨hpacked.aligned g hg, hpacked.inside g hg⟩, hpacked.ordered.imp Region.disjoint_of_le,
    hpacked.cursor_le, fun past a later hactions => ?_⟩
  rw [hactions] at h
  obtain ⟨s₁, before, after, hpast, hlater, -⟩ := runThreads_append h
  obtain ⟨s₂, event, rest, hstep, hrest, -⟩ := runThreads_cons.mp hlater
  have heffect := stepThread_effect hstep
  have hle := cursor_monotone hrest
  exact ⟨s₁, before, s₂, event, hpast, hstep, cursorEffect_le heffect, hle.trans hpacked.cursor_le,
    cursorEffect_unchanged heffect⟩

def samplePool : MemoryPool := ⟨65536, 64, 4096⟩

/-- Two calls that load the same cursor: the exchange of the second fails, then fails without a
reason, then succeeds. A third call asks for more than is left. -/
def sampleCalls : List ((_ : Bool) × Choice) :=
  [⟨false, .call (.allocate ⟨24, 8⟩)⟩, ⟨true, .call (.arenaAllocate 2 8 16)⟩, ⟨false, .proceed⟩, ⟨true, .proceed⟩,
    ⟨false, .proceed⟩, ⟨true, .proceed⟩, ⟨false, .proceed⟩, ⟨true, .proceed⟩, ⟨true, .proceed⟩, ⟨true, .spurious⟩,
    ⟨true, .proceed⟩, ⟨true, .proceed⟩, ⟨false, .call (.allocate ⟨32, 8⟩)⟩, ⟨false, .proceed⟩, ⟨false, .proceed⟩]

theorem allocations_disjoint_two_calls :
    ∃ s trace, runThreads (poolProgram samplePool) (PoolSystem.initial samplePool) sampleCalls = some (s, trace) ∧
      s.shared = 48 ∧ grants trace = [⟨⟨24, 8⟩, 0⟩, ⟨⟨16, 16⟩, 32⟩] ∧
      (grants trace).Pairwise (fun g g' => Disjoint g.region.bytes g'.region.bytes) := by
  have hrun : (runThreads (poolProgram samplePool) (PoolSystem.initial samplePool) sampleCalls).map
      (fun r => (r.1.shared, grants r.2)) = some (48, [⟨⟨24, 8⟩, 0⟩, ⟨⟨16, 16⟩, 32⟩]) := by rfl
  obtain ⟨⟨s, trace⟩, h, he⟩ := Option.map_eq_some_iff.mp hrun
  obtain ⟨hshared, hgrants⟩ := Prod.mk.inj he
  exact ⟨s, trace, h, hshared, hgrants, (allocations_disjoint samplePool sampleCalls s trace h).2.1⟩

section mapping

variable {pool : MemoryPool} {bytes alignment : Size} {pageSize : Int} {mmap : Size → Option Size}

lemma create_spec (h : MemoryPool.create bytes alignment pageSize mmap = .ok pool) :
    pool.bytes = bytes ∧ pool.bytes.toNat ≤ pool.allocationBytes.toNat ∧
      mmap pool.allocationBytes = some pool.base := by
  unfold MemoryPool.create at h
  by_cases hempty : bytes = 0
  · rw [if_pos hempty] at h
    cases h
  rw [if_neg hempty] at h
  obtain ⟨allocationBytes, hrounded, h⟩ := bind_eq_ok_iff.mp h
  split at h
  · rename_i base hbase
    cases h
    exact ⟨rfl, (checkedRoundUp_spec hrounded).2.2, hbase⟩
  · cases h

/-- What a call gets lies in the mapping that the constructor has made. -/
theorem grants_mapped {τ : Type} [DecidableEq τ] (hcreate : MemoryPool.create bytes alignment pageSize mmap = .ok pool)
    {actions : List ((_ : τ) × Choice)} {s : Threads (fun _ : τ => PC pool.bytes) Size} {trace : List (τ × Label)}
    (h : runThreads (poolProgram pool) (PoolSystem.initial pool) actions = some (s, trace)) {g : Grant}
    (hg : g ∈ grants trace) : g.offset.toNat + g.request.bytes.toNat ≤ pool.allocationBytes.toNat :=
  ((packed_run h).inside g hg).trans (create_spec hcreate).2.1

/-- The base of a mapping decides nothing about the other fields of the pool. -/
lemma create_rebase (h : MemoryPool.create bytes alignment pageSize mmap = .ok pool) (base : Size) :
    MemoryPool.create bytes alignment pageSize (fun _ => some base) = .ok ⟨base, pool.bytes, pool.allocationBytes⟩ := by
  unfold MemoryPool.create at h ⊢
  by_cases hempty : bytes = 0
  · rw [if_pos hempty] at h
    cases h
  rw [if_neg hempty] at h ⊢
  obtain ⟨allocationBytes, hrounded, h⟩ := bind_eq_ok_iff.mp h
  refine bind_eq_ok_iff.mpr ⟨allocationBytes, hrounded, ?_⟩
  split at h
  · cases h
    rfl
  · cases h

end mapping

section addresses

variable {τ : Type} [DecidableEq τ] {pool : MemoryPool}

omit [DecidableEq τ] in
lemma returned_of_mem_grants {g : Grant} {event : τ × Label} (h : g ∈ grants [event]) : event.2 = .returned g := by
  obtain ⟨t, label⟩ := event
  cases label with
  | quiet => cases h
  | threw err => cases h
  | returned grant => rw [List.mem_singleton.mp h]

lemma cursorEffect_granted {cursor cursor' : Size} {label : Label} (h : CursorEffect pool cursor cursor' label)
    {g : Grant} (hlabel : label = .returned g) :
    IsAlignment g.request.alignment ∧ g.request.alignment.toNat ∣ g.offset.toNat := by
  cases h with
  | quiet => cases hlabel
  | threw err => cases hlabel
  | returned a hfound =>
    cases hlabel
    exact ⟨(checkedRoundUp_spec a.rounded).1, attempt_aligned a⟩

lemma grants_aligned_run {s s' : Threads (fun _ : τ => PC pool.bytes) Size} {trace : List (τ × Label)}
    {actions : List ((_ : τ) × Choice)} (h : runThreads (poolProgram pool) s actions = some (s', trace)) :
    ∀ g ∈ grants trace, IsAlignment g.request.alignment ∧ g.request.alignment.toNat ∣ g.offset.toNat := by
  refine runThreads_induction (P := fun _ trace => ∀ g ∈ grants trace, IsAlignment g.request.alignment ∧
    g.request.alignment.toNat ∣ g.offset.toNat) ?_ [] (List.forall_mem_nil _) actions h
  intro s₁ before a s₂ event hbefore hstep g hg
  rw [grants, List.filterMap_append] at hg
  rcases List.mem_append.mp hg with hold | hnew
  · exact hbefore g hold
  · exact cursorEffect_granted (stepThread_effect hstep) (returned_of_mem_grants hnew)

omit [DecidableEq τ] in
lemma poolProgram_rebase (base : Size) :
    poolProgram (τ := τ) ⟨base, pool.bytes, pool.allocationBytes⟩ = poolProgram pool := by
  funext t pc cursor choice
  cases pc with
  | idle => cases choice <;> rfl
  | load request => cases choice <;> rfl
  | loop request position =>
    cases choice with
    | call call => rfl
    | proceed =>
      simp only [poolProgram, allocateStep]
      cases attempt pool.bytes request position <;> rfl
    | spurious => rfl
  | exchange a => cases choice <;> rfl

/-- Every mapping starts at a multiple of the page. -/
def PageAligned (page : Size) (mmap : Size → Option Size) : Prop :=
  ∀ bytes base, mmap bytes = some base → page.toNat ∣ base.toNat

/-- In every pool of these arguments, wherever it is mapped, each call with the request returns an
address that is a multiple of its alignment. -/
def AlignedAddresses (τ : Type) [DecidableEq τ] (page bytes alignment : Size) (pageSize : Int) (request : Request) :
    Prop :=
  ∀ mmap pool, PageAligned page mmap → MemoryPool.create bytes alignment pageSize mmap = .ok pool →
    ∀ (actions : List ((_ : τ) × Choice)) s s' trace, runThreads (poolProgram pool) s actions = some (s', trace) →
      ∀ g ∈ grants trace, g.request = request → request.alignment.toNat ∣ (g.address pool).toNat

/-- What a call gets is aligned as an address exactly when the base of the pool is. The base is a
multiple of the page and of nothing more, so the addresses of a request are aligned in every mapping
exactly when its alignment is at most a page; the alignment that the constructor is given does not
enter. -/
theorem addresses_aligned_iff {page bytes alignment : Size} {pageSize : Int} {mmap : Size → Option Size}
    (hpage : IsAlignment page) (hcreate : MemoryPool.create bytes alignment pageSize mmap = .ok pool)
    {s s' : Threads (fun _ : τ => PC pool.bytes) Size} {trace : List (τ × Label)} {actions : List ((_ : τ) × Choice)}
    (h : runThreads (poolProgram pool) s actions = some (s', trace)) {g : Grant} (hg : g ∈ grants trace) :
    (g.request.alignment.toNat ∣ (g.address pool).toNat ↔ g.request.alignment.toNat ∣ pool.base.toNat) ∧
      (AlignedAddresses τ page bytes alignment pageSize g.request ↔ g.request.alignment.toNat ≤ page.toNat) := by
  obtain ⟨halign, hoffset⟩ := grants_aligned_run h g hg
  refine ⟨halign.dvd_add_iff hoffset, fun haddresses => ?_, fun hle => ?_⟩
  · -- the same calls in a pool whose mapping starts at the first page
    have hfirst : PageAligned page fun _ => some page := by
      rintro _ _ ⟨⟩
      exact Nat.dvd_refl _
    rw [← poolProgram_rebase page] at h
    have haddress := haddresses _ _ hfirst (create_rebase hcreate page) actions s s' trace h g hg rfl
    exact (halign.dvd_iff_le hpage).mp ((halign.dvd_add_iff hoffset).mp haddress)
  · intro mmap' pool' hmmap' hcreate' actions' s₁ s₂ trace' h' g' hg' hrequest
    obtain ⟨halign', hoffset'⟩ := grants_aligned_run h' g' hg'
    rw [hrequest] at halign' hoffset'
    have hbase := hmmap' _ _ (create_spec hcreate').2.2
    exact (halign'.dvd_add_iff hoffset').mpr (((halign'.dvd_iff_le hpage).mpr hle).trans hbase)

end addresses

def fourthPage : Size → Option Size := fun _ => some 12288

lemma fourthPage_aligned : PageAligned 4096 fourthPage := by
  rintro _ _ ⟨⟩
  decide

/-- A pool for objects with an alignment of two pages, as `MemoryPool(16384, 8192)` makes it. -/
def twoPagePool : MemoryPool := ⟨12288, 16384, 16384⟩

lemma twoPagePool_created : MemoryPool.create 16384 8192 4096 fourthPage = .ok twoPagePool := rfl

def oneCall (request : Request) : List ((_ : Unit) × Choice) :=
  [⟨(), .call (.allocate request)⟩, ⟨(), .proceed⟩, ⟨(), .proceed⟩, ⟨(), .proceed⟩]

lemma oneCall_granted (request : Request) (g : Grant)
    (h : (runThreads (poolProgram twoPagePool) (PoolSystem.initial twoPagePool) (oneCall request)).map
      (fun r => grants r.2) = some [g]) :
    ∃ s trace, runThreads (poolProgram twoPagePool) (PoolSystem.initial twoPagePool) (oneCall request) =
      some (s, trace) ∧ g ∈ grants trace := by
  obtain ⟨⟨s, trace⟩, hrun, hgrants⟩ := Option.map_eq_some_iff.mp h
  refine ⟨s, trace, hrun, ?_⟩
  rw [show grants trace = [g] from hgrants]
  exact List.mem_singleton_self g

/-- The first object of a type with an alignment of two pages gets the offset 0, which is the odd
multiple 12288 of the page as an address. -/
theorem addresses_unaligned_two_pages :
    IsAlignment (4096 : Size) ∧ PageAligned 4096 fourthPage ∧ IsAlignment (8192 : Size) ∧
      MemoryPool.create 16384 8192 4096 fourthPage = .ok twoPagePool ∧
      ∃ s trace, runThreads (poolProgram twoPagePool) (PoolSystem.initial twoPagePool) (oneCall ⟨64, 8192⟩) =
        some (s, trace) ∧ ⟨⟨64, 8192⟩, 0⟩ ∈ grants trace ∧
        ((⟨⟨64, 8192⟩, 0⟩ : Grant).address twoPagePool).toNat = 12288 ∧ ¬ 8192 ∣ 12288 := by
  obtain ⟨s, trace, hrun, hg⟩ := oneCall_granted ⟨64, 8192⟩ ⟨⟨64, 8192⟩, 0⟩ rfl
  exact ⟨by decide, fourthPage_aligned, by decide, twoPagePool_created, s, trace, hrun, hg, rfl, by decide⟩

theorem addresses_aligned_one_page :
    AlignedAddresses Unit 4096 16384 8192 4096 ⟨64, 4096⟩ ∧
      4096 ∣ ((⟨⟨64, 4096⟩, 0⟩ : Grant).address twoPagePool).toNat := by
  obtain ⟨s, trace, hrun, hg⟩ := oneCall_granted ⟨64, 4096⟩ ⟨⟨64, 4096⟩, 0⟩ rfl
  have hpage : IsAlignment (4096 : Size) := by decide
  obtain ⟨haddress, halways⟩ := addresses_aligned_iff hpage twoPagePool_created hrun hg
  exact ⟨halways.mpr (by decide), haddress.mpr (by decide)⟩

end FraudDetection.Proofs
