import Libxseg.XsegBuffer

/-!
# Requests of any 64-bit size

`xheap_allocate` does not look at the size that it is asked for. A request can name a cell
behind the array of list heads, and near 2^64 its rounding or the sum that is compared with
the size of the heap wraps around. `Tame` says which requests do no harm in a state, and in a
run of tame requests the heap is the one of the other modules.
-/

namespace Libxseg

set_option autoImplicit false

namespace XheapSession
open Xheap

def Step64 (s : XheapSession) : XheapEvent → XheapSession → Prop
  | .allocate bytes ret, s' => ∃ memory heap,
      allocate64 s.memory s.heap bytes = (ret, memory, heap) ∧ s' = s.handOut bytes ret memory heap
  | .free ptr, s' => ∃ memory, free64 s.memory s.heap ptr = some memory ∧
      s' = { s with memory := memory, live := s.live.filter (·.1 ≠ ptr) }
  | .write memory, s' => s' = { s with memory := memory }

/-- Requests are 64-bit numbers, what is freed is live, and users write inside live chunks. -/
def Admissible64 (s : XheapSession) : XheapEvent → Prop
  | .allocate bytes _ => bytes < 2 ^ 64
  | .free ptr => ∃ c ∈ s.live, c.1 = ptr
  | .write memory => ∀ x, memory x ≠ s.memory x →
      ∃ c ∈ s.live, c.1 ≤ x ∧ x < c.1 + getChunkSize s.memory c.1

/-- What a request of `bytes` bytes may do to the heap. The one slot that `xheap_allocate` looks at
is that of the index; the first `getIndex size` slots are zeroed at the start. -/
structure SafeRequest (s : XheapSession) (bytes : Nat) : Prop where
  slot : 0 ≤ s.heap.getIndex64 bytes ∧ s.heap.getIndex64 bytes < s.heap.getIndex s.heap.size
  cur_mono : s.heap.cur ≤ (allocate64 s.memory s.heap bytes).2.2.cur
  cur_le : (allocate64 s.memory s.heap bytes).2.2.cur ≤ s.heap.size
  null : s.heap.size < bytes → allocate64 s.memory s.heap bytes = (0, s.memory, s.heap)

/-- The index is that of a list. A request that fits the heap does not wrap around when its list is
empty; one that does not fit finds its list empty and is refused by the comparison with the size,
whatever the sum has become. -/
def Tame (s : XheapSession) (bytes : Nat) : Prop :=
  (0 ≤ s.heap.getIndex64 bytes ∧ s.heap.getIndex64 bytes < s.heap.getIndex s.heap.size) ∧
    if bytes ≤ s.heap.size then
      s.memory.load64 (s.heap.freeList (s.heap.getIndex64 bytes)) = 0 →
        s.heap.cur + s.heap.getAllocBytes64 bytes < 2 ^ 64
    else
      s.memory.load64 (s.heap.freeList (s.heap.getIndex64 bytes)) = 0 ∧
        s.heap.size < (s.heap.cur + s.heap.getAllocBytes64 bytes) % 2 ^ 64

def TameStep (s : XheapSession) : XheapEvent → Prop
  | .allocate bytes _ => s.Tame bytes
  | _ => True

end XheapSession

namespace Xheap
variable {m : Memory} {heap : Xheap} {bytes : Nat}

theorem allocate64_snd (m : Memory) (heap : Xheap) (bytes : Nat) :
    (allocate64 m heap bytes).2 = (allocateChunk64 m heap bytes).2 := by
  rw [allocate64]
  generalize allocateChunk64 m heap bytes = result
  dsimp only
  split
  · rfl
  · split
    · rfl
    · rfl

theorem allocate64_null {m' : Memory} {heap' : Xheap}
    (h : allocateChunk64 m heap bytes = (0, m', heap')) :
    allocate64 m heap bytes = (0, m', heap') := by
  simp [allocate64, h]

/-- The used part of the block grows only when the free list is empty and there is room. -/
theorem allocate64_cur (m : Memory) (heap : Xheap) (bytes : Nat) :
    (allocate64 m heap bytes).2.2.cur = heap.cur ∨
      m.load64 (heap.freeList (heap.getIndex64 bytes)) = 0 ∧
        (heap.cur + heap.getAllocBytes64 bytes) % 2 ^ 64 ≤ heap.size ∧
        (allocate64 m heap bytes).2.2.cur = (heap.cur + heap.getAllocBytes64 bytes) % 2 ^ 64 := by
  rw [allocate64_snd]
  by_cases hhead : m.load64 (heap.freeList (heap.getIndex64 bytes)) = 0
  · by_cases hfull : (heap.cur + heap.getAllocBytes64 bytes) % 2 ^ 64 > heap.size
    · rw [allocateChunk64_full hhead hfull]
      exact .inl rfl
    · rw [allocateChunk64_carve hhead hfull]
      exact .inr ⟨hhead, Nat.le_of_not_lt hfull, rfl⟩
  · by_cases hbad : m.load64 (heap.freeList (heap.getIndex64 bytes)) > heap.cur
    · rw [allocateChunk64_bad hhead hbad]
      exact .inl rfl
    · rw [allocateChunk64_pop hhead hbad]
      exact .inl rfl

theorem getAllocBytes_lt (hunit : heap.alignment_unit ≤ 20) (hb : bytes ≤ 2 ^ 63) :
    heap.getAllocBytes bytes < 2 ^ 64 := by
  have hpage : heap.page ≤ 2 ^ 20 := Nat.pow_le_pow_right (by decide) hunit
  have := heap.getAllocBytes_le bytes
  omega

theorem getAllocBytes64_lt (heap : Xheap) (bytes : Nat) : heap.getAllocBytes64 bytes < 2 ^ 64 := by
  unfold getAllocBytes64
  dsimp only
  split
  · exact Nat.mod_lt _ (by decide)
  · split
    · exact Nat.mod_lt _ (by decide)
    · exact Nat.mod_lt _ (by decide)

theorem init_unit {m0 : Memory} {self size alignment_unit mem : Nat}
    (h : init m0 self size alignment_unit mem = (0, m, heap)) :
    heap.alignment_unit = alignment_unit := by
  unfold init at h
  dsimp only at h
  generalize growTo _ _ _ _ = cur at h
  split at h
  · cases h
  · split at h
    · cases h
    · rw [← (Prod.mk.inj (Prod.mk.inj h).2).2]

/-- A size that is rounded to nothing has not wrapped around when the header was added. -/
theorem align64_eq_zero {x shift : Nat} (hx : x < 24) (hshift : shift ≤ 27)
    (h : align64 x shift = 0) : x = 0 := by
  by_contra hx0
  have hsub : sub64 x 1 = x - 1 := sub64_eq (by omega) (by omega)
  have hpow : 2 ^ shift ≤ 2 ^ 27 := Nat.pow_le_pow_right (by decide) hshift
  have hpos : 0 < 2 ^ shift := Nat.two_pow_pos shift
  have hdiv : (x - 1) / 2 ^ shift + 1 ≤ 24 := by
    have := Nat.div_le_self (x - 1) (2 ^ shift)
    omega
  have hle : ((x - 1) / 2 ^ shift + 1) * 2 ^ shift ≤ 24 * 2 ^ 27 := Nat.mul_le_mul hdiv hpow
  have hmul : 0 < ((x - 1) / 2 ^ shift + 1) * 2 ^ shift := Nat.mul_pos (Nat.succ_pos _) hpos
  rw [align64, hsub, Nat.shiftRight_eq_div_pow, Nat.shiftLeft_eq, Nat.mod_eq_of_lt (by omega)] at h
  omega

theorem le_of_getAllocBytes64_eq_zero (hunit : heap.alignment_unit ≤ 20) (hb : bytes < 2 ^ 64)
    (h : heap.getAllocBytes64 bytes = 0) : bytes ≤ heap.chunkSize64 bytes := by
  have hsize : heap.chunkSize64 bytes = 2 ^ 64 - 24 := by
    unfold chunkSize64
    rw [h]
    decide
  rw [hsize]
  by_contra hlarge
  -- the header makes the sum wrap around to a number below 24
  have htotal : (bytes + sizeofHeader) % 2 ^ 64 = bytes + sizeofHeader - 2 ^ 64 := by
    simp only [sizeofHeader]
    omega
  have hzero (shift : Nat) (hshift : shift ≤ 27)
      (hround : align64 ((bytes + sizeofHeader) % 2 ^ 64) shift = 0) : False := by
    rw [htotal] at hround
    have := align64_eq_zero (by simp only [sizeofHeader]; omega) hshift hround
    simp only [sizeofHeader] at this
    omega
  unfold getAllocBytes64 at h
  dsimp only at h
  split at h
  · exact hzero _ (by omega) h
  · split at h
    · exact hzero _ (by simp only [MEDIUM_AL_UNIT, SMALL_LIMIT]; omega) h
    · exact hzero _ (by simp only [LARGE_AL_UNIT, MEDIUM_LIMIT]; omega) h

end Xheap

namespace XheapSession
open Xheap
variable {s s' : XheapSession} {L : Nat → List Nat} {bytes : Nat}

/-- A tame request that fits the heap is one of the other modules. -/
theorem Tame.allocate64_eq (h : s.Tame bytes) (hi : Inv L s) (hunit : s.heap.alignment_unit ≤ 20)
    (hle : bytes ≤ s.heap.size) :
    s.heap.getIndex64 bytes = s.heap.getIndex bytes ∧
      allocate64 s.memory s.heap bytes = allocate s.memory s.heap bytes := by
  have hsize := hi.shape.block.size_lt
  have hlt : s.heap.getAllocBytes bytes < 2 ^ 64 := getAllocBytes_lt hunit (by omega)
  have hindex := getIndex64_eq hlt
  have hroom := h.2
  rw [if_pos hle, hindex, getAllocBytes64_eq hlt] at hroom
  exact ⟨hindex, Xheap.allocate64_eq _ hlt hroom⟩

theorem Tame.allocate64_null (h : s.Tame bytes) (hlt : s.heap.size < bytes) :
    allocate64 s.memory s.heap bytes = (0, s.memory, s.heap) := by
  have hroom := h.2
  rw [if_neg (Nat.not_le_of_lt hlt)] at hroom
  exact Xheap.allocate64_null (allocateChunk64_full hroom.1 hroom.2)

theorem Tame.safe (h : s.Tame bytes) (hi : Inv L s) : s.SafeRequest bytes := by
  have hcur := hi.shape.cur_le
  refine ⟨h.1, ?_, ?_, fun hlt => h.allocate64_null hlt⟩
  · rcases allocate64_cur s.memory s.heap bytes with hsame | ⟨hhead, hfit, hgrown⟩
    · rw [hsame]
    · have hroom := h.2
      split at hroom
      · rw [hgrown, Nat.mod_eq_of_lt (hroom hhead)]
        exact Nat.le_add_right _ _
      · exact absurd hroom.2 (Nat.not_lt_of_le hfit)
  · rcases allocate64_cur s.memory s.heap bytes with hsame | ⟨-, hfit, hgrown⟩
    · rw [hsame]
      exact hcur
    · rw [hgrown]
      exact hfit

theorem head_moves (hi : Inv L s) {r : Nat} (hr : r < s.heap.nrLists)
    (hhead : s.memory.load64 (s.heap.mem + 8 * r) ≠ 0) :
    s.memory.load64 (s.heap.mem + 8 * r) ≤ s.heap.cur ∧
      s.memory.load64 (s.heap.mem + s.memory.load64 (s.heap.mem + 8 * r)) ≠
        s.memory.load64 (s.heap.mem + 8 * r) := by
  have hlinked := hi.linked r hr
  have hlisted := hi.listed r hr
  have hnodup := hi.nodup r hr
  cases hl : L r with
  | nil =>
    rw [hl] at hlinked
    exact absurd hlinked hhead
  | cons p l =>
    rw [hl] at hlinked hlisted hnodup
    obtain ⟨-, hp, hnext⟩ := hlinked
    have hhi := (hi.shape.chunk p (hlisted p (by simp)).1).hi
    refine ⟨by omega, fun hsame => ?_⟩
    rw [hp] at hsame
    rw [hsame] at hnext
    cases l with
    | nil => exact hhead hnext
    | cons q l =>
      obtain ⟨-, hq, -⟩ := hnext
      exact (List.nodup_cons.mp hnodup).1 (by simp [← hq, hp])

theorem SafeRequest.tame (h : s.SafeRequest bytes) (hi : Inv L s)
    (hunit : s.heap.alignment_unit ≤ 20) (hb : bytes < 2 ^ 64) : s.Tame bytes := by
  have hcur := hi.shape.cur_le
  have hsize := hi.shape.block.size_lt
  have hlt := getAllocBytes64_lt s.heap bytes
  refine ⟨h.slot, ?_⟩
  by_cases hhead : s.memory.load64 (s.heap.freeList (s.heap.getIndex64 bytes)) = 0
  · by_cases hfull : (s.heap.cur + s.heap.getAllocBytes64 bytes) % 2 ^ 64 > s.heap.size
    · split
      · -- a sum that wraps around is below the size
        intro _
        omega
      · exact ⟨hhead, hfull⟩
    · have hchunk := allocateChunk64_carve hhead hfull
      have hgrown := h.cur_mono
      rw [allocate64_snd, hchunk] at hgrown
      dsimp only at hgrown
      split
      · intro _
        by_contra hwrap
        omega
      · rename_i hlarge
        have hnull := h.null (Nat.lt_of_not_le hlarge)
        -- the heap is unchanged only if the request is rounded to nothing, and then it succeeds
        have hsame : (s.heap.cur + s.heap.getAllocBytes64 bytes) % 2 ^ 64 = s.heap.cur := by
          have hheap : (allocate64 s.memory s.heap bytes).2.2.cur = s.heap.cur := by
            rw [hnull]
          rwa [allocate64_snd, hchunk] at hheap
        have hzero : s.heap.getAllocBytes64 bytes = 0 := by
          omega
        have hchunksize := getChunkSize_carve64 s.memory s.heap (chunkSize64_lt s.heap bytes)
        have hne := (allocate64_of_chunk hchunk rfl).mpr
          ⟨Nat.ne_of_gt (Nat.add_pos_right _ (by decide)),
            (le_of_getAllocBytes64_eq_zero hunit hb hzero).trans_eq hchunksize.symm, hchunksize⟩
        rw [hnull] at hne
        exact absurd rfl hne
  · obtain ⟨r, hr, -, hcell⟩ := freeList_eq hi.shape h.slot.1 h.slot.2
    split
    · exact fun hzero => absurd hzero hhead
    · rename_i hlarge
      -- the list loses its head
      have hnull := h.null (Nat.lt_of_not_le hlarge)
      rw [hcell] at hhead
      obtain ⟨hle, hmoves⟩ := head_moves hi hr hhead
      rw [← hcell] at hhead hle
      have hchunk := allocateChunk64_pop hhead (Nat.not_lt_of_le hle)
      have hmem : (allocate64 s.memory s.heap bytes).2.1.load64 (s.heap.mem + 8 * r) =
          s.memory.load64 (s.heap.mem + 8 * r) := by
        rw [hnull]
      rw [allocate64_snd, hchunk, hcell] at hmem
      dsimp only at hmem
      rw [Memory.load64_store64_same (Memory.load64_lt _ _)] at hmem
      exact absurd hmem hmoves

theorem free64_eq (hi : Inv L s) (hunit : s.heap.alignment_unit ≤ 20) {c : Nat × Nat}
    (hc : c ∈ s.live) : free64 s.memory s.heap c.1 = free s.memory s.heap c.1 := by
  have hhi := (hi.shape.chunk c.1 (hi.live c hc).1).hi
  have hlo := (hi.shape.chunk c.1 (hi.live c hc).1).lo
  have hcur := hi.shape.cur_le
  have hsize := hi.shape.block.size_lt
  have hlt : s.heap.getAllocBytes (getChunkSize s.memory c.1) < 2 ^ 64 :=
    getAllocBytes_lt hunit (by omega)
  unfold free64 free
  dsimp only
  rw [getIndex64_eq hlt]

/-- The invariant of the other modules, for a heap of a valid alignment. -/
theorem inv_step64 (hi : Inv L s) (hunit : s.heap.alignment_unit ≤ 20) {ev : XheapEvent}
    (hadm : s.Admissible64 ev) (htame : s.TameStep ev) (hstep : s.Step64 ev s') :
    (∃ L', Inv L' s') ∧ s'.heap.alignment_unit ≤ 20 := by
  cases ev with
  | allocate bytes ret =>
    obtain ⟨m, heap, halloc, rfl⟩ := hstep
    by_cases hle : bytes ≤ s.heap.size
    · obtain ⟨hindex, heq⟩ := Tame.allocate64_eq htame hi hunit hle
      obtain ⟨h0, hr⟩ := htame.1
      rw [hindex] at h0 hr
      obtain ⟨hinv, cur, hheap⟩ := inv_allocate hi h0 hr (heq ▸ halloc)
      refine ⟨hinv, ?_⟩
      show heap.alignment_unit ≤ 20
      rw [hheap]
      exact hunit
    · rw [Tame.allocate64_null htame (Nat.lt_of_not_le hle)] at halloc
      cases halloc
      exact ⟨⟨L, hi⟩, hunit⟩
  | free ptr =>
    obtain ⟨c, hc, rfl⟩ := hadm
    obtain ⟨m, hfree, rfl⟩ := hstep
    rw [free64_eq hi hunit hc] at hfree
    obtain ⟨m', hfree', hinv⟩ := inv_free hi hc
    rw [hfree] at hfree'
    cases hfree'
    exact ⟨hinv, hunit⟩
  | write m =>
    obtain rfl := hstep
    exact ⟨⟨L, hi.write hadm⟩, hunit⟩

/-- In every run of tame requests, exactly the tame requests are safe. -/
theorem run_safe_iff {m0 m : Memory} {addr size alignment_unit mem : Nat} {heap : Xheap}
    (hb : ValidBlock addr size alignment_unit mem)
    (h : init m0 addr size alignment_unit mem = (0, m, heap)) {evs : List XheapEvent}
    (hrun : Run (Guarded Step64 fun s ev => s.Admissible64 ev ∧ s.TameStep ev)
      (start m heap) evs s) : ∀ bytes < 2 ^ 64, s.SafeRequest bytes ↔ s.Tame bytes := by
  obtain ⟨⟨L, hi⟩, hunit⟩ := hrun.invariant
    (I := fun s => (∃ L, Inv L s) ∧ s.heap.alignment_unit ≤ 20)
    (by
      rintro s ev s' ⟨⟨L, hi⟩, hunit⟩ ⟨⟨hadm, htame⟩, hstep⟩
      exact inv_step64 hi hunit hadm htame hstep)
    ⟨⟨_, inv_init hb h⟩, by
      rw [show (start m heap).heap = heap from rfl, init_unit h]
      exact hb.unit_le⟩
  exact fun bytes hbytes => ⟨fun hsafe => hsafe.tame hi hunit hbytes, fun htame => htame.safe hi⟩

/-- A heap of 4096 bytes takes a request of 40 bytes, before and after it has given a chunk. -/
theorem run_safe_iff_small : ∃ m ret m' heap', init (fun _ => 0) 8 4096 5 4096 =
      (0, m, smallHeap 456) ∧ allocate64 m (smallHeap 456) 40 = (ret, m', heap') ∧
    SafeRequest (start m (smallHeap 456)) 40 ∧
    (SafeRequest ((start m (smallHeap 456)).handOut 40 ret m' heap') 40 ↔
      Tame ((start m (smallHeap 456)).handOut 40 ret m' heap') 40) := by
  have htame : Tame (start smallStart.2.1 (smallHeap 456)) 40 := by
    unfold Tame
    decide +kernel
  rcases halloc : allocate64 smallStart.2.1 (smallHeap 456) 40 with ⟨ret, m', heap'⟩
  have hrun : Run (Guarded Step64 fun s ev => s.Admissible64 ev ∧ s.TameStep ev)
      (start smallStart.2.1 (smallHeap 456)) [.allocate 40 ret]
      ((start smallStart.2.1 (smallHeap 456)).handOut 40 ret m' heap') :=
    .single ⟨⟨show 40 < 2 ^ 64 by decide, htame⟩, m', heap', halloc, rfl⟩
  exact ⟨smallStart.2.1, ret, m', heap', smallStart_eq, halloc,
    (run_safe_iff smallBlock smallStart_eq (.refl _) 40 (by decide)).mpr htame,
    run_safe_iff smallBlock smallStart_eq hrun 40 (by decide)⟩

/-- A request of the size of the heap looks at the first slot behind the array. -/
theorem not_run_safe : ¬ ∀ (m0 m : Memory) (addr size alignment_unit mem : Nat)
    (heap : Xheap) (evs : List XheapEvent) (s : XheapSession),
    ValidBlock addr size alignment_unit mem →
    init m0 addr size alignment_unit mem = (0, m, heap) →
    Run (Guarded Step64 Admissible64) (start m heap) evs s →
    ∀ bytes < 2 ^ 64, s.SafeRequest bytes := by
  intro hall
  have hslot := (hall _ _ _ _ _ _ _ _ _ smallBlock smallStart_eq (.refl _) 4096 (by decide)).slot.2
  have hsame : (smallHeap 456).getIndex64 4096 = (smallHeap 456).getIndex 4096 := by
    decide +kernel
  exact absurd hsame hslot.ne

end XheapSession

end Libxseg
