import Libxseg.Transition
import Libxseg.XheapSeparation

/-!
# Whole runs of an xheap

The live chunks stay apart from each other, from every header and from the array
of list heads in every run in which no index comes out negative. An index is an
`int`; in a heap of some terabytes a request can have one below zero, and its free
list is then a word in front of the block.
-/

namespace Libxseg

set_option autoImplicit false

inductive XheapEvent where
  | allocate (bytes ret : Nat)
  | free (ptr : Nat)
  | write (memory : Memory)

namespace XheapSession
open Xheap

def handOut (s : XheapSession) (bytes ret : Nat) (memory : Memory) (heap : Xheap) :
    XheapSession where
  memory := memory
  heap := heap
  live := if ret = 0 then s.live else (ret, bytes) :: s.live
  chunks := if ret = 0 then s.chunks else ret :: s.chunks

def Step (s : XheapSession) : XheapEvent → XheapSession → Prop
  | .allocate bytes ret, s' => ∃ memory heap,
      allocate s.memory s.heap bytes = (ret, memory, heap) ∧ s' = s.handOut bytes ret memory heap
  | .free ptr, s' => ∃ memory, free s.memory s.heap ptr = some memory ∧
      s' = { s with memory := memory, live := s.live.filter (·.1 ≠ ptr) }
  | .write memory, s' => s' = { s with memory := memory }

/-- Requests are no larger than the heap and have a smaller index, what is freed is live, and
users write inside live chunks. -/
def Admissible (s : XheapSession) : XheapEvent → Prop
  | .allocate bytes _ =>
      bytes ≤ s.heap.size ∧ s.heap.getIndex bytes < s.heap.getIndex s.heap.size
  | .free ptr => ∃ c ∈ s.live, c.1 = ptr
  | .write memory => ∀ x, memory x ≠ s.memory x →
      ∃ c ∈ s.live, c.1 ≤ x ∧ x < c.1 + getChunkSize s.memory c.1

def InRange (s : XheapSession) : XheapEvent → Prop
  | .allocate bytes _ => 0 ≤ s.heap.getIndex bytes
  | _ => True

def Apart (a n b k : Nat) : Prop := a + n ≤ b ∨ b + k ≤ a

structure Separated (heap : Xheap) (s : XheapSession) : Prop where
  large : ∀ c ∈ s.live, c.2 ≤ getChunkSize s.memory c.1
  aligned : ∀ c ∈ s.live, 2 ^ heap.alignment_unit ∣ c.1
  inside : ∀ c ∈ s.live, heap.mem ≤ c.1 ∧
    c.1 + getChunkSize s.memory c.1 ≤ heap.mem + heap.size
  array : ∀ c ∈ s.live, Apart c.1 (getChunkSize s.memory c.1) heap.mem (8 * heap.nrLists)
  headers : ∀ c ∈ s.live, ∀ q ∈ s.chunks,
    Apart c.1 (getChunkSize s.memory c.1) (q - sizeofHeader) sizeofHeader
  apart : s.live.Pairwise fun c d =>
    Apart c.1 (getChunkSize s.memory c.1) d.1 (getChunkSize s.memory d.1)
  returns : ∀ c ∈ s.live, ∃ memory, free s.memory s.heap c.1 = some memory

variable {s s' : XheapSession} {L : Nat → List Nat}

section Allocate
variable {m m' : Memory} {heap heap' : Xheap} {bytes cell p : Nat}

theorem allocateChunk_full (hcell : heap.freeList (heap.getIndex bytes) = cell)
    (hhead : m.load64 cell = 0) (hfull : heap.cur + heap.getAllocBytes bytes > heap.size) :
    allocateChunk m heap bytes = (0, m, heap) := by
  rw [allocateChunk, hcell]
  simp only [hhead, if_true, if_pos hfull]

theorem allocateChunk_carve (hcell : heap.freeList (heap.getIndex bytes) = cell)
    (hhead : m.load64 cell = 0) (hfit : ¬ heap.cur + heap.getAllocBytes bytes > heap.size) :
    allocateChunk m heap bytes = (heap.mem + heap.cur + sizeofHeader,
      carve m heap (heap.getAllocBytes bytes),
      { heap with cur := heap.cur + heap.getAllocBytes bytes }) := by
  rw [allocateChunk, hcell]
  simp only [hhead, if_true, if_neg hfit]

theorem allocateChunk_pop (hcell : heap.freeList (heap.getIndex bytes) = cell)
    (hhead : m.load64 cell ≠ 0) (hp : heap.mem + m.load64 cell = p)
    (hle : ¬ m.load64 cell > heap.cur) :
    allocateChunk m heap bytes = (p, m.store64 cell (m.load64 p), heap) := by
  rw [allocateChunk, hcell]
  simp only [if_neg hhead, if_neg hle, hp]

theorem allocate_null (h : allocateChunk m heap bytes = (0, m', heap')) :
    allocate m heap bytes = (0, m', heap') := by
  simp [allocate, h]

/-- The checks at the end of `allocate` let a pointer through, or make it null. -/
theorem allocate_chunk (h : allocateChunk m heap bytes = (p, m', heap')) (hp : p ≠ 0) :
    allocate m heap bytes = (0, m', heap') ∨
      allocate m heap bytes = (p, m', heap') ∧ bytes ≤ getChunkSize m' p := by
  rw [allocate, h]
  dsimp only
  split
  · exact Or.inl rfl
  · rename_i hsize
    split
    · exact Or.inl rfl
    · exact Or.inr ⟨rfl, Nat.le_of_not_lt fun hlt => hsize ⟨hp, hlt⟩⟩

/-- A chunk of the size that the request is rounded to passes the checks. -/
theorem allocate_exact (h : allocateChunk m heap bytes = (p, m', heap'))
    (hsize : getChunkSize m' p = heap'.getAllocBytes bytes - sizeofHeader) :
    allocate m heap bytes = (p, m', heap') := by
  have hge : bytes + 24 ≤ heap'.getAllocBytes bytes := heap'.le_getAllocBytes bytes
  have hlarge : ¬ getChunkSize m' p < bytes := by
    rw [hsize, sizeofHeader]
    omega
  rw [allocate, h]
  dsimp only
  rw [if_neg fun hc => hlarge hc.2, if_neg fun hc => hc.2 hsize]

end Allocate

theorem handOut_chunk (s : XheapSession) (bytes : Nat) (m : Memory) (heap : Xheap) {p : Nat}
    (hp : p ≠ 0) : s.handOut bytes p m heap =
      { memory := m, heap := heap, live := (p, bytes) :: s.live, chunks := p :: s.chunks } := by
  simp only [handOut, if_neg hp]

theorem inv_carve (hi : Inv L s) {bytes : Nat}
    (hfit : s.heap.cur + s.heap.getAllocBytes bytes ≤ s.heap.size)
    (h0 : 0 ≤ s.heap.getIndex bytes) (hr : s.heap.getIndex bytes < s.heap.getIndex s.heap.size) :
    Inv L (s.handOut bytes (s.heap.mem + s.heap.cur + sizeofHeader)
      (carve s.memory s.heap (s.heap.getAllocBytes bytes))
      { s.heap with cur := s.heap.cur + s.heap.getAllocBytes bytes }) := by
  have hlt := hi.shape.block.size_lt
  have hge : bytes + sizeofHeader ≤ s.heap.getAllocBytes bytes := s.heap.le_getAllocBytes bytes
  have hsize := getChunkSize_carve s.memory s.heap
    (show s.heap.getAllocBytes bytes < 2 ^ 64 by omega)
  have hold (p : Nat) (hp : p ∈ s.chunks) : p ≠ s.heap.mem + s.heap.cur + sizeofHeader := by
    have := (hi.shape.chunk p hp).hi
    simp only [sizeofHeader]
    omega
  rw [handOut_chunk s bytes _ _ (Nat.ne_of_gt (Nat.add_pos_right _ (by decide)))]
  refine (hi.carve hfit h0 hr).hand (List.mem_cons_self) (fun c hc => hold _ (hi.live c hc).1)
    (fun r hlt hmem => hold _ (hi.listed r hlt _ hmem).1 rfl) ?_ fun _ => Iff.rfl
  dsimp only
  rw [hsize]
  exact Nat.le_sub_of_add_le hge

theorem inv_pop (hi : Inv L s) (bytes : Nat) {r p : Nat} {l : List Nat} (hr : r < s.heap.nrLists)
    (hl : L r = p :: l) {m : Memory}
    (hm : m = s.memory.store64 (s.heap.mem + 8 * r) (s.memory.load64 p)) :
    Inv (Function.update L r l) (s.handOut bytes 0 m s.heap) ∧
      (bytes ≤ getChunkSize m p →
        Inv (Function.update L r l) (s.handOut bytes p m s.heap)) := by
  subst hm
  have hlisted := hi.listed r hr p (by simp [hl])
  have hpop := hi.pop hr hl
  have hp0 : p ≠ 0 := by
    have := (hi.shape.chunk p hlisted.1).lo
    omega
  refine ⟨hpop, fun hsize => ?_⟩
  rw [handOut_chunk s bytes _ _ hp0]
  refine hpop.hand hlisted.1 hlisted.2 (fun r' hr' => hi.not_mem_pop hr hl hr') hsize fun q => ?_
  rw [List.mem_cons, or_iff_right_iff_imp]
  rintro rfl
  exact hlisted.1

theorem inv_allocate (hi : Inv L s) {bytes ret : Nat} {m : Memory} {heap : Xheap}
    (h0 : 0 ≤ s.heap.getIndex bytes) (hr : s.heap.getIndex bytes < s.heap.getIndex s.heap.size)
    (h : allocate s.memory s.heap bytes = (ret, m, heap)) :
    (∃ L', Inv L' (s.handOut bytes ret m heap)) ∧ ∃ cur, heap = { s.heap with cur := cur } := by
  obtain ⟨r, hrlt, -, hcell⟩ := freeList_eq hi.shape h0 hr
  have hlinked := hi.linked r hrlt
  cases hl : L r with
  | nil =>
    rw [hl] at hlinked
    by_cases hfull : s.heap.cur + s.heap.getAllocBytes bytes > s.heap.size
    · rw [allocate_null (allocateChunk_full hcell hlinked hfull)] at h
      cases h
      exact ⟨⟨L, hi⟩, s.heap.cur, rfl⟩
    · have hlt := hi.shape.block.size_lt
      rw [allocate_exact (allocateChunk_carve hcell hlinked hfull)
        (getChunkSize_carve _ _ (by omega))] at h
      cases h
      exact ⟨⟨L, inv_carve hi (Nat.le_of_not_lt hfull) h0 hr⟩, _, rfl⟩
  | cons p l =>
    rw [hl] at hlinked
    obtain ⟨hne, hp, -⟩ := hlinked
    have hchunk := hi.shape.chunk p (hi.listed r hrlt p (by simp [hl])).1
    have hhi := hchunk.hi
    have hlo := hchunk.lo
    obtain ⟨hlost, hhanded⟩ := inv_pop hi bytes hrlt hl rfl
    rcases allocate_chunk (allocateChunk_pop hcell hne hp (by omega)) (by omega) with
      hnull | ⟨hret, hsize⟩
    · rw [hnull] at h
      cases h
      exact ⟨⟨_, hlost⟩, _, rfl⟩
    · rw [hret] at h
      cases h
      exact ⟨⟨_, hhanded hsize⟩, _, rfl⟩

/-- A live chunk is freed to the list of the index that its size has. -/
theorem free_list (hi : Inv L s) {c : Nat × Nat} (hc : c ∈ s.live) :
    ∃ r < s.heap.nrLists, s.heap.getIndex (getChunkSize s.memory c.1) = r ∧
      s.heap.freeList (s.heap.getIndex (getChunkSize s.memory c.1)) = s.heap.mem + 8 * r ∧
      free s.memory s.heap c.1 =
        some (addInFreeList s.memory s.heap (s.heap.mem + 8 * r) c.1) ∧
      Inv (Function.update L r (c.1 :: L r))
        { s with
          memory := addInFreeList s.memory s.heap (s.heap.mem + 8 * r) c.1
          live := s.live.filter (·.1 ≠ c.1) } := by
  have hmem := (hi.live c hc).1
  have hchunk := hi.shape.chunk c.1 hmem
  obtain ⟨h0, hlt⟩ := hchunk.index hi.shape.block
  obtain ⟨r, hr, hindex, hcell⟩ := freeList_eq hi.shape h0 hlt
  refine ⟨r, hr, hindex, hcell, ?_,
    (hi.giveBack c.1).push hr hmem (fun d hd => ?_) fun r' hr' hp => ?_⟩
  · rw [free]
    simp only [sizeofHeader, hchunk.owner, if_true, hcell]
  · simpa using (List.mem_filter.mp hd).2
  · exact (hi.listed r' hr' c.1 hp).2 c hc rfl

theorem inv_free (hi : Inv L s) {c : Nat × Nat} (hc : c ∈ s.live) :
    ∃ m, free s.memory s.heap c.1 = some m ∧
      ∃ L', Inv L' { s with memory := m, live := s.live.filter (·.1 ≠ c.1) } := by
  obtain ⟨r, -, -, -, hfree, hinv⟩ := free_list hi hc
  exact ⟨_, hfree, _, hinv⟩

theorem inv_step (hi : Inv L s) {ev : XheapEvent} (hadm : s.Admissible ev) (hok : s.InRange ev)
    (hstep : s.Step ev s') :
    (∃ L', Inv L' s') ∧ ∃ cur, s'.heap = { s.heap with cur := cur } := by
  cases ev with
  | allocate bytes ret =>
    obtain ⟨m, heap, halloc, rfl⟩ := hstep
    exact inv_allocate hi hok hadm.2 halloc
  | free ptr =>
    obtain ⟨c, hc, rfl⟩ := hadm
    obtain ⟨m, hfree, rfl⟩ := hstep
    obtain ⟨m', hfree', L', hL'⟩ := inv_free hi hc
    rw [hfree] at hfree'
    cases hfree'
    exact ⟨⟨L', hL'⟩, s.heap.cur, rfl⟩
  | write m =>
    obtain rfl := hstep
    exact ⟨⟨L, hi.write hadm⟩, s.heap.cur, rfl⟩

theorem growTo_spec (heap_page bound : Nat) (hpage : 0 < heap_page) (fuel cur : Nat) :
    (∃ k, growTo heap_page bound fuel cur = cur + k * heap_page) ∧
      (bound ≤ cur + fuel → bound ≤ growTo heap_page bound fuel cur) := by
  induction fuel generalizing cur with
  | zero => exact ⟨⟨0, by simp [growTo]⟩, fun h => h⟩
  | succ fuel ih =>
    rw [growTo]
    split
    · obtain ⟨⟨k, hk⟩, hle⟩ := ih (cur + heap_page)
      refine ⟨⟨k + 1, by rw [hk, Nat.succ_mul]; omega⟩, fun h => hle (by omega)⟩
    · exact ⟨⟨0, by simp⟩, fun _ => by omega⟩

theorem getIndex_lt (heap : Xheap) (bytes : Nat) : heap.getIndex bytes < 2 ^ 31 :=
  Int.bmod_lt (by decide)

theorem clear_cells (heap : Xheap) (m : Memory) (n : Nat) (hn : heap.mem + 8 * n ≤ 2 ^ 64) :
    ∀ i < n, ((List.range n).foldl (fun m i => m.store64 (heap.freeList i) 0) m).load64
      (heap.mem + 8 * i) = 0 := by
  induction n with
  | zero => exact fun i hi => absurd hi (Nat.not_lt_zero i)
  | succ n ih =>
    intro i hi
    rw [List.range_succ, List.foldl_append, List.foldl_cons, List.foldl_nil,
      freeList_natCast (by omega)]
    by_cases hin : i = n
    · rw [hin, Memory.load64_store64_same (by decide)]
    · rw [Memory.load64_store64_other (by omega)]
      exact ih (by omega) i (by omega)

/-- What the caller of `init` provides: a block of memory and an alignment between 5 and 20. -/
structure ValidBlock (addr size alignment_unit mem : Nat) : Prop where
  unit_ge : 5 ≤ alignment_unit
  unit_le : alignment_unit ≤ 20
  page_le : 2 ^ alignment_unit ≤ size
  mem_pos : 0 < mem
  fits : mem + size ≤ 2 ^ 64
  size_lt : size < 2 ^ 63
  addr_lt : addr < 2 ^ 64

def start (memory : Memory) (heap : Xheap) : XheapSession where
  memory := memory
  heap := heap
  live := []
  chunks := []

theorem init_cur {addr size alignment_unit mem cur : Nat} {r : Int}
    (hb : ValidBlock addr size alignment_unit mem) (hr : r < 2 ^ 31)
    (h : growTo (2 ^ alignment_unit) (8 * r % 2 ^ 64).toNat (8 * r % 2 ^ 64).toNat
      ((if align mem alignment_unit - mem < 24 then
        align mem alignment_unit - mem + 2 ^ alignment_unit
        else align mem alignment_unit - mem) - 24) = cur) :
    8 * r.toNat ≤ cur ∧ 2 ^ alignment_unit ∣ mem + cur + 24 := by
  have hpage : 2 ^ 5 ≤ 2 ^ alignment_unit := Nat.pow_le_pow_right (by decide) hb.unit_ge
  have hal : 2 ^ alignment_unit ∣ align mem alignment_unit := by
    rw [align_eq]
    exact dvd_roundUp _ _
  have hge : mem ≤ align mem alignment_unit := by
    rw [align_eq]
    exact le_roundUp hb.mem_pos (by omega)
  generalize hfuel : (8 * r % 2 ^ 64).toNat = bound at h
  obtain ⟨⟨k, hk⟩, hbound⟩ := growTo_spec (2 ^ alignment_unit) bound (by omega) bound
    ((if align mem alignment_unit - mem < 24 then
        align mem alignment_unit - mem + 2 ^ alignment_unit
        else align mem alignment_unit - mem) - 24)
  rw [h] at hk hbound
  have hbound := hbound (Nat.le_add_left _ _)
  refine ⟨by omega, ?_⟩
  obtain ⟨j, hj⟩ := hal
  split at hk
  · refine ⟨j + 1 + k, ?_⟩
    rw [Nat.mul_add, Nat.mul_add, Nat.mul_comm _ k]
    omega
  · refine ⟨j + k, ?_⟩
    rw [Nat.mul_add, Nat.mul_comm _ k]
    omega

theorem inv_init {m0 m : Memory} {addr size alignment_unit mem : Nat} {heap : Xheap}
    (hb : ValidBlock addr size alignment_unit mem)
    (h : init m0 addr size alignment_unit mem = (0, m, heap)) :
    Inv (fun _ => []) (start m heap) := by
  have hpage : 2 ^ 5 ≤ 2 ^ alignment_unit := Nat.pow_le_pow_right (by decide) hb.unit_ge
  have hfits := hb.fits
  have hle := hb.page_le
  simp only [init, Nat.one_shiftLeft, sizeofHeader] at h
  rw [if_neg (by omega)] at h
  generalize hr : getIndex _ size = r at h
  generalize hcur : growTo _ _ _ _ = cur at h
  obtain ⟨harray, haligned⟩ := init_cur hb (hr ▸ getIndex_lt _ size) hcur
  split at h
  · cases h
  · rename_i hroom
    have hsub : sub64 size (2 ^ alignment_unit) = size - 2 ^ alignment_unit := by
      have := hb.size_lt
      rw [sub64]
      omega
    rw [hsub] at hroom
    obtain ⟨rfl, rfl⟩ := Prod.mk.inj (Prod.mk.inj h).2
    generalize hheap : (⟨alignment_unit, size, cur, mem, addr⟩ : Xheap) = heap
    have hlists : heap.nrLists = r.toNat := by
      rw [← hheap, ← hr]
      exact nrLists_cur ⟨alignment_unit, size, align mem alignment_unit - mem, mem, addr⟩ cur
    have hblock : heap.Block := by
      rw [← hheap]
      exact ⟨hpage, hb.fits, hb.size_lt, hb.addr_lt⟩
    have hcells := clear_cells heap m0 r.toNat (by rw [← hheap]; dsimp only; omega)
    refine ⟨⟨hblock, ?_, ?_, ?_, by simp [start], by simp [start]⟩, fun i hi => ?_, by simp,
      by simp, by simp, by simp [start], by simp [start]⟩
    · rw [← hheap]
      show cur ≤ size
      omega
    · rw [← hheap]
      exact haligned
    · show 8 * heap.nrLists ≤ heap.cur
      rw [hlists, ← hheap]
      exact harray
    · exact hcells i (hlists ▸ hi)

theorem separated {heap : Xheap} (hi : Inv L s) {cur : Nat}
    (hheap : s.heap = { heap with cur := cur }) : Separated heap s := by
  have hs := hi.shape
  have hsize : s.heap.size = heap.size := by rw [hheap]
  have hmem : s.heap.mem = heap.mem := by rw [hheap]
  have hpage : s.heap.page = 2 ^ heap.alignment_unit := by rw [hheap]; rfl
  have hlists : s.heap.nrLists = heap.nrLists := by rw [hheap, nrLists_cur]
  have hcur := hs.cur_le
  have hchunk (c : Nat × Nat) (hc : c ∈ s.live) := hs.chunk c.1 (hi.live c hc).1
  refine ⟨fun c hc => (hi.live c hc).2, fun c hc => ?_, fun c hc => ?_, fun c hc => ?_,
    fun c hc q hq => ?_, ?_, fun c hc => ?_⟩
  · rw [← hpage]
    exact (hchunk c hc).aligned
  · have hlo := (hchunk c hc).lo
    have hhi := (hchunk c hc).hi
    omega
  · have hlo := (hchunk c hc).lo
    exact Or.inr (by omega)
  · simp only [Apart, sizeofHeader]
    have hlo := (hs.chunk q hq).lo
    by_cases hne : c.1 = q
    · omega
    · have := hs.apart c.1 (hi.live c hc).1 q hq hne
      omega
  · refine (List.pairwise_map.mp hi.live_nodup).imp_of_mem fun {c d} hc hd hne => ?_
    simp only [Apart]
    have := hs.apart c.1 (hi.live c hc).1 d.1 (hi.live d hd).1 hne
    omega
  · obtain ⟨m, hfree, -⟩ := inv_free hi hc
    exact ⟨m, hfree⟩

/-- In every run in which no request has a negative index, the chunks are kept apart. -/
theorem run_separated {m0 m : Memory} {addr size alignment_unit mem : Nat} {heap : Xheap}
    (hb : ValidBlock addr size alignment_unit mem)
    (h : init m0 addr size alignment_unit mem = (0, m, heap)) {evs : List XheapEvent}
    (hrun : Run (Guarded Step fun s ev => s.Admissible ev ∧ s.InRange ev) (start m heap) evs s) :
    Separated heap s := by
  obtain ⟨⟨L, hi⟩, cur, hheap⟩ := hrun.invariant
    (I := fun s => (∃ L, Inv L s) ∧ ∃ cur, s.heap = { heap with cur := cur })
    (by
      rintro s ev s' ⟨⟨L, hi⟩, cur, hheap⟩ ⟨⟨hadm, hok⟩, hstep⟩
      obtain ⟨hi', cur', hheap'⟩ := inv_step hi hadm hok hstep
      exact ⟨hi', cur', by rw [hheap', hheap]⟩)
    ⟨⟨_, inv_init hb h⟩, heap.cur, rfl⟩
  exact separated hi hheap

theorem run_allocate_forty {m m' : Memory} {ret : Nat} {heap' : Xheap}
    (halloc : allocate m ⟨5, 4096, 456, 4096, 8⟩ 40 = (ret, m', heap')) :
    Run (Guarded Step fun s ev => s.Admissible ev ∧ s.InRange ev)
      (start m ⟨5, 4096, 456, 4096, 8⟩) [.allocate 40 ret]
      ((start m ⟨5, 4096, 456, 4096, 8⟩).handOut 40 ret m' heap') := by
  refine .single ⟨⟨⟨?_, ?_⟩, ?_⟩, m', heap', halloc, rfl⟩
  · show 40 ≤ 4096
    decide
  · show getIndex ⟨5, 4096, 456, 4096, 8⟩ 40 < getIndex ⟨5, 4096, 456, 4096, 8⟩ 4096
    decide +kernel
  · show 0 ≤ getIndex ⟨5, 4096, 456, 4096, 8⟩ 40
    decide +kernel

def perform (s : XheapSession) : XheapEvent → Option XheapSession
  | .allocate bytes ret =>
    match allocate s.memory s.heap bytes with
    | (r, memory, heap) => if r = ret then some (s.handOut bytes ret memory heap) else none
  | .free ptr => (free s.memory s.heap ptr).map fun memory =>
      { s with memory := memory, live := s.live.filter (·.1 ≠ ptr) }
  | .write _ => none

theorem step_of_perform {ev : XheapEvent} (h : s.perform ev = some s') : s.Step ev s' := by
  cases ev with
  | allocate bytes ret =>
    unfold perform at h
    dsimp only at h
    generalize hcall : allocate s.memory s.heap bytes = r at h
    obtain ⟨p, memory, heap⟩ := r
    obtain ⟨rfl, rfl⟩ := of_ite_some h
    exact ⟨memory, heap, hcall, rfl⟩
  | free ptr =>
    obtain ⟨memory, hfree, rfl⟩ := Option.map_eq_some_iff.mp h
    exact ⟨memory, hfree, rfl⟩
  | write memory => cases h

def Proper (s : XheapSession) : XheapEvent → Prop
  | .allocate bytes _ =>
    (bytes ≤ s.heap.size ∧ s.heap.getIndex bytes < s.heap.getIndex s.heap.size) ∧
      0 ≤ s.heap.getIndex bytes
  | .free ptr => ∃ c ∈ s.live, c.1 = ptr
  | .write _ => False

instance (s : XheapSession) (ev : XheapEvent) : Decidable (s.Proper ev) := by
  cases ev <;> unfold Proper <;> infer_instance

theorem Proper.admissible {ev : XheapEvent} (h : s.Proper ev) : s.Admissible ev ∧ s.InRange ev := by
  cases ev with
  | allocate bytes ret => exact h
  | free ptr => exact ⟨h, trivial⟩
  | write memory => exact h.elim

theorem run_separated_three : ∃ m heap s, init (fun _ => 0) 8 4096 5 4096 = (0, m, heap) ∧
    Run (Guarded Step fun s ev => s.Admissible ev ∧ s.InRange ev) (start m heap)
      [.allocate 40 4576, .allocate 72 4640, .allocate 40 4736, .free 4576] s ∧
    s.live = [(4736, 40), (4640, 72)] ∧ Separated heap s := by
  have hinit : (init (fun _ => 0) 8 4096 5 4096).1 = 0 := by decide +kernel
  have hexec : (execute perform Proper
      (start (init (fun _ => 0) 8 4096 5 4096).2.1 (init (fun _ => 0) 8 4096 5 4096).2.2)
      [.allocate 40 4576, .allocate 72 4640, .allocate 40 4736, .free 4576]).any
        (fun s => s.live = [(4736, 40), (4640, 72)]) = true := by
    decide +kernel
  obtain ⟨s, hrun, hlive⟩ := Run.of_execute_any (fun _ _ _ => step_of_perform) hexec
  rcases h : init (fun _ => 0) 8 4096 5 4096 with ⟨status, m, heap⟩
  rw [h] at hinit hrun
  obtain rfl : status = 0 := hinit
  have hrun : Run (Guarded Step fun s ev => s.Admissible ev ∧ s.InRange ev) (start m heap) _ s :=
    hrun.mono fun hstep => ⟨hstep.1.admissible, hstep.2⟩
  exact ⟨m, heap, s, rfl, hrun, of_decide_eq_true hlive, run_separated
    ⟨by decide, by decide, by decide, by decide, by decide, by decide, by decide⟩ h hrun⟩

def wildSize : Nat := (2 ^ 32 - 1013) * 4096

/-- The word that stands for the list of requests of 2^43 bytes holds 88. -/
def wildMemory : Memory := Memory.store64 (fun _ => 0) (0x10000000000 - 0x400000000 + 8128) 88

def wildHeap (cur : Nat) : Xheap := ⟨5, wildSize, cur, 0x10000000000, 8⟩

def wildStart : Int × Memory × Xheap := init wildMemory 8 wildSize 5 0x10000000000

def wildFirst : Nat × Memory × Xheap := allocate wildStart.2.1 (wildHeap 40) 72

def wildWrite (m : Memory) : Memory := m.store64 0x10000000050 (0x80000000000 + 4072)

def wildSecond : Nat × Memory × Xheap :=
  allocate (wildWrite wildFirst.2.1) (wildHeap 136) 0x80000000000

theorem eq_parts {α β γ : Type} {x : α × β × γ} {a : α} {c : γ} (h : x.1 = a ∧ x.2.2 = c) :
    x = (a, x.2.1, c) := by
  rw [← h.1, ← h.2]

theorem wildStart_eq : wildStart.1 = 0 ∧ wildStart.2.2 = wildHeap 40 := by
  decide +kernel

theorem wildFirst_eq : wildFirst.1 = 0x10000000040 ∧ wildFirst.2.2 = wildHeap 136 := by
  decide +kernel

theorem wildSecond_eq : wildSecond.1 = 0x10000000058 ∧ wildSecond.2.2 = wildHeap 136 := by
  decide +kernel

theorem wild_sizes : getChunkSize wildFirst.2.1 0x10000000040 = 72 ∧
    getChunkSize wildSecond.2.1 0x10000000040 = 72 := by
  decide +kernel

theorem wild_calls : ∃ m m1 m2,
    init wildMemory 8 wildSize 5 0x10000000000 = (0, m, wildHeap 40) ∧
    allocate m (wildHeap 40) 72 = (0x10000000040, m1, wildHeap 136) ∧
    allocate (wildWrite m1) (wildHeap 136) 0x80000000000 = (0x10000000058, m2, wildHeap 136) ∧
    getChunkSize m1 0x10000000040 = 72 ∧ getChunkSize m2 0x10000000040 = 72 ∧
    m2 = wildSecond.2.1 := by
  have hstart : wildStart = (0, wildStart.2.1, wildHeap 40) := eq_parts wildStart_eq
  have hfirst : wildFirst = (0x10000000040, wildFirst.2.1, wildHeap 136) := eq_parts wildFirst_eq
  have hsecond : wildSecond = (0x10000000058, wildSecond.2.1, wildHeap 136) :=
    eq_parts wildSecond_eq
  exact ⟨wildStart.2.1, wildFirst.2.1, wildSecond.2.1, hstart, hfirst, hsecond, wild_sizes.1,
    wild_sizes.2, rfl⟩

theorem wild_admissible : 72 ≤ wildSize ∧ 0x80000000000 ≤ wildSize ∧
    (wildHeap 40).getIndex 72 < (wildHeap 40).getIndex wildSize ∧
    (wildHeap 136).getIndex 0x80000000000 < (wildHeap 136).getIndex wildSize := by
  decide +kernel

theorem wildWrite_inside {m : Memory} {x : Nat} (h : wildWrite m x ≠ m x) :
    0x10000000040 ≤ x ∧ x < 0x10000000040 + 72 := by
  by_contra hout
  exact h (Memory.store64_outside (by omega))

/-- After the second request there are two live chunks, and one lies in the other. -/
theorem wild_run : ∃ m m2 evs,
    init wildMemory 8 wildSize 5 0x10000000000 = (0, m, wildHeap 40) ∧
    Run (Guarded Step Admissible) (start m (wildHeap 40)) evs
      ⟨m2, wildHeap 136, [(0x10000000058, 0x80000000000), (0x10000000040, 72)],
        [0x10000000058, 0x10000000040]⟩ ∧
    getChunkSize m2 0x10000000040 = 72 ∧ m2 = wildSecond.2.1 := by
  obtain ⟨m, m1, m2, hinit, hfirst, hsecond, hsize1, hsize2, hm2⟩ := wild_calls
  obtain ⟨hle1, hle2, hindex1, hindex2⟩ := wild_admissible
  have hstep1 : Guarded Step Admissible (start m (wildHeap 40)) (.allocate 72 0x10000000040)
      ((start m (wildHeap 40)).handOut 72 0x10000000040 m1 (wildHeap 136)) :=
    ⟨⟨hle1, hindex1⟩, m1, wildHeap 136, hfirst, rfl⟩
  rw [handOut_chunk _ _ _ _ (by decide)] at hstep1
  have hstep2 : Guarded Step Admissible
      ⟨m1, wildHeap 136, [(0x10000000040, 72)], [0x10000000040]⟩ (.write (wildWrite m1))
      ⟨wildWrite m1, wildHeap 136, [(0x10000000040, 72)], [0x10000000040]⟩ := by
    refine ⟨fun x hx => ⟨_, List.mem_singleton_self _, ?_⟩, rfl⟩
    dsimp only
    rw [hsize1]
    exact wildWrite_inside hx
  have hstep3 : Guarded Step Admissible
      ⟨wildWrite m1, wildHeap 136, [(0x10000000040, 72)], [0x10000000040]⟩
      (.allocate 0x80000000000 0x10000000058)
      (handOut ⟨wildWrite m1, wildHeap 136, [(0x10000000040, 72)], [0x10000000040]⟩
        0x80000000000 0x10000000058 m2 (wildHeap 136)) :=
    ⟨⟨hle2, hindex2⟩, m2, wildHeap 136, hsecond, rfl⟩
  rw [handOut_chunk _ _ _ _ (by decide)] at hstep3
  exact ⟨m, m2, _, hinit, ((Run.single hstep1).snoc hstep2).snoc hstep3, hsize2, hm2⟩

theorem wild_block : ValidBlock 8 wildSize 5 0x10000000000 :=
  ⟨by decide, by decide, by decide, by decide, by decide, by decide, by decide⟩

/-- Without the bound on the index, two live chunks can share bytes. -/
theorem not_run_separated : ¬ ∀ (m0 m : Memory) (addr size alignment_unit mem : Nat)
    (heap : Xheap) (evs : List XheapEvent) (s : XheapSession),
    ValidBlock addr size alignment_unit mem →
    init m0 addr size alignment_unit mem = (0, m, heap) →
    Run (Guarded Step Admissible) (start m heap) evs s → Separated heap s := by
  intro hall
  obtain ⟨m, m2, evs, hinit, hrun, hsize, -⟩ := wild_run
  have hsep := hall wildMemory m 8 wildSize 5 0x10000000000 _ evs _ wild_block hinit hrun
  have hapart := (List.pairwise_cons.mp hsep.apart).1 (0x10000000040, 72) (by simp)
  simp only [Apart, hsize] at hapart
  omega

end XheapSession

end Libxseg
