import Libxseg.XheapRuns

/-!
# Freeing a chunk and asking for it again

A chunk that is freed becomes the head of its list, and a request of the size it was handed
out for finds that list again: the index that `xheap_free` computes from the header is the one
that `xheap_allocate` computes from the request. Every chunk that is live has exactly the size
that its request is rounded to (`Tight`), so it passes the checks as it did before.
-/

namespace Libxseg

set_option autoImplicit false

namespace Xheap
variable {m m' : Memory} {heap heap' : Xheap} {bytes p : Nat}

/-- The checks at the end of `xheap_allocate` change the pointer only. -/
theorem allocate_snd (m : Memory) (heap : Xheap) (bytes : Nat) :
    (allocate m heap bytes).2 = (allocateChunk m heap bytes).2 := by
  rw [allocate]
  generalize allocateChunk m heap bytes = result
  dsimp only
  split
  · rfl
  · split
    · rfl
    · rfl

/-- What the checks let through has the size that the request is rounded to. -/
theorem allocate_size (h : allocate m heap bytes = (p, m', heap')) (hp : p ≠ 0) :
    getChunkSize m' p = heap'.getAllocBytes bytes - sizeofHeader := by
  rw [allocate] at h
  generalize allocateChunk m heap bytes = result at h
  obtain ⟨addr, m1, heap1⟩ := result
  dsimp only at h
  split at h
  · exact absurd (congrArg Prod.fst h).symm hp
  · split at h
    · exact absurd (congrArg Prod.fst h).symm hp
    · rename_i hsize
      cases h
      by_contra hne
      exact hsize ⟨hp, hne⟩

end Xheap

namespace XheapSession
open Xheap

def Tight (s : XheapSession) : Prop :=
  ∀ c ∈ s.live, getChunkSize s.memory c.1 + sizeofHeader = s.heap.getAllocBytes c.2

def FreeList (m : Memory) (heap : Xheap) (r : Nat) (l : List Nat) : Prop :=
  m.Linked heap.mem (m.load64 (heap.mem + 8 * r)) l

/-- A live chunk that is freed is the answer to the next request of its size, and then the heap
and each of its lists are what they were. -/
def Reallocates (s : XheapSession) : Prop :=
  ∀ c ∈ s.live, ∃ m m', free s.memory s.heap c.1 = some m ∧
    allocate m s.heap c.2 = (c.1, m', s.heap) ∧
    ∀ r < s.heap.nrLists, ∃ l, FreeList s.memory s.heap r l ∧ FreeList m' s.heap r l

variable {s s' : XheapSession} {L : Nat → List Nat}

theorem allocate_keeps_sizes (hi : Inv L s) {bytes ret p : Nat} {m : Memory} {heap : Xheap}
    (h0 : 0 ≤ s.heap.getIndex bytes) (hr : s.heap.getIndex bytes < s.heap.getIndex s.heap.size)
    (h : allocate s.memory s.heap bytes = (ret, m, heap)) (hp : p ∈ s.chunks) :
    getChunkSize m p = getChunkSize s.memory p := by
  obtain ⟨r, hrlt, -, hcell⟩ := freeList_eq hi.shape h0 hr
  have hm : m = (allocateChunk s.memory s.heap bytes).2.1 := by
    rw [← allocate_snd, h]
  by_cases hhead : s.memory.load64 (s.heap.mem + 8 * r) = 0
  · by_cases hfull : s.heap.cur + s.heap.getAllocBytes bytes > s.heap.size
    · rw [hm, allocateChunk_full hcell hhead hfull]
    · rw [hm, allocateChunk_carve hcell hhead hfull]
      exact hi.size_carve _ hp
  · by_cases hbad : s.memory.load64 (s.heap.mem + 8 * r) > s.heap.cur
    · rw [hm, allocateChunk, hcell]
      simp only [if_neg hhead, if_pos hbad]
    · rw [hm, allocateChunk_pop hcell hhead rfl hbad]
      exact hi.size_cell hrlt _ hp

theorem Tight.allocate (h : s.Tight) (hi : Inv L s) {bytes ret : Nat} {m : Memory} {heap : Xheap}
    (h0 : 0 ≤ s.heap.getIndex bytes) (hr : s.heap.getIndex bytes < s.heap.getIndex s.heap.size)
    (halloc : allocate s.memory s.heap bytes = (ret, m, heap)) :
    (s.handOut bytes ret m heap).Tight := by
  obtain ⟨-, cur, hheap⟩ := inv_allocate hi h0 hr halloc
  have hbytes (b : Nat) : heap.getAllocBytes b = s.heap.getAllocBytes b := by
    rw [hheap]
    rfl
  have hold (c : Nat × Nat) (hc : c ∈ s.live) :
      getChunkSize m c.1 + sizeofHeader = heap.getAllocBytes c.2 := by
    rw [allocate_keeps_sizes hi h0 hr halloc (hi.live c hc).1, hbytes]
    exact h c hc
  by_cases hret : ret = 0
  · have hsame : s.handOut bytes ret m heap = { s with memory := m, heap := heap } := by
      simp only [handOut, if_pos hret]
    rw [hsame]
    exact hold
  · rw [handOut_chunk s bytes m heap hret]
    refine List.forall_mem_cons.mpr ⟨?_, hold⟩
    have hge : bytes + sizeofHeader ≤ heap.getAllocBytes bytes := heap.le_getAllocBytes bytes
    dsimp only
    rw [allocate_size halloc hret]
    omega

theorem Tight.free (h : s.Tight) (hi : Inv L s) {c : Nat × Nat} (hc : c ∈ s.live) {m : Memory}
    (hfree : free s.memory s.heap c.1 = some m) :
    Tight { s with memory := m, live := s.live.filter (·.1 ≠ c.1) } := by
  have hmem := (hi.live c hc).1
  obtain ⟨r, hr, -, -, hfreed, -⟩ := free_list hi hc
  rw [hfree] at hfreed
  intro d hd
  have hd := (List.mem_filter.mp hd).1
  dsimp only
  rw [Option.some.inj hfreed, hi.size_push hr hmem (hi.live d hd).1]
  exact h d hd

theorem Tight.write (h : s.Tight) (hi : Inv L s) {m : Memory} (hm : ∀ x, m x ≠ s.memory x →
      ∃ c ∈ s.live, c.1 ≤ x ∧ x < c.1 + getChunkSize s.memory c.1) :
    Tight { s with memory := m } := by
  intro c hc
  have hmem := (hi.live c hc).1
  dsimp only
  rw [hi.size_congr hmem fun x hx hx' => hi.write_header hm hmem hx hx']
  exact h c hc

theorem Tight.step (h : s.Tight) (hi : Inv L s) {ev : XheapEvent} (hadm : s.Admissible ev)
    (hok : s.InRange ev) (hstep : s.Step ev s') : s'.Tight := by
  cases ev with
  | allocate bytes ret =>
    obtain ⟨m, heap, halloc, rfl⟩ := hstep
    exact h.allocate hi hok hadm.2 halloc
  | free ptr =>
    obtain ⟨c, hc, rfl⟩ := hadm
    obtain ⟨m, hfree, rfl⟩ := hstep
    exact h.free hi hc hfree
  | write m =>
    obtain rfl := hstep
    exact h.write hi hadm

/-- The chunk at the head of the list of its class answers the request. -/
theorem allocate_head (hi : Inv L s) {bytes r p : Nat} {l : List Nat} (hr : r < s.heap.nrLists)
    (hl : L r = p :: l) (hcell : s.heap.freeList (s.heap.getIndex bytes) = s.heap.mem + 8 * r)
    (hsize : getChunkSize s.memory p + sizeofHeader = s.heap.getAllocBytes bytes) :
    Xheap.allocate s.memory s.heap bytes =
      (p, s.memory.store64 (s.heap.mem + 8 * r) (s.memory.load64 p), s.heap) := by
  have hmem := (hi.listed r hr p (by simp [hl])).1
  have hhi := (hi.shape.chunk p hmem).hi
  have hlinked := hi.linked r hr
  rw [hl] at hlinked
  obtain ⟨hne, hp, -⟩ := hlinked
  refine allocate_exact (allocateChunk_pop hcell hne hp (by omega)) ?_
  rw [hi.size_cell hr _ hmem, ← hsize, Nat.add_sub_cancel]

theorem Tight.reallocates (h : s.Tight) (hi : Inv L s) : s.Reallocates := by
  intro c hc
  have hmem := (hi.live c hc).1
  obtain ⟨r, hr, -, hcell, hfree, hpush⟩ := free_list hi hc
  have hsize := hi.size_push hr hmem hmem
  generalize addInFreeList s.memory s.heap (s.heap.mem + 8 * r) c.1 = m at hfree hpush hsize
  -- the request has the index of the chunk, and the chunk is the head of that list now
  have hindex : s.heap.getIndex (getChunkSize s.memory c.1) = s.heap.getIndex c.2 :=
    s.heap.getIndex_again c.2 hi.shape.block.page (h c hc)
  rw [hindex] at hcell
  have hlist : Function.update L r (c.1 :: L r) r = c.1 :: L r := Function.update_self ..
  have halloc : Xheap.allocate m s.heap c.2 =
      (c.1, m.store64 (s.heap.mem + 8 * r) (m.load64 c.1), s.heap) :=
    allocate_head hpush hr hlist hcell (by dsimp only; rw [hsize]; exact h c hc)
  have hpop := hpush.pop hr hlist
  have hlists : Function.update (Function.update L r (c.1 :: L r)) r (L r) = L := by
    rw [Function.update_idem, Function.update_eq_self]
  rw [hlists] at hpop
  exact ⟨m, _, hfree, halloc, fun r' hr' => ⟨L r', hi.linked r' hr', hpop.linked r' hr'⟩⟩

/-- In every run in which no request has a negative index, a live chunk that is freed is the
answer to the next request of the size it was handed out for. -/
theorem run_reallocates {m0 m : Memory} {addr size alignment_unit mem : Nat} {heap : Xheap}
    (hb : ValidBlock addr size alignment_unit mem)
    (h : init m0 addr size alignment_unit mem = (0, m, heap)) {evs : List XheapEvent}
    (hrun : Run (Guarded Step fun s ev => s.Admissible ev ∧ s.InRange ev) (start m heap) evs s) :
    s.Reallocates := by
  obtain ⟨⟨L, hi⟩, htight⟩ := hrun.invariant (I := fun s => (∃ L, Inv L s) ∧ s.Tight)
    (by
      rintro s ev s' ⟨⟨L, hi⟩, htight⟩ ⟨⟨hadm, hok⟩, hstep⟩
      exact ⟨(inv_step hi hadm hok hstep).1, htight.step hi hadm hok hstep⟩)
    ⟨⟨_, inv_init hb h⟩, by simp [Tight, start]⟩
  exact htight.reallocates hi

theorem run_reallocates_first : ∃ m heap ret m' heap',
    init (fun _ => 0) 8 4096 5 4096 = (0, m, heap) ∧ allocate m heap 40 = (ret, m', heap') ∧
      ret ≠ 0 ∧ Reallocates ((start m heap).handOut 40 ret m' heap') := by
  have hinit : (init (fun _ => 0) 8 4096 5 4096).1 = 0 ∧
      (init (fun _ => 0) 8 4096 5 4096).2.2 = ⟨5, 4096, 456, 4096, 8⟩ := by decide +kernel
  have hret : (allocate (init (fun _ => 0) 8 4096 5 4096).2.1 ⟨5, 4096, 456, 4096, 8⟩ 40).1 ≠ 0 := by
    decide +kernel
  rcases h : init (fun _ => 0) 8 4096 5 4096 with ⟨status, m, heap⟩
  rw [h] at hinit hret
  obtain ⟨rfl, rfl⟩ := hinit
  rcases halloc : allocate m ⟨5, 4096, 456, 4096, 8⟩ 40 with ⟨ret, m', heap'⟩
  refine ⟨m, _, ret, m', heap', rfl, halloc, ?_, run_reallocates
    ⟨by decide, by decide, by decide, by decide, by decide, by decide, by decide⟩ h
    (run_allocate_forty halloc)⟩
  rwa [halloc] at hret

/-- The user of the first chunk writes another header into it: one of this heap, for 40 bytes. -/
def wildHeader (m : Memory) : Memory :=
  (m.store64 0x10000000048 (sub64 8 0x10000000048)).store64 0x10000000050 40

theorem wildHeader_inside {m : Memory} {x : Nat} (h : wildHeader m x ≠ m x) :
    0x10000000040 ≤ x ∧ x < 0x10000000040 + 72 := by
  by_contra hout
  apply h
  rw [wildHeader, Memory.store64_outside (by omega), Memory.store64_outside (by omega)]

/-- The second chunk goes on the list for 40 bytes, and its request gets a new one. -/
theorem wildHeader_reallocates :
    (free (wildHeader wildSecond.2.1) (wildHeap 136) 0x10000000058).map
      (fun m => (allocate m (wildHeap 136) 0x80000000000).1) = some 0x100000000a0 := by
  decide +kernel

/-- With a negative index, a chunk can be freed to one list and asked for from another. -/
theorem not_run_reallocates : ¬ ∀ (m0 m : Memory) (addr size alignment_unit mem : Nat)
    (heap : Xheap) (evs : List XheapEvent) (s : XheapSession),
    ValidBlock addr size alignment_unit mem →
    init m0 addr size alignment_unit mem = (0, m, heap) →
    Run (Guarded Step Admissible) (start m heap) evs s → Reallocates s := by
  intro hall
  obtain ⟨m, m2, evs, hinit, hrun, hsize, hm2⟩ := wild_run
  have hstep : Guarded Step Admissible
      ⟨m2, wildHeap 136, [(0x10000000058, 0x80000000000), (0x10000000040, 72)],
        [0x10000000058, 0x10000000040]⟩ (.write (wildHeader m2))
      ⟨wildHeader m2, wildHeap 136, [(0x10000000058, 0x80000000000), (0x10000000040, 72)],
        [0x10000000058, 0x10000000040]⟩ := by
    refine ⟨fun x hx => ⟨(0x10000000040, 72), by simp, ?_⟩, rfl⟩
    dsimp only
    rw [hsize]
    exact wildHeader_inside hx
  obtain ⟨m3, m4, hfree, halloc, -⟩ := hall wildMemory m 8 wildSize 5 0x10000000000 _ _ _
    wild_block hinit (hrun.snoc hstep) (0x10000000058, 0x80000000000) (by simp)
  have hother := wildHeader_reallocates
  rw [← hm2, hfree, Option.map_some, halloc] at hother
  have hp : 0x10000000058 = 0x100000000a0 := Option.some.inj hother
  exact absurd hp (by decide)

end XheapSession

end Libxseg
