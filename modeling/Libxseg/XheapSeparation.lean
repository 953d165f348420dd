import Mathlib.Data.List.Nodup
import Libxseg.XheapClasses

/-!
# Chunks of an xheap stay apart

`Shape` is about the chunks that were carved out of the block: where they lie and
what their headers say. `Inv` adds who has them: each chunk is live, in one free
list, or lost, and never two of these. The free lists are read off the memory
itself, so a step keeps the invariant when it changes memory only where it may.
-/

namespace Libxseg

set_option autoImplicit false

/-- What the clients of a heap know: the live chunks with the bytes asked for, and every pointer
that was handed out so far. -/
structure XheapSession where
  memory : Memory
  heap : Xheap
  live : List (Nat × Nat)
  chunks : List Nat

namespace Xheap

def nrLists (heap : Xheap) : Nat := (heap.getIndex heap.size).toNat

theorem getIndex_congr {heap heap' : Xheap} (h : heap'.alignment_unit = heap.alignment_unit)
    (bytes : Nat) : heap'.getIndex bytes = heap.getIndex bytes := by
  have hbytes : heap'.getAllocBytes bytes = heap.getAllocBytes bytes := by
    unfold getAllocBytes
    rw [h]
  have hclass (b : Nat) : heap'.classOf b = heap.classOf b := by
    unfold classOf
    rw [h]
  unfold getIndex
  rw [hbytes, hclass]

theorem nrLists_cur (heap : Xheap) (cur : Nat) :
    ({ heap with cur := cur } : Xheap).nrLists = heap.nrLists :=
  congrArg Int.toNat (getIndex_congr rfl heap.size)

structure Block (heap : Xheap) : Prop where
  page : 32 ≤ heap.page
  fits : heap.mem + heap.size ≤ 2 ^ 64
  size_lt : heap.size < 2 ^ 63
  self_lt : heap.self < 2 ^ 64

structure Chunk (m : Memory) (heap : Xheap) (p : Nat) : Prop where
  lo : heap.mem + 8 * heap.nrLists + 24 ≤ p
  hi : p + getChunkSize m p ≤ heap.mem + heap.cur
  aligned : heap.page ∣ p
  rounded : ∃ bytes, getChunkSize m p + 24 = heap.getAllocBytes bytes ∧
    0 ≤ heap.getIndex bytes ∧ heap.getIndex bytes < heap.getIndex heap.size
  owner : (m.load64 (p - 24 + 8) + (p - 24 + 8)) % 2 ^ 64 = heap.self

structure Shape (m : Memory) (heap : Xheap) (chunks : List Nat) : Prop where
  block : heap.Block
  cur_le : heap.cur ≤ heap.size
  cur_aligned : heap.page ∣ heap.mem + heap.cur + 24
  array : 8 * heap.nrLists ≤ heap.cur
  chunk : ∀ p ∈ chunks, Chunk m heap p
  apart : ∀ p ∈ chunks, ∀ q ∈ chunks, p ≠ q →
    p + getChunkSize m p + 24 ≤ q ∨ q + getChunkSize m q + 24 ≤ p

structure Inv (L : Nat → List Nat) (s : XheapSession) : Prop where
  shape : Shape s.memory s.heap s.chunks
  linked : ∀ r < s.heap.nrLists,
    s.memory.Linked s.heap.mem (s.memory.load64 (s.heap.mem + 8 * r)) (L r)
  listed : ∀ r < s.heap.nrLists, ∀ p ∈ L r, p ∈ s.chunks ∧ ∀ c ∈ s.live, c.1 ≠ p
  nodup : ∀ r < s.heap.nrLists, (L r).Nodup
  once : ∀ r < s.heap.nrLists, ∀ r' < s.heap.nrLists, ∀ p ∈ L r, p ∈ L r' → r = r'
  live : ∀ c ∈ s.live, c.1 ∈ s.chunks ∧ c.2 ≤ getChunkSize s.memory c.1
  live_nodup : (s.live.map Prod.fst).Nodup

variable {m m' : Memory} {heap : Xheap} {chunks : List Nat} {L : Nat → List Nat}
  {s : XheapSession} {p q r : Nat}

theorem Chunk.size_ge (hb : heap.Block) (h : Chunk m heap p) : 8 ≤ getChunkSize m p := by
  obtain ⟨bytes, hsize, -⟩ := h.rounded
  have := heap.page_le_getAllocBytes bytes
  have := hb.page
  omega

theorem Chunk.index (hb : heap.Block) (h : Chunk m heap p) :
    0 ≤ heap.getIndex (getChunkSize m p) ∧
      heap.getIndex (getChunkSize m p) < heap.getIndex heap.size := by
  obtain ⟨bytes, hsize, hindex⟩ := h.rounded
  rw [heap.getIndex_again bytes hb.page hsize]
  exact hindex

theorem freeList_natCast (h : heap.mem + 8 * r < 2 ^ 64) :
    heap.freeList r = heap.mem + 8 * r := by
  rw [freeList]
  omega

theorem freeList_eq (hs : Shape m heap chunks) {i : Int} (h0 : 0 ≤ i)
    (hi : i < heap.getIndex heap.size) :
    ∃ r < heap.nrLists, i = r ∧ heap.freeList i = heap.mem + 8 * r := by
  obtain ⟨r, rfl⟩ := Int.eq_ofNat_of_zero_le h0
  have hr : r < heap.nrLists := by
    rw [nrLists]
    omega
  have harray := hs.array
  have hcur := hs.cur_le
  have hfits := hs.block.fits
  exact ⟨r, hr, rfl, freeList_natCast (by omega)⟩

theorem Shape.cell_lt (hs : Shape m heap chunks) (hr : r < heap.nrLists) (hp : p ∈ chunks) :
    heap.mem + 8 * r + 8 ≤ p - 24 := by
  have := (hs.chunk p hp).lo
  omega

theorem Shape.body_apart (hs : Shape m heap chunks) (hp : p ∈ chunks) (hq : q ∈ chunks)
    (hne : p ≠ q) {x : Nat} (hx : p ≤ x) (hx' : x < p + getChunkSize m p) :
    ¬ (q - 24 ≤ x ∧ x < q + getChunkSize m q) := by
  have := hs.apart p hp q hq hne
  omega

theorem getChunkSize_congr (hlo : 24 ≤ p) (h : ∀ x, p - 24 ≤ x → x < p → m' x = m x) :
    getChunkSize m' p = getChunkSize m p :=
  Memory.load64_congr fun x hx hx' => h x (by simp only [sizeofHeader] at hx; omega)
    (by simp only [sizeofHeader] at hx'; omega)

theorem Shape.congr (hs : Shape m heap chunks)
    (h : ∀ p ∈ chunks, ∀ x, p - 24 ≤ x → x < p → m' x = m x) : Shape m' heap chunks := by
  have hsize (p : Nat) (hp : p ∈ chunks) : getChunkSize m' p = getChunkSize m p :=
    getChunkSize_congr (by have := (hs.chunk p hp).lo; omega) (h p hp)
  refine ⟨hs.block, hs.cur_le, hs.cur_aligned, hs.array, fun p hp => ?_, fun p hp q hq hne => ?_⟩
  · have hc := hs.chunk p hp
    have hlo := hc.lo
    have hhi := hc.hi
    have heq := hsize p hp
    refine ⟨hlo, by omega, hc.aligned, ?_, ?_⟩
    · rw [heq]
      exact hc.rounded
    · rw [Memory.load64_congr fun x hx hx' => h p hp x (by omega) (by omega)]
      exact hc.owner
  · rw [hsize p hp, hsize q hq]
    exact hs.apart p hp q hq hne

/-- The invariant is a matter of the headers, the cells, and the first words of free chunks. -/
theorem Inv.congr (hi : Inv L s)
    (hheader : ∀ p ∈ s.chunks, ∀ x, p - 24 ≤ x → x < p → m' x = s.memory x)
    (hcell : ∀ r < s.heap.nrLists,
      m'.load64 (s.heap.mem + 8 * r) = s.memory.load64 (s.heap.mem + 8 * r))
    (hnode : ∀ r < s.heap.nrLists, ∀ p ∈ L r, m'.load64 p = s.memory.load64 p) :
    Inv L { s with memory := m' } := by
  refine ⟨hi.shape.congr hheader, fun r hr => ?_, hi.listed, hi.nodup, hi.once, fun c hc => ?_,
    hi.live_nodup⟩
  · show m'.Linked s.heap.mem (m'.load64 (s.heap.mem + 8 * r)) (L r)
    rw [hcell r hr]
    exact (hi.linked r hr).congr (hnode r hr)
  · obtain ⟨hmem, hle⟩ := hi.live c hc
    refine ⟨hmem, ?_⟩
    show c.2 ≤ getChunkSize m' c.1
    rwa [getChunkSize_congr (by have := (hi.shape.chunk _ hmem).lo; omega) (hheader _ hmem)]

theorem Inv.write_header (hi : Inv L s) (h : ∀ x, m' x ≠ s.memory x → ∃ c ∈ s.live,
      c.1 ≤ x ∧ x < c.1 + getChunkSize s.memory c.1) (hp : p ∈ s.chunks) {x : Nat}
    (hx : p - 24 ≤ x) (hx' : x < p) : m' x = s.memory x := by
  by_contra hne
  obtain ⟨c, hc, hin⟩ := h x hne
  have hcm := (hi.live c hc).1
  by_cases hcp : c.1 = p
  · omega
  · exact hi.shape.body_apart hcm hp hcp hin.1 hin.2 ⟨hx, by omega⟩

theorem Inv.write (hi : Inv L s) (h : ∀ x, m' x ≠ s.memory x → ∃ c ∈ s.live,
      c.1 ≤ x ∧ x < c.1 + getChunkSize s.memory c.1) : Inv L { s with memory := m' } := by
  have hkeep (x : Nat) (hx : ∀ c ∈ s.live, ¬ (c.1 ≤ x ∧ x < c.1 + getChunkSize s.memory c.1)) :
      m' x = s.memory x := by
    by_contra hne
    obtain ⟨c, hc, hin⟩ := h x hne
    exact hx c hc hin
  refine hi.congr (fun p hp x hx hx' => hi.write_header h hp hx hx') (fun r hr => ?_)
    fun r hr p hp => ?_
  · refine Memory.load64_congr fun x _ hx' => hkeep x fun c hc hin => ?_
    have := hi.shape.cell_lt hr (hi.live c hc).1
    omega
  · obtain ⟨hpm, hfree⟩ := hi.listed r hr p hp
    have hsize := (hi.shape.chunk p hpm).size_ge hi.shape.block
    refine Memory.load64_congr fun x hx hx' => hkeep x fun c hc hin => ?_
    exact hi.shape.body_apart (hi.live c hc).1 hpm (hfree c hc) hin.1 hin.2
      ⟨by omega, by omega⟩

/-- Storing into the cell of list `r`, with a list that the new head starts. -/
theorem Inv.setList (hi : Inv L s) (hr : r < s.heap.nrLists) (word : Nat) (hword : word < 2 ^ 64)
    {l : List Nat} (hlinked : s.memory.Linked s.heap.mem word l)
    (hlisted : ∀ p ∈ l, p ∈ s.chunks ∧ ∀ c ∈ s.live, c.1 ≠ p) (hnodup : l.Nodup)
    (honce : ∀ r' < s.heap.nrLists, r' ≠ r → ∀ p ∈ l, p ∉ L r') :
    Inv (Function.update L r l)
      { s with memory := s.memory.store64 (s.heap.mem + 8 * r) word } := by
  have hother {r' : Nat} (hne : r' ≠ r) : Function.update L r l r' = L r' :=
    Function.update_of_ne hne l L
  have hself : Function.update L r l r = l := Function.update_self r l L
  have hnode (p : Nat) (hp : p ∈ s.chunks) :
      (s.memory.store64 (s.heap.mem + 8 * r) word).load64 p = s.memory.load64 p := by
    have := hi.shape.cell_lt hr hp
    exact Memory.load64_store64_other (by omega)
  have hheader (p : Nat) (hp : p ∈ s.chunks) (x : Nat) (hx : p - 24 ≤ x) (_ : x < p) :
      s.memory.store64 (s.heap.mem + 8 * r) word x = s.memory x := by
    have := hi.shape.cell_lt hr hp
    exact Memory.store64_outside (by omega)
  refine ⟨hi.shape.congr hheader, fun r' hr' => ?_, fun r' hr' => ?_, fun r' hr' => ?_,
    fun r1 hr1 r2 hr2 p hp1 hp2 => ?_, fun c hc => ?_, hi.live_nodup⟩
  · by_cases hne : r' = r
    · subst hne
      rw [hself]
      dsimp only
      rw [Memory.load64_store64_same hword]
      exact hlinked.congr fun p hp => hnode p (hlisted p hp).1
    · rw [hother hne]
      dsimp only
      rw [Memory.load64_store64_other (by omega)]
      exact (hi.linked r' hr').congr fun p hp => hnode p (hi.listed r' hr' p hp).1
  · by_cases hne : r' = r
    · rw [hne, hself]
      exact hlisted
    · rw [hother hne]
      exact hi.listed r' hr'
  · by_cases hne : r' = r
    · rw [hne, hself]
      exact hnodup
    · rw [hother hne]
      exact hi.nodup r' hr'
  · by_cases h1 : r1 = r
    · by_cases h2 : r2 = r
      · rw [h1, h2]
      · rw [h1, hself] at hp1
        rw [hother h2] at hp2
        exact absurd hp2 (honce r2 hr2 h2 p hp1)
    · rw [hother h1] at hp1
      by_cases h2 : r2 = r
      · rw [h2, hself] at hp2
        exact absurd hp1 (honce r1 hr1 h1 p hp2)
      · rw [hother h2] at hp2
        exact hi.once r1 hr1 r2 hr2 p hp1 hp2
  · obtain ⟨hmem, hle⟩ := hi.live c hc
    refine ⟨hmem, ?_⟩
    show c.2 ≤ getChunkSize (s.memory.store64 _ _) c.1
    rwa [getChunkSize_congr (by have := (hi.shape.chunk _ hmem).lo; omega) (hheader _ hmem)]

theorem Inv.pop (hi : Inv L s) (hr : r < s.heap.nrLists) {l : List Nat} (hl : L r = p :: l) :
    Inv (Function.update L r l)
      { s with memory := s.memory.store64 (s.heap.mem + 8 * r) (s.memory.load64 p) } := by
  have hlinked := hi.linked r hr
  have hlisted := hi.listed r hr
  have hnodup := hi.nodup r hr
  rw [hl] at hlinked hlisted hnodup
  refine hi.setList hr _ (Memory.load64_lt _ _) hlinked.2.2
    (fun q hq => hlisted q (by simp [hq])) hnodup.of_cons fun r' hr' hne q hq hq' => ?_
  exact hne (hi.once r' hr' r hr q hq' (by simp [hl, hq]))

theorem Inv.not_mem_pop (hi : Inv L s) (hr : r < s.heap.nrLists) {l : List Nat}
    (hl : L r = p :: l) {r' : Nat} (hr' : r' < s.heap.nrLists) : p ∉ Function.update L r l r' := by
  intro hmem
  by_cases hne : r' = r
  · have hnodup := hi.nodup r hr
    rw [hl] at hnodup
    rw [hne, Function.update_self] at hmem
    exact (List.nodup_cons.mp hnodup).1 hmem
  · rw [Function.update_of_ne hne] at hmem
    exact hne (hi.once r' hr' r hr p hmem (by simp [hl]))

/-- A chunk that nobody has goes on a list: first its own word, then the cell. -/
theorem Inv.push (hi : Inv L s) (hr : r < s.heap.nrLists) (hp : p ∈ s.chunks)
    (hlive : ∀ c ∈ s.live, c.1 ≠ p) (hfree : ∀ r' < s.heap.nrLists, p ∉ L r') :
    Inv (Function.update L r (p :: L r))
      { s with memory := addInFreeList s.memory s.heap (s.heap.mem + 8 * r) p } := by
  have hc := hi.shape.chunk p hp
  have hlo := hc.lo
  have hhi := hc.hi
  have hcur := hi.shape.cur_le
  have hfits := hi.shape.block.fits
  have hsize := hc.size_ge hi.shape.block
  have hword : sub64 p s.heap.mem = p - s.heap.mem := by
    rw [sub64]
    omega
  generalize hm1 : s.memory.store64 p (s.memory.load64 (s.heap.mem + 8 * r)) = m1
  have hi1 : Inv L { s with memory := m1 } := by
    subst hm1
    refine hi.congr (fun q hq x hx hx' => ?_) (fun r' hr' => ?_) fun r' hr' q hq => ?_
    · apply Memory.store64_outside
      by_cases hqp : p = q
      · omega
      · have := hi.shape.apart p hp q hq hqp
        omega
    · have := hi.shape.cell_lt hr' hp
      exact Memory.load64_store64_other (by omega)
    · have hqp : p ≠ q := by
        rintro rfl
        exact hfree r' hr' hq
      have hqm := (hi.listed r' hr' q hq).1
      have := (hi.shape.chunk q hqm).size_ge hi.shape.block
      have := hi.shape.apart p hp q hqm hqp
      exact Memory.load64_store64_other (by omega)
  have hlinked := hi1.linked r hr
  have hcell : m1.load64 (s.heap.mem + 8 * r) = s.memory.load64 (s.heap.mem + 8 * r) := by
    have := hi.shape.cell_lt hr hp
    rw [← hm1]
    exact Memory.load64_store64_other (by omega)
  have hnext : m1.load64 p = s.memory.load64 (s.heap.mem + 8 * r) := by
    rw [← hm1]
    exact Memory.load64_store64_same (Memory.load64_lt _ _)
  have hset := hi1.setList (l := p :: L r) hr (p - s.heap.mem) (by omega)
    ⟨by omega, by show s.heap.mem + _ = p; omega, by
      show m1.Linked s.heap.mem (m1.load64 p) (L r)
      rw [hnext, ← hcell]
      exact hlinked⟩
    (fun q hq => by
      rcases List.mem_cons.mp hq with rfl | hq
      · exact ⟨hp, hlive⟩
      · exact hi.listed r hr q hq)
    (List.nodup_cons.mpr ⟨hfree r hr, hi.nodup r hr⟩)
    fun r' hr' hne q hq hq' => by
      rcases List.mem_cons.mp hq with rfl | hq
      · exact hfree r' hr' hq'
      · exact hne (hi.once r' hr' r hr q hq' hq)
  rw [addInFreeList, hword, hm1]
  exact hset

theorem carve_outside {bytes x : Nat} (hx : x < heap.mem + heap.cur ∨
    heap.mem + heap.cur + 24 ≤ x) : carve m heap bytes x = m x := by
  rw [carve, Memory.store64_outside (by omega), Memory.store64_outside (by omega),
    Memory.store64_outside (by omega)]

theorem Inv.size_congr (h : Inv L s) (hp : p ∈ s.chunks)
    (hm : ∀ x, p - 24 ≤ x → x < p → m x = s.memory x) :
    getChunkSize m p = getChunkSize s.memory p :=
  getChunkSize_congr (by have := (h.shape.chunk p hp).lo; omega) hm

theorem Inv.size_cell (h : Inv L s) (hr : r < s.heap.nrLists) (word : Nat) (hp : p ∈ s.chunks) :
    getChunkSize (s.memory.store64 (s.heap.mem + 8 * r) word) p = getChunkSize s.memory p := by
  have := h.shape.cell_lt hr hp
  exact h.size_congr hp fun x hx _ => Memory.store64_outside (by omega)

theorem Inv.size_carve (h : Inv L s) (bytes : Nat) (hp : p ∈ s.chunks) :
    getChunkSize (Xheap.carve s.memory s.heap bytes) p = getChunkSize s.memory p := by
  have := (h.shape.chunk p hp).hi
  exact h.size_congr hp fun x _ hx => carve_outside (by omega)

theorem Inv.size_push (h : Inv L s) (hr : r < s.heap.nrLists) (hq : q ∈ s.chunks)
    (hp : p ∈ s.chunks) :
    getChunkSize (addInFreeList s.memory s.heap (s.heap.mem + 8 * r) q) p =
      getChunkSize s.memory p := by
  have hcell := h.shape.cell_lt hr hp
  have hsize := (h.shape.chunk q hq).size_ge h.shape.block
  refine h.size_congr hp fun x hx hx' => ?_
  rw [addInFreeList, Memory.store64_outside (by omega), Memory.store64_outside]
  by_cases hqp : q = p
  · omega
  · have := h.shape.apart q hq p hp hqp
    omega

theorem getChunkSize_carve (m : Memory) (heap : Xheap) {bytes : Nat} (hlt : bytes < 2 ^ 64) :
    getChunkSize (carve m heap bytes) (heap.mem + heap.cur + sizeofHeader) =
      bytes - sizeofHeader := by
  rw [getChunkSize, Nat.add_sub_cancel, carve, Memory.load64_store64_other (by omega),
    Memory.load64_store64_other (by omega), Memory.load64_store64_same (by omega)]

theorem owner_carve (m : Memory) (hb : heap.Block) (bytes : Nat) (hcur : heap.cur + 24 ≤ heap.size) :
    ((carve m heap bytes).load64 (heap.mem + heap.cur + sizeofHeader - 24 + 8) +
      (heap.mem + heap.cur + sizeofHeader - 24 + 8)) % 2 ^ 64 = heap.self := by
  have hh : heap.mem + heap.cur + sizeofHeader - 24 = heap.mem + heap.cur := Nat.add_sub_cancel _ _
  have hself := hb.self_lt
  have hfits := hb.fits
  have hload : (carve m heap bytes).load64 (heap.mem + heap.cur + 8) =
      sub64 heap.self (heap.mem + heap.cur + 8) :=
    Memory.load64_store64_same (Nat.mod_lt _ (by decide))
  rw [hh, hload, sub64]
  omega

/-- Growing the used part of the block keeps the chunks that are there. -/
theorem Shape.grow (hs : Shape m heap chunks) {bytes : Nat} (hd : heap.page ∣ bytes)
    (hfit : heap.cur + bytes ≤ heap.size) :
    Shape m { heap with cur := heap.cur + bytes } chunks := by
  refine ⟨⟨hs.block.page, hs.block.fits, hs.block.size_lt, hs.block.self_lt⟩, hfit, ?_,
    hs.array.trans (Nat.le_add_right _ _), fun p hp => ?_, hs.apart⟩
  · show heap.page ∣ heap.mem + (heap.cur + bytes) + 24
    have := Nat.dvd_add hs.cur_aligned hd
    rwa [show heap.mem + (heap.cur + bytes) + 24 = heap.mem + heap.cur + 24 + bytes by omega]
  · have hc := hs.chunk p hp
    have hhi := hc.hi
    refine ⟨hc.lo, ?_, hc.aligned, hc.rounded, hc.owner⟩
    show p + getChunkSize m p ≤ heap.mem + (heap.cur + bytes)
    omega

theorem Shape.carve (hs : Shape m heap chunks) {req : Nat}
    (hfit : heap.cur + heap.getAllocBytes req ≤ heap.size)
    (h0 : 0 ≤ heap.getIndex req) (hr : heap.getIndex req < heap.getIndex heap.size) :
    Shape (Xheap.carve m heap (heap.getAllocBytes req))
      { heap with cur := heap.cur + heap.getAllocBytes req }
      ((heap.mem + heap.cur + sizeofHeader) :: chunks) := by
  have hge := heap.le_getAllocBytes req
  have hlt := hs.block.size_lt
  have hsize := getChunkSize_carve m heap (show heap.getAllocBytes req < 2 ^ 64 by omega)
  have howner := owner_carve m hs.block (heap.getAllocBytes req) (by omega)
  have hframe : Shape (Xheap.carve m heap (heap.getAllocBytes req)) heap chunks :=
    hs.congr fun q hq x _ hx => carve_outside (by have := (hs.chunk q hq).hi; omega)
  have hold := hframe.grow (heap.page_dvd_getAllocBytes req) hfit
  have hbelow (p : Nat) (hp : p ∈ chunks) :
      p + getChunkSize (Xheap.carve m heap (heap.getAllocBytes req)) p ≤ heap.mem + heap.cur := by
    have hc := hs.chunk p hp
    have hhi := hc.hi
    have hlo := hc.lo
    have hsame : getChunkSize (Xheap.carve m heap (heap.getAllocBytes req)) p =
        getChunkSize m p :=
      getChunkSize_congr (by omega) fun x _ hx => carve_outside (by omega)
    omega
  have harray := hs.array
  simp only [sizeofHeader] at hsize howner ⊢
  refine ⟨hold.block, hold.cur_le, hold.cur_aligned, hold.array, ?_, ?_⟩
  · refine List.forall_mem_cons.mpr ⟨⟨?_, ?_, hs.cur_aligned, ⟨req, ?_, h0, hr⟩, howner⟩,
      hold.chunk⟩
    · rw [nrLists_cur]
      dsimp only
      omega
    · rw [hsize]
      show _ ≤ heap.mem + (heap.cur + heap.getAllocBytes req)
      omega
    · rw [hsize]
      exact Nat.sub_add_cancel (by omega)
  · refine List.forall_mem_cons.mpr ⟨List.forall_mem_cons.mpr ⟨fun hne => absurd rfl hne,
      fun q hq _ => ?_⟩, fun p hp => List.forall_mem_cons.mpr ⟨fun _ => ?_, hold.apart p hp⟩⟩
    · have := hbelow q hq
      omega
    · have := hbelow p hp
      omega

theorem Inv.carve (hi : Inv L s) {req : Nat}
    (hfit : s.heap.cur + s.heap.getAllocBytes req ≤ s.heap.size)
    (h0 : 0 ≤ s.heap.getIndex req) (hr : s.heap.getIndex req < s.heap.getIndex s.heap.size) :
    Inv L { s with
      memory := Xheap.carve s.memory s.heap (s.heap.getAllocBytes req)
      heap := { s.heap with cur := s.heap.cur + s.heap.getAllocBytes req }
      chunks := (s.heap.mem + s.heap.cur + sizeofHeader) :: s.chunks } := by
  have hbelow (p : Nat) (hp : p ∈ s.chunks) := (hi.shape.chunk p hp).hi
  have hframe : Inv L { s with
      memory := Xheap.carve s.memory s.heap (s.heap.getAllocBytes req) } := hi.congr
    (fun p hp x _ hx => carve_outside (by have := hbelow p hp; omega))
    (fun r hr => Memory.load64_congr fun x _ hx => carve_outside (by
      have := hi.shape.array
      omega))
    fun r hr p hp => Memory.load64_congr fun x _ hx => carve_outside (by
      have hpm := (hi.listed r hr p hp).1
      have := hbelow p hpm
      have := (hi.shape.chunk p hpm).size_ge hi.shape.block
      omega)
  exact ⟨hi.shape.carve hfit h0 hr, hframe.linked,
    fun r hr p hp => ⟨List.mem_cons_of_mem _ (hi.listed r hr p hp).1, (hi.listed r hr p hp).2⟩,
    hi.nodup, hi.once,
    fun c hc => ⟨List.mem_cons_of_mem _ (hi.live c hc).1, (hframe.live c hc).2⟩, hi.live_nodup⟩

theorem Inv.hand (hi : Inv L s) {bytes : Nat} (hp : p ∈ s.chunks)
    (hlive : ∀ c ∈ s.live, c.1 ≠ p) (hfree : ∀ r < s.heap.nrLists, p ∉ L r)
    (hsize : bytes ≤ getChunkSize s.memory p) {cs : List Nat} (hcs : ∀ q, q ∈ cs ↔ q ∈ s.chunks) :
    Inv L { s with live := (p, bytes) :: s.live, chunks := cs } := by
  have hs := hi.shape
  refine ⟨⟨hs.block, hs.cur_le, hs.cur_aligned, hs.array, fun q hq => hs.chunk q ((hcs q).mp hq),
      fun q hq q' hq' => hs.apart q ((hcs q).mp hq) q' ((hcs q').mp hq')⟩, hi.linked,
    fun r hr q hq => ⟨(hcs q).mpr (hi.listed r hr q hq).1, ?_⟩, hi.nodup, hi.once, ?_, ?_⟩
  · refine List.forall_mem_cons.mpr ⟨?_, (hi.listed r hr q hq).2⟩
    rintro rfl
    exact hfree r hr hq
  · exact List.forall_mem_cons.mpr ⟨⟨(hcs p).mpr hp, hsize⟩,
      fun c hc => ⟨(hcs c.1).mpr (hi.live c hc).1, (hi.live c hc).2⟩⟩
  · rw [List.map_cons, List.nodup_cons]
    refine ⟨fun hmem => ?_, hi.live_nodup⟩
    obtain ⟨c, hc, hcp⟩ := List.mem_map.mp hmem
    exact hlive c hc hcp

theorem Inv.giveBack (hi : Inv L s) (p : Nat) :
    Inv L { s with live := s.live.filter (·.1 ≠ p) } := by
  have hsub {c : Nat × Nat} (hc : c ∈ s.live.filter (·.1 ≠ p)) : c ∈ s.live :=
    (List.mem_filter.mp hc).1
  refine ⟨hi.shape, hi.linked, fun r hr q hq => ⟨(hi.listed r hr q hq).1, fun c hc =>
    (hi.listed r hr q hq).2 c (hsub hc)⟩, hi.nodup, hi.once, fun c hc => hi.live c (hsub hc), ?_⟩
  exact hi.live_nodup.sublist (List.filter_sublist.map Prod.fst)

end Xheap

end Libxseg
