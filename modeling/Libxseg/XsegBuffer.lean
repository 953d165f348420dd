import Libxseg.XheapConservation
import Libxseg.Xseg

/-!
# Buffers of requests: xseg_alloc_buffer, xseg_prep_request and xseg_resize_request

The length that a request asks for is any 64-bit number, so the arithmetic of the heap
is taken here with its wrap-around; `allocate64_eq` says that it is the heap of the other
modules for sizes far from 2^64.
-/

namespace Libxseg

set_option autoImplicit false

namespace Xheap
variable {m : Memory} {heap : Xheap} {bytes : Nat}

/-- The macro `__align` for a word. -/
def align64 (x shift : Nat) : Nat := (((sub64 x 1 >>> shift) + 1) <<< shift) % 2 ^ 64

def getAllocBytes64 (xheap : Xheap) (bytes : Nat) : Nat :=
  let total := (bytes + sizeofHeader) % 2 ^ 64
  if bytes < 1 <<< (xheap.alignment_unit + SMALL_LIMIT) then
    align64 total xheap.alignment_unit
  else if bytes < 1 <<< (xheap.alignment_unit + MEDIUM_LIMIT) then
    align64 total (xheap.alignment_unit + MEDIUM_AL_UNIT)
  else
    align64 total (xheap.alignment_unit + LARGE_AL_UNIT)

def getIndex64 (heap : Xheap) (bytes : Nat) : Int :=
  Int.bmod (heap.classOf (sub64 (heap.getAllocBytes64 bytes) sizeofHeader)) (2 ^ 32)

def carve64 (m : Memory) (heap : Xheap) (size : Nat) : Memory := carve m heap (size + sizeofHeader)

def allocateChunk64 (m : Memory) (heap : Xheap) (bytes : Nat) : Nat × Memory × Xheap :=
  let r := heap.getIndex64 bytes
  let head := m.load64 (heap.freeList r)
  if head = 0 then
    let bytes := heap.getAllocBytes64 bytes
    if (heap.cur + bytes) % 2 ^ 64 > heap.size then (0, m, heap)
    else
      (heap.mem + heap.cur + sizeofHeader, carve64 m heap (sub64 bytes sizeofHeader),
        { heap with cur := (heap.cur + bytes) % 2 ^ 64 })
  else if head > heap.cur then (0, m, heap)
  else
    let next := m.load64 (heap.mem + head)
    (heap.mem + head, m.store64 (heap.freeList r) next, heap)

/-- `xheap_allocate` -/
def allocate64 (m : Memory) (heap : Xheap) (req_bytes : Nat) : Nat × Memory × Xheap :=
  let (addr, m, heap) := allocateChunk64 m heap req_bytes
  if addr ≠ 0 ∧ getChunkSize m addr < req_bytes then (0, m, heap)
  else if addr ≠ 0 ∧
      getChunkSize m addr ≠ sub64 (heap.getAllocBytes64 req_bytes) sizeofHeader then
    (0, m, heap)
  else (addr, m, heap)

/-- `xheap_free` -/
def free64 (m : Memory) (heap : Xheap) (ptr : Nat) : Option Memory :=
  let h := ptr - sizeofHeader
  if (m.load64 (h + 8) + (h + 8)) % 2 ^ 64 = heap.self then
    let size := getChunkSize m ptr
    let r := heap.getIndex64 size
    some (addInFreeList m heap (heap.freeList r) ptr)
  else none

/-- The size that `xheap_allocate` checks for. -/
def chunkSize64 (heap : Xheap) (bytes : Nat) : Nat :=
  sub64 (heap.getAllocBytes64 bytes) sizeofHeader

/-- The chunk that the heap would give for a size passes the checks: the first one of the free
list of its class, or a new one if that list is empty. -/
def Fits (m : Memory) (heap : Xheap) (bytes : Nat) : Prop :=
  let cell := heap.freeList (heap.getIndex64 bytes)
  let head := m.load64 cell
  let size := getChunkSize (m.store64 cell (m.load64 (heap.mem + head))) (heap.mem + head)
  (head = 0 ∧ (heap.cur + heap.getAllocBytes64 bytes) % 2 ^ 64 ≤ heap.size ∧
      bytes ≤ heap.chunkSize64 bytes) ∨
    (head ≠ 0 ∧ head ≤ heap.cur ∧ bytes ≤ size ∧ size = heap.chunkSize64 bytes)

theorem getChunkSize_carve64 (m : Memory) (heap : Xheap) {size : Nat} (hlt : size < 2 ^ 64) :
    getChunkSize (carve64 m heap size) (heap.mem + heap.cur + sizeofHeader) = size := by
  rw [getChunkSize, Nat.add_sub_cancel, carve64, carve, Nat.add_sub_cancel,
    Memory.load64_store64_other (by omega), Memory.load64_store64_other (by omega),
    Memory.load64_store64_same hlt]

theorem chunkSize64_lt (heap : Xheap) (bytes : Nat) : heap.chunkSize64 bytes < 2 ^ 64 :=
  Nat.mod_lt _ (Nat.two_pow_pos 64)

theorem allocate64_of_chunk {m' : Memory} {heap' : Xheap} {p : Nat}
    (h : allocateChunk64 m heap bytes = (p, m', heap'))
    (halign : heap'.alignment_unit = heap.alignment_unit) :
    (allocate64 m heap bytes).1 ≠ 0 ↔
      p ≠ 0 ∧ bytes ≤ getChunkSize m' p ∧ getChunkSize m' p = heap.chunkSize64 bytes := by
  have hbytes : heap'.chunkSize64 bytes = heap.chunkSize64 bytes := by
    unfold chunkSize64 getAllocBytes64
    rw [halign]
  unfold allocate64
  rw [h]
  dsimp only
  rw [show sub64 (heap'.getAllocBytes64 bytes) sizeofHeader = heap'.chunkSize64 bytes from rfl,
    hbytes]
  by_cases hp : p = 0
  · simp [hp]
  · by_cases hsmall : getChunkSize m' p < bytes
    · rw [if_pos ⟨hp, hsmall⟩]
      simp only [ne_eq, not_true_eq_false, false_iff, not_and]
      omega
    · rw [if_neg fun hc => hsmall hc.2]
      by_cases hsize : getChunkSize m' p = heap.chunkSize64 bytes
      · rw [if_neg fun hc => hc.2 hsize]
        simp only [ne_eq, hp, not_false_eq_true, true_and, true_iff]
        exact ⟨Nat.le_of_not_lt hsmall, hsize⟩
      · rw [if_pos ⟨hp, hsize⟩]
        simp only [ne_eq, not_true_eq_false, false_iff, not_and]
        exact fun _ _ => hsize

/-! The ways through `xheap_allocate`, by the head of the free list. -/

theorem allocateChunk64_full (hhead : m.load64 (heap.freeList (heap.getIndex64 bytes)) = 0)
    (hfull : (heap.cur + heap.getAllocBytes64 bytes) % 2 ^ 64 > heap.size) :
    allocateChunk64 m heap bytes = (0, m, heap) := by
  unfold allocateChunk64
  dsimp only
  rw [if_pos hhead, if_pos hfull]

theorem allocateChunk64_carve (hhead : m.load64 (heap.freeList (heap.getIndex64 bytes)) = 0)
    (hfit : ¬ (heap.cur + heap.getAllocBytes64 bytes) % 2 ^ 64 > heap.size) :
    allocateChunk64 m heap bytes = (heap.mem + heap.cur + sizeofHeader,
      carve64 m heap (heap.chunkSize64 bytes),
      { heap with cur := (heap.cur + heap.getAllocBytes64 bytes) % 2 ^ 64 }) := by
  unfold allocateChunk64
  dsimp only
  rw [if_pos hhead, if_neg hfit]
  rfl

theorem allocateChunk64_bad (hhead : m.load64 (heap.freeList (heap.getIndex64 bytes)) ≠ 0)
    (hbad : m.load64 (heap.freeList (heap.getIndex64 bytes)) > heap.cur) :
    allocateChunk64 m heap bytes = (0, m, heap) := by
  unfold allocateChunk64
  dsimp only
  rw [if_neg hhead, if_pos hbad]

theorem allocateChunk64_pop (hhead : m.load64 (heap.freeList (heap.getIndex64 bytes)) ≠ 0)
    (hle : ¬ m.load64 (heap.freeList (heap.getIndex64 bytes)) > heap.cur) :
    allocateChunk64 m heap bytes = (heap.mem + m.load64 (heap.freeList (heap.getIndex64 bytes)),
      m.store64 (heap.freeList (heap.getIndex64 bytes))
        (m.load64 (heap.mem + m.load64 (heap.freeList (heap.getIndex64 bytes)))), heap) := by
  unfold allocateChunk64
  dsimp only
  rw [if_neg hhead, if_neg hle]

theorem allocate64_ne_zero : (allocate64 m heap bytes).1 ≠ 0 ↔ Fits m heap bytes := by
  unfold Fits
  dsimp only
  by_cases hhead : m.load64 (heap.freeList (heap.getIndex64 bytes)) = 0
  · rw [or_iff_left fun h => h.1 hhead]
    by_cases hfull : (heap.cur + heap.getAllocBytes64 bytes) % 2 ^ 64 > heap.size
    · rw [allocate64_of_chunk (allocateChunk64_full hhead hfull) rfl]
      omega
    · rw [allocate64_of_chunk (allocateChunk64_carve hhead hfull) rfl,
        getChunkSize_carve64 _ _ (chunkSize64_lt _ _)]
      unfold sizeofHeader
      omega
  · rw [or_iff_right fun h => hhead h.1]
    by_cases hbad : m.load64 (heap.freeList (heap.getIndex64 bytes)) > heap.cur
    · rw [allocate64_of_chunk (allocateChunk64_bad hhead hbad) rfl]
      omega
    · rw [allocate64_of_chunk (allocateChunk64_pop hhead hbad) rfl]
      omega

theorem allocateChunk64_unit (m : Memory) (heap : Xheap) (bytes : Nat) :
    (allocateChunk64 m heap bytes).2.2.alignment_unit = heap.alignment_unit := by
  unfold allocateChunk64
  dsimp only
  split
  · split <;> rfl
  · split <;> rfl

theorem allocate64_eq_chunk (h : (allocate64 m heap bytes).1 ≠ 0) :
    allocate64 m heap bytes = allocateChunk64 m heap bytes := by
  unfold allocate64 at h ⊢
  generalize allocateChunk64 m heap bytes = result at h ⊢
  dsimp only at h ⊢
  split at h
  · exact absurd rfl h
  · rename_i hlarge
    rw [if_neg hlarge]
    split at h
    · exact absurd rfl h
    · rename_i hsame
      rw [if_neg hsame]

/-- `xheap_allocate` checks that the chunk is large enough, and that it has the size that the
request is rounded to. -/
theorem allocate64_size (h : (allocate64 m heap bytes).1 ≠ 0) :
    bytes ≤ getChunkSize (allocate64 m heap bytes).2.1 (allocate64 m heap bytes).1 ∧
      getChunkSize (allocate64 m heap bytes).2.1 (allocate64 m heap bytes).1 =
        heap.chunkSize64 bytes := by
  rcases hchunk : allocateChunk64 m heap bytes with ⟨p, m', heap'⟩
  have hunit := allocateChunk64_unit m heap bytes
  rw [hchunk] at hunit
  have hchecked := (allocate64_of_chunk hchunk hunit).mp h
  rw [allocate64_eq_chunk h, hchunk]
  exact hchecked.2

/-- The second check of the size, in `xseg_alloc_buffer`, comes after the first one. -/
theorem le_getChunkSize_allocate64 (h : (allocate64 m heap bytes).1 ≠ 0) :
    bytes ≤ getChunkSize (allocate64 m heap bytes).2.1 (allocate64 m heap bytes).1 :=
  (allocate64_size h).1

theorem getChunkSize_allocate64 (h : (allocate64 m heap bytes).1 ≠ 0) :
    getChunkSize (allocate64 m heap bytes).2.1 (allocate64 m heap bytes).1 =
      heap.chunkSize64 bytes :=
  (allocate64_size h).2

theorem sub64_eq {a b : Nat} (ha : a < 2 ^ 64) (hb : b ≤ a) : sub64 a b = a - b := by
  unfold sub64
  omega

theorem align64_eq {x shift : Nat} (hpos : 0 < x) (hx : x < 2 ^ 64) (h : align x shift < 2 ^ 64) :
    align64 x shift = align x shift := by
  unfold align64
  rw [sub64_eq hx hpos]
  exact Nat.mod_eq_of_lt h

theorem getAllocBytes64_eq (h : heap.getAllocBytes bytes < 2 ^ 64) :
    heap.getAllocBytes64 bytes = heap.getAllocBytes bytes := by
  have hge : bytes + sizeofHeader ≤ heap.getAllocBytes bytes := heap.le_getAllocBytes bytes
  have hpos : 0 < bytes + sizeofHeader := Nat.add_pos_right _ (by decide)
  have hlt : bytes + sizeofHeader < 2 ^ 64 := Nat.lt_of_le_of_lt hge h
  unfold getAllocBytes at h
  unfold getAllocBytes64 getAllocBytes
  rw [Nat.mod_eq_of_lt hlt]
  dsimp only
  by_cases hsmall : bytes < 1 <<< (heap.alignment_unit + SMALL_LIMIT)
  · rw [if_pos hsmall] at h
    rw [if_pos hsmall, if_pos hsmall, align64_eq hpos hlt h]
  · rw [if_neg hsmall] at h
    rw [if_neg hsmall, if_neg hsmall]
    by_cases hmedium : bytes < 1 <<< (heap.alignment_unit + MEDIUM_LIMIT)
    · rw [if_pos hmedium] at h
      rw [if_pos hmedium, if_pos hmedium, align64_eq hpos hlt h]
    · rw [if_neg hmedium] at h
      rw [if_neg hmedium, if_neg hmedium, align64_eq hpos hlt h]

theorem allocateChunk_unit (m : Memory) (heap : Xheap) (bytes : Nat) :
    (allocateChunk m heap bytes).2.2.alignment_unit = heap.alignment_unit := by
  unfold allocateChunk
  dsimp only
  split
  · split <;> rfl
  · split <;> rfl

theorem getIndex64_eq (h : heap.getAllocBytes bytes < 2 ^ 64) :
    heap.getIndex64 bytes = heap.getIndex bytes := by
  have hge : bytes + sizeofHeader ≤ heap.getAllocBytes bytes := heap.le_getAllocBytes bytes
  unfold getIndex64 getIndex
  rw [getAllocBytes64_eq h, sub64_eq h (Nat.le_of_add_left_le hge)]

/-- Without a wrap-around it is the allocation of the other modules. The room in the block matters
only if the free list is empty. -/
theorem allocate64_eq (m : Memory) (hlt : heap.getAllocBytes bytes < 2 ^ 64)
    (h : m.load64 (heap.freeList (heap.getIndex bytes)) = 0 →
      heap.cur + heap.getAllocBytes bytes < 2 ^ 64) :
    allocate64 m heap bytes = allocate m heap bytes := by
  have halloc := getAllocBytes64_eq hlt
  have hge : bytes + sizeofHeader ≤ heap.getAllocBytes bytes := heap.le_getAllocBytes bytes
  have hheader : sizeofHeader ≤ heap.getAllocBytes bytes := Nat.le_of_add_left_le hge
  have hchunk : allocateChunk64 m heap bytes = allocateChunk m heap bytes := by
    unfold allocateChunk64 allocateChunk carve64
    dsimp only
    rw [getIndex64_eq hlt, halloc, sub64_eq hlt hheader, Nat.sub_add_cancel hheader]
    by_cases hhead : m.load64 (heap.freeList (heap.getIndex bytes)) = 0
    · rw [if_pos hhead, if_pos hhead, Nat.mod_eq_of_lt (h hhead)]
    · rw [if_neg hhead, if_neg hhead]
  have hunit := allocateChunk_unit m heap bytes
  unfold allocate64 allocate
  rw [hchunk]
  generalize allocateChunk m heap bytes = r at hunit ⊢
  have hsize : sub64 (r.2.2.getAllocBytes64 bytes) sizeofHeader =
      r.2.2.getAllocBytes bytes - sizeofHeader := by
    have hword : r.2.2.getAllocBytes64 bytes = heap.getAllocBytes64 bytes := by
      unfold getAllocBytes64
      rw [hunit]
    have hnat : r.2.2.getAllocBytes bytes = heap.getAllocBytes bytes := by
      unfold getAllocBytes
      rw [hunit]
    rw [hword, hnat, halloc, sub64_eq hlt hheader]
  dsimp only
  rw [hsize]

end Xheap

open Xheap

namespace XheapSession

/-- `xseg_alloc_buffer`; `none` if it gives back a chunk of another heap. -/
def allocBuffer (s : XheapSession) (size : Nat) : Option (Nat × XheapSession) :=
  let (mem, memory, heap) := allocate64 s.memory s.heap size
  if mem ≠ 0 ∧ getChunkSize memory mem < size then
    (free64 memory heap mem).map fun memory => (0, { s with memory := memory, heap := heap })
  else some (mem, s.handOut size mem memory heap)

def freeBuffer (s : XheapSession) (ptr : Nat) : Option XheapSession :=
  if ptr = 0 then some s
  else (free64 s.memory s.heap ptr).map fun memory =>
    { s with memory := memory, live := s.live.filter (·.1 ≠ ptr) }

end XheapSession

namespace Payload

def bufferAddr (req : Payload) (segment : UInt64) : Nat := (segment + req.buffer).toNat

def prepRequest (segment : UInt64) (s : XheapSession) (req : Payload) (targetlen : UInt32)
    (datalen : UInt64) : Option (Int × XheapSession × Payload) :=
  let bufferlen := targetlen.toUInt64 + datalen
  let req := { req with buffer := 0, bufferlen := 0 }
  (s.allocBuffer bufferlen.toNat).map fun (buf, s) =>
    if buf = 0 then (-1, s, req)
    else
      let bufferlen := UInt64.ofNat (getChunkSize s.memory buf)
      let buffer := UInt64.ofNat buf - segment
      (0, s, { req with
        bufferlen := bufferlen
        buffer := buffer
        data := buffer
        target := buffer + bufferlen - targetlen.toUInt64
        datalen := datalen
        targetlen := targetlen })

def release (segment : UInt64) (s : XheapSession) (req : Payload) : Option XheapSession :=
  if req.buffer ≠ 0 then s.freeBuffer (req.bufferAddr segment) else some s

def resizeRequest (segment : UInt64) (s : XheapSession) (req : Payload) (new_targetlen : UInt32)
    (new_datalen : UInt64) : Option (Int × XheapSession × Payload) :=
  if new_datalen + new_targetlen.toUInt64 ≤ req.bufferlen then
    some (0, s, { req with
      data := req.buffer
      target := req.buffer + req.bufferlen - new_targetlen.toUInt64
      datalen := new_datalen
      targetlen := new_targetlen })
  else
    (req.release segment s).bind fun s =>
      let req := { req with buffer := 0, bufferlen := 0 }
      prepRequest segment s req new_targetlen new_datalen

def SameBuffer (req req' : Payload) : Prop :=
  req'.buffer = req.buffer ∧ req'.bufferlen = req.bufferlen ∧ req'.data = req.data ∧
    req'.target = req.target ∧ req'.datalen = req.datalen ∧ req'.targetlen = req.targetlen

def ResizeAtomic (segment : UInt64) (s : XheapSession) (req : Payload) (new_targetlen : UInt32)
    (new_datalen : UInt64) : Prop :=
  ∀ s' req', resizeRequest segment s req new_targetlen new_datalen = some (-1, s', req') →
    SameBuffer req req' ∧ (req.buffer ≠ 0 → s'.Live (req.bufferAddr segment))

def OwnBuffer (segment : UInt64) (s : XheapSession) (req : Payload) : Prop :=
  req.buffer ≠ 0 →
    let h := req.bufferAddr segment - sizeofHeader
    (s.memory.load64 (h + 8) + (h + 8)) % 2 ^ 64 = s.heap.self

def RoomFor (segment : UInt64) (s : XheapSession) (req : Payload) (bufferlen : UInt64) : Prop :=
  ∃ s', req.release segment s = some s' ∧ Fits s'.memory s'.heap bufferlen.toNat

section Resize
variable {segment : UInt64} {s : XheapSession} {req : Payload} {targetlen : UInt32}
  {datalen : UInt64}

theorem allocBuffer_eq (s : XheapSession) (size : Nat) :
    s.allocBuffer size = some ((allocate64 s.memory s.heap size).1,
      s.handOut size (allocate64 s.memory s.heap size).1 (allocate64 s.memory s.heap size).2.1
        (allocate64 s.memory s.heap size).2.2) := by
  have hlarge (h : (allocate64 s.memory s.heap size).1 ≠ 0) :
      size ≤ getChunkSize (allocate64 s.memory s.heap size).2.1
        (allocate64 s.memory s.heap size).1 := le_getChunkSize_allocate64 h
  unfold XheapSession.allocBuffer
  generalize allocate64 s.memory s.heap size = r at hlarge ⊢
  exact if_neg fun h => absurd (hlarge h.1) (Nat.not_le_of_lt h.2)

/-- A request gets a buffer if the heap has a chunk for it, and has none otherwise. -/
theorem prepRequest_cases (segment : UInt64) (s : XheapSession) (req : Payload)
    (targetlen : UInt32) (datalen : UInt64) :
    (Fits s.memory s.heap (targetlen.toUInt64 + datalen).toNat ∧
        ∃ s' req', prepRequest segment s req targetlen datalen = some (0, s', req')) ∨
      (¬ Fits s.memory s.heap (targetlen.toUInt64 + datalen).toNat ∧
        ∃ s', prepRequest segment s req targetlen datalen =
          some (-1, s', { req with buffer := 0, bufferlen := 0 })) := by
  have hfits : (allocate64 s.memory s.heap (targetlen.toUInt64 + datalen).toNat).1 ≠ 0 ↔
      Fits s.memory s.heap (targetlen.toUInt64 + datalen).toNat := allocate64_ne_zero
  unfold prepRequest
  dsimp only
  rw [allocBuffer_eq, Option.map_some]
  generalize allocate64 s.memory s.heap (targetlen.toUInt64 + datalen).toNat = r at hfits ⊢
  by_cases hbuf : r.1 = 0
  · refine .inr ⟨fun h => hfits.mpr h hbuf, _, congrArg some (if_pos hbuf)⟩
  · refine .inl ⟨hfits.mp hbuf, ?_⟩
    rw [if_neg hbuf]
    exact ⟨_, _, rfl⟩

theorem release_isSome (hown : OwnBuffer segment s req) :
    ∃ s', req.release segment s = some s' := by
  unfold release XheapSession.freeBuffer
  by_cases hbuffer : req.buffer = 0
  · exact ⟨s, if_neg (not_not_intro hbuffer)⟩
  · rw [if_pos hbuffer]
    by_cases hnull : req.bufferAddr segment = 0
    · exact ⟨s, if_pos hnull⟩
    · rw [if_neg hnull]
      unfold free64
      dsimp only
      rw [if_pos (hown hbuffer), Option.map_some]
      exact ⟨_, rfl⟩

/-- A call fails safely exactly if it does not fail, or if there was no buffer before. -/
theorem resizeAtomic_iff (hown : OwnBuffer segment s req) :
    ResizeAtomic segment s req targetlen datalen ↔
      datalen + targetlen.toUInt64 ≤ req.bufferlen ∨ (req.buffer = 0 ∧ req.bufferlen = 0) ∨
        RoomFor segment s req (targetlen.toUInt64 + datalen) := by
  obtain ⟨s₁, hs₁⟩ := release_isSome hown
  unfold ResizeAtomic
  by_cases hfit : datalen + targetlen.toUInt64 ≤ req.bufferlen
  · refine iff_of_true ?_ (.inl hfit)
    intro s' req' h
    unfold resizeRequest at h
    rw [if_pos hfit] at h
    have hret : (0 : Int) = -1 := congrArg Prod.fst (Option.some.inj h)
    exact absurd hret (by decide)
  · have hresize : resizeRequest segment s req targetlen datalen =
        prepRequest segment s₁ { req with buffer := 0, bufferlen := 0 } targetlen datalen := by
      unfold resizeRequest
      rw [if_neg hfit, hs₁, Option.bind_some]
    have hroom : RoomFor segment s req (targetlen.toUInt64 + datalen) ↔
        Fits s₁.memory s₁.heap (targetlen.toUInt64 + datalen).toNat := by
      unfold RoomFor
      rw [hs₁]
      constructor
      · rintro ⟨s', heq, hfits⟩
        obtain rfl := Option.some.inj heq
        exact hfits
      · exact fun hfits => ⟨s₁, rfl, hfits⟩
    rw [hresize, hroom, or_iff_right hfit]
    rcases prepRequest_cases segment s₁ { req with buffer := 0, bufferlen := 0 } targetlen datalen
      with ⟨hfits, s₂, req₂, hprep⟩ | ⟨hfits, s₂, hprep⟩
    · refine iff_of_true ?_ (.inr hfits)
      rw [hprep]
      intro s' req' h
      have hret : (0 : Int) = -1 := congrArg Prod.fst (Option.some.inj h)
      exact absurd hret (by decide)
    · rw [hprep, or_iff_left hfits]
      constructor
      · intro hatomic
        obtain ⟨⟨hbuffer, hbufferlen, -⟩, -⟩ := hatomic _ _ rfl
        exact ⟨hbuffer.symm, hbufferlen.symm⟩
      · rintro ⟨hbuffer, hbufferlen⟩ s' req' h
        have hreq : { req with buffer := 0, bufferlen := 0 } = req' :=
          congrArg (fun r => r.2.2) (Option.some.inj h)
        subst hreq
        exact ⟨⟨hbuffer.symm, hbufferlen.symm, rfl, rfl, rfl, rfl⟩, fun hne => absurd hbuffer hne⟩

end Resize

def smallSession : XheapSession :=
  ((XheapSession.start XheapSession.smallStart.2.1 (XheapSession.smallHeap 456)).allocBuffer 40).elim
    (XheapSession.start XheapSession.smallStart.2.1 (XheapSession.smallHeap 456)) Prod.snd

def smallRequest : Payload where
  buffer := 4576
  bufferlen := 40
  target := 4608
  data := 4576
  datalen := 32
  targetlen := 8
  state := 0
  elapsed := 0
  tvSec := 0
  tvUsec := 0
  flags := 0
  serviced := 0
  v0Size := 0

theorem smallRequest_own : OwnBuffer 0 smallSession smallRequest := by
  intro _
  decide +kernel

theorem resizeAtomic_small : ResizeAtomic 0 smallSession smallRequest 8 24 :=
  (resizeAtomic_iff smallRequest_own).mpr (.inl (by decide))

/-- There is no room for 8192 bytes, and the old buffer is given back. -/
theorem not_resizeAtomic : ¬ ∀ (segment : UInt64) (s : XheapSession) (req : Payload)
    (targetlen : UInt32) (datalen : UInt64), OwnBuffer segment s req →
    ResizeAtomic segment s req targetlen datalen := by
  intro hall
  have hfailed : (resizeRequest 0 smallSession smallRequest 8 8192).map
      (fun r => (r.1, r.2.2.buffer)) = some (-1, 0) := by decide +kernel
  obtain ⟨⟨ret, s', req'⟩, hcall, hret⟩ := Option.map_eq_some_iff.mp hfailed
  obtain ⟨rfl, hbuffer⟩ := Prod.mk.inj hret
  obtain ⟨⟨hsame, -⟩, -⟩ := hall 0 smallSession smallRequest 8 8192 smallRequest_own s' req' hcall
  exact absurd (hbuffer.symm.trans hsame) (by decide)

end Payload

end Libxseg
