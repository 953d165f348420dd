import Libxseg.Relocation
import Libxseg.XheapContents
import Libxseg.XsegBuffer

/-!
# One heap in the address spaces of several processes

A segment is mapped by every process that joins it, at an address that the kernel chooses. The
structures in it hold offsets: the header of a chunk the distance to the heap, a list head and a
free chunk the distance from the start of the block. `xheap_allocate` and `xheap_free` are run
here by processes that see the block at addresses of their own, and what one of them does is
seen by all.
-/

namespace Libxseg

set_option autoImplicit false

namespace Xheap

def moved (heap : Xheap) (δ : Int) : Xheap :=
  { heap with mem := move δ heap.mem, self := move δ heap.self }

structure Maps (heap : Xheap) (δ : Int) : Prop where
  mem_nonneg : 0 ≤ heap.mem + δ
  block_le : heap.mem + heap.size + δ ≤ 2 ^ 64
  self_nonneg : 0 ≤ heap.self + δ
  self_lt : heap.self + δ < 2 ^ 64

def movePtr (δ : Int) (p : Nat) : Nat := if p = 0 then 0 else move δ p

def Shown (heap : Xheap) (δ : Int) (m m' : Memory) : Prop :=
  Memory.Shows heap.mem (heap.mem + heap.size) δ m m'

def Private (heap : Xheap) (δ : Int) (x : Nat) : Prop :=
  Memory.Beyond heap.mem (heap.mem + heap.size) δ x

/-- What a call returned there and here, and that it wrote to nothing but the block. -/
structure SameCall (heap : Xheap) (δ : Int) (mine : Memory) (call mycall : Nat × Memory × Xheap) :
    Prop where
  ptr : mycall.1 = movePtr δ call.1
  inside : call.1 ≠ 0 → heap.mem + 24 ≤ call.1 ∧ call.1 ≤ heap.mem + heap.size
  shown : heap.Shown δ call.2.1 mycall.2.1
  left : mycall.2.2 = call.2.2.moved δ
  kept : ∀ x, heap.Private δ x → mycall.2.1 x = mine x

variable {m mine : Memory} {heap : Xheap} {δ : Int} {chunks : List Nat} {bytes p r : Nat}

theorem moved_getAllocBytes64 (heap : Xheap) (δ : Int) (bytes : Nat) :
    (heap.moved δ).getAllocBytes64 bytes = heap.getAllocBytes64 bytes := rfl

theorem moved_getIndex64 (heap : Xheap) (δ : Int) (bytes : Nat) :
    (heap.moved δ).getIndex64 bytes = heap.getIndex64 bytes := rfl

theorem sub64_move {a b : Nat} (ha : 0 ≤ a + δ) (hb : 0 ≤ b + δ) (hb' : b ≤ 2 ^ 64)
    (hb'' : b + δ ≤ 2 ^ 64) : sub64 (move δ a) (move δ b) = sub64 a b := by
  unfold sub64 move
  omega

/-- A word that holds the distance to an address names the moved address from a moved place. -/
theorem distance_move {a b word : Nat} (ha : 0 ≤ a + δ) (hb : 0 ≤ b + δ) (hb' : b + δ < 2 ^ 64)
    (h : (word + a) % 2 ^ 64 = b) : (word + move δ a) % 2 ^ 64 = move δ b := by
  unfold move
  omega

theorem moved_freeList (hmaps : heap.Maps δ) (hr : 8 * r + 8 ≤ heap.size) :
    (heap.moved δ).freeList r = move δ (heap.mem + 8 * r) := by
  have hmem := hmaps.mem_nonneg
  have hblock := hmaps.block_le
  rw [move_add hmem]
  apply freeList_natCast
  show move δ heap.mem + 8 * r < 2 ^ 64
  unfold move
  omega

theorem Shown.getChunkSize (h : heap.Shown δ m mine) (hmaps : heap.Maps δ)
    (hlo : heap.mem + 24 ≤ p) (hhi : p ≤ heap.mem + heap.size) :
    getChunkSize mine (move δ p) = getChunkSize m p := by
  have hmem := hmaps.mem_nonneg
  have hfield : move δ p - 24 + 16 = move δ (p - 24 + 16) := by
    rw [move_add (by omega), move_sub (by omega) (by omega)]
  unfold Xheap.getChunkSize sizeofHeader
  rw [hfield]
  exact h.load64 hmem (by omega) (by omega)

theorem Shown.carve (h : heap.Shown δ m mine) (hmaps : heap.Maps δ)
    (hfits : heap.mem + heap.size ≤ 2 ^ 64) (hcur : heap.cur + 24 ≤ heap.size) (bytes : Nat) :
    heap.Shown δ (carve m heap bytes) (carve mine (heap.moved δ) bytes) ∧
      ∀ x, heap.Private δ x → carve mine (heap.moved δ) bytes x = mine x := by
  have hmem := hmaps.mem_nonneg
  have hblock := hmaps.block_le
  have hheader : move δ heap.mem + heap.cur = move δ (heap.mem + heap.cur) := (move_add hmem).symm
  have hword (n : Nat) : move δ (heap.mem + heap.cur) + n = move δ (heap.mem + heap.cur + n) :=
    (move_add (by omega)).symm
  have howner : sub64 (move δ heap.self) (move δ (heap.mem + heap.cur + 8)) =
      sub64 heap.self (heap.mem + heap.cur + 8) :=
    sub64_move hmaps.self_nonneg (by omega) (by omega) (by omega)
  unfold Xheap.carve moved
  dsimp only
  rw [hheader, hword, hword, howner]
  constructor
  · apply Memory.Shows.store64 _ hmem (by omega) (by omega)
    apply Memory.Shows.store64 _ hmem (by omega) (by omega)
    exact Memory.Shows.store64 h hmem (by omega) (by omega)
  · intro x hx
    rw [Memory.store64_beyond hmem (by omega) (by omega) hx,
      Memory.store64_beyond hmem (by omega) (by omega) hx,
      Memory.store64_beyond hmem (by omega) (by omega) hx]

theorem SameCall.allocate64 (hmaps : heap.Maps δ)
    (h : heap.SameCall δ mine (allocateChunk64 m heap bytes)
      (allocateChunk64 mine (heap.moved δ) bytes)) :
    heap.SameCall δ mine (allocate64 m heap bytes) (allocate64 mine (heap.moved δ) bytes) := by
  have hmem := hmaps.mem_nonneg
  rcases hcall : allocateChunk64 m heap bytes with ⟨p, m', heap'⟩
  rcases hmycall : allocateChunk64 mine (heap.moved δ) bytes with ⟨p', mine', heap''⟩
  rw [hcall, hmycall] at h
  obtain ⟨hptr, hinside, hshown, hheap, hkept⟩ := h
  dsimp only at hptr hinside hshown hheap hkept
  unfold Xheap.allocate64
  rw [hcall, hmycall]
  dsimp only
  by_cases hp : p = 0
  · rw [hp, movePtr, if_pos rfl] at hptr
    rw [hp, hptr]
    simp only [ne_eq, not_true_eq_false, false_and, if_false]
    exact ⟨rfl, fun hne => absurd rfl hne, hshown, hheap, hkept⟩
  · obtain ⟨hlo, hhi⟩ := hinside hp
    have hp' : p' ≠ 0 := by
      rw [hptr, movePtr, if_neg hp]
      unfold move
      omega
    have hsize : Xheap.getChunkSize mine' p' = Xheap.getChunkSize m' p := by
      rw [hptr, movePtr, if_neg hp]
      exact hshown.getChunkSize hmaps hlo hhi
    rw [hsize, hheap, moved_getAllocBytes64]
    have hnull : heap.SameCall δ mine (0, m', heap') (0, mine', heap'.moved δ) :=
      ⟨rfl, fun hne => absurd rfl hne, hshown, rfl, hkept⟩
    by_cases hsmall : Xheap.getChunkSize m' p < bytes
    · rw [if_pos ⟨hp, hsmall⟩, if_pos ⟨hp', hsmall⟩]
      exact hnull
    · have hlarge (q : Nat) : ¬ (q ≠ 0 ∧ Xheap.getChunkSize m' p < bytes) := fun hc => hsmall hc.2
      rw [if_neg (hlarge p), if_neg (hlarge p')]
      by_cases hother : Xheap.getChunkSize m' p ≠ sub64 (heap'.getAllocBytes64 bytes) sizeofHeader
      · rw [if_pos ⟨hp, hother⟩, if_pos ⟨hp', hother⟩]
        exact hnull
      · have hexact (q : Nat) : ¬ (q ≠ 0 ∧ Xheap.getChunkSize m' p ≠
            sub64 (heap'.getAllocBytes64 bytes) sizeofHeader) := fun hc => hother hc.2
        rw [if_neg (hexact p), if_neg (hexact p')]
        exact ⟨hptr, hinside, hshown, rfl, hkept⟩

theorem Shape.chunk_inside (hs : Shape m heap chunks) (hp : p ∈ chunks) :
    heap.mem + 24 ≤ p ∧ p + 8 ≤ heap.mem + heap.size := by
  have hchunk := hs.chunk p hp
  have hlo := hchunk.lo
  have hhi := hchunk.hi
  have hsize := hchunk.size_ge hs.block
  have hcur := hs.cur_le
  omega

theorem Shape.cell_inside (hs : Shape m heap chunks) (hr : r < heap.nrLists) :
    8 * r + 8 ≤ heap.size := by
  have harray := hs.array
  have hcur := hs.cur_le
  omega

theorem Shape.getIndex64_eq (hs : Shape m heap chunks) (hp : p ∈ chunks)
    (hunit : heap.alignment_unit ≤ 20) :
    heap.getIndex64 (Xheap.getChunkSize m p) = heap.getIndex (Xheap.getChunkSize m p) := by
  have hhi := (hs.chunk p hp).hi
  have hcur := hs.cur_le
  have hsize := hs.block.size_lt
  have hlo := (hs.chunk p hp).lo
  exact Xheap.getIndex64_eq (getAllocBytes_lt hunit (by omega))

end Xheap

namespace XheapSession
open Xheap
variable {s s' mys mys' : XheapSession} {L : Nat → List Nat} {δ : Int} {mine : Memory} {bytes : Nat}

theorem Tame.cell (h : s.Tame bytes) (hi : Inv L s) : ∃ r < s.heap.nrLists,
    s.heap.getIndex64 bytes = r ∧ s.heap.freeList (s.heap.getIndex64 bytes) = s.heap.mem + 8 * r ∧
    8 * r + 8 ≤ s.heap.size := by
  obtain ⟨r, hr, hindex, hcell⟩ := freeList_eq hi.shape h.1.1 h.1.2
  exact ⟨r, hr, hindex, hcell, hi.shape.cell_inside hr⟩

/-- There is room for a header, as the rounded size of a request that fits does not wrap around. -/
theorem Tame.room (h : s.Tame bytes) (hi : Inv L s) (hunit : s.heap.alignment_unit ≤ 20)
    (hhead : s.memory.load64 (s.heap.freeList (s.heap.getIndex64 bytes)) = 0)
    (hfit : ¬ (s.heap.cur + s.heap.getAllocBytes64 bytes) % 2 ^ 64 > s.heap.size) :
    s.heap.cur + 24 ≤ s.heap.size := by
  have hroom := h.2
  split at hroom
  · rename_i hle
    have hsize := hi.shape.block.size_lt
    have hpage := hi.shape.block.page
    have hlt : s.heap.getAllocBytes bytes < 2 ^ 64 := getAllocBytes_lt hunit (by omega)
    have hsum := hroom hhead
    rw [getAllocBytes64_eq hlt] at hsum hfit
    have hge := s.heap.page_le_getAllocBytes bytes
    omega
  · exact absurd hroom.2 hfit

/-- The head of a list is a chunk, with its header and its first word inside the block. -/
theorem head_inside (hi : Inv L s) {r : Nat} (hr : r < s.heap.nrLists)
    (hhead : s.memory.load64 (s.heap.mem + 8 * r) ≠ 0) :
    24 ≤ s.memory.load64 (s.heap.mem + 8 * r) ∧
      s.memory.load64 (s.heap.mem + 8 * r) + 8 ≤ s.heap.size := by
  have hlinked := hi.linked r hr
  have hlisted := hi.listed r hr
  cases hl : L r with
  | nil =>
    rw [hl] at hlinked
    exact absurd hlinked hhead
  | cons p l =>
    rw [hl] at hlinked hlisted
    obtain ⟨-, hp, -⟩ := hlinked
    obtain ⟨hlo, hhi⟩ := hi.shape.chunk_inside (hlisted p List.mem_cons_self).1
    omega

theorem Tame.sameCall (h : s.Tame bytes) (hi : Inv L s) (hunit : s.heap.alignment_unit ≤ 20)
    (hmaps : s.heap.Maps δ) (hm : s.heap.Shown δ s.memory mine) :
    s.heap.SameCall δ mine (allocate64 s.memory s.heap bytes)
      (allocate64 mine (s.heap.moved δ) bytes) := by
  apply SameCall.allocate64 hmaps
  have hmem := hmaps.mem_nonneg
  have hfits := hi.shape.block.fits
  obtain ⟨r, hr, hindex, hcell, hsize⟩ := h.cell hi
  have hmycell : (s.heap.moved δ).freeList ((s.heap.moved δ).getIndex64 bytes) =
      move δ (s.heap.mem + 8 * r) := by
    rw [moved_getIndex64, hindex]
    exact moved_freeList hmaps hsize
  have hmyhead : mine.load64 ((s.heap.moved δ).freeList ((s.heap.moved δ).getIndex64 bytes)) =
      s.memory.load64 (s.heap.freeList (s.heap.getIndex64 bytes)) := by
    rw [hmycell, hcell]
    exact hm.load64 hmem (by omega) (by omega)
  have hnull : s.heap.SameCall δ mine (0, s.memory, s.heap) (0, mine, s.heap.moved δ) :=
    ⟨rfl, fun hne => absurd rfl hne, hm, rfl, fun _ _ => rfl⟩
  have hptr (n : Nat) (hn : 24 ≤ n) : move δ s.heap.mem + n = movePtr δ (s.heap.mem + n) := by
    rw [movePtr, if_neg (by omega), move_add hmem]
  by_cases hhead : s.memory.load64 (s.heap.freeList (s.heap.getIndex64 bytes)) = 0
  · by_cases hfull : (s.heap.cur + s.heap.getAllocBytes64 bytes) % 2 ^ 64 > s.heap.size
    · rw [allocateChunk64_full hhead hfull, allocateChunk64_full (hmyhead.trans hhead) hfull]
      exact hnull
    · have hroom := h.room hi hunit hhead hfull
      obtain ⟨hshown, hkept⟩ := Shown.carve hm hmaps hfits hroom
        (s.heap.chunkSize64 bytes + sizeofHeader)
      rw [allocateChunk64_carve hhead hfull, allocateChunk64_carve (hmyhead.trans hhead) hfull,
        Nat.add_assoc, Nat.add_assoc]
      unfold sizeofHeader
      exact ⟨hptr _ (by omega), fun _ => ⟨by dsimp only; omega, by dsimp only; omega⟩, hshown,
        rfl, hkept⟩
  · have hmysome : mine.load64 ((s.heap.moved δ).freeList
        ((s.heap.moved δ).getIndex64 bytes)) ≠ 0 := by
      rw [hmyhead]
      exact hhead
    by_cases hbad : s.memory.load64 (s.heap.freeList (s.heap.getIndex64 bytes)) > s.heap.cur
    · have hmybad : mine.load64 ((s.heap.moved δ).freeList ((s.heap.moved δ).getIndex64 bytes)) >
          (s.heap.moved δ).cur := by
        rw [hmyhead]
        exact hbad
      rw [allocateChunk64_bad hhead hbad, allocateChunk64_bad hmysome hmybad]
      exact hnull
    · have hmygood : ¬ mine.load64 ((s.heap.moved δ).freeList
          ((s.heap.moved δ).getIndex64 bytes)) > (s.heap.moved δ).cur := by
        rw [hmyhead]
        exact hbad
      rw [allocateChunk64_pop hhead hbad, allocateChunk64_pop hmysome hmygood, hmyhead,
        hmycell, hcell]
      rw [hcell] at hhead
      obtain ⟨hlo, hhi⟩ := head_inside hi hr hhead
      have hnext : mine.load64 (move δ s.heap.mem + s.memory.load64 (s.heap.mem + 8 * r)) =
          s.memory.load64 (s.heap.mem + s.memory.load64 (s.heap.mem + 8 * r)) := by
        rw [← move_add hmem]
        exact hm.load64 hmem (by omega) (by omega)
      refine ⟨hptr _ hlo, fun _ => ⟨by dsimp only; omega, by dsimp only; omega⟩, ?_, rfl, ?_⟩
      · show s.heap.Shown δ _ (mine.store64 _ (mine.load64 (move δ s.heap.mem + _)))
        rw [hnext]
        exact Memory.Shows.store64 hm hmem (by omega) (by omega)
      · intro x hx
        exact Memory.store64_beyond hmem (by omega) (by omega) hx

theorem live_freed (hi : Inv L s) (hunit : s.heap.alignment_unit ≤ 20) {c : Nat × Nat}
    (hc : c ∈ s.live) : ∃ r : Nat, 8 * r + 8 ≤ s.heap.size ∧
      s.heap.getIndex64 (getChunkSize s.memory c.1) = r ∧ free64 s.memory s.heap c.1 =
        some (addInFreeList s.memory s.heap (s.heap.mem + 8 * r) c.1) := by
  obtain ⟨r, hr, hindex, -, hfree, -⟩ := free_list hi hc
  refine ⟨r, hi.shape.cell_inside hr, ?_, (free64_eq hi hunit hc).trans hfree⟩
  rw [hi.shape.getIndex64_eq (hi.live c hc).1 hunit, hindex]

theorem owner_moved (hi : Inv L s) (hmaps : s.heap.Maps δ)
    (hm : s.heap.Shown δ s.memory mine) {p : Nat} (hp : p ∈ s.chunks) :
    (mine.load64 (move δ p - 24 + 8) + (move δ p - 24 + 8)) % 2 ^ 64 =
      (s.heap.moved δ).self := by
  have hmem := hmaps.mem_nonneg
  obtain ⟨hlo, hhi⟩ := hi.shape.chunk_inside hp
  have hfield : move δ p - 24 + 8 = move δ (p - 24 + 8) := by
    rw [move_add (by omega), move_sub (by omega) (by omega)]
  rw [hfield, hm.load64 hmem (by omega) (by omega)]
  exact distance_move (by omega) hmaps.self_nonneg hmaps.self_lt (hi.shape.chunk p hp).owner

theorem Shown.addInFreeList {m : Memory} {heap : Xheap} {p r : Nat} (h : heap.Shown δ m mine)
    (hmaps : heap.Maps δ) (hfits : heap.mem + heap.size ≤ 2 ^ 64) (hlo : heap.mem ≤ p)
    (hhi : p + 8 ≤ heap.mem + heap.size) (hr : 8 * r + 8 ≤ heap.size) :
    heap.Shown δ (addInFreeList m heap (heap.mem + 8 * r) p)
        (addInFreeList mine (heap.moved δ) (move δ (heap.mem + 8 * r)) (move δ p)) ∧
      ∀ x, heap.Private δ x →
        addInFreeList mine (heap.moved δ) (move δ (heap.mem + 8 * r)) (move δ p) x = mine x := by
  have hmem := hmaps.mem_nonneg
  have hblock := hmaps.block_le
  have habs : sub64 (move δ p) (heap.moved δ).mem = sub64 p heap.mem :=
    sub64_move (by omega) hmem (by omega) (by omega)
  have hhead : mine.load64 (move δ (heap.mem + 8 * r)) = m.load64 (heap.mem + 8 * r) :=
    h.load64 hmem (by omega) (by omega)
  unfold Xheap.addInFreeList
  rw [habs, hhead]
  clear habs hhead
  constructor
  · apply Memory.Shows.store64 _ hmem (by omega) (by omega)
    exact Memory.Shows.store64 h hmem (by omega) (by omega)
  · intro x hx
    rw [Memory.store64_beyond hmem (by omega) (by omega) hx,
      Memory.store64_beyond hmem (by omega) (by omega) hx]

theorem free64_moved (hi : Inv L s) (hunit : s.heap.alignment_unit ≤ 20)
    (hmaps : s.heap.Maps δ) (hm : s.heap.Shown δ s.memory mine) {c : Nat × Nat}
    (hc : c ∈ s.live) : ∃ m mine', free64 s.memory s.heap c.1 = some m ∧
      free64 mine (s.heap.moved δ) (move δ c.1) = some mine' ∧ s.heap.Shown δ m mine' ∧
      ∀ x, s.heap.Private δ x → mine' x = mine x := by
  have hp := (hi.live c hc).1
  obtain ⟨hlo, hhi⟩ := hi.shape.chunk_inside hp
  have hsize : getChunkSize mine (move δ c.1) = getChunkSize s.memory c.1 :=
    hm.getChunkSize hmaps hlo (by omega)
  obtain ⟨r, hr, hindex, hfree⟩ := live_freed hi hunit hc
  have hmyfree : free64 mine (s.heap.moved δ) (move δ c.1) =
      some (addInFreeList mine (s.heap.moved δ) (move δ (s.heap.mem + 8 * r)) (move δ c.1)) := by
    unfold free64 sizeofHeader
    dsimp only
    rw [if_pos (owner_moved hi hmaps hm hp), hsize, moved_getIndex64, hindex,
      moved_freeList hmaps hr]
  obtain ⟨hshown, hkept⟩ := Shown.addInFreeList hm hmaps hi.shape.block.fits
    (Nat.le_of_add_right_le hlo) hhi hr
  exact ⟨_, _, hfree, hmyfree, hshown, hkept⟩

structure Moved (s : XheapSession) (δ : Int) (mys : XheapSession) : Prop where
  heap : mys.heap = s.heap.moved δ
  shown : s.heap.Shown δ s.memory mys.memory
  live : mys.live = s.live.map fun c => (move δ c.1, c.2)
  chunks : mys.chunks = s.chunks.map (move δ)

/-- The first event with the addresses of the process that the second one is a call of. -/
def Relocated (δ : Int) : XheapEvent → XheapEvent → Prop
  | .allocate bytes ret, .allocate mybytes myret => mybytes = bytes ∧ myret = movePtr δ ret
  | .free ptr, .free myptr => myptr = move δ ptr
  | .write _, .write _ => True
  | _, _ => False

theorem Moved.tame (h : s.Moved δ mys) (hi : Inv L s) (hmaps : s.heap.Maps δ) :
    mys.Tame bytes ↔ s.Tame bytes := by
  unfold Tame
  rw [h.heap]
  refine and_congr_right fun hslot => ?_
  obtain ⟨r, hr, hindex, hcell⟩ := freeList_eq hi.shape hslot.1 hslot.2
  have hsize := hi.shape.cell_inside hr
  rw [moved_getIndex64] at hindex hcell
  have hmyhead : mys.memory.load64 ((s.heap.moved δ).freeList ((s.heap.moved δ).getIndex64 bytes)) =
      s.memory.load64 (s.heap.freeList (s.heap.getIndex64 bytes)) := by
    rw [moved_getIndex64, hcell, hindex, moved_freeList hmaps hsize]
    clear hindex hcell hslot
    exact h.shown.load64 hmaps.mem_nonneg (Nat.le_add_right _ _) (by omega)
  rw [hmyhead]
  rfl

theorem Moved.chunk_of_live (h : s.Moved δ mys) {c : Nat × Nat} (hc : c ∈ mys.live) :
    ∃ d ∈ s.live, c = (move δ d.1, d.2) := by
  rw [h.live] at hc
  obtain ⟨d, hd, rfl⟩ := List.mem_map.mp hc
  exact ⟨d, hd, rfl⟩

theorem Moved.size (h : s.Moved δ mys) (hi : Inv L s) (hmaps : s.heap.Maps δ) {p : Nat}
    (hp : p ∈ s.chunks) : getChunkSize mys.memory (move δ p) = getChunkSize s.memory p := by
  obtain ⟨hlo, hhi⟩ := hi.shape.chunk_inside hp
  exact h.shown.getChunkSize hmaps hlo (by omega)

theorem Moved.handOut (h : s.Moved δ mys) (bytes : Nat) {ret myret : Nat} {m mym : Memory}
    {heap myheap : Xheap} (hptr : myret = movePtr δ ret) (hne : ret ≠ 0 → myret ≠ 0)
    (hheap : myheap = heap.moved δ) (hshown : heap.Shown δ m mym) :
    (s.handOut bytes ret m heap).Moved δ (mys.handOut bytes myret mym myheap) := by
  refine ⟨hheap, hshown, ?_, ?_⟩
  · unfold XheapSession.handOut
    dsimp only
    by_cases hret : ret = 0
    · rw [hptr, hret, movePtr, if_pos rfl, if_pos rfl, if_pos rfl]
      exact h.live
    · rw [if_neg hret, if_neg (hne hret), h.live, hptr, movePtr, if_neg hret]
      rfl
  · unfold XheapSession.handOut
    dsimp only
    by_cases hret : ret = 0
    · rw [hptr, hret, movePtr, if_pos rfl, if_pos rfl, if_pos rfl]
      exact h.chunks
    · rw [if_neg hret, if_neg (hne hret), h.chunks, hptr, movePtr, if_neg hret]
      rfl

def Mirrored (s : XheapSession) (δ : Int) (ev : XheapEvent) (mys mys' : XheapSession) : Prop :=
  ∃ ev' s', Relocated δ ev' ev ∧ (s.Admissible64 ev' ∧ s.TameStep ev') ∧ s.Step64 ev' s' ∧
    s'.Moved δ mys' ∧ (∃ cur, s'.heap = { s.heap with cur := cur }) ∧
    ∀ x, s.heap.Private δ x → mys'.memory x = mys.memory x

theorem Moved.allocate (h : s.Moved δ mys) (hi : Inv L s) (hunit : s.heap.alignment_unit ≤ 20)
    (hmaps : s.heap.Maps δ) {myret : Nat} (hb : bytes < 2 ^ 64) (htame : mys.Tame bytes)
    (hstep : mys.Step64 (.allocate bytes myret) mys') :
    s.Mirrored δ (.allocate bytes myret) mys mys' := by
  have htame := (h.tame hi hmaps).mp htame
  obtain ⟨mym, myheap, hmycall, rfl⟩ := hstep
  obtain ⟨hptr, hinside, hshown, hleft, hkept⟩ := htame.sameCall hi hunit hmaps h.shown
  rw [← h.heap, hmycall] at hptr hshown hleft hkept
  rcases hcall : allocate64 s.memory s.heap bytes with ⟨ret, m, heap⟩
  rw [hcall] at hptr hinside hshown hleft
  dsimp only at hptr hinside hshown hleft hkept
  obtain ⟨-, ⟨cur, rfl⟩, -⟩ := htame.allocated hi hunit hcall
  have hne (hret : ret ≠ 0) : myret ≠ 0 := by
    have hmem := hmaps.mem_nonneg
    obtain ⟨hlo, -⟩ := hinside hret
    rw [hptr, movePtr, if_neg hret]
    unfold move
    omega
  exact ⟨.allocate bytes ret, _, ⟨rfl, hptr⟩, ⟨hb, htame⟩, ⟨m, _, hcall, rfl⟩,
    h.handOut bytes hptr hne hleft hshown, ⟨cur, rfl⟩, hkept⟩

theorem Moved.free (h : s.Moved δ mys) (hi : Inv L s) (hunit : s.heap.alignment_unit ≤ 20)
    (hmaps : s.heap.Maps δ) {myptr : Nat} (hlive : ∃ c ∈ mys.live, c.1 = myptr)
    (hstep : mys.Step64 (.free myptr) mys') : s.Mirrored δ (.free myptr) mys mys' := by
  obtain ⟨c, hc, rfl⟩ := hlive
  obtain ⟨d, hd, rfl⟩ := h.chunk_of_live hc
  obtain ⟨mym, hmyfree, rfl⟩ := hstep
  obtain ⟨m, mym', hfree, hmyfree', hshown, hkept⟩ := free64_moved hi hunit hmaps h.shown hd
  rw [← h.heap, hmyfree] at hmyfree'
  obtain rfl := Option.some.inj hmyfree'
  refine ⟨.free d.1, _, rfl, ⟨⟨d, hd, rfl⟩, trivial⟩, ⟨m, hfree, rfl⟩,
    ⟨h.heap, hshown, ?_, h.chunks⟩, ⟨s.heap.cur, rfl⟩, hkept⟩
  -- the same pointers are taken out of both lists, as the chunks do not move onto one another
  dsimp only
  rw [h.live, List.filter_map]
  refine congrArg _ (List.filter_congr fun e he => ?_)
  obtain ⟨hlo, -⟩ := hi.shape.chunk_inside (hi.live e he).1
  obtain ⟨hlo', -⟩ := hi.shape.chunk_inside (hi.live d hd).1
  have hmem := hmaps.mem_nonneg
  have hiff : move δ e.1 = move δ d.1 ↔ e.1 = d.1 :=
    ⟨move_inj (by omega) (by omega), fun heq => by rw [heq]⟩
  simpa using hiff

/-- A process writes to its live chunks, and the others find it there. -/
theorem Moved.write (h : s.Moved δ mys) (hi : Inv L s) (hmaps : s.heap.Maps δ) {mym : Memory}
    (hwrite : mys.Admissible64 (.write mym)) (hstep : mys.Step64 (.write mym) mys') :
    s.Mirrored δ (.write mym) mys mys' := by
  obtain rfl := hstep
  have hmem := hmaps.mem_nonneg
  have hcur := hi.shape.cur_le
  let m : Memory := fun x =>
    if s.heap.mem ≤ x ∧ x < s.heap.mem + s.heap.size then mym (move δ x) else s.memory x
  have hshown : s.heap.Shown δ m mym := fun x hx hx' => (if_pos ⟨hx, hx'⟩).symm
  refine ⟨.write m, _, trivial, ⟨fun x hx => ?_, trivial⟩, rfl,
    ⟨h.heap, hshown, h.live, h.chunks⟩, ⟨s.heap.cur, rfl⟩, fun x hx => ?_⟩
  · by_cases hin : s.heap.mem ≤ x ∧ x < s.heap.mem + s.heap.size
    · rw [show m x = mym (move δ x) from if_pos hin, ← h.shown x hin.1 hin.2] at hx
      obtain ⟨c, hc, hlo, hhi⟩ := hwrite (move δ x) hx
      obtain ⟨d, hd, rfl⟩ := h.chunk_of_live hc
      obtain ⟨hdlo, -⟩ := hi.shape.chunk_inside (hi.live d hd).1
      rw [h.size hi hmaps (hi.live d hd).1] at hhi
      unfold move at hlo hhi
      exact ⟨d, hd, by omega, by omega⟩
    · exact absurd (show m x = s.memory x from if_neg hin) hx
  · by_contra hne
    obtain ⟨c, hc, hlo, hhi⟩ := hwrite x hne
    obtain ⟨d, hd, rfl⟩ := h.chunk_of_live hc
    obtain ⟨hdlo, -⟩ := hi.shape.chunk_inside (hi.live d hd).1
    have hdhi := (hi.shape.chunk d.1 (hi.live d hd).1).hi
    rw [h.size hi hmaps (hi.live d hd).1] at hhi
    unfold Xheap.Private Memory.Beyond at hx
    unfold move at hx hlo hhi
    omega

theorem Moved.step (h : s.Moved δ mys) (hi : Inv L s) (hunit : s.heap.alignment_unit ≤ 20)
    (hmaps : s.heap.Maps δ) {ev : XheapEvent} (hadm : mys.Admissible64 ev)
    (htame : mys.TameStep ev) (hstep : mys.Step64 ev mys') : s.Mirrored δ ev mys mys' := by
  cases ev with
  | allocate bytes ret => exact h.allocate hi hunit hmaps hadm htame hstep
  | free ptr => exact h.free hi hunit hmaps hadm hstep
  | write m => exact h.write hi hmaps hadm hstep

/-- What a process with the memory `m` sees of a session whose block lies `δ` bytes further
down. -/
def carried (s : XheapSession) (δ : Int) (m : Memory) : XheapSession where
  memory := Memory.carried s.heap.mem (s.heap.mem + s.heap.size) δ s.memory m
  heap := s.heap.moved δ
  live := s.live.map fun c => (move δ c.1, c.2)
  chunks := s.chunks.map (move δ)

theorem carried_moved (hmaps : s.heap.Maps δ) (m : Memory) : s.Moved δ (s.carried δ m) :=
  ⟨rfl, Memory.carried_shows hmaps.mem_nonneg, rfl, rfl⟩

variable {ι : Type} [DecidableEq ι] {δs : ι → Int} {w w' : ι → XheapSession} {own : ι → Memory}

/-- A call of one process, at the addresses that it sees. The others see what the block has
become. -/
def SharedStep (δs : ι → Int) (w : ι → XheapSession) (call : ι × XheapEvent)
    (w' : ι → XheapSession) : Prop :=
  ∃ mys, (w call.1).Step64 call.2 mys ∧
    w' = Function.update (fun j => mys.carried (δs j - δs call.1) (w j).memory) call.1 mys

def Allowed (w : ι → XheapSession) (call : ι × XheapEvent) : Prop :=
  (w call.1).Admissible64 call.2 ∧ (w call.1).TameStep call.2

/-- All processes see one session, and their own bytes are what they were. -/
structure Together (δs : ι → Int) (own : ι → Memory) (s : XheapSession) (w : ι → XheapSession) :
    Prop where
  inv : ∃ L, Inv L s
  unit : s.heap.alignment_unit ≤ 20
  maps : ∀ i, s.heap.Maps (δs i)
  moved : ∀ i, s.Moved (δs i) (w i)
  kept : ∀ i x, s.heap.Private (δs i) x → (w i).memory x = own i x

theorem moved_moved {heap : Xheap} {δ δ' : Int} (hmaps : heap.Maps δ) :
    (heap.moved δ).moved δ' = heap.moved (δ + δ') := by
  unfold Xheap.moved
  dsimp only
  rw [move_move hmaps.mem_nonneg, move_move hmaps.self_nonneg]

/-- What is carried over from one mapping to another is what the other one has to show. -/
theorem Moved.carried (h : s.Moved δ mys) (hi : Inv L s) (hmaps : s.heap.Maps δ) {δ' : Int}
    (hmaps' : s.heap.Maps δ') (m : Memory) : s.Moved δ' (mys.carried (δ' - δ) m) := by
  have hmem := hmaps.mem_nonneg
  have hmem' := hmaps'.mem_nonneg
  have hsum : δ + (δ' - δ) = δ' := by omega
  have hback {p : Nat} (hp : p ∈ s.chunks) : move (δ' - δ) (move δ p) = move δ' p := by
    obtain ⟨hlo, -⟩ := hi.shape.chunk_inside hp
    rw [move_move (by omega), hsum]
  refine ⟨?_, ?_, ?_, ?_⟩
  · show mys.heap.moved (δ' - δ) = s.heap.moved δ'
    rw [h.heap, moved_moved hmaps, hsum]
  · have hend : move δ (s.heap.mem + s.heap.size) = move δ s.heap.mem + s.heap.size := move_add hmem
    have hshown : Memory.Shows (move δ s.heap.mem) (move δ s.heap.mem + s.heap.size) (δ' - δ)
        mys.memory (Memory.carried (move δ s.heap.mem) (move δ s.heap.mem + s.heap.size) (δ' - δ)
          mys.memory m) :=
      Memory.carried_shows (by unfold move; omega)
    rw [← hend] at hshown
    have htrans := Memory.Shows.trans h.shown hshown hmem
    rw [hsum, hend] at htrans
    unfold Shown XheapSession.carried
    rw [h.heap]
    exact htrans
  · show mys.live.map _ = _
    rw [h.live, List.map_map]
    refine List.map_congr_left fun c hc => ?_
    show (move (δ' - δ) (move δ c.1), c.2) = (move δ' c.1, c.2)
    rw [hback (hi.live c hc).1]
  · show mys.chunks.map _ = _
    rw [h.chunks, List.map_map]
    exact List.map_congr_left fun p hp => hback hp

theorem Moved.carried_kept (h : s.Moved δ mys) (hmaps : s.heap.Maps δ) {δ' : Int}
    (hmaps' : s.heap.Maps δ') (m : Memory) {x : Nat} (hx : s.heap.Private δ' x) :
    (mys.carried (δ' - δ) m).memory x = m x := by
  have hmem := hmaps.mem_nonneg
  have hmem' := hmaps'.mem_nonneg
  apply Memory.carried_beyond
  rw [h.heap]
  unfold Xheap.Private Memory.Beyond at hx
  unfold Memory.Beyond moved
  dsimp only
  unfold move at hx ⊢
  omega

theorem Maps.congr {heap : Xheap} (h : heap.Maps δ) (cur : Nat) :
    ({ heap with cur := cur } : Xheap).Maps δ :=
  ⟨h.mem_nonneg, h.block_le, h.self_nonneg, h.self_lt⟩

/-- One call of one process is one call in the session that all of them see. -/
theorem Together.step (h : s.Together δs own w) {call : ι × XheapEvent} (hok : Allowed w call)
    (hstep : SharedStep δs w call w') : ∃ ev s', Relocated (δs call.1) ev call.2 ∧
      Guarded Step64 (fun s ev => s.Admissible64 ev ∧ s.TameStep ev) s ev s' ∧
      s'.Together δs own w' ∧ ∃ cur, s'.heap = { s.heap with cur := cur } := by
  obtain ⟨i, ev⟩ := call
  obtain ⟨hadm, htame⟩ := hok
  obtain ⟨mys, hmystep, rfl⟩ := hstep
  dsimp only at hadm htame hmystep ⊢
  obtain ⟨L, hi⟩ := h.inv
  obtain ⟨ev', s', hrel, hok', hstep', hmoved, ⟨cur, hheap⟩, hkept⟩ :=
    (h.moved i).step hi h.unit (h.maps i) hadm htame hmystep
  obtain ⟨⟨L', hi'⟩, hunit'⟩ := inv_step64 hi h.unit hok'.1 hok'.2 hstep'
  have hmaps' (j : ι) : s'.heap.Maps (δs j) := by
    rw [hheap]
    exact Maps.congr (h.maps j) cur
  have hprivate (j : ι) (x : Nat) : s'.heap.Private (δs j) x ↔ s.heap.Private (δs j) x := by
    rw [hheap]
    rfl
  refine ⟨ev', s', hrel, ⟨hok', hstep'⟩, ⟨⟨L', hi'⟩, hunit', hmaps', fun j => ?_, fun j x hx => ?_⟩,
    cur, hheap⟩
  · by_cases hj : j = i
    · rw [hj, Function.update_self]
      exact hmoved
    · rw [Function.update_of_ne hj]
      exact hmoved.carried hi' (hmaps' i) (hmaps' j) _
  · by_cases hj : j = i
    · rw [hj] at hx ⊢
      rw [Function.update_self, hkept x ((hprivate i x).mp hx)]
      exact h.kept i x ((hprivate i x).mp hx)
    · rw [Function.update_of_ne hj, hmoved.carried_kept (hmaps' i) (hmaps' j) _ hx]
      exact h.kept j x ((hprivate j x).mp hx)

omit [DecidableEq ι] in
/-- In the eyes of every process the live chunks lie apart, and it can free each of them. -/
theorem Together.apart (h : s.Together δs own w) (i : ι) :
    ((w i).live.Pairwise fun c d => Apart c.1 (getChunkSize (w i).memory c.1) d.1
      (getChunkSize (w i).memory d.1)) ∧
    ∀ c ∈ (w i).live, ∃ m, free64 (w i).memory (w i).heap c.1 = some m := by
  obtain ⟨L, hi⟩ := h.inv
  have hmaps := h.maps i
  have hmoved := h.moved i
  constructor
  · rw [hmoved.live, List.pairwise_map]
    have hseparated : Separated s.heap s := separated hi rfl
    refine hseparated.apart.imp_of_mem fun {c d} hc hd hapart => ?_
    have hmem := hmaps.mem_nonneg
    obtain ⟨hlo, -⟩ := hi.shape.chunk_inside (hi.live c hc).1
    obtain ⟨hlo', -⟩ := hi.shape.chunk_inside (hi.live d hd).1
    rw [hmoved.size hi hmaps (hi.live c hc).1, hmoved.size hi hmaps (hi.live d hd).1]
    unfold Apart move at *
    omega
  · intro c hc
    obtain ⟨d, hd, rfl⟩ := hmoved.chunk_of_live hc
    obtain ⟨m, mym, -, hmyfree, -⟩ := free64_moved hi h.unit hmaps hmoved.shown hd
    rw [hmoved.heap]
    exact ⟨mym, hmyfree⟩

/-- Processes that have mapped the heap wherever they like, each calling it at its own addresses,
use one heap: their calls are a run in one address space, and no process finds a byte changed
outside its mapping. -/
theorem run_mapped {m0 m : Memory} {addr size alignment_unit mem : Nat} {heap : Xheap}
    (hb : ValidBlock addr size alignment_unit mem)
    (hinit : init m0 addr size alignment_unit mem = (0, m, heap))
    (hmaps : ∀ i, heap.Maps (δs i)) {w₀ : ι → XheapSession}
    (hstart : ∀ i, (start m heap).Moved (δs i) (w₀ i)) {calls : List (ι × XheapEvent)}
    (hrun : Run (Guarded (SharedStep δs) Allowed) w₀ calls w) :
    ∃ evs s, List.Forall₂ (fun ev call => Relocated (δs call.1) ev call.2) evs calls ∧
      Run (Guarded Step64 fun s ev => s.Admissible64 ev ∧ s.TameStep ev) (start m heap) evs s ∧
      ∀ i, s.Moved (δs i) (w i) ∧
        (∀ x, heap.Private (δs i) x → (w i).memory x = (w₀ i).memory x) ∧
        ((w i).live.Pairwise fun c d => Apart c.1 (getChunkSize (w i).memory c.1) d.1
          (getChunkSize (w i).memory d.1)) ∧
        ∀ c ∈ (w i).live, ∃ m', free64 (w i).memory (w i).heap c.1 = some m' := by
  have htogether : (start m heap).Together δs (fun i => (w₀ i).memory) w₀ := by
    refine ⟨⟨_, inv_init hb hinit⟩, ?_, hmaps, hstart, fun _ _ _ => rfl⟩
    rw [show (start m heap).heap = heap from rfl, init_unit hinit]
    exact hb.unit_le
  obtain ⟨evs, s, hrel, hrun', htogether', cur, hheap⟩ := hrun.history
    (I := fun calls w => ∃ evs s,
      List.Forall₂ (fun ev call => Relocated (δs call.1) ev call.2) evs calls ∧
      Run (Guarded Step64 fun s ev => s.Admissible64 ev ∧ s.TameStep ev) (start m heap) evs s ∧
      s.Together δs (fun i => (w₀ i).memory) w ∧ ∃ cur, s.heap = { heap with cur := cur })
    (by
      rintro calls w call w' ⟨evs, s, hrel, hrun', htogether', cur, hheap⟩ ⟨hok, hstep⟩
      obtain ⟨ev, s', hrelev, hstep', htogether'', cur', hheap'⟩ := htogether'.step hok hstep
      exact ⟨evs ++ [ev], s', List.rel_append hrel (.cons hrelev .nil), hrun'.snoc hstep',
        htogether'', cur', by rw [hheap', hheap]⟩)
    ⟨[], _, .nil, .refl _, htogether, heap.cur, rfl⟩
  refine ⟨evs, s, hrel, hrun', fun i => ⟨htogether'.moved i, fun x hx => ?_, htogether'.apart i⟩⟩
  apply htogether'.kept i x
  rw [hheap]
  exact hx

def smallMaps (i : Bool) : Int := if i then 0x10000 else 0

def smallSeen (i : Bool) : XheapSession :=
  (start smallStart.2.1 (smallHeap 456)).carried (smallMaps i) fun _ => 0

theorem smallHeap_maps (i : Bool) : (smallHeap 456).Maps (smallMaps i) := by
  cases i <;> exact ⟨by decide, by decide, by decide, by decide⟩

/-- One process frees the chunk that the other one has got. -/
theorem run_mapped_small : ∃ (calls : List (Bool × XheapEvent)) (w : Bool → XheapSession)
    (evs : List XheapEvent) (s : XheapSession),
    calls.map Prod.fst = [false, true] ∧ (w false).live = [] ∧
      Run (Guarded Step64 fun s ev => s.Admissible64 ev ∧ s.TameStep ev)
        (start smallStart.2.1 (smallHeap 456)) evs s ∧ ∀ i, s.Moved (smallMaps i) (w i) := by
  have hstart (i : Bool) :
      (start smallStart.2.1 (smallHeap 456)).Moved (smallMaps i) (smallSeen i) :=
    carried_moved (smallHeap_maps i) _
  have htame : (smallSeen false).Tame 40 := by
    unfold Tame
    decide +kernel
  have hret : (allocate64 (smallSeen false).memory (smallSeen false).heap 40).1 = 4576 := by
    decide +kernel
  rcases hcall : allocate64 (smallSeen false).memory (smallSeen false).heap 40 with ⟨ret, m, heap⟩
  rw [hcall] at hret
  obtain rfl : ret = 4576 := hret
  obtain ⟨w, hw⟩ : ∃ w, SharedStep smallMaps smallSeen (false, .allocate 40 4576) w :=
    ⟨_, _, ⟨m, heap, hcall, rfl⟩, rfl⟩
  have hlive : (w true).live = [(move (smallMaps true - smallMaps false) 4576, 40)] := by
    obtain ⟨mys, ⟨m', heap', -, rfl⟩, rfl⟩ := hw
    rw [Function.update_of_ne (by decide), handOut_chunk _ _ _ _ (by decide)]
    rfl
  have hrun : Run (Guarded (SharedStep smallMaps) Allowed) smallSeen
      [(false, .allocate 40 4576)] w :=
    .single ⟨⟨show 40 < 2 ^ 64 by decide, htame⟩, hw⟩
  obtain ⟨evs, s, -, -, hall⟩ := run_mapped smallBlock smallStart_eq smallHeap_maps hstart hrun
  have hmem : (move (smallMaps true - smallMaps false) 4576, 40) ∈ (w true).live := by
    rw [hlive]
    exact List.mem_singleton_self _
  obtain ⟨m', hfree⟩ := (hall true).2.2.2 _ hmem
  obtain ⟨w', hw'⟩ : ∃ w', SharedStep smallMaps w
      (true, .free (move (smallMaps true - smallMaps false) 4576)) w' :=
    ⟨_, _, ⟨m', hfree, rfl⟩, rfl⟩
  have hempty : (w' false).live = [] := by
    obtain ⟨mys, ⟨m', -, rfl⟩, rfl⟩ := hw'
    rw [Function.update_of_ne (by decide)]
    unfold XheapSession.carried
    dsimp only
    rw [hlive, List.filter_singleton, decide_eq_false (not_not_intro rfl)]
    rfl
  have hallowed : Allowed w (true, .free (move (smallMaps true - smallMaps false) 4576)) :=
    ⟨⟨_, hmem, rfl⟩, trivial⟩
  have hrun' := hrun.snoc ⟨hallowed, hw'⟩
  obtain ⟨evs', s', -, hplain, hall'⟩ :=
    run_mapped smallBlock smallStart_eq smallHeap_maps hstart hrun'
  exact ⟨[(false, .allocate 40 4576),
    (true, .free (move (smallMaps true - smallMaps false) 4576))], w', evs', s', rfl, hempty,
    hplain, fun i => (hall' i).1⟩

end XheapSession

end Libxseg
