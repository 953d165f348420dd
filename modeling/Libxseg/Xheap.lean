import Libxseg.Memory

/-!
# xheap

The heap of `xheap.c` on raw memory: chunk headers, the array of list heads at the
start of the block, and free lists threaded through the free chunks themselves.
Sizes and addresses are natural numbers, without wrap-around where the block lies
inside the address space; `__get_index` returns an `int`, and its truncation is
kept.
-/

namespace Libxseg

set_option autoImplicit false

def SMALL_LIMIT : Nat := 5
def MEDIUM_LIMIT : Nat := 10
def MEDIUM_AL_UNIT : Nat := SMALL_LIMIT - 3
def LARGE_AL_UNIT : Nat := MEDIUM_LIMIT - 3

/-- `sizeof(struct xheap_header)`: the fields `magic`, `heap` and `size`, 8 bytes each. -/
def sizeofHeader : Nat := 24

/-- The macro `__align`, for a positive `x`. -/
def align (x shift : Nat) : Nat := (((x - 1) >>> shift) + 1) <<< shift

def sub64 (a b : Nat) : Nat := (a + (2 ^ 64 - b)) % 2 ^ 64

/-- `self` is the address of the structure itself, which lies outside the block. -/
structure Xheap where
  alignment_unit : Nat
  size : Nat
  cur : Nat
  mem : Nat
  self : Nat
  deriving DecidableEq, Repr

namespace Xheap

def getAllocBytes (xheap : Xheap) (bytes : Nat) : Nat :=
  if bytes < 1 <<< (xheap.alignment_unit + SMALL_LIMIT) then
    align (bytes + sizeofHeader) xheap.alignment_unit
  else if bytes < 1 <<< (xheap.alignment_unit + MEDIUM_LIMIT) then
    align (bytes + sizeofHeader) (xheap.alignment_unit + MEDIUM_AL_UNIT)
  else
    align (bytes + sizeofHeader) (xheap.alignment_unit + LARGE_AL_UNIT)

/-- `__get_index` before the result is cut to an `int`, for a size that is rounded already. -/
def classOf (xheap : Xheap) (bytes : Nat) : Nat :=
  let alignment_unit := xheap.alignment_unit
  if bytes < 1 <<< (alignment_unit + SMALL_LIMIT) then bytes >>> alignment_unit
  else if bytes < 1 <<< (alignment_unit + MEDIUM_LIMIT) then
    1 <<< SMALL_LIMIT - 1 <<< (SMALL_LIMIT - MEDIUM_AL_UNIT) +
      bytes >>> (alignment_unit + MEDIUM_AL_UNIT)
  else
    1 <<< SMALL_LIMIT + 1 <<< MEDIUM_LIMIT - 1 <<< (SMALL_LIMIT - MEDIUM_AL_UNIT) -
        1 <<< (MEDIUM_LIMIT - (LARGE_AL_UNIT - MEDIUM_AL_UNIT)) +
      bytes >>> (alignment_unit + LARGE_AL_UNIT)

def getIndex (heap : Xheap) (bytes : Nat) : Int :=
  Int.bmod (heap.classOf (heap.getAllocBytes bytes - sizeofHeader)) (2 ^ 32)

def freeList (heap : Xheap) (r : Int) : Nat := ((heap.mem + 8 * r) % 2 ^ 64).toNat

def getChunkSize (m : Memory) (ptr : Nat) : Nat := m.load64 (ptr - sizeofHeader + 16)

/-- The header that is written for a new chunk, `bytes` with the header included. -/
def carve (m : Memory) (heap : Xheap) (bytes : Nat) : Memory :=
  let h := heap.mem + heap.cur
  let m := m.store64 (h + 16) (bytes - sizeofHeader)
  let m := m.store64 h 0xdeadbeaf
  m.store64 (h + 8) (sub64 heap.self (h + 8))

/-- The allocation without the checks at its end. 0 is the null pointer. -/
def allocateChunk (m : Memory) (heap : Xheap) (bytes : Nat) : Nat × Memory × Xheap :=
  let r := heap.getIndex bytes
  let head := m.load64 (heap.freeList r)
  if head = 0 then
    let bytes := heap.getAllocBytes bytes
    if heap.cur + bytes > heap.size then (0, m, heap)
    else
      (heap.mem + heap.cur + sizeofHeader, carve m heap bytes,
        { heap with cur := heap.cur + bytes })
  else if head > heap.cur then (0, m, heap)
  else
    let next := m.load64 (heap.mem + head)
    (heap.mem + head, m.store64 (heap.freeList r) next, heap)

def allocate (m : Memory) (heap : Xheap) (req_bytes : Nat) : Nat × Memory × Xheap :=
  let (addr, m, heap) := allocateChunk m heap req_bytes
  if addr ≠ 0 ∧ getChunkSize m addr < req_bytes then (0, m, heap)
  else if addr ≠ 0 ∧ getChunkSize m addr ≠ heap.getAllocBytes req_bytes - sizeofHeader then
    (0, m, heap)
  else (addr, m, heap)

def addInFreeList (m : Memory) (heap : Xheap) (list ptr : Nat) : Memory :=
  let abs_ptr := sub64 ptr heap.mem
  let cur := m.load64 list
  (m.store64 ptr cur).store64 list abs_ptr

/-- The heap is the one that the chunk's header points to; `none` when that is not this one.
A wrong magic number is only logged. -/
def free (m : Memory) (heap : Xheap) (ptr : Nat) : Option Memory :=
  let h := ptr - sizeofHeader
  if (m.load64 (h + 8) + (h + 8)) % 2 ^ 64 = heap.self then
    let size := getChunkSize m ptr
    let r := heap.getIndex size
    some (addInFreeList m heap (heap.freeList r) ptr)
  else none

/-- `while (cur < bound) cur += heap_page`, which takes at most `bound` turns. -/
def growTo (heap_page bound : Nat) : Nat → Nat → Nat
  | 0, cur => cur
  | fuel + 1, cur => if cur < bound then growTo heap_page bound fuel (cur + heap_page) else cur

def init (m : Memory) (self size alignment_unit mem : Nat) : Int × Memory × Xheap :=
  let al_mem := align mem alignment_unit
  let diff := al_mem - mem
  let heap_page := 1 <<< alignment_unit
  let heap : Xheap := { alignment_unit, size, cur := diff, mem, self }
  let r := heap.getIndex size
  if heap_page < sizeofHeader then (-1, m, heap)
  else
    let cur := if diff < sizeofHeader then diff + heap_page else diff
    let bound := ((8 * r) % 2 ^ 64).toNat
    let cur := growTo heap_page bound bound (cur - sizeofHeader)
    let heap := { heap with cur := cur }
    let m := (List.range r.toNat).foldl (fun m i => m.store64 (heap.freeList i) 0) m
    if cur ≥ sub64 size heap_page then (-1, m, heap) else (0, m, heap)

end Xheap

end Libxseg
