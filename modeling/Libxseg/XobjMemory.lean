import Libxseg.XobjTable
import Libxseg.Xheap

/-!
# xobj in memory

The handler of `xobj.c` on raw memory: the free list goes through the objects themselves, the
size of a chunk is read from its header, and the table of chunks lies in a chunk of the same
heap. Pointers are addresses, and an `xptr` is the distance from the container. What the heap
answers, and what it leaves in the memory that is its own, is an argument.
-/

namespace Libxseg

set_option autoImplicit false

def xptrMake (ptrval base : Nat) : Nat := sub64 ptrval base

def xptrTake (xptrval base : Nat) : Nat := (base + xptrval) % 2 ^ 64

structure LiveChunk where
  ptr : Nat
  size : Nat
  deriving DecidableEq

/-- The memory, and the chunks that the handler was given and has not freed. -/
structure LiveHeap where
  bytes : Memory
  live : List LiveChunk

/-- What `xheap_allocate` returns, and what it and `xheap_free` leave in memory. -/
structure HeapCalls where
  allocate : LiveHeap → UInt64 → Option LiveChunk × Memory
  free : LiveHeap → Nat → Memory

/-- The table that is left when something is written to its memory. Nothing is known of it. -/
class Overwriting where
  overwrite : Xhash xhashidx → Nat → Nat → Nat → Xhash xhashidx

/-- `table` is what the bytes from `allocated` on stand for. -/
structure ObjMemory extends LiveHeap where
  allocated : Nat
  table : Xhash xhashidx

def Xhash.bytes (xhash : Xhash xhashidx) : Nat := sizeofXhash.toNat + 16 * 2 ^ xhash.size_shift

namespace ObjMemory

def allocate (m : ObjMemory) (heap : HeapCalls) (bytes : UInt64) : Option Nat × ObjMemory :=
  let (chunk, memory) := heap.allocate m.toLiveHeap bytes
  (chunk.map LiveChunk.ptr, { m with bytes := memory, live := chunk.toList ++ m.live })

def free (m : ObjMemory) (heap : HeapCalls) (ptr : Nat) : ObjMemory :=
  { m with
    bytes := heap.free m.toLiveHeap ptr
    live := m.live.filter (·.ptr ≠ ptr) }

/-- The part of `xobj_alloc_obj` that keeps track of a chunk. -/
def insertChunk (m : ObjMemory) (heap : HeapCalls) (kvs0 : Nat → xhashidx) (ptr : xhashidx) :
    Option (Int × ObjMemory) :=
  (m.table.insert integerFunctions ptr ptr).bind fun (r, table) =>
    if r = -XHASH_ERESIZE then
      let sizeshift := table.growSizeShift
      match { m with table := table }.allocate heap (Xhash.getAllocSize (.ofNat sizeshift)) with
      | (none, m) => some (r, m)
      | (some new, m) =>
        (m.table.resize integerFunctions sizeshift 0 kvs0).bind fun table =>
          let m := { m with allocated := new, table := table }.free heap m.allocated
          (m.table.insert integerFunctions ptr ptr).map fun (r, table) =>
            (r, { m with table := table })
    else some (r, { m with table := table })

variable [Overwriting]

def store (m : ObjMemory) (a n v : Nat) : ObjMemory :=
  { m with
    bytes := m.bytes.storeBytes a n v
    table := if m.allocated < a + n ∧ a < m.allocated + m.table.bytes then
        Overwriting.overwrite m.table a n v
      else m.table }

/-- The three fields of `struct xobject`. -/
def writeObject (m : ObjMemory) (obj : Nat) (magic : UInt32) (size : UInt64) (next : Nat) :
    ObjMemory :=
  ((m.store obj 4 magic.toNat).store (obj + 8) 8 size.toNat).store (obj + 16) 8 next

end ObjMemory

structure XobjHandler where
  magic : UInt32
  objSize : UInt64
  container : Nat
  memory : ObjMemory
  nrAllocated : UInt64
  allocatedSpace : UInt64
  list : Nat
  nrFree : UInt64

namespace XobjHandler

/-- `xobj_handler_init`; `none` is the result `-1`. -/
def handlerInit (container : Nat) (magic : UInt32) (size : UInt64) (heap : HeapCalls)
    (bytes : Memory) (kvs0 : Nat → xhashidx) : Option XobjHandler :=
  let m : ObjMemory := { bytes, live := [], allocated := 0, table := Xhash.init 3 0 kvs0 }
  let (xhash, m) := m.allocate heap (Xhash.getAllocSize 3)
  xhash.map fun xhash =>
    { magic
      objSize := if size < sizeofObject then sizeofObject else size
      container
      memory := { m with allocated := xhash }
      nrAllocated := 0
      allocatedSpace := 0
      list := 0
      nrFree := 0 }

def nextOf (h : XobjHandler) (obj : Nat) : Nat := h.memory.bytes.load64 (obj + 16)

/-- The part of `xobj_get_obj` that unlinks the first object of the list. -/
def popObj (h : XobjHandler) : Nat × XobjHandler :=
  let obj := xptrTake h.list h.container
  (obj, { h with list := h.nextOf obj, nrFree := h.nrFree - 1 })

/-- The loop of `__xobj_isFree` from `node` on, in so many turns at most. -/
def isFreeFrom (h : XobjHandler) (ptr : Nat) : Nat → Nat → Option Int
  | 0, _ => none
  | turns + 1, node =>
    if node = 0 then some 0
    else
      let obj := xptrTake node h.container
      if obj = ptr then some 1 else h.isFreeFrom ptr turns (h.nextOf obj)

def isFree (h : XobjHandler) (ptr turns : Nat) : Option Int := h.isFreeFrom ptr turns h.list

/-- The addresses that `__xobj_check` compares with for one chunk. -/
def slots (h : XobjHandler) (mem : Nat) : List Nat :=
  (List.range (Xheap.getChunkSize h.memory.bytes mem / h.objSize.toNat)).map fun i =>
    (mem + i * h.objSize.toNat) % 2 ^ 64

def checkFrom (h : XobjHandler) (ptr : Nat) : Nat → XhashIter → Option Int
  | 0, _ => none
  | turns + 1, it =>
    match h.memory.table.iterate it with
    | (_, _, none) => some 0
    | (_, it, some (key, _)) =>
      if ptr ∈ h.slots (xptrTake key.toNat h.container) then some 1 else h.checkFrom ptr turns it

def check (h : XobjHandler) (ptr : Nat) : Option Int :=
  h.checkFrom ptr (h.memory.table.size + 1) Xhash.iterInit

variable [Overwriting]

/-- The loop of `xobj_alloc_obj` that cuts a chunk, in so many turns at most. -/
def carveLoop (h : XobjHandler) (mem : Nat) (bytes : UInt64) :
    Nat → UInt64 → Option Nat → ObjMemory → Option (Option Nat × ObjMemory)
  | 0, _, _, _ => none
  | turns + 1, used, obj, m =>
    if used + h.objSize < bytes then
      let objptr := xptrMake (mem + used.toNat) h.container
      let obj := xptrTake objptr h.container
      let used := used + h.objSize
      h.carveLoop mem bytes turns used (some obj)
        (m.writeObject obj h.magic h.objSize (xptrMake (mem + used.toNat) h.container))
    else some (obj, m)

def allocObj (h : XobjHandler) (heap : HeapCalls) (kvs0 : Nat → xhashidx) (nr : UInt64) :
    Option (Int × XobjHandler) :=
  match h.memory.allocate heap (nr * h.objSize) with
  | (none, m) => some (-1, { h with memory := m })
  | (some mem, m) =>
    let bytes := UInt64.ofNat (Xheap.getChunkSize m.bytes mem)
    (h.carveLoop mem bytes (bytes.toNat + 1) 0 none m).bind fun (obj, m) =>
      match obj with
      | none => some (-1, { h with memory := m.free heap mem })
      | some obj =>
        let ptr := xptrMake mem h.container
        (m.insertChunk heap kvs0 (.ofNat ptr)).map fun (r, m) =>
          if r < 0 then (-1, { h with memory := m.free heap mem })
          else (0, { h with
            memory := m.store (obj + 16) 8 h.list
            allocatedSpace := h.allocatedSpace + bytes
            nrFree := h.nrFree + bytes / h.objSize
            nrAllocated := h.nrAllocated + bytes / h.objSize
            list := ptr })

def putObj (h : XobjHandler) (ptr : Nat) : XobjHandler :=
  let objptr := xptrMake ptr h.container
  { h with
    memory := h.memory.writeObject ptr h.magic h.objSize h.list
    list := objptr
    nrFree := h.nrFree + 1 }

/-- `xobj_get_obj`, with so many turns of `retry` at most. -/
def getObj (h : XobjHandler) (flags : UInt32) (heap : HeapCalls) (kvs0 : Nat → xhashidx) :
    Nat → Option (Option Nat × XobjHandler)
  | 0 => none
  | turns + 1 =>
    if h.list ≠ 0 then some (some h.popObj.1, h.popObj.2)
    else if flags &&& X_ALLOC = 0 then some (none, h)
    else
      (h.allocObj heap kvs0 64).bind fun (r, h) =>
        if r < 0 then some (none, h) else h.getObj flags heap kvs0 turns

end XobjHandler

end Libxseg
