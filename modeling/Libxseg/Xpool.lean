import Mathlib.Logic.Function.Basic

/-!
# xpool: the pool of xtypes/xpool.c

The nodes are an array. Those in use are linked in a ring, at which `list` is a cursor;
the others are threaded through `next`, from `free`. A node is in use if its `prev` is
not `NoIndex`. Locks are left out here: every function below is the body that runs under
`xp->lock`. What a function stores to `*data` comes after its return value, `none` if
it leaves `*data` alone.
-/

namespace Libxseg

set_option autoImplicit false

abbrev xpool_index := UInt64

abbrev xpool_data := UInt64

/-- `NoIndex`, which is `(xpool_index)-1`. -/
def NoIndex : xpool_index := 0xFFFFFFFFFFFFFFFF

structure XpoolNode where
  data : xpool_data
  next : xpool_index
  prev : xpool_index

structure Xpool where
  list : xpool_index
  free : xpool_index
  size : UInt64
  mem : xpool_index → XpoolNode

namespace Xpool

/-- `XPTR(&xp->mem)[idx]` gets a new value. -/
def modify (xp : Xpool) (idx : xpool_index) (f : XpoolNode → XpoolNode) : Xpool :=
  { xp with mem := Function.update xp.mem idx (f (xp.mem idx)) }

def setNext (xp : Xpool) (idx next : xpool_index) : Xpool :=
  xp.modify idx fun node => { node with next := next }

def setPrev (xp : Xpool) (idx prev : xpool_index) : Xpool :=
  xp.modify idx fun node => { node with prev := prev }

def setData (xp : Xpool) (idx : xpool_index) (data : xpool_data) : Xpool :=
  xp.modify idx fun node => { node with data := data }

variable {xp : Xpool} {idx j : xpool_index}

theorem modify_mem_self (xp : Xpool) (idx : xpool_index) (f : XpoolNode → XpoolNode) :
    (xp.modify idx f).mem idx = f (xp.mem idx) := Function.update_self ..

theorem modify_mem_of_ne (xp : Xpool) (f : XpoolNode → XpoolNode) (h : j ≠ idx) :
    (xp.modify idx f).mem j = xp.mem j := Function.update_of_ne h ..

@[simp] theorem setNext_next (v : xpool_index) :
    ((xp.setNext idx v).mem j).next = if j = idx then v else (xp.mem j).next := by
  by_cases h : j = idx
  · rw [if_pos h, h]
    exact congrArg XpoolNode.next (modify_mem_self ..)
  · rw [if_neg h]
    exact congrArg XpoolNode.next (modify_mem_of_ne xp _ h)

@[simp] theorem setPrev_prev (v : xpool_index) :
    ((xp.setPrev idx v).mem j).prev = if j = idx then v else (xp.mem j).prev := by
  by_cases h : j = idx
  · rw [if_pos h, h]
    exact congrArg XpoolNode.prev (modify_mem_self ..)
  · rw [if_neg h]
    exact congrArg XpoolNode.prev (modify_mem_of_ne xp _ h)

@[simp] theorem setData_data (v : xpool_data) :
    ((xp.setData idx v).mem j).data = if j = idx then v else (xp.mem j).data := by
  by_cases h : j = idx
  · rw [if_pos h, h]
    exact congrArg XpoolNode.data (modify_mem_self ..)
  · rw [if_neg h]
    exact congrArg XpoolNode.data (modify_mem_of_ne xp _ h)

/-- A change of one field of a node keeps the other fields of all nodes. -/
theorem modify_field {β : Type} {f : XpoolNode → XpoolNode} (field : XpoolNode → β)
    (hf : ∀ node, field (f node) = field node) :
    field ((xp.modify idx f).mem j) = field (xp.mem j) := by
  by_cases h : j = idx
  · rw [h, modify_mem_self, hf]
  · rw [modify_mem_of_ne xp f h]

@[simp] theorem setNext_prev (v : xpool_index) :
    ((xp.setNext idx v).mem j).prev = (xp.mem j).prev := modify_field _ fun _ => rfl

@[simp] theorem setNext_data (v : xpool_index) :
    ((xp.setNext idx v).mem j).data = (xp.mem j).data := modify_field _ fun _ => rfl

@[simp] theorem setPrev_next (v : xpool_index) :
    ((xp.setPrev idx v).mem j).next = (xp.mem j).next := modify_field _ fun _ => rfl

@[simp] theorem setPrev_data (v : xpool_index) :
    ((xp.setPrev idx v).mem j).data = (xp.mem j).data := modify_field _ fun _ => rfl

@[simp] theorem setData_next (v : xpool_data) :
    ((xp.setData idx v).mem j).next = (xp.mem j).next := modify_field _ fun _ => rfl

@[simp] theorem setData_prev (v : xpool_data) :
    ((xp.setData idx v).mem j).prev = (xp.mem j).prev := modify_field _ fun _ => rfl

def validateIdx (xp : Xpool) (idx : xpool_index) : Bool :=
  idx < xp.size && (xp.mem idx).prev != NoIndex

/-- One turn of the loop of `__xpool_clear`, for `i` from 1. -/
def clearTurn (xp : Xpool) (i : Nat) : Xpool :=
  let i := UInt64.ofNat i
  (xp.setPrev (i - 1) NoIndex).setNext (i - 1) i

def clear (xp : Xpool) : Xpool :=
  let xp := { xp with list := NoIndex }
  let xp := (List.range' 1 (xp.size.toNat - 1)).foldl clearTurn xp
  let xp := (xp.setPrev (xp.size - 1) NoIndex).setNext (xp.size - 1) NoIndex
  { xp with free := 0 }

def init (size : UInt64) (mem : xpool_index → XpoolNode) : Xpool :=
  clear { list := NoIndex, free := NoIndex, size := size, mem := mem }

def add (xp : Xpool) (data : xpool_data) : xpool_index × Xpool :=
  let idx := xp.free
  if idx = NoIndex then (NoIndex, xp)
  else
    let xp := { xp with free := (xp.mem idx).next }
    let xp := xp.setData idx data
    if xp.list ≠ NoIndex then
      let list := xp.list
      let xp := xp.setNext idx list
      let xp := xp.setPrev idx (xp.mem list).prev
      let xp := xp.setNext (xp.mem list).prev idx
      (idx, xp.setPrev list idx)
    else
      let xp := (xp.setNext idx idx).setPrev idx idx
      (idx, { xp with list := idx })

def remove (xp : Xpool) (idx : xpool_index) : xpool_index × Option xpool_data × Xpool :=
  if xp.validateIdx idx then
    let data := (xp.mem idx).data
    let xp :=
      if idx = xp.list then
        { xp with list := if idx = (xp.mem idx).next then NoIndex else (xp.mem idx).next }
      else xp
    let xp := xp.setNext (xp.mem idx).prev (xp.mem idx).next
    let xp := xp.setPrev (xp.mem idx).next (xp.mem idx).prev
    let xp := xp.setPrev idx NoIndex
    let xp := xp.setNext idx xp.free
    (idx, some data, { xp with free := idx })
  else (NoIndex, none, xp)

def peek (xp : Xpool) : xpool_index × Option xpool_data :=
  if xp.list = NoIndex then (NoIndex, none) else (xp.list, some (xp.mem xp.list).data)

def peekIdx (xp : Xpool) (idx : xpool_index) : xpool_index × Option xpool_data :=
  if xp.validateIdx idx then (idx, some (xp.mem idx).data) else (NoIndex, none)

def peekAndFwd (xp : Xpool) : xpool_index × Option xpool_data × Xpool :=
  if xp.list = NoIndex then (NoIndex, none, xp)
  else (xp.list, some (xp.mem xp.list).data, { xp with list := (xp.mem xp.list).next })

def setIdx (xp : Xpool) (idx : xpool_index) (data : xpool_data) : xpool_index × Xpool :=
  if xp.validateIdx idx then (idx, xp.setData idx data) else (NoIndex, xp)

end Xpool

end Libxseg
