import Mathlib.Algebra.Group.Nat.Defs
import Mathlib.Logic.Function.Basic

/-!
# xbinheap

The binary heap of `xbinheap.c`. `nodes` is the heap array, `indexes` the position
of each handle. Positions and handles are natural numbers: the two arrays take
32 bytes for each node, so in memory no position computation reaches 2^64. The
sifts and the key changes return 0 on every path, which is left out.
-/

namespace Libxseg

set_option autoImplicit false

abbrev xbinheapidx := UInt64

def NoNode : Nat := 2 ^ 64 - 1

def XBINHEAP_MAX : UInt32 := (1 : UInt32) <<< 0
def XBINHEAP_MIN : UInt32 := (1 : UInt32) <<< 1

structure XbinheapNode where
  key : xbinheapidx
  value : xbinheapidx
  h : Nat
  deriving DecidableEq, Repr

structure Xbinheap where
  size : Nat
  count : Nat
  flags : UInt32
  indexes : Nat → Nat
  nodes : Nat → XbinheapNode

namespace Xbinheap

/-- Fields of a node move one by one in the source; together they move the node. -/
def swapNodes (h : Xbinheap) (a b : Nat) : Xbinheap :=
  let h1 := (h.nodes a).h
  let h2 := (h.nodes b).h
  { h with
    nodes := Function.update (Function.update h.nodes a (h.nodes b)) b (h.nodes a)
    indexes := Function.update (Function.update h.indexes h1 (h.indexes h2)) h2 (h.indexes h1) }

def isMaxHeap (h : Xbinheap) : Bool := h.flags &&& XBINHEAP_MAX != 0

def setNode (h : Xbinheap) (i : Nat) (key value : xbinheapidx) : Xbinheap :=
  { h with nodes := Function.update h.nodes i { h.nodes i with key := key, value := value } }

def setKey (h : Xbinheap) (i : Nat) (newkey : xbinheapidx) : Xbinheap :=
  h.setNode i newkey (h.nodes i).value

def outOfOrder (h : Xbinheap) (i parent : Nat) : Bool :=
  if h.isMaxHeap then (h.nodes parent).key < (h.nodes i).key
  else (h.nodes parent).key > (h.nodes i).key

def heapifyUp (h : Xbinheap) (i : Nat) : Xbinheap :=
  if i = 0 then h
  else
    let parent := (i - 1) / 2
    if h.outOfOrder i parent then (h.swapNodes i parent).heapifyUp parent else h
termination_by i

/-- The source's `largest`, the position whose node belongs at `i`. -/
def largest (h : Xbinheap) (i : Nat) : Nat :=
  let left := 2 * i + 1
  let right := 2 * i + 1 + 1
  if h.isMaxHeap then
    let largest := if left < h.count ∧ (h.nodes left).key > (h.nodes i).key then left else i
    if right < h.count ∧ (h.nodes right).key > (h.nodes largest).key then right else largest
  else
    let largest := if left < h.count ∧ (h.nodes left).key < (h.nodes i).key then left else i
    if right < h.count ∧ (h.nodes right).key < (h.nodes largest).key then right else largest

theorem largest_cases (h : Xbinheap) (i : Nat) :
    h.largest i = i ∨
      (h.largest i < h.count ∧ (h.largest i = 2 * i + 1 ∨ h.largest i = 2 * i + 1 + 1)) := by
  rw [largest]
  split <;> dsimp only <;> split <;> split <;> simp_all

def heapifyDown (h : Xbinheap) (i : Nat) : Xbinheap :=
  let largest := h.largest i
  if largest ≠ i then (h.swapNodes i largest).heapifyDown largest else h
termination_by h.count - i
decreasing_by
  have := h.largest_cases i
  simp only [swapNodes]
  omega

/-- `insert` sifts before it counts the new node. -/
def insert (h : Xbinheap) (key value : xbinheapidx) : Nat × Xbinheap :=
  if h.count + 1 > h.size then (NoNode, h)
  else
    let h' := (h.setNode h.count key value).heapifyUp h.count
    ((h.nodes h.count).h, { h' with count := h'.count + 1 })

def empty (h : Xbinheap) : Bool := h.count = 0

def peak (h : Xbinheap) : xbinheapidx :=
  if h.empty then .ofNat NoNode else (h.nodes 0).value

def extract (h : Xbinheap) : xbinheapidx × Xbinheap :=
  let ret := (h.nodes 0).value
  if h.empty then (.ofNat NoNode, h)
  else
    let h' := { h with count := h.count - 1 }
    (ret, (h'.swapNodes 0 h'.count).heapifyDown 0)

def increasekey (h : Xbinheap) (idx : Nat) (newkey : xbinheapidx) : Xbinheap :=
  let i := h.indexes idx
  let h' := h.setKey i newkey
  if h.isMaxHeap then h'.heapifyUp i else h'.heapifyDown i

def decreasekey (h : Xbinheap) (idx : Nat) (newkey : xbinheapidx) : Xbinheap :=
  let i := h.indexes idx
  let h' := h.setKey i newkey
  if h.isMaxHeap then h'.heapifyDown i else h'.heapifyUp i

/-- The bound lets one position through that holds no live node. -/
def getkey (h : Xbinheap) (idx : Nat) : xbinheapidx :=
  let i := h.indexes idx
  if i > h.count then .ofNat NoNode else (h.nodes i).key

/-- `indexes0` and `nodes0` are what the memory of the two arrays held before. -/
def init (size : xbinheapidx) (flags : UInt32) (indexes0 : Nat → Nat)
    (nodes0 : Nat → XbinheapNode) : Xbinheap where
  size := size.toNat
  count := 0
  flags := flags
  indexes i := if i < size.toNat then i else indexes0 i
  nodes i := if i < size.toNat then { nodes0 i with h := i } else nodes0 i

end Xbinheap

end Libxseg
