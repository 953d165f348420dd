import Mathlib.Data.Nat.Bitwise
import Mathlib.Logic.Function.Basic

/-!
# xq: the circular queue of xtypes/xq.c

`head` and `tail` are free-running 64-bit counters. The live elements are the
counters strictly between `tail` and `head`; a counter is turned into a position
of the array by masking it with `size - 1`. The array is a total function from
positions to elements, because the C code never bounds a position itself.
Locks are left out here: every function below is the body that runs under
`xq->lock`.
-/

namespace Libxseg

set_option autoImplicit false

abbrev xqindex := UInt64

/-- `Noneidx`, which is `(xqindex)-1`. -/
def Noneidx : xqindex := 0xFFFFFFFFFFFFFFFF

/-- `__builtin_clz(0)` is undefined; an instance fixes the word the compiled code gets. -/
class Builtins where
  clzZero : UInt64

/-- `__builtin_clz` on an `unsigned int`, widened to the `unsigned long` it is used in. -/
def builtinClz [Builtins] (x : UInt32) : UInt64 :=
  if x = 0 then Builtins.clzZero else 31 - UInt64.ofNat x.toNat.log2

/-- `__snap`. The argument of `__builtin_clz` is cut to 32 bits, the shift is on an
`int` (its count is taken mod 32, as x86 does) and the result is sign-extended. -/
def snap [Builtins] (size : xqindex) : xqindex :=
  if size = 0 then 0
  else ((1 : Int32) <<< (64 - builtinClz size.toUInt32 - 1).toUInt32.toInt32).toInt64.toUInt64

structure Xq where
  head : xqindex
  tail : xqindex
  size : xqindex
  queue : xqindex → xqindex

namespace Xq

def slot (q : Xq) (index : xqindex) : xqindex := index &&& (q.size - 1)

def initEmpty [Builtins] (size : xqindex) (mem : xqindex → xqindex) : Xq :=
  { head := 1, tail := 0, size := snap size, queue := mem }

def count (q : Xq) : xqindex := q.head - q.tail - 1

/-- `xq_init_map`; the values are written from position 0 upwards. -/
def initMap [Builtins] (size count : xqindex) (mapfn : xqindex → xqindex)
    (mem : xqindex → xqindex) : Xq :=
  let sz := snap size
  let count := if count > sz then sz else count
  { head := count + 1, tail := 0, size := sz,
    queue := fun i => if i < count then mapfn i else mem i }

def initSeq [Builtins] (size count : xqindex) (mem : xqindex → xqindex) : Xq :=
  initMap size count id mem

/-- The store `XPTR(&xq->queue)[index & (xq->size - 1)] = xqi`. -/
def put (q : Xq) (index xqi : xqindex) : Xq :=
  { q with queue := Function.update q.queue (q.slot index) xqi }

def get (q : Xq) (index : xqindex) : xqindex := q.queue (q.slot index)

def appendHead (q : Xq) (xqi : xqindex) : xqindex × Xq :=
  if q.count ≥ q.size then (Noneidx, q)
  else (xqi, { q with head := q.head + 1 }.put q.head xqi)

def popHead (q : Xq) : xqindex × Xq :=
  if q.count = 0 then (Noneidx, q)
  else (q.get (q.head - 1), { q with head := q.head - 1 })

def peekHead (q : Xq) : xqindex :=
  if q.count = 0 then Noneidx else q.get (q.head - 1)

def peekTail (q : Xq) : xqindex :=
  if q.count = 0 then Noneidx else q.get (q.tail + 1)

/-- The new tail counter is `tail - 1`; the slot written is the old one, `tail - 1 + 1`. -/
def appendTail (q : Xq) (xqi : xqindex) : xqindex × Xq :=
  if ¬ q.count + 1 ≤ q.size then (Noneidx, q)
  else (xqi, { q with tail := q.tail - 1 }.put (q.tail - 1 + 1) xqi)

def popTail (q : Xq) : xqindex × Xq :=
  if q.count = 0 then (Noneidx, q)
  else (q.get (q.tail + 1), { q with tail := q.tail + 1 })

theorem sub_succ_toNat_lt {a b : UInt64} (h : b ≠ a) :
    (a - (b + 1)).toNat < (a - b).toNat := by
  have ha := a.toNat_lt
  have hb := b.toNat_lt
  have hne : b.toNat ≠ a.toNat := fun he => h (UInt64.toNat_inj.mp he)
  simp only [UInt64.toNat_sub, UInt64.toNat_add, UInt64.toNat_one]
  omega

/-- The scan of `__xq_check` from counter `i` up to `head`. -/
def checkFrom (q : Xq) (idx i : xqindex) : xqindex :=
  if i = q.head then 0
  else if q.get i = idx then 1
  else checkFrom q idx (i + 1)
termination_by (q.head - i).toNat
decreasing_by exact sub_succ_toNat_lt ‹_›

def check (q : Xq) (idx : xqindex) : xqindex := q.checkFrom idx (q.tail + 1)

def resizeCopy (q : Xq) (head tail : xqindex) (newq : Xq) (i : Nat) : Xq :=
  newq.put (tail - UInt64.ofNat i) (q.get (head + UInt64.ofNat i))

/-- `__xq_resize(xq, newxq)`: the number of copied elements, or `Noneidx`, and the new `newxq`. -/
def resize (q newq : Xq) : xqindex × Xq :=
  let nr := q.count
  if nr > newq.size then (Noneidx, newq)
  else
    let head := q.head - nr
    let tail := newq.tail - nr + 1 + nr - 1
    (nr, (List.range nr.toNat).foldl (resizeCopy q head tail) { newq with tail := newq.tail - nr })

end Xq

end Libxseg
