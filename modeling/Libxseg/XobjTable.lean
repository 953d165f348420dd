import Libxseg.XhashIterate
import Libxseg.Xobj

/-!
# xobj with its table of chunks

The table maps the start of a chunk to itself, and both `xobj_iterate` and `__xobj_check` go
through it. They compute the objects of a chunk by a division, while `xobj_alloc_obj` cuts it by
a loop with a strict comparison.
-/

namespace Libxseg

set_option autoImplicit false

def sizeofObject : UInt64 := 24

/-- A handler. `allocated` keeps the sizes that stand in the headers of the chunks in `table`. -/
structure XobjPool extends XobjectH where
  table : Xhash xhashidx

structure XobjIter where
  hashIt : XhashIter
  chunk : Option xptr
  cnt : xhashidx

namespace XobjPool

/-- `xobj_handler_init`; `mem` is the memory of the table, and `none` is the result `-1`. -/
def handlerInit (size : UInt64) (mem : Option (Nat → xhashidx)) : Option XobjPool :=
  mem.map fun kvs0 =>
    { objSize := if size < sizeofObject then sizeofObject else size
      allocated := []
      nrAllocated := 0
      allocatedSpace := 0
      list := []
      nrFree := 0
      table := Xhash.init 3 0 kvs0 }

/-- `xobj_alloc_obj`. The heap answers with the chunk `mem` and, when the table has to grow, with
`new`. `none` stands for an insertion that does not return. -/
def allocObj (h : XobjPool) (mem : Option (xptr × UInt64)) (new : Option (Nat → xhashidx)) :
    Option (Int × XobjPool) :=
  match mem, h.toXobjectH.allocObj mem with
  | some (ptr, _), some h' =>
    (h.table.callInsert integerFunctions ptr ptr new).map fun (r, table) =>
      if r < 0 then (-1, { h with table := table }) else (0, { h' with table := table })
  | _, _ => some (-1, h)

def popObj (h : XobjPool) : Option xptr × XobjPool :=
  (h.toXobjectH.popObj.1, { h with toXobjectH := h.toXobjectH.popObj.2 })

def getObj (h : XobjPool) (flags : UInt32) (mem : Option (xptr × UInt64))
    (new : Option (Nat → xhashidx)) : Option (Option xptr × XobjPool) :=
  match h.list with
  | _ :: _ => some h.popObj
  | [] =>
    if flags &&& X_ALLOC = 0 then some (none, h)
    else (h.allocObj mem new).map fun (r, h) => if r < 0 then (none, h) else h.popObj

def putObj (h : XobjPool) (ptr : xptr) : XobjPool :=
  { h with toXobjectH := h.toXobjectH.putObj ptr }

def chunkSize (h : XobjPool) (chunk : xptr) : UInt64 := (h.allocated.lookup chunk).getD 0

def nrObjs (h : XobjPool) (chunk : xptr) : UInt64 := h.chunkSize chunk / h.objSize

def objAt (h : XobjPool) (chunk : xptr) (cnt : xhashidx) : xptr := chunk + cnt * h.objSize

def iterInit : XobjIter where
  hashIt := Xhash.iterInit
  chunk := none
  cnt := 0

/-- The test that makes `xobj_iterate` go to the next chunk. -/
def atEnd (h : XobjPool) (it : XobjIter) : Bool :=
  match it.chunk with
  | none => true
  | some chunk => it.cnt ≥ h.nrObjs chunk

def nextChunk (h : XobjPool) (it : XobjIter) : Option XobjIter :=
  match h.table.iterate it.hashIt with
  | (_, _, none) => none
  | (_, hashIt, some (key, _)) => some { hashIt, chunk := some key, cnt := 0 }

def iterate (h : XobjPool) (it : XobjIter) : Int × XobjIter × Option xptr :=
  match if h.atEnd it then h.nextChunk it else some it with
  | none => (0, it, none)
  | some it => (1, { it with cnt := it.cnt + 1 }, it.chunk.map (h.objAt · it.cnt))

/-- The objects that the calls of `xobj_iterate` return until one of them returns 0. -/
def pass (h : XobjPool) : Nat → XobjIter → Option (List xptr)
  | 0, _ => none
  | turns + 1, it =>
    match h.iterate it with
    | (_, _, none) => some []
    | (_, it, some obj) => (h.pass turns it).map (obj :: ·)

def slots (h : XobjPool) (chunk : xptr) : List xptr :=
  (List.range (h.nrObjs chunk).toNat).map fun i => h.objAt chunk (UInt64.ofNat i)

def checkFrom (h : XobjPool) (ptr : xptr) : Nat → XhashIter → Option Int
  | 0, _ => none
  | turns + 1, it =>
    match h.table.iterate it with
    | (_, _, none) => some 0
    | (_, it, some (mem, _)) =>
      if ptr ∈ h.slots mem then some 1 else h.checkFrom ptr turns it

def check (h : XobjPool) (ptr : xptr) : Option Int :=
  h.checkFrom ptr (h.table.size + 1) Xhash.iterInit

end XobjPool

def XobjectH.extend (h : XobjectH) (c : xptr × UInt64) (objs : List xptr) : XobjectH :=
  { h with
    allocated := c :: h.allocated
    allocatedSpace := h.allocatedSpace + c.2
    nrFree := h.nrFree + c.2 / h.objSize
    nrAllocated := h.nrAllocated + c.2 / h.objSize
    list := objs ++ h.list }

theorem XobjectH.objects_extend (h : XobjectH) (c : xptr × UInt64) (objs : List xptr) :
    (h.extend c objs).objects = h.chunkObjects c ++ h.objects :=
  List.flatMap_cons

theorem XobjectH.allocObj_nil {h : XobjectH} {c : xptr × UInt64} (hobjs : h.chunkObjects c = []) :
    h.allocObj (some c) = none := by
  simp only [allocObj, hobjs]

theorem XobjectH.allocObj_cons {h : XobjectH} {c : xptr × UInt64} {x : xptr} {l : List xptr}
    (hobjs : h.chunkObjects c = x :: l) : h.allocObj (some c) = some (h.extend c (x :: l)) := by
  simp only [allocObj, hobjs]
  rfl

/-- The cutting loop stops one object early when the size of the chunk is a multiple. -/
theorem carve_eq {objSize bytes : Nat} {mem : xptr} {used : Nat} (hpos : 0 < objSize)
    (hused : used < bytes) :
    carve objSize bytes mem used = (List.range ((bytes - used - 1) / objSize)).map
      fun i => mem + UInt64.ofNat (used + i * objSize) := by
  induction used using carve.induct objSize bytes with
  | case1 used hlt ih =>
    have hdiv : (bytes - used - 1) / objSize =
        (bytes - (used + objSize) - 1) / objSize + 1 := by
      rw [← Nat.add_div_right _ hpos]
      congr 1
      omega
    rw [carve, if_pos hlt, ih hlt.2, hdiv, List.range_succ_eq_map, List.map_cons, List.map_map]
    congr 1
    · simp
    · apply List.map_congr_left
      intro i _
      simp only [Function.comp_apply, Nat.succ_eq_add_one, Nat.add_mul, Nat.one_mul]
      congr 2
      omega
  | case2 used hlt =>
    rw [carve, if_neg hlt, Nat.div_eq_of_lt (by omega)]
    rfl

theorem pred_div_of_not_dvd {objSize bytes : Nat} (h : ¬ objSize ∣ bytes) :
    (bytes - 1) / objSize = bytes / objSize := by
  cases bytes with
  | zero => exact absurd (dvd_zero objSize) h
  | succ n => rw [Nat.add_sub_cancel, Nat.succ_div, if_neg h, Nat.add_zero]

theorem length_carve_zero {objSize bytes : Nat} (mem : xptr) (hpos : 0 < objSize)
    (hbytes : 0 < bytes) : (carve objSize bytes mem 0).length = (bytes - 1) / objSize := by
  rw [carve_eq hpos hbytes, List.length_map, List.length_range, Nat.sub_zero]

namespace XobjPool
variable {h : XobjPool} {c : xptr × UInt64} {it : XobjIter} {ptr : xptr}

/-- Where the object size does not divide the chunk, all three count alike. -/
theorem slots_eq (hsize : 0 < h.objSize.toNat) (hchunk : h.chunkSize c.1 = c.2)
    (hdvd : ¬ h.objSize.toNat ∣ c.2.toNat) : h.slots c.1 = h.toXobjectH.chunkObjects c := by
  have hpos : 0 < c.2.toNat := by
    apply Nat.pos_of_ne_zero
    intro hzero
    rw [hzero] at hdvd
    exact hdvd (dvd_zero _)
  rw [slots, nrObjs, hchunk, XobjectH.chunkObjects, carve_eq hsize hpos, Nat.sub_zero,
    pred_div_of_not_dvd hdvd, UInt64.toNat_div]
  apply List.map_congr_left
  intro i _
  rw [objAt, Nat.zero_add, UInt64.ofNat_mul, UInt64.ofNat_toNat]

/-- What becomes of a chunk that has objects depends on the table. -/
theorem allocObj_cons {new : Option (Nat → xhashidx)} {x : xptr} {l : List xptr}
    (hobjs : h.toXobjectH.chunkObjects c = x :: l) :
    h.allocObj (some c) new =
      (h.table.callInsert integerFunctions c.1 c.1 new).map fun (r, table) =>
        if r < 0 then (-1, { h with table := table })
        else (0, ⟨h.toXobjectH.extend c (x :: l), table⟩) := by
  simp only [allocObj, XobjectH.allocObj_cons hobjs]

def objectsAt (h : XobjPool) (rest : List Nat) : List xptr :=
  rest.flatMap fun i => h.slots (h.table.kvs i)

theorem pass_within {chunk : xptr} {hashIt : XhashIter} {objs : List xptr} {n : Nat}
    (hend : ∃ turns, h.pass turns { hashIt, chunk := some chunk, cnt := h.nrObjs chunk } = some objs)
    (hn : n ≤ (h.nrObjs chunk).toNat) :
    ∃ turns, h.pass turns
        { hashIt, chunk := some chunk, cnt := UInt64.ofNat ((h.nrObjs chunk).toNat - n) } =
      some ((List.range' ((h.nrObjs chunk).toNat - n) n).map
        (fun i => h.objAt chunk (UInt64.ofNat i)) ++ objs) := by
  have hlt := (h.nrObjs chunk).toNat_lt
  induction n with
  | zero => simpa using hend
  | succ n ih =>
    obtain ⟨turns, hturns⟩ := ih (by omega)
    have hsucc : (h.nrObjs chunk).toNat - n = (h.nrObjs chunk).toNat - (n + 1) + 1 := by omega
    refine ⟨turns + 1, ?_⟩
    have hnot :
        h.atEnd ⟨hashIt, some chunk, UInt64.ofNat ((h.nrObjs chunk).toNat - (n + 1))⟩ = false := by
      simp only [atEnd, decide_eq_false_iff_not, ge_iff_le, UInt64.le_iff_toNat_le]
      rw [UInt64.toNat_ofNat_of_lt' (show _ - _ < 2 ^ 64 by omega)]
      omega
    rw [hsucc, UInt64.ofNat_add] at hturns
    unfold pass iterate
    rw [hnot]
    simp only [Bool.false_eq_true, if_false, Option.map_some]
    rw [show (1 : UInt64) = UInt64.ofNat 1 from rfl, hturns, List.range'_succ]
    rfl

theorem slots_cons {chunk : xptr} (hpos : 0 < (h.nrObjs chunk).toNat) :
    h.slots chunk = h.objAt chunk 0 ::
      (List.range' 1 ((h.nrObjs chunk).toNat - 1)).map fun i => h.objAt chunk (UInt64.ofNat i) := by
  obtain ⟨n, hn⟩ := Nat.exists_eq_add_one_of_ne_zero hpos.ne'
  rw [slots, hn, List.range_eq_range', List.range'_succ]
  rfl

theorem pass_rest {rest : List Nat} (hend : h.atEnd it = true)
    (hrest : h.table.Remaining it.hashIt rest)
    (hpos : ∀ i ∈ rest, 0 < (h.nrObjs (h.table.kvs i)).toNat) :
    ∃ turns, h.pass turns it = some (h.objectsAt rest) := by
  induction rest generalizing it with
  | nil =>
    refine ⟨1, ?_⟩
    have hnone : h.nextChunk it = none := by
      rw [nextChunk, hrest.iterate_nil]
    rw [pass, iterate, hend, if_pos rfl, hnone]
    rfl
  | cons i rest ih =>
    obtain ⟨hnext, hrest'⟩ := hrest.iterate_cons
    have hi := hpos i List.mem_cons_self
    have hchunk : h.nextChunk it = some
        ⟨⟨i + 1, it.hashIt.cnt + 1⟩, some (h.table.kvs i), 0⟩ := by
      rw [nextChunk, hnext]
    -- the first object of the chunk is returned without a look at its number of objects
    have hend' : h.atEnd ⟨⟨i + 1, it.hashIt.cnt + 1⟩, some (h.table.kvs i),
        h.nrObjs (h.table.kvs i)⟩ = true := by simp [atEnd]
    obtain ⟨turns, hturns⟩ := pass_within
      (ih hend' hrest' fun j hj => hpos j (List.mem_cons_of_mem i hj))
      (show (h.nrObjs (h.table.kvs i)).toNat - 1 ≤ _ from Nat.sub_le _ _)
    refine ⟨turns + 1, ?_⟩
    have hone : (h.nrObjs (h.table.kvs i)).toNat - ((h.nrObjs (h.table.kvs i)).toNat - 1) = 1 := by
      omega
    rw [hone] at hturns
    rw [pass, iterate, hend, if_pos rfl, hchunk]
    dsimp only [Option.map_some]
    rw [objectsAt, List.flatMap_cons, slots_cons hi]
    exact congrArg (Option.map (h.objAt (h.table.kvs i) 0 :: ·)) hturns

theorem checkFrom_eq {rest : List Nat} {hashIt : XhashIter} {turns : Nat}
    (hrest : h.table.Remaining hashIt rest) (hturns : rest.length < turns) :
    h.checkFrom ptr turns hashIt = some (if ptr ∈ h.objectsAt rest then 1 else 0) := by
  induction rest generalizing hashIt turns with
  | nil =>
    obtain ⟨n, rfl⟩ := Nat.exists_eq_add_of_lt hturns
    rw [checkFrom, hrest.iterate_nil]
    simp [objectsAt]
  | cons i rest ih =>
    obtain ⟨n, rfl⟩ := Nat.exists_eq_add_of_lt hturns
    obtain ⟨hnext, hrest'⟩ := hrest.iterate_cons
    rw [checkFrom, hnext]
    dsimp only
    rw [ih hrest' (by rw [List.length_cons]; omega)]
    by_cases hptr : ptr ∈ h.slots (h.table.kvs i)
    · simp [objectsAt, hptr]
    · simp [objectsAt, hptr]

theorem check_eq (ht : h.table.Tracked integerFunctions) (ptr : xptr) :
    h.check ptr = some (if ptr ∈ h.objectsAt h.table.occupied then 1 else 0) := by
  apply checkFrom_eq ht.remaining
  rw [Xhash.occupied_eq]
  have hle := List.length_filter_le h.table.itemValid (List.range h.table.size)
  rw [List.length_range] at hle
  omega

end XobjPool

end Libxseg
