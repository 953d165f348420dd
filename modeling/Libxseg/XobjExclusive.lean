import Libxseg.Transition
import Libxseg.XheapClasses
import Libxseg.XobjLayout

/-!
# Outstanding objects do not overlap

In every run, whatever the users write inside their objects and others outside the chunks, the
free list ends and has none of the outstanding objects, and the table has the chunks of all
objects that were ever handed out.
-/

namespace Libxseg

set_option autoImplicit false

structure ObjSession where
  pool : XobjHandler
  out : List Nat

inductive ObjCall where
  | get (flags : UInt32) (heap : HeapCalls) (kvs0 : Nat → xhashidx) (ret : Option Nat)
  | put (ptr : Nat)
  /-- Someone writes a byte. -/
  | write (a : Nat) (b : UInt8)

def ObjCall.given : ObjCall → Option Nat
  | get _ _ _ ret => ret
  | _ => none

namespace XobjHandler
variable {h h' : XobjHandler} {out free : List Nat} {chunks : List LiveChunk} {t : LiveChunk}
  {heap : HeapCalls} {ptr x : Nat}

theorem isFreeFrom_eq {node : Nat}
    (hlinked : h.memory.bytes.Linked (h.container + 16) node (free.map (· + 16)))
    (hlt : ∀ x ∈ free, x < 2 ^ 64) :
    h.isFreeFrom ptr (free.length + 1) node = some (if ptr ∈ free then 1 else 0) := by
  induction free generalizing node with
  | nil =>
    have hzero : node = 0 := hlinked
    rw [isFreeFrom, if_pos hzero, if_neg List.not_mem_nil]
  | cons x free ih =>
    obtain ⟨hne, hx, hrest⟩ := hlinked
    have hx : h.container + 16 + node = x + 16 := hx
    have hobj : xptrTake node h.container = x := by
      have hxlt := hlt x List.mem_cons_self
      rw [xptrTake_eq (by omega)]
      omega
    rw [List.length_cons, isFreeFrom, if_neg hne]
    dsimp only
    rw [hobj]
    by_cases hptr : x = ptr
    · rw [if_pos hptr, if_pos (hptr ▸ List.mem_cons_self)]
    · have hrest' := ih hrest fun y hy => hlt y (List.mem_cons_of_mem x hy)
      have hmem : ptr ∈ x :: free ↔ ptr ∈ free := by
        rw [List.mem_cons, or_iff_right (Ne.symm hptr)]
      simp only [if_neg hptr, hmem]
      exact hrest'

theorem checkFrom_eq {rest : List Nat} {it : XhashIter} {turns : Nat}
    (hrest : h.memory.table.Remaining it rest) (hturns : rest.length < turns)
    (hptr : ∃ i ∈ rest, ptr ∈ h.slots (xptrTake (h.memory.table.kvs i).toNat h.container)) :
    h.checkFrom ptr turns it = some 1 := by
  induction rest generalizing it turns with
  | nil =>
    obtain ⟨i, hi, -⟩ := hptr
    cases hi
  | cons i rest ih =>
    obtain ⟨n, rfl⟩ := Nat.exists_eq_add_of_lt hturns
    obtain ⟨hnext, hrest'⟩ := hrest.iterate_cons
    rw [checkFrom, hnext]
    dsimp only
    by_cases hslot : ptr ∈ h.slots (xptrTake (h.memory.table.kvs i).toNat h.container)
    · rw [if_pos hslot]
    · rw [if_neg hslot]
      obtain ⟨j, hj, hptr⟩ := hptr
      rcases List.mem_cons.mp hj with rfl | hj
      · exact absurd hptr hslot
      · exact ih hrest' (by rw [List.length_cons]; omega) ⟨j, hj, hptr⟩

/-- More turns do not change what a request returns. -/
theorem getObj_turns [Overwriting] {flags : UInt32} {kvs0 : Nat → xhashidx} {n k : Nat}
    {p q : Option Nat × XobjHandler} (hn : h.getObj flags heap kvs0 n = some p)
    (hk : h.getObj flags heap kvs0 k = some q) : p = q := by
  induction n generalizing h k with
  | zero => cases hn
  | succ n ih =>
    cases k with
    | zero => cases hk
    | succ k =>
      rw [getObj] at hn hk
      by_cases hlist : h.list ≠ 0
      · rw [if_pos hlist] at hn hk
        exact Option.some.inj (hn.symm.trans hk)
      rw [if_neg hlist] at hn hk
      by_cases hflags : flags &&& X_ALLOC = 0
      · rw [if_pos hflags] at hn hk
        exact Option.some.inj (hn.symm.trans hk)
      rw [if_neg hflags] at hn hk
      obtain ⟨⟨r, h₁⟩, halloc, hn⟩ := Option.bind_eq_some_iff.mp hn
      rw [halloc, Option.bind_some] at hk
      dsimp only at hn hk
      by_cases hr : r < 0
      · rw [if_pos hr] at hn hk
        exact Option.some.inj (hn.symm.trans hk)
      · rw [if_neg hr] at hn hk
        exact ih hn hk

end XobjHandler

section Pools
variable {h h' : XobjHandler} {out free : List Nat} {chunks : List LiveChunk} {t : LiveChunk}
  {heap : HeapCalls} {ptr x : Nat}

/-- The table still knows the chunk of an object, and an object is at a slot of its chunk. -/
theorem Pool.check (hp : Pool h out t chunks free)
    (hx : x ∈ chunks.flatMap (·.objects h.objSize.toNat)) : h.check x = some 1 := by
  obtain ⟨c, hc, hx⟩ := List.mem_flatMap.mp hx
  have hin := hp.layout.chunks_within c hc
  have hkey := key_toNat hin
  unfold LiveChunk.Within at hin
  have hdict := hp.recorded.dict
  obtain ⟨i, ⟨hlt, hvalid, hcmp⟩, -⟩ := (hp.recorded.holds (c.key h.container) _).mpr
    ⟨rfl, List.mem_map_of_mem hc⟩
  have hkvs : h.memory.table.kvs i = c.key h.container := eq_of_beq hcmp
  refine XobjHandler.checkFrom_eq hdict.wf.tracked.remaining ?_
    ⟨i, Xhash.mem_occupied.mpr ⟨hlt, hvalid⟩, ?_⟩
  · rw [Xhash.occupied_eq]
    have hle := List.length_filter_le h.memory.table.itemValid (List.range h.memory.table.size)
    rw [List.length_range] at hle
    omega
  · have hptr : xptrTake (c.key h.container).toNat h.container = c.ptr := by
      rw [hkey, xptrTake_eq (by omega)]
      omega
    rw [hkvs, hptr, XobjHandler.slots, hp.divided.header c hc]
    have hend := (LiveChunk.mem_objects hx).2
    obtain ⟨j, hj, rfl⟩ := mem_objectsFrom.mp hx
    refine List.mem_map.mpr ⟨j, List.mem_range.mpr ?_, Nat.mod_eq_of_lt (by omega)⟩
    exact hj.trans_le (Nat.div_le_div_right (Nat.sub_le _ _))

variable [Overwriting]

/-- A request returns, and hands out the first free object or leaves what there is. -/
theorem Pool.getObj (hp : Pool h out t chunks free) (hlaw : heap.Lawful h.container)
    (flags : UInt32) (kvs0 : Nat → xhashidx) :
    ∃ ret h' t' chunks' free', h.getObj flags heap kvs0 2 = some (ret, h') ∧
      Pool h' (ret.toList ++ out) t' chunks' free' ∧ chunks ⊆ chunks' ∧
      h'.objSize = h.objSize := by
  have hpop {h : XobjHandler} {t : LiveChunk} {chunks : List LiveChunk} {free : List Nat}
      (hp : Pool h out t chunks free) (hne : h.list ≠ 0) :
      (∃ free', Pool h.popObj.2 ((some h.popObj.1).toList ++ out) t chunks free') ∧
        h.popObj.2.objSize = h.objSize := by
    obtain ⟨rest, -, hdivided⟩ := hp.divided.pop hp.layout hne
    unfold XobjHandler.popObj at hdivided ⊢
    dsimp only at hdivided ⊢
    exact ⟨⟨rest, hp.layout, hp.recorded, hdivided⟩, rfl⟩
  rw [XobjHandler.getObj]
  by_cases hlist : h.list ≠ 0
  · obtain ⟨⟨free', hp'⟩, hsize⟩ := hpop hp hlist
    rw [if_pos hlist]
    exact ⟨_, _, t, chunks, free', rfl, hp', List.Subset.refl _, hsize⟩
  rw [if_neg hlist]
  by_cases hflags : flags &&& X_ALLOC = 0
  · rw [if_pos hflags]
    exact ⟨none, h, t, chunks, free, rfl, hp, List.Subset.refl _, rfl⟩
  rw [if_neg hflags]
  obtain ⟨r, h', t', chunks', free', halloc, hp', hsub, -, hsize, hne⟩ := hp.allocObj hlaw kvs0 64
  rw [halloc, Option.bind_some]
  dsimp only
  by_cases hr : r < 0
  · rw [if_pos hr]
    exact ⟨none, h', t', chunks', free', rfl, hp', hsub, hsize⟩
  · have hlist' : h'.list ≠ 0 := hne (Int.not_lt.mp hr)
    obtain ⟨⟨free', hp''⟩, hsize'⟩ := hpop hp' hlist'
    rw [if_neg hr, XobjHandler.getObj, if_pos hlist']
    exact ⟨_, _, t', chunks', free', rfl, hp'', hsub, hsize'.trans hsize⟩

/-- A byte of an outstanding object, or one outside the chunks. -/
theorem Pool.write (hp : Pool h out t chunks free) {a : Nat}
    (ha : (∃ x ∈ out, x ≤ a ∧ a < x + h.objSize.toNat) ∨
      ∀ c ∈ h.memory.live, ¬ c.Covers a) (b : UInt8) :
    Pool { h with memory := h.memory.store a 1 b.toNat } out t chunks free := by
  have hl := hp.layout
  have hclear : h.memory.Clear a 1 := by
    rcases ha with ⟨x, hx, hle, hlt⟩ | hout
    · obtain ⟨c, hc, hc1, hc2⟩ := hp.divided.owned (List.mem_append_right free hx)
      exact hl.clear hc (by omega) (by omega)
    · have hnot := hout t ((hl.live t).mpr List.mem_cons_self)
      have hroom := hl.room
      unfold LiveChunk.Covers at hnot
      rw [ObjMemory.Clear, hl.allocated]
      omega
  rw [ObjMemory.store_eq hclear]
  refine ⟨hl.of_bytes _, hp.recorded, hp.divided.frame hl fun y hy hyout => ?_⟩
  have hne : y ≠ a := by
    rintro rfl
    rcases ha with ⟨x, hx, hxa⟩ | hout
    · exact hyout x hx hxa
    · obtain ⟨c, hc, hca⟩ := hy
      exact hout c ((hl.live c).mpr (List.mem_cons_of_mem t hc)) hca
  exact Memory.storeBytes_outside (by omega)

end Pools

namespace ObjSession
variable {s s' : ObjSession} {evs : List ObjCall}

def Admissible (s : ObjSession) : ObjCall → Prop
  | .get _ heap _ _ => heap.Lawful s.pool.container
  | .put ptr => ptr ∈ s.out
  | .write a _ => (∃ x ∈ s.out, x ≤ a ∧ a < x + s.pool.objSize.toNat) ∨
      ∀ c ∈ s.pool.memory.live, ¬ c.Covers a

section Runs
variable [Overwriting]

def Step (s : ObjSession) : ObjCall → ObjSession → Prop
  | .get flags heap kvs0 ret, s' => ∃ turns pool,
      s.pool.getObj flags heap kvs0 turns = some (ret, pool) ∧
        s' = { pool, out := ret.toList ++ s.out }
  | .put ptr, s' => s' = { pool := s.pool.putObj ptr, out := s.out.erase ptr }
  | .write a b, s' =>
    s' = { pool := { s.pool with memory := s.pool.memory.store a 1 b.toNat }, out := s.out }

/-- `given` are the objects handed out so far. -/
structure Exclusive (s : ObjSession) (given : List Nat) : Prop where
  apart : s.out.Pairwise (ObjectsApart s.pool.objSize.toNat)
  owned : ∀ x ∈ s.out, ∃ c ∈ s.pool.memory.live,
    s.pool.memory.table.Holds integerFunctions (c.key s.pool.container)
      (c.key s.pool.container) ∧ c.ptr ≤ x ∧ x + s.pool.objSize.toNat ≤ c.ptr + c.size
  free : ∃ free : List Nat,
    s.pool.memory.bytes.Linked (s.pool.container + 16) s.pool.list (free.map (· + 16)) ∧
      (∀ x ∈ s.out, ∀ y ∈ free, ObjectsApart s.pool.objSize.toNat x y) ∧
      ∀ ptr, ∃ turns, s.pool.isFree ptr turns = some (if ptr ∈ free then 1 else 0)
  notFree : ∀ x ∈ s.out, ∃ turns, s.pool.isFree x turns = some 0
  check : ∀ x ∈ given, s.pool.check x = some 1
  returns : ∀ flags heap kvs0, heap.Lawful s.pool.container →
    ∃ turns ret, s.pool.getObj flags heap kvs0 turns = some ret

def Inv (s : ObjSession) (given : List Nat) : Prop :=
  ∃ t chunks free, Pool s.pool s.out t chunks free ∧
    ∀ x ∈ given, x ∈ chunks.flatMap (·.objects s.pool.objSize.toNat)

variable {given : List Nat}

theorem Inv.exclusive (hi : s.Inv given) : s.Exclusive given := by
  obtain ⟨t, chunks, free, hp, hgiven⟩ := hi
  have hl := hp.layout
  obtain ⟨-, hout, hboth⟩ := List.pairwise_append.mp (hp.divided.apart hl)
  have hsize := hp.divided.size_le
  have hlt (x : Nat) (hx : x ∈ free) : x < 2 ^ 64 := by
    obtain ⟨c, hc, -, hend⟩ := hp.divided.owned (List.mem_append_left s.out hx)
    have hin := (hl.chunks_within c hc).2
    omega
  have hfree (ptr : Nat) : s.pool.isFree ptr (free.length + 1) =
      some (if ptr ∈ free then 1 else 0) := XobjHandler.isFreeFrom_eq hp.divided.linked hlt
  refine ⟨hout, fun x hx => ?_, ⟨free, hp.divided.linked, fun x hx y hy => (hboth y hy x hx).symm,
    fun ptr => ⟨_, hfree ptr⟩⟩, fun x hx => ⟨free.length + 1, ?_⟩,
    fun x hx => hp.check (hgiven x hx), fun flags heap kvs0 hlaw => ?_⟩
  · obtain ⟨c, hc, hle, hend⟩ := hp.divided.owned (List.mem_append_right free hx)
    exact ⟨c, (hl.live c).mpr (List.mem_cons_of_mem t hc),
      (hp.recorded.holds _ _).mpr ⟨rfl, List.mem_map_of_mem hc⟩, hle, by omega⟩
  · rw [hfree, if_neg]
    intro hmem
    have happart := hboth x hmem x hx
    unfold ObjectsApart at happart
    omega
  · obtain ⟨ret, h', -, -, -, hget, -⟩ := hp.getObj hlaw flags kvs0
    exact ⟨2, _, hget⟩

theorem Inv.step {ev : ObjCall} (hi : s.Inv given) (hadm : s.Admissible ev)
    (hstep : s.Step ev s') : s'.Inv (given ++ ev.given.toList) := by
  obtain ⟨t, chunks, free, hp, hgiven⟩ := hi
  cases ev with
  | get flags heap kvs0 ret =>
    obtain ⟨turns, pool, hget, rfl⟩ := hstep
    obtain ⟨ret', pool', t', chunks', free', hget', hp', hsub, hsize⟩ := hp.getObj hadm flags kvs0
    cases XobjHandler.getObj_turns hget hget'
    refine ⟨t', chunks', free', hp', fun x hx => ?_⟩
    rcases List.mem_append.mp hx with hx | hx
    · obtain ⟨c, hc, hxc⟩ := List.mem_flatMap.mp (hgiven x hx)
      dsimp only
      rw [hsize]
      exact List.mem_flatMap.mpr ⟨c, hsub hc, hxc⟩
    · exact hp'.divided.parts.mem_iff.mp (List.mem_append_right free'
        (List.mem_append_left s.out hx))
  | put ptr =>
    obtain rfl := hstep
    obtain ⟨hdivided, hlayout, htable⟩ := hp.divided.put hp.layout hadm
    refine ⟨t, chunks, ptr :: free, ⟨hlayout, ?_, hdivided⟩, fun x hx => ?_⟩
    · change Recorded _ (s.pool.putObj ptr).memory.table chunks
      rw [htable]
      exact hp.recorded
    · have hx : x ∈ given ++ [] := hx
      rw [List.append_nil] at hx
      exact hgiven x hx
  | write a b =>
    obtain rfl := hstep
    refine ⟨t, chunks, free, hp.write hadm b, fun x hx => ?_⟩
    have hx : x ∈ given ++ [] := hx
    rw [List.append_nil] at hx
    exact hgiven x hx

omit [Overwriting] in
theorem inv_start {container : Nat} {magic : UInt32} {size : UInt64} {heap : HeapCalls}
    {bytes : Memory} {kvs0 : Nat → xhashidx} {h : XobjHandler} (hlaw : heap.Lawful container)
    (hinit : XobjHandler.handlerInit container magic size heap bytes kvs0 = some h) :
    Inv { pool := h, out := [] } [] := by
  unfold XobjHandler.handlerInit ObjMemory.allocate at hinit
  dsimp only at hinit
  cases hchunk : (heap.allocate ⟨bytes, []⟩ (Xhash.getAllocSize 3)).1 with
  | none =>
    rw [hchunk] at hinit
    cases hinit
  | some t =>
    rw [hchunk] at hinit
    obtain rfl := Option.some.inj hinit
    have hroom := hlaw.room _ _ _ hchunk
    have halloc : (Xhash.getAllocSize 3).toNat = 192 := by decide
    rw [halloc] at hroom
    refine ⟨t, [], [], ⟨⟨fun d => Iff.rfl, fun d hd => ?_, ?_, rfl, hroom⟩,
      ⟨⟨Xhash.wf_initRaw kvs0 (by decide) (by decide), Xhash.initRaw_unique kvs0, rfl⟩,
        fun k v => ?_⟩, ⟨?_, fun c hc => ?_, rfl, List.Perm.refl _⟩⟩, fun x hx => ?_⟩
    · obtain rfl := List.mem_singleton.mp hd
      exact hlaw.within _ _ _ hchunk
    · exact List.pairwise_singleton _ t
    · constructor
      · intro hheld
        exact absurd hheld (Xhash.absent_iff_not_holds.mp (Xhash.initRaw_absent kvs0 k) v)
      · intro hmem
        cases hmem.2
    · dsimp only
      split
      · exact Nat.le_refl _
      · rename_i hle
        exact UInt64.le_iff_toNat_le.mp (UInt64.not_lt.mp hle)
    · cases hc
    · cases hx

/-- For every object size, in every run, of requests that may make the heap give chunks and take
back tables, and of objects that come back and are written to. -/
theorem run_objectsExclusive {container : Nat} {magic : UInt32} {size : UInt64} {heap : HeapCalls}
    {bytes : Memory} {kvs0 : Nat → xhashidx} {h : XobjHandler} (hlaw : heap.Lawful container)
    (hinit : XobjHandler.handlerInit container magic size heap bytes kvs0 = some h)
    (hrun : Run (Guarded Step Admissible) { pool := h, out := [] } evs s) :
    s.Exclusive (evs.filterMap ObjCall.given) := by
  have hinv := hrun.history (I := fun evs s => s.Inv (evs.filterMap ObjCall.given)) ?_
    (inv_start hlaw hinit)
  · exact hinv.exclusive
  · intro evs s ev s' hi hstep
    rw [List.filterMap_append]
    have hone : [ev].filterMap ObjCall.given = ev.given.toList := by
      cases hgiven : ev.given with
      | none => rw [List.filterMap_cons_none hgiven]; rfl
      | some x => rw [List.filterMap_cons_some hgiven]; rfl
    rw [hone]
    exact hi.step hstep.1 hstep.2

end Runs

/-- A heap of pages that never reuses a chunk. -/
def pageCalls : HeapCalls where
  allocate m bytes :=
    let ptr := m.live.foldr (fun c top => max (c.ptr + c.size) top) (2 ^ 12) + sizeofHeader
    let size := align (bytes.toNat + sizeofHeader) 12 - sizeofHeader
    if ptr + size < 2 ^ 63 then (some ⟨ptr, size⟩, m.bytes.store64 (ptr - sizeofHeader + 16) size)
    else (none, m.bytes)
  free m _ := m.bytes

theorem top_le {live : List LiveChunk} (d : LiveChunk) (hd : d ∈ live) :
    d.ptr + d.size ≤ live.foldr (fun c top => max (c.ptr + c.size) top) (2 ^ 12) := by
  induction live with
  | nil => cases hd
  | cons c live ih =>
    rw [List.foldr_cons]
    rcases List.mem_cons.mp hd with rfl | hd
    · exact le_max_left _ _
    · exact (ih hd).trans (le_max_right _ _)

theorem le_top (live : List LiveChunk) :
    2 ^ 12 ≤ live.foldr (fun c top => max (c.ptr + c.size) top) (2 ^ 12) := by
  induction live with
  | nil => exact Nat.le_refl _
  | cons c live ih =>
    rw [List.foldr_cons]
    exact ih.trans (le_max_right _ _)

theorem pageCalls_lawful {container : Nat} (hcontainer : container < 2 ^ 12) :
    pageCalls.Lawful container := by
  have hgives (m : LiveHeap) (bytes : UInt64) (c : LiveChunk)
      (h : (pageCalls.allocate m bytes).1 = some c) :
      c.ptr = m.live.foldr (fun c top => max (c.ptr + c.size) top) (2 ^ 12) + sizeofHeader ∧
        c.size = align (bytes.toNat + sizeofHeader) 12 - sizeofHeader ∧
        c.ptr + c.size < 2 ^ 63 ∧
        (pageCalls.allocate m bytes).2 = m.bytes.store64 (c.ptr - sizeofHeader + 16) c.size := by
    unfold pageCalls at h ⊢
    dsimp only at h ⊢
    split at h
    · rename_i hlt
      obtain rfl := Option.some.inj h
      exact ⟨rfl, rfl, hlt, by rw [if_pos hlt]⟩
    · cases h
  have hsize (n : Nat) : n ≤ align (n + sizeofHeader) 12 - sizeofHeader := by
    have hle : n + 24 ≤ roundUp (n + 24) (2 ^ 12) := le_roundUp (by omega) (by omega)
    rw [Xheap.align_eq]
    unfold sizeofHeader
    omega
  refine ⟨fun m bytes c h => ?_, fun m shift c h => ?_, fun m bytes c h => ?_,
    fun m bytes c h d hd => ?_, fun m bytes a ha => ?_, fun _ _ _ _ => rfl⟩
  · obtain ⟨hptr, -, hlt, -⟩ := hgives m bytes c h
    have htop := le_top m.live
    unfold LiveChunk.Within sizeofHeader at *
    omega
  · obtain ⟨-, hsz, -⟩ := hgives m (Xhash.getAllocSize shift) c h
    rw [hsz]
    exact hsize _
  · obtain ⟨-, -, hlt, hmem⟩ := hgives m bytes c h
    rw [hmem]
    exact Memory.load64_store64_same (by omega)
  · obtain ⟨hptr, -⟩ := hgives m bytes c h
    have htop := top_le d hd
    unfold LiveChunk.Apart
    omega
  · cases hchunk : (pageCalls.allocate m bytes).1 with
    | none =>
      unfold pageCalls at hchunk ⊢
      dsimp only at hchunk ⊢
      split at hchunk
      · cases hchunk
      · rename_i hlt
        rw [if_neg hlt]
    | some c =>
      obtain ⟨hptr, -, -, hmem⟩ := hgives m bytes c hchunk
      obtain ⟨d, hd, hda⟩ := ha
      have htop := top_le d hd
      rw [hmem]
      unfold LiveChunk.Covers at hda
      unfold sizeofHeader at *
      exact Memory.store64_outside (by omega)

/-- Two objects are handed out, a byte of the first one is written, and it comes back and is handed
out again: the objects, the container before each call, and the object size. -/
def handOutAgain [Overwriting] : Option (List (Option Nat) × List Nat × UInt64) :=
  (XobjHandler.handlerInit 1024 7 32 pageCalls (fun _ => 0) (fun _ => 0)).bind fun h =>
    (h.getObj X_ALLOC pageCalls (fun _ => 0) 2).bind fun (a, h₁) =>
      (h₁.getObj X_ALLOC pageCalls (fun _ => 0) 2).bind fun (b, h₂) =>
        let h₃ : XobjHandler := { h₂ with memory := h₂.memory.store 8221 1 1 }
        ((h₃.putObj 8216).getObj X_ALLOC pageCalls (fun _ => 0) 2).map fun (c, _) =>
          ([a, b, c], [h.container, h₁.container, h₂.container], h₂.objSize)

theorem run_objectsExclusive_written : ∃ (_ : Overwriting) (h : XobjHandler) (evs : List ObjCall)
    (s : ObjSession),
    XobjHandler.handlerInit 1024 7 32 pageCalls (fun _ => 0) (fun _ => 0) = some h ∧
      Run (Guarded Step Admissible) { pool := h, out := [] } evs s ∧
      evs.filterMap ObjCall.given = [8216, 8248, 8216] ∧ s.Exclusive [8216, 8248, 8216] := by
  let _ : Overwriting := ⟨fun table _ _ _ => table⟩
  have hagain : handOutAgain =
      some ([some 8216, some 8248, some 8216], [1024, 1024, 1024], 32) := by decide +kernel
  obtain ⟨h, hinit, hagain⟩ := Option.bind_eq_some_iff.mp hagain
  obtain ⟨⟨a, h₁⟩, hget₁, hagain⟩ := Option.bind_eq_some_iff.mp hagain
  obtain ⟨⟨b, h₂⟩, hget₂, hagain⟩ := Option.bind_eq_some_iff.mp hagain
  obtain ⟨⟨c, h₄⟩, hget₃, hagain⟩ := Option.map_eq_some_iff.mp hagain
  obtain ⟨hobjs, hagain⟩ := Prod.mk.inj hagain
  obtain ⟨hcontainers, hsize⟩ := Prod.mk.inj hagain
  obtain ⟨rfl, rfl, rfl⟩ : a = some 8216 ∧ b = some 8248 ∧ c = some 8216 := by simpa using hobjs
  obtain ⟨hc, hc₁, hc₂⟩ : h.container = 1024 ∧ h₁.container = 1024 ∧ h₂.container = 1024 := by
    simpa using hcontainers
  have hlaw : pageCalls.Lawful 1024 := pageCalls_lawful (by decide)
  have hget {h h' : XobjHandler} {ret : Option Nat} (out : List Nat) (hc : h.container = 1024)
      (hrun : h.getObj X_ALLOC pageCalls (fun _ => 0) 2 = some (ret, h')) :
      Guarded Step Admissible { pool := h, out } (.get X_ALLOC pageCalls (fun _ => 0) ret)
        { pool := h', out := ret.toList ++ out } := by
    refine ⟨?_, 2, h', hrun, rfl⟩
    change pageCalls.Lawful h.container
    rw [hc]
    exact hlaw
  have hwrite : Guarded Step Admissible { pool := h₂, out := [8248, 8216] } (.write 8221 1)
      { pool := { h₂ with memory := h₂.memory.store 8221 1 1 }, out := [8248, 8216] } := by
    refine ⟨Or.inl ⟨8216, List.mem_cons_of_mem _ List.mem_cons_self, by decide, ?_⟩, rfl⟩
    change 8221 < 8216 + h₂.objSize.toNat
    rw [hsize]
    decide
  have hput (h : XobjHandler) : Guarded Step Admissible { pool := h, out := [8248, 8216] }
      (.put 8216) { pool := h.putObj 8216, out := [8248] } := by
    refine ⟨?_, rfl⟩
    change 8216 ∈ [8248, 8216]
    decide
  have hrun := ((((Run.single (hget [] hc hget₁)).snoc (hget _ hc₁ hget₂)).snoc hwrite).snoc
    (hput _)).snoc (hget _ hc₂ hget₃)
  exact ⟨_, h, _, _, hinit, hrun, rfl, run_objectsExclusive hlaw hinit hrun⟩

end ObjSession

end Libxseg
