import Mathlib.Data.UInt
import Libxseg.XobjTable
import Libxseg.XsegBuffer

/-!
# Runs of an object handler

The counters count the objects, and both enumerations meet each object once, as long as the
object size does not divide the size of the chunk that the heap gives for 64 objects.
-/

namespace Libxseg

set_option autoImplicit false

structure XobjSession where
  pool : XobjPool
  out : List xptr

inductive XobjEvent where
  | get (flags : UInt32) (mem : Option (xptr × UInt64)) (new : Option (Nat → xhashidx))
      (ret : Option xptr)
  | put (ptr : xptr)

namespace XobjSession
variable {heap : Xheap} {s s' : XobjSession} {mem : Option (xptr × UInt64)}
  {new : Option (Nat → xhashidx)} {c : xptr × UInt64} {ptr : xptr}

def Step (s : XobjSession) : XobjEvent → XobjSession → Prop
  | .get flags mem new ret, s' => ∃ pool, s.pool.getObj flags mem new = some (ret, pool) ∧
      s' = { pool, out := ret.toList ++ s.out }
  | .put ptr, s' => s' = { pool := s.pool.putObj ptr, out := s.out.erase ptr }

/-- What the heap promises of a chunk for 64 objects, `chunkSize64` being the size it checks for. -/
def HeapGives (heap : Xheap) (s : XobjSession) (mem : Option (xptr × UInt64)) : Prop :=
  ∀ c, mem = some c → s.pool.HeapChunk c ∧
    c.2.toNat = heap.chunkSize64 (64 * s.pool.objSize).toNat

def Admissible (heap : Xheap) (s : XobjSession) : XobjEvent → Prop
  | .get _ mem _ _ => s.HeapGives heap mem
  | .put ptr => ptr ∈ s.out

/-- The counters and the enumerations agree with the free and the outstanding objects. -/
structure Accounted (s : XobjSession) : Prop where
  nr_free : s.pool.nrFree.toNat = s.pool.list.length
  nr_allocated : s.pool.nrAllocated.toNat = s.pool.nrFree.toNat + s.out.length
  nodup : (s.pool.list ++ s.out).Nodup
  iterate : ∃ turns objs, s.pool.pass turns XobjPool.iterInit = some objs ∧
    objs.Perm (s.pool.list ++ s.out)
  check : ∀ ptr, s.pool.check ptr = some (if ptr ∈ s.pool.list ++ s.out then 1 else 0)

def Uneven (heap : Xheap) (objSize : UInt64) : Prop :=
  ¬ objSize.toNat ∣ heap.chunkSize64 (64 * objSize).toNat

structure Inv (heap : Xheap) (s : XobjSession) : Prop where
  uneven : Uneven heap s.pool.objSize
  wf : s.pool.toXobjectH.Wf
  chunks : ∀ c ∈ s.pool.allocated,
    ¬ s.pool.objSize.toNat ∣ c.2.toNat ∧ s.pool.chunkObjects c ≠ []
  dict : s.pool.table.Dict integerFunctions
  holds : ∀ k v, s.pool.table.Holds integerFunctions k v ↔
    v = k ∧ k ∈ s.pool.allocated.map Prod.fst
  parts : (s.pool.list ++ s.out).Perm s.pool.objects
  nrFree : s.pool.nrFree = UInt64.ofNat s.pool.list.length
  nrAllocated : s.pool.nrAllocated = UInt64.ofNat s.pool.objects.length

theorem lookup_of_mem {l : List (xptr × UInt64)} (hnd : (l.map Prod.fst).Nodup) (hc : c ∈ l) :
    l.lookup c.1 = some c.2 := by
  induction l with
  | nil => cases hc
  | cons d l ih =>
    rw [List.map_cons, List.nodup_cons] at hnd
    rcases List.mem_cons.mp hc with rfl | hc
    · exact List.lookup_cons_self
    · have hne : (c.1 == d.1) = false := by
        apply beq_false_of_ne
        intro heq
        exact hnd.1 (heq ▸ List.mem_map_of_mem hc)
      rw [List.lookup_cons, hne]
      exact ih hnd.2 hc

section Inv
variable (hi : Inv heap s)
include hi

theorem Inv.length_lt : s.pool.objects.length < 2 ^ 64 := by
  have hsub : (s.pool.objects.map UInt64.toNat).Subperm (List.range (2 ^ 64 - 1)) := by
    apply List.subperm_of_subset
    · exact hi.wf.nodup.map fun x y hxy => UInt64.toNat_inj.mp hxy
    · intro n hn
      obtain ⟨x, hx, rfl⟩ := List.mem_map.mp hn
      have hlt := x.toNat_lt
      have hne : x.toNat ≠ 2 ^ 64 - 1 := fun heq =>
        hi.wf.ne_noneidx hx (UInt64.toNat_inj.mp heq)
      exact List.mem_range.mpr (by omega)
  have hle := hsub.length_le
  rw [List.length_map, List.length_range] at hle
  omega

theorem Inv.bytes_pos (hc : c ∈ s.pool.allocated) : 0 < c.2.toNat := by
  apply Nat.pos_of_ne_zero
  intro hzero
  have hdvd := (hi.chunks c hc).1
  rw [hzero] at hdvd
  exact hdvd (dvd_zero _)

theorem Inv.nodup_keys : (s.pool.allocated.map Prod.fst).Nodup := by
  apply List.pairwise_map.mpr
  apply hi.wf.apart.imp_of_mem
  intro c d hc hd happart heq
  have hcpos := hi.bytes_pos hc
  have hdpos := hi.bytes_pos hd
  rw [XobjectH.Apart, heq] at happart
  omega

theorem Inv.slots_eq (hc : c ∈ s.pool.allocated) :
    s.pool.slots c.1 = s.pool.toXobjectH.chunkObjects c := by
  apply XobjPool.slots_eq hi.wf.size _ (hi.chunks c hc).1
  rw [XobjPool.chunkSize, lookup_of_mem hi.nodup_keys hc]
  rfl

theorem Inv.occupied_keys :
    (s.pool.table.occupied.map s.pool.table.kvs).Perm (s.pool.allocated.map Prod.fst) := by
  rw [List.perm_ext_iff_of_nodup _ hi.nodup_keys]
  · intro k
    rw [List.mem_map]
    constructor
    · intro hk
      obtain ⟨i, hmem, rfl⟩ := hk
      obtain ⟨hlt, hv⟩ := Xhash.mem_occupied.mp hmem
      exact ((hi.holds _ _).mp ⟨i, ⟨hlt, hv, integerFunctions.cmp_refl _⟩, rfl⟩).2
    · intro hk
      obtain ⟨i, ⟨hlt, hv, hcmp⟩, -⟩ := (hi.holds k k).mpr ⟨rfl, hk⟩
      exact ⟨i, Xhash.mem_occupied.mpr ⟨hlt, hv⟩, eq_of_beq hcmp⟩
  · apply List.Nodup.map_on _ (Xhash.nodup_occupied _)
    intro i hmem j hmem' heq
    obtain ⟨hlt, hv⟩ := Xhash.mem_occupied.mp hmem
    obtain ⟨hlt', hv'⟩ := Xhash.mem_occupied.mp hmem'
    exact hi.dict.unique i j hlt hlt' hv hv' (beq_iff_eq.mpr heq)

theorem Inv.objectsAt_perm :
    (s.pool.objectsAt s.pool.table.occupied).Perm (s.pool.list ++ s.out) := by
  have hslots : (s.pool.allocated.map Prod.fst).flatMap s.pool.slots = s.pool.objects := by
    rw [List.flatMap_map, XobjectH.objects]
    exact List.flatMap_congr fun c hc => hi.slots_eq hc
  have hkeys : s.pool.objectsAt s.pool.table.occupied =
      (s.pool.table.occupied.map s.pool.table.kvs).flatMap s.pool.slots := by
    rw [List.flatMap_map, XobjPool.objectsAt]
  have hperm := hi.occupied_keys.flatMap_right s.pool.slots
  rw [hkeys]
  rw [hslots] at hperm
  exact hperm.trans hi.parts.symm

theorem Inv.nrObjs_pos {i : Nat} (hmem : i ∈ s.pool.table.occupied) :
    0 < (s.pool.nrObjs (s.pool.table.kvs i)).toNat := by
  have hkey := hi.occupied_keys.mem_iff.mp (List.mem_map_of_mem hmem)
  obtain ⟨c, hc, heq⟩ := List.mem_map.mp hkey
  have hne := (hi.chunks c hc).2
  apply Nat.pos_of_ne_zero
  intro hzero
  apply hne
  rw [← hi.slots_eq hc, heq, XobjPool.slots, hzero]
  rfl

theorem Inv.accounted : s.Accounted := by
  have hlen := hi.parts.length_eq
  have hlt := hi.length_lt
  have ht := hi.dict.wf.tracked
  rw [List.length_append] at hlen
  have hfree : s.pool.nrFree.toNat = s.pool.list.length := by
    rw [hi.nrFree, UInt64.toNat_ofNat_of_lt' (show _ < 2 ^ 64 by omega)]
  refine ⟨hfree, ?_, hi.parts.nodup_iff.mpr hi.wf.nodup, ?_, fun ptr => ?_⟩
  · rw [hi.nrAllocated, UInt64.toNat_ofNat_of_lt' hlt, hfree, hlen]
  · have hend : s.pool.atEnd XobjPool.iterInit = true := rfl
    obtain ⟨turns, hpass⟩ := XobjPool.pass_rest hend ht.remaining fun i hmem => hi.nrObjs_pos hmem
    exact ⟨turns, _, hpass, hi.objectsAt_perm⟩
  · simp only [XobjPool.check_eq ht, hi.objectsAt_perm.mem_iff]

end Inv

theorem Inv.pop {x : xptr} {list : List xptr} (hi : Inv heap s) (hlist : s.pool.list = x :: list) :
    s.pool.popObj.1 = some x ∧ Inv heap { pool := s.pool.popObj.2, out := x :: s.out } := by
  have hpop := XobjectH.popObj_cons hlist
  unfold XobjPool.popObj
  rw [hpop]
  refine ⟨rfl, hi.uneven, ⟨hi.wf.size, hi.wf.bound, hi.wf.apart⟩, hi.chunks, hi.dict, hi.holds,
    ?_, ?_, hi.nrAllocated⟩
  · have hparts := hi.parts
    rw [hlist] at hparts
    exact List.perm_middle.trans hparts
  · show s.pool.nrFree - 1 = UInt64.ofNat list.length
    rw [hi.nrFree, hlist, List.length_cons, UInt64.ofNat_add]
    exact UInt64.add_sub_cancel _ _

theorem Inv.put (hi : Inv heap s) (hptr : ptr ∈ s.out) :
    Inv heap { pool := s.pool.putObj ptr, out := s.out.erase ptr } := by
  refine ⟨hi.uneven, ⟨hi.wf.size, hi.wf.bound, hi.wf.apart⟩, hi.chunks, hi.dict, hi.holds, ?_, ?_,
    hi.nrAllocated⟩
  · have herase := (List.perm_cons_erase hptr).append_left s.pool.list
    exact (List.perm_middle.symm.trans herase.symm).trans hi.parts
  · show s.pool.nrFree + 1 = UInt64.ofNat (s.pool.list.length + 1)
    rw [hi.nrFree, UInt64.ofNat_add]
    rfl

/-- The chunk starts where no other chunk does, and not at a mark. -/
theorem Inv.new_key (hi : Inv heap s) (hc : s.pool.HeapChunk c)
    (hobjs : s.pool.chunkObjects c ≠ []) :
    Xhash.NotMark c.1 ∧ s.pool.table.Absent integerFunctions c.1 := by
  have hsize := hi.wf.size
  have hbytes : s.pool.objSize.toNat < c.2.toNat := by
    by_contra hsmall
    apply hobjs
    rw [XobjectH.chunkObjects, carve, if_neg (by omega)]
  have hbound := hc.1
  constructor
  · constructor
    · intro heq
      have hmark : DUMMY.toNat = 2 ^ 64 - 2 := by decide
      rw [heq, hmark] at hbound
      omega
    · intro heq
      have hmark : UNUSED.toNat = 2 ^ 64 - 1 := by decide
      rw [heq, hmark] at hbound
      omega
  · rw [Xhash.absent_iff_not_holds]
    intro v hheld
    obtain ⟨d, hd, heq⟩ := List.mem_map.mp ((hi.holds _ _).mp hheld).2
    have hpos := hi.bytes_pos hd
    have happart := hc.2 d hd
    rw [XobjectH.Apart, heq] at happart
    omega

theorem Inv.extend {x : xptr} {l : List xptr} {table : Xhash xhashidx} (hi : Inv heap s)
    (hc : s.pool.HeapChunk c) (hbytes : c.2.toNat = heap.chunkSize64 (64 * s.pool.objSize).toNat)
    (hobjs : s.pool.chunkObjects c = x :: l) (hdict : table.Dict integerFunctions)
    (hholds : ∀ k v, table.Holds integerFunctions k v ↔
      if integerFunctions.cmp_fun c.1 k = true then v = c.1
      else s.pool.table.Holds integerFunctions k v) :
    Inv heap { pool := ⟨s.pool.toXobjectH.extend c (x :: l), table⟩, out := s.out } := by
  have hdvd : ¬ s.pool.objSize.toNat ∣ c.2.toNat := hbytes ▸ hi.uneven
  have hpos : 0 < c.2.toNat := Nat.pos_of_ne_zero fun hzero => hdvd (hzero ▸ dvd_zero _)
  have hgiven : ∀ d, some c = some d → s.pool.HeapChunk d := fun d hd => Option.some.inj hd ▸ hc
  obtain ⟨hwf, -⟩ := XobjectH.allocObj_spec hi.wf hgiven (XobjectH.allocObj_cons hobjs)
  -- the loop has cut as many objects as the counters are told
  have hlen : (x :: l).length = c.2.toNat / s.pool.objSize.toNat := by
    rw [← hobjs, XobjectH.chunkObjects, length_carve_zero c.1 hi.wf.size hpos,
      pred_div_of_not_dvd hdvd]
  have hcount : c.2 / s.pool.objSize = UInt64.ofNat (x :: l).length := by
    rw [hlen, ← UInt64.toNat_div, UInt64.ofNat_toNat]
  refine ⟨hi.uneven, hwf, ?_, hdict, ?_, ?_, ?_, ?_⟩
  · intro d hd
    rcases List.mem_cons.mp hd with rfl | hd
    · refine ⟨hdvd, fun hnil => ?_⟩
      cases hobjs.symm.trans hnil
    · exact hi.chunks d hd
  · intro k v
    rw [hholds, hi.holds]
    change _ ↔ v = k ∧ k ∈ c.1 :: s.pool.allocated.map Prod.fst
    by_cases hk : c.1 = k
    · subst hk
      simp [integerFunctions, cmpInt]
    · rw [if_neg (by simpa [integerFunctions, cmpInt] using hk), List.mem_cons]
      simp [Ne.symm hk]
  · change ((x :: l ++ s.pool.list) ++ s.out).Perm (s.pool.extend c (x :: l)).objects
    rw [XobjectH.objects_extend, hobjs, List.append_assoc]
    exact hi.parts.append_left _
  · change s.pool.nrFree + c.2 / s.pool.objSize = UInt64.ofNat (x :: l ++ s.pool.list).length
    rw [hi.nrFree, hcount, List.length_append, Nat.add_comm, UInt64.ofNat_add]
  · change s.pool.nrAllocated + c.2 / s.pool.objSize =
      UInt64.ofNat (s.pool.extend c (x :: l)).objects.length
    rw [XobjectH.objects_extend, hobjs, hi.nrAllocated, hcount, List.length_append, Nat.add_comm,
      UInt64.ofNat_add]

theorem Inv.alloc (hi : Inv heap s) (hmem : s.HeapGives heap mem)
    (new : Option (Nat → xhashidx)) :
    ∃ r pool, s.pool.allocObj mem new = some (r, pool) ∧ Inv heap { pool, out := s.out } ∧
      (0 ≤ r → pool.list ≠ []) := by
  cases mem with
  | none => exact ⟨-1, s.pool, rfl, hi, fun hr => absurd hr (by decide)⟩
  | some c =>
    obtain ⟨hc, hbytes⟩ := hmem c rfl
    cases hobjs : s.pool.chunkObjects c with
    | nil =>
      refine ⟨-1, s.pool, ?_, hi, fun hr => absurd hr (by decide)⟩
      simp only [XobjPool.allocObj, XobjectH.allocObj_nil hobjs]
    | cons x l =>
      have hne : s.pool.chunkObjects c ≠ [] := by
        rw [hobjs]
        exact List.cons_ne_nil _ _
      obtain ⟨hval, habsent⟩ := hi.new_key hc hne
      -- an absent key is not shadowed
      have hdirect : s.pool.table.Direct integerFunctions c.1 := fun i hmatch =>
        absurd ⟨i, hmatch⟩ (Xhash.absent_iff.mp habsent)
      obtain ⟨r, table, hins, hdict, hholds⟩ :=
        hi.dict.callInsert hval (fun _ => hdirect) new
      have hr : r ≤ 0 := Xhash.callRetrying_ret (P := (· ≤ 0))
        (fun _ _ _ h => Xhash.insert_ret h) hins
      simp only [XobjPool.allocObj_cons hobjs, hins, Option.map_some]
      by_cases hneg : r < 0
      · refine ⟨-1, _, by rw [if_pos hneg], ?_, fun hr => absurd hr (by decide)⟩
        refine ⟨hi.uneven, hi.wf, hi.chunks, hdict, fun k v => ?_, hi.parts, hi.nrFree,
          hi.nrAllocated⟩
        rw [hholds, if_neg (by omega), hi.holds]
      · have hzero : r = 0 := by omega
        refine ⟨0, _, by rw [if_neg hneg], ?_, fun _ => List.cons_ne_nil _ _⟩
        exact hi.extend hc hbytes hobjs hdict fun k v => by rw [hholds, hzero]; simp

/-- A request returns, and gives out an object or leaves what there is. -/
theorem Inv.getObj (hi : Inv heap s) (flags : UInt32) (hmem : s.HeapGives heap mem)
    (new : Option (Nat → xhashidx)) :
    ∃ ret pool, s.pool.getObj flags mem new = some (ret, pool) ∧
      Inv heap { pool, out := ret.toList ++ s.out } := by
  unfold XobjPool.getObj
  cases hlist : s.pool.list with
  | cons x list =>
    obtain ⟨hret, hinv⟩ := hi.pop hlist
    exact ⟨some x, _, by rw [← hret], hinv⟩
  | nil =>
    by_cases hflags : flags &&& X_ALLOC = 0
    · exact ⟨none, s.pool, if_pos hflags, hi⟩
    · obtain ⟨r, pool, halloc, hinv, hne⟩ := hi.alloc hmem new
      simp only [if_neg hflags, halloc, Option.map_some]
      by_cases hr : r < 0
      · exact ⟨none, pool, by rw [if_pos hr], hinv⟩
      · obtain ⟨x, list, hpool⟩ := List.exists_cons_of_ne_nil (hne (by omega))
        obtain ⟨hret, hpop⟩ := hinv.pop hpool
        exact ⟨some x, _, by rw [if_neg hr, ← hret], hpop⟩

theorem Inv.step {ev : XobjEvent} (hi : Inv heap s) (hadm : s.Admissible heap ev)
    (hstep : s.Step ev s') : Inv heap s' := by
  cases ev with
  | get flags mem new ret =>
    obtain ⟨pool, hget, rfl⟩ := hstep
    obtain ⟨ret', pool', hget', hinv⟩ := hi.getObj flags hadm new
    rw [hget] at hget'
    cases hget'
    exact hinv
  | put ptr =>
    obtain rfl := hstep
    exact hi.put hadm

theorem inv_start {size : UInt64} {kvs0 : Nat → xhashidx} {h : XobjPool}
    (hinit : XobjPool.handlerInit size (some kvs0) = some h) (huneven : Uneven heap h.objSize) :
    Inv heap { pool := h, out := [] } := by
  cases hinit
  have hsize : 0 < (if size < sizeofObject then sizeofObject else size).toNat := by
    split
    · decide
    · rename_i hle
      rw [UInt64.lt_iff_toNat_lt] at hle
      exact lt_of_lt_of_le (by decide) (Nat.le_of_not_lt hle)
  refine ⟨huneven, ⟨hsize, fun c hc => ?_, List.Pairwise.nil⟩, fun c hc => ?_,
    ⟨Xhash.wf_initRaw kvs0 (by decide) (by decide), Xhash.initRaw_unique kvs0, rfl⟩,
    fun k v => ?_, List.Perm.refl _, rfl, rfl⟩
  · cases hc
  · cases hc
  · constructor
    · intro hheld
      exact absurd hheld (Xhash.absent_iff_not_holds.mp (Xhash.initRaw_absent kvs0 k) v)
    · intro hmem
      cases hmem.2

/-- In every run of a handler whose object size does not divide its chunks, the counters and both
enumerations account for every object. -/
theorem run_objectsAccounted {size : UInt64} {kvs0 : Nat → xhashidx} {h : XobjPool}
    (hinit : XobjPool.handlerInit size (some kvs0) = some h) (huneven : Uneven heap h.objSize)
    {evs : List XobjEvent}
    (hrun : Run (Guarded Step (Admissible heap)) { pool := h, out := [] } evs s) :
    s.Accounted := by
  have hinv := hrun.invariant (I := Inv heap) ?_ (inv_start hinit huneven)
  · exact hinv.accounted
  · intro s ev s' hi hstep
    exact hi.step hstep.1 hstep.2

def pageHeap : Xheap where
  alignment_unit := 12
  size := 2 ^ 30
  cur := 2 ^ 20
  mem := 2 ^ 12
  self := 8

/-- A handler of objects of 64 bytes after one request, for which the heap gives 8168 bytes. -/
theorem run_objectsAccounted_get : ∃ h s, ∃ ret : Option xptr,
    XobjPool.handlerInit 64 (some fun _ => 0) = some h ∧
      Run (Guarded Step (Admissible pageHeap)) { pool := h, out := [] }
        [.get X_ALLOC (some (2 ^ 21, 8168)) none ret] s ∧ s.Accounted := by
  obtain ⟨h, hinit⟩ : ∃ h, XobjPool.handlerInit 64 (some fun _ => 0) = some h := ⟨_, rfl⟩
  have hsize : h.objSize = 64 := by
    cases hinit
    rfl
  have huneven : Uneven pageHeap h.objSize := by
    rw [hsize]
    unfold Uneven
    decide +kernel
  have hmem : HeapGives pageHeap { pool := h, out := [] } (some (2 ^ 21, 8168)) := by
    intro c hc
    cases hc
    refine ⟨⟨by decide, fun d hd => ?_⟩, ?_⟩
    · cases hinit
      cases hd
    · rw [hsize]
      decide +kernel
  obtain ⟨ret, pool, hget, -⟩ := (inv_start hinit huneven).getObj X_ALLOC hmem none
  have hrun : Run (Guarded Step (Admissible pageHeap)) { pool := h, out := [] }
      [.get X_ALLOC (some (2 ^ 21, 8168)) none ret]
      { pool, out := ret.toList ++ [] } := .single ⟨hmem, pool, hget, rfl⟩
  exact ⟨h, _, ret, hinit, hrun, run_objectsAccounted hinit huneven hrun⟩

/-- Objects of 168 bytes divide the 12264 bytes that a heap with pages of 4096 bytes gives for 64 of
them: 72 objects are cut and 73 are counted. -/
theorem not_run_objectsAccounted : ¬ ∀ (heap : Xheap) (size : UInt64) (kvs0 : Nat → xhashidx)
    (h : XobjPool) (evs : List XobjEvent) (s : XobjSession),
    XobjPool.handlerInit size (some kvs0) = some h →
    Run (Guarded Step (Admissible heap)) { pool := h, out := [] } evs s → s.Accounted := by
  intro hall
  obtain ⟨h, hinit⟩ : ∃ h, XobjPool.handlerInit 168 (some fun _ => 0) = some h := ⟨_, rfl⟩
  obtain ⟨hlist, hzero, hsize⟩ : h.list = [] ∧ h.nrFree = 0 ∧ h.objSize = 168 := by
    cases hinit
    exact ⟨rfl, rfl, rfl⟩
  have hmem : HeapGives pageHeap { pool := h, out := [] } (some (2 ^ 21, 12264)) := by
    intro c hc
    cases hc
    refine ⟨⟨by decide, fun d hd => ?_⟩, ?_⟩
    · cases hinit
      cases hd
    · rw [hsize]
      decide +kernel
  have hlen : (h.toXobjectH.chunkObjects (2 ^ 21, 12264)).length = 72 := by
    cases hinit
    exact length_carve_zero _ (by decide) (by decide)
  obtain ⟨x, l, hobjs⟩ := List.exists_cons_of_length_eq_add_one hlen
  -- the table is empty, so the chunk is recorded at once
  have hdict : h.table.Dict integerFunctions := by
    cases hinit
    exact ⟨Xhash.wf_initRaw _ (by decide) (by decide), Xhash.initRaw_unique _, rfl⟩
  have hdirect : h.table.Direct integerFunctions (2 ^ 21) :=
    hdict.wf.direct_of_dummies_eq_zero (by cases hinit; rfl) _
  have hval : Xhash.NotMark (2 ^ 21) := by decide
  obtain ⟨table, hins, -⟩ := hdict.insert (by cases hinit; rfl) hdirect hval
  have hget : h.getObj X_ALLOC (some (2 ^ 21, 12264)) none = some
      (XobjPool.popObj ⟨h.toXobjectH.extend (2 ^ 21, 12264) (x :: l), table⟩) := by
    unfold XobjPool.getObj
    rw [hlist]
    simp only [XobjPool.allocObj_cons hobjs]
    rw [Xhash.callInsert, Xhash.callRetrying_done hins (by decide)]
    rfl
  obtain ⟨ret, pool, hpop⟩ : ∃ ret pool, XobjPool.popObj
      ⟨h.toXobjectH.extend (2 ^ 21, 12264) (x :: l), table⟩ = (ret, pool) := ⟨_, _, rfl⟩
  have hlist' : pool.list.length = 71 := by
    cases hpop
    change (l ++ h.list).length = 71
    rw [hobjs, List.length_cons] at hlen
    rw [hlist, List.append_nil]
    omega
  have hnr : pool.nrFree = 72 := by
    cases hpop
    change h.nrFree + 12264 / h.objSize - 1 = 72
    rw [hzero, hsize]
    decide
  rw [hpop] at hget
  have hrun : Run (Guarded Step (Admissible pageHeap)) { pool := h, out := [] }
      [.get X_ALLOC (some (2 ^ 21, 12264)) none ret]
      { pool, out := ret.toList ++ [] } := .single ⟨hmem, pool, hget, rfl⟩
  have hfree := (hall pageHeap 168 (fun _ => 0) h _ _ hinit hrun).nr_free
  rw [hlist', hnr] at hfree
  cases hfree

end XobjSession

end Libxseg
