import Libxseg.XcacheClose

/-!
# An entry whose on_init fails

`xcache_entry_init` writes the count of a node before it asks `on_init`, and
`xcache_alloc_init` puts the node back as it is. The queue is what it was, but the node in it
has a reference that nobody holds. `xcache_close` takes it for a node in use and puts it, so
the queue has it twice.
-/

namespace Libxseg

set_option autoImplicit false

namespace Xcache

variable {c : Xcache} {idx : xqindex} {l : List xqindex} {name : CString} {r : Int}

structure LeavesNoTrace (c : Xcache) (idx : xqindex) : Prop where
  once : c.free_nodes.elems.count idx = 1
  unreferenced : (c.nodes idx).ref = 0

theorem LeavesNoTrace.closeTurn (h : LeavesNoTrace c idx) : c.closeTurn idx.toNat = some c := by
  have hzero : (c.nodes (UInt64.ofNat idx.toNat)).ref = 0 := by
    rw [UInt64.ofNat_toNat]
    exact h.unreferenced
  rw [Xcache.closeTurn]
  exact if_pos hzero

theorem allocInit_failed (hon : c.ops.on_init = true) (hr : r < 0)
    (hpop : c.free_nodes.popHead.1 = idx) (hne : idx ≠ Noneidx) :
    c.allocInit name r =
      (NoEntry, ((c.allocCacheEntry.2.entryInit idx name r).2).freeCacheEntry idx) := by
  obtain rfl := hpop
  have hneg : (c.allocCacheEntry.2.entryInit c.free_nodes.popHead.1 name r).1 < 0 := by
    show (if c.ops.on_init then r else 0) < 0
    rw [if_pos hon]
    exact hr
  unfold allocInit
  exact (if_neg hne).trans (if_pos hneg)

theorem allocInit_ref (name : CString) (hon : c.ops.on_init = true) (hr : r < 0)
    (hpop : c.free_nodes.popHead.1 = idx) (hne : idx ≠ Noneidx) :
    ∃ c', c.allocInit name r = (NoEntry, c') ∧ (c'.nodes idx).ref = 1 ∧
      (c'.nodes idx).name = name.take XSEG_MAX_TARGETLEN ∧ c'.flags = c.flags := by
  have hnode : ((c.allocCacheEntry.2.entryInit idx name r).2.freeCacheEntry idx).nodes idx =
      ⟨1, .NODE_ACTIVE, name.take XSEG_MAX_TARGETLEN, NoNode⟩ :=
    modify_nodes_self c.allocCacheEntry.2 idx fun _ =>
      ⟨1, .NODE_ACTIVE, name.take XSEG_MAX_TARGETLEN, NoNode⟩
  refine ⟨_, allocInit_failed hon hr hpop hne, ?_, ?_, rfl⟩
  · rw [hnode]
  · rw [hnode]

/-- The queue is as before, so this half of what is expected holds. -/
theorem allocInit_queue (name : CString) (hq : c.free_nodes.Repr (idx :: l))
    (hon : c.ops.on_init = true) (hr : r < 0) (hne : idx ≠ Noneidx) :
    (c.allocInit name r).2.free_nodes.Repr (idx :: l) ∧
      (c.allocInit name r).2.free_nodes.size = c.free_nodes.size := by
  obtain ⟨q, hpop, hrest, hsize⟩ := hq.popHead
  have hroom : l.length < window q.size := by
    rw [hsize]
    exact hq.fits
  obtain ⟨q', happend, hback, hsize'⟩ := hrest.appendHead hroom idx
  have hfree : (c.allocInit name r).2.free_nodes = q' := by
    rw [allocInit_failed hon hr (by rw [hpop]) hne]
    show (c.free_nodes.popHead.2.appendHead idx).2 = q'
    rw [hpop, happend]
  rw [hfree]
  exact ⟨hback, hsize'.trans hsize⟩

/-- A node with one reference, in the queue and not in the table, is put there once more. -/
theorem closeTurn_twice (hq : c.free_nodes.Repr l) (hroom : l.length < window c.free_nodes.size)
    (href : (c.nodes idx).ref = 1) (hflag : c.has XCACHE_USE_RMTABLE = false)
    (hlookup : c.lookupEntries (.arg (c.nodes idx).name) = some NoEntry) :
    ∃ c', c.closeTurn idx.toNat = some c' ∧ c'.free_nodes.elems = idx :: l := by
  have hone : (1 : UInt32) ≠ 0 := by decide
  have hflag' : ¬ c.has XCACHE_USE_RMTABLE = true := Bool.eq_false_iff.mp hflag
  have hinv : c.invalidate (c.nodes idx).name = some (0, c) := by
    have hraw : c.invalidateRaw (c.nodes idx).name = some (0, NoEntry, c) := by
      rw [invalidateRaw, hlookup, Option.bind_some, if_neg (not_not_intro rfl), if_neg hflag']
    rw [invalidate, hraw, Option.bind_some]
    exact if_neg (not_not_intro rfl)
  obtain ⟨q, happend, hrepr, -⟩ := hq.appendHead hroom idx
  have hput : c.entryPutRef idx =
      some (true, c.modify idx fun ce => { ce with ref := ce.ref - 1 }) := by
    have hzero : ¬ ((c.modify idx fun ce => { ce with ref := ce.ref - 1 }).nodes idx).ref > 0 := by
      rw [modify_nodes_self, href]
      exact of_decide_eq_true rfl
    rw [entryPutRef]
    exact (if_neg hzero).trans (if_neg hflag')
  have hnot : (c.nodes idx).ref ≠ 0 := by
    rw [href]
    exact hone
  refine ⟨(c.modify idx fun ce => { ce with ref := ce.ref - 1 }).entryPutFree idx, ?_, ?_⟩
  · unfold closeTurn
    rw [UInt64.ofNat_toNat]
    dsimp only
    rw [if_neg hnot, hinv, Option.bind_some]
    dsimp only
    rw [entryPut, hput]
    rfl
  · show (c.free_nodes.appendHead idx).2.elems = idx :: l
    rw [happend]
    exact hrepr.elems_eq

/-- When the queue has room and there is no table of removed entries, the node is in the queue
twice after its turn in `xcache_close`. -/
theorem allocInit_closeTurn (hq : c.free_nodes.Repr (idx :: l))
    (hroom : l.length + 1 < window c.free_nodes.size) (hon : c.ops.on_init = true) (hr : r < 0)
    (hne : idx ≠ Noneidx) (hflag : c.has XCACHE_USE_RMTABLE = false)
    (hlookup : (c.allocInit name r).2.lookupEntries (.arg (name.take XSEG_MAX_TARGETLEN)) =
      some NoEntry) :
    ∃ c', (c.allocInit name r).2.closeTurn idx.toNat = some c' ∧
      c'.free_nodes.elems = idx :: idx :: l := by
  have hpop : c.free_nodes.popHead.1 = idx := by
    obtain ⟨q, hpop, -⟩ := hq.popHead
    rw [hpop]
  obtain ⟨hback, hsize⟩ := allocInit_queue name hq hon hr hne
  obtain ⟨c', halloc, href, hname, hflags⟩ := allocInit_ref name hon hr hpop hne
  rw [halloc] at hback hsize hlookup ⊢
  apply closeTurn_twice hback
  · rw [hsize]
    exact hroom
  · exact href
  · rwa [has, hflags]
  · rwa [hname]

/-- There is no input for which a failed initialisation leaves the node as a free one. -/
theorem not_leavesNoTrace (hon : c.ops.on_init = true) (hr : r < 0)
    (hpop : c.free_nodes.popHead.1 = idx) (hne : idx ≠ Noneidx) :
    ∃ c', c.allocInit name r = (NoEntry, c') ∧ (c'.nodes idx).ref = 1 ∧ ¬ LeavesNoTrace c' idx := by
  obtain ⟨c', halloc, href, -, -⟩ := allocInit_ref name hon hr hpop hne
  refine ⟨c', halloc, href, fun h => ?_⟩
  have hzero := h.unreferenced
  rw [href] at hzero
  exact absurd hzero (by decide)

def onePut [Builtins] : Option Xcache :=
  (init 1 allHooks XCACHE_LRU_ARRAY blankMemory).bind fun c =>
    ((c.allocInit nameA 0).2.allocInit nameA 0).2.put 0

theorem onePut_pops : ∃ (_ : Builtins) (c : Xcache), onePut = some c ∧ c.ops.on_init = true ∧
    c.free_nodes.popHead.1 = 0 := by
  let _ : Builtins := ⟨0⟩
  have hsome : onePut.any (fun c => c.ops.on_init && c.free_nodes.popHead.1 == 0) = true := by
    decide +kernel
  cases hput : onePut with
  | none =>
    rw [hput] at hsome
    cases hsome
  | some c =>
    rw [hput, Option.any_some] at hsome
    obtain ⟨hon, hpop⟩ := Bool.and_eq_true_iff.mp hsome
    exact ⟨_, c, hput, hon, eq_of_beq hpop⟩

theorem not_leavesNoTrace_onePut : ∃ (_ : Builtins) (c : Xcache), onePut = some c ∧
    ∃ c', c.allocInit nameA (-1) = (NoEntry, c') ∧ (c'.nodes 0).ref = 1 ∧
      ¬ LeavesNoTrace c' 0 := by
  obtain ⟨b, c, hput, hon, hpop⟩ := onePut_pops
  exact ⟨b, c, hput, not_leavesNoTrace hon (by decide) hpop (by decide)⟩

theorem not_allocInit_leavesNoTrace : ¬ ∀ (c c' : Xcache) (idx : xqindex) (name : CString)
    (r : Int), c.ops.on_init = true → r < 0 → c.free_nodes.popHead.1 = idx → idx ≠ Noneidx →
      c.allocInit name r = (NoEntry, c') → LeavesNoTrace c' idx := by
  intro hall
  obtain ⟨_, c, -, hon, hpop⟩ := onePut_pops
  have hneg : (-1 : Int) < 0 := by decide
  have hne : (0 : xqindex) ≠ Noneidx := by decide
  obtain ⟨c', halloc, href, -, -⟩ := allocInit_ref nameA hon hneg hpop hne
  have hzero := (hall c c' 0 nameA (-1) hon hneg hpop hne halloc).unreferenced
  rw [href] at hzero
  exact absurd hzero (by decide)

/-- Its node is in the queue twice when the cache is closed after a failed initialisation. -/
example : let _ : Builtins := ⟨0⟩
    (onePut.bind fun c => (c.allocInit nameA (-1)).2.close).map (·.free_nodes.elems) =
      some [0, 0] := by decide +kernel

end Xcache

end Libxseg
