import Libxseg.XsegRouting

/-!
# All or nothing when the size of a free queue changes

`xseg_set_freequeue_size` with the chunks of the heap beside the data: the new queue comes
out of one chunk, and one chunk is freed at the end. The exit for a busy lock frees none.
-/

namespace Libxseg

set_option autoImplicit false

namespace Xseg
variable {s : Xseg} {portno : xport} {port : Port} {q newq : Xq} {l : List xptr}

/-- The requests at the head that are too many go to the handler, one after another. -/
theorem dropExcess_spec (size : xqindex) (h : q.Repr l) (hnone : Noneidx ∉ l) :
    ∃ q' h', s.dropExcess size q = (q', { s with requestH := h' }) ∧
      q'.Repr (l.drop (l.length - size.toNat)) ∧
      h'.list = (l.take (l.length - size.toNat)).reverse ++ s.requestH.list := by
  have hstop : ¬ size < q.count → s.dropExcess size q = (q, s) := by
    intro hfits
    rw [dropExcess, if_neg hfits]
  induction l generalizing s q with
  | nil =>
    refine ⟨q, s.requestH, hstop ?_, ?_, ?_⟩
    · rw [UInt64.lt_iff_toNat_lt, h.count]
      exact Nat.not_lt_zero _
    · rwa [List.drop_nil]
    · rw [List.take_nil]
      rfl
  | cons x l ih =>
    by_cases hmany : size < q.count
    · have hlen : size.toNat < l.length + 1 := by
        rwa [UInt64.lt_iff_toNat_lt, h.count] at hmany
      obtain ⟨q₁, hpop, hrepr, -⟩ := h.popHead
      obtain ⟨hx, hrest⟩ := not_or.mp (mt List.mem_cons.mpr hnone)
      obtain ⟨q', h', hdrop, hq', hlist⟩ := ih (s := s.putObj x) hrepr hrest fun hfits => by
        rw [dropExcess, if_neg hfits]
      have hexcess : (x :: l).length - size.toNat = l.length - size.toNat + 1 := by
        rw [List.length_cons]
        omega
      refine ⟨q', h', ?_, ?_, ?_⟩
      · rw [dropExcess, if_pos hmany, hpop, if_neg (Ne.symm hx), hdrop]
        rfl
      · rwa [hexcess, List.drop_succ_cons]
      · have hput : (s.putObj x).requestH.list = x :: s.requestH.list := rfl
        rw [hlist, hexcess, List.take_succ_cons, List.reverse_cons, List.append_assoc, hput]
        rfl
    · have hlen : (x :: l).length - size.toNat = 0 := by
        rw [UInt64.lt_iff_toNat_lt, h.count] at hmany
        omega
      refine ⟨q, s.requestH, hstop hmany, ?_, ?_⟩
      · rwa [hlen]
      · rw [hlen]
        rfl

/-- What fits is moved into the new queue, the other way round; this never fails. -/
theorem resizeFree_spec (hport : s.getPort portno = some port)
    (h : (port.queue .free).Repr l) (hnone : Noneidx ∉ l) (hnew : newq.Repr []) :
    ∃ q' s', s.resizeFree portno port newq = (0, s') ∧
      s'.getPort portno = some (port.setQueue .free q') ∧
      q'.Repr (l.drop (l.length - newq.size.toNat)).reverse ∧ q'.size = newq.size ∧
      s'.requestH.list = (l.take (l.length - newq.size.toNat)).reverse ++ s.requestH.list := by
  obtain ⟨q, h', hdrop, hq, hlist⟩ := dropExcess_spec (s := s) newq.size h hnone
  have hroom : (l.drop (l.length - newq.size.toNat)).length ≤ newq.size.toNat := by
    rw [List.length_drop]
    omega
  obtain ⟨q', hresize, hcount, hrepr, hsize⟩ := Xq.Repr.resize_room hq hnew hroom
  have hport' : Xseg.getPort { s with requestH := h' } portno = some port := hport
  refine ⟨q', _, ?_, (changes_setPort hport' (port.setQueue .free q')).port, hrepr, hsize,
    hlist⟩
  unfold resizeFree
  rw [hdrop]
  dsimp only
  rw [hresize]
  dsimp only
  rw [if_neg hcount]

end Xseg

/-- The segment with the chunks of its heap that are in use; `freeQueue` is the chunk that the
free queue of a port lies in. -/
structure HeapedData where
  seg : SegmentData
  freeQueue : xport → xptr
  live : List xptr

abbrev HeapedM := LockM SegmentLock HeapedData

/-- The answer of the heap to `__alloc_queue` with the address of the chunk. -/
abbrev QueueChunkAt := Option (xptr × UInt64 × (xqindex → xqindex))

namespace HeapedM
open LockM

def onSegment {α : Type} (m : SegM α) : HeapedM α := fun s =>
  (m ⟨s.data.seg, s.held⟩).map fun r => (r.1, ⟨{ s.data with seg := r.2.data }, r.2.held⟩)

def allocated (addr : xptr) (d : HeapedData) : Unit × HeapedData :=
  ((), { d with live := addr :: d.live })

/-- The section under `fq_lock`: the new queue is freed if the move fails, and the old one, which
the port has no longer, if it does not. -/
def resizeFree (portno : xport) (port : Port) (addr : xptr) (newq : Xq) (d : HeapedData) :
    Int × HeapedData :=
  let (ret, s) := d.seg.reqs.resizeFree portno port newq
  let d := { d with seg := { d.seg with reqs := s } }
  if ret < 0 then (ret, { d with live := d.live.erase addr })
  else
    (ret, { d with
      freeQueue := Function.update d.freeQueue portno addr
      live := d.live.erase (d.freeQueue portno) })

theorem resizeFree_fst (portno : xport) (port : Port) (addr : xptr) (newq : Xq) (d : HeapedData) :
    (resizeFree portno port addr newq d).1 = (d.seg.reqs.resizeFree portno port newq).1 := by
  unfold resizeFree
  dsimp only
  split <;> rfl

theorem resizeFree_seg (portno : xport) (port : Port) (addr : xptr) (newq : Xq) (d : HeapedData) :
    (resizeFree portno port addr newq d).2.seg =
      (SegM.onReqs (fun s => s.resizeFree portno port newq) d.seg).2 := by
  unfold resizeFree
  dsimp only
  split <;> rfl

def setFreequeueSize [Builtins] (portno : xport) (flags : UInt32) (chunk : QueueChunkAt) :
    HeapedM Int := do
  match (← look).seg.reqs.getPort portno with
  | none => return -1
  | some port =>
    match chunk with
    | none => return -1
    | some (addr, size, mem) =>
      act (allocated addr)
      let newq := Xq.initEmpty ((size - 48) / 8) mem
      if ← onSegment (SegM.takeQueue flags .free portno) then
        let ret ← act (resizeFree portno port addr newq)
        onSegment (release (.queue .free portno))
        return ret
      else return -1

theorem run_onSegment {α : Type} {m : SegM α} {d : HeapedData} {held held' : Finset SegmentLock}
    {a : α} {seg : SegmentData} (h : m ⟨d.seg, held⟩ = some (a, ⟨seg, held'⟩)) :
    onSegment m ⟨d, held⟩ = some (a, ⟨{ d with seg := seg }, held'⟩) := by
  unfold onSegment
  rw [h]
  rfl

theorem run_onSegment_none {α : Type} {m : SegM α} {d : HeapedData} {held : Finset SegmentLock}
    (h : m ⟨d.seg, held⟩ = none) : onSegment m ⟨d, held⟩ = none := by
  unfold onSegment
  rw [h]
  rfl

section Runs
variable {portno : xport} {flags : UInt32} {port : Port} {held : Finset SegmentLock}

theorem run_takeQueue_busy (d : SegmentData) {kind : QueueKind}
    (hheld : SegmentLock.queue kind portno ∈ held) :
    SegM.takeQueue flags kind portno ⟨d, held⟩ =
      if flags &&& X_NONBLOCK ≠ 0 then some (false, ⟨d, held⟩) else none := by
  unfold SegM.takeQueue
  split
  · exact if_pos hheld
  · exact run_bind_none (if_pos hheld) _

theorem run_takeQueue_free {d : SegmentData} {kind : QueueKind}
    (hheld : SegmentLock.queue kind portno ∉ held) :
    SegM.takeQueue flags kind portno ⟨d, held⟩ =
      some (true, ⟨d, insert (.queue kind portno) held⟩) := by
  unfold SegM.takeQueue
  split
  · exact if_neg hheld
  · rw [run_bind (if_neg hheld)]
    rfl

variable [Builtins] {d : HeapedData}

theorem run_unmapped (hport : d.seg.reqs.getPort portno = none) (chunk : QueueChunkAt) :
    setFreequeueSize portno flags chunk ⟨d, held⟩ = some (-1, ⟨d, held⟩) := by
  unfold setFreequeueSize
  rw [run_bind rfl, hport]
  rfl

theorem run_noChunk (hport : d.seg.reqs.getPort portno = some port) :
    setFreequeueSize portno flags none ⟨d, held⟩ = some (-1, ⟨d, held⟩) := by
  unfold setFreequeueSize
  rw [run_bind rfl, hport]
  rfl

/-- The chunk is out of the heap when the lock turns out to be busy. -/
theorem run_busy (hport : d.seg.reqs.getPort portno = some port)
    (hheld : SegmentLock.queue .free portno ∈ held) (addr : xptr) (size : UInt64)
    (mem : xqindex → xqindex) :
    setFreequeueSize portno flags (some (addr, size, mem)) ⟨d, held⟩ =
      if flags &&& X_NONBLOCK ≠ 0 then some (-1, ⟨(allocated addr d).2, held⟩) else none := by
  unfold setFreequeueSize
  rw [run_bind rfl, hport]
  dsimp only
  rw [run_bind rfl]
  by_cases hflag : flags &&& X_NONBLOCK ≠ 0
  · have htake := (run_takeQueue_busy (allocated addr d).2.seg hheld).trans (if_pos hflag)
    rw [run_bind (run_onSegment htake), if_pos hflag]
    rfl
  · have htake := (run_takeQueue_busy (allocated addr d).2.seg hheld).trans (if_neg hflag)
    rw [run_bind_none (run_onSegment_none htake), if_neg hflag]

theorem run_resize (flags : UInt32) (hport : d.seg.reqs.getPort portno = some port)
    (hheld : SegmentLock.queue .free portno ∉ held) (addr : xptr) (size : UInt64)
    (mem : xqindex → xqindex) :
    setFreequeueSize portno flags (some (addr, size, mem)) ⟨d, held⟩ =
      some ((resizeFree portno port addr (Xq.initEmpty ((size - 48) / 8) mem) (allocated addr d).2).1,
        ⟨(resizeFree portno port addr (Xq.initEmpty ((size - 48) / 8) mem) (allocated addr d).2).2,
          held⟩) := by
  unfold setFreequeueSize
  rw [run_bind rfl, hport]
  dsimp only
  rw [run_bind rfl, run_bind (run_onSegment (run_takeQueue_free hheld)), if_pos rfl, run_bind rfl,
    run_bind rfl]
  refine congrArg some (Prod.ext rfl ?_)
  exact congrArg (Locked.mk _) (Finset.erase_insert hheld)

end Runs

theorem setFreequeueSize_seg [Builtins] (portno : xport) (flags : UInt32) (chunk : QueueChunkAt)
    (s : Locked SegmentLock HeapedData) :
    (setFreequeueSize portno flags chunk s).map
        (fun r => (r.1, (⟨r.2.data.seg, r.2.held⟩ : Locked SegmentLock SegmentData))) =
      SegM.setFreequeueSize portno flags (chunk.map Prod.snd) ⟨s.data.seg, s.held⟩ := by
  obtain ⟨d, held⟩ := s
  rcases hport : d.seg.reqs.getPort portno with _ | port
  · rw [run_unmapped hport]
    unfold SegM.setFreequeueSize
    rw [run_bind rfl, hport]
    rfl
  rcases chunk with _ | ⟨addr, size, mem⟩
  · rw [run_noChunk hport]
    unfold SegM.setFreequeueSize
    rw [run_bind rfl, hport]
    rfl
  by_cases hheld : SegmentLock.queue .free portno ∈ held
  · rw [run_busy hport hheld]
    unfold SegM.setFreequeueSize allocQueue
    rw [run_bind rfl, hport, Option.map_some, Option.map_some]
    dsimp only
    by_cases hflag : flags &&& X_NONBLOCK ≠ 0
    · have htake := (run_takeQueue_busy d.seg hheld).trans (if_pos hflag)
      rw [if_pos hflag, run_bind htake]
      rfl
    · have htake := (run_takeQueue_busy d.seg hheld).trans (if_neg hflag)
      rw [if_neg hflag, run_bind_none htake]
      rfl
  · rw [run_resize _ hport hheld]
    unfold SegM.setFreequeueSize allocQueue
    rw [run_bind rfl, hport, Option.map_some, Option.map_some]
    dsimp only
    rw [Option.map_some]
    dsimp only
    rw [run_bind (run_takeQueue_free hheld), if_pos rfl, run_bind rfl, run_bind rfl,
      resizeFree_fst, resizeFree_seg]
    exact congrArg some (Prod.ext rfl (congrArg (Locked.mk _) (Finset.erase_insert hheld).symm))

/-- The requests of the old free queue are those of the new one, as many as fit, and those that
the handler has gained; the chunk of the new queue is live in place of the old one. -/
structure Moved (d d' : HeapedData) (portno : xport) : Prop where
  requests : ∃ port port' kept dropped, d.seg.reqs.getPort portno = some port ∧
    d'.seg.reqs.getPort portno = some port' ∧ (port.queue .free).elems.Perm (kept ++ dropped) ∧
    (port'.queue .free).elems.Perm kept ∧
    d'.seg.reqs.requestH.list.Perm (dropped ++ d.seg.reqs.requestH.list) ∧
    kept.length = min (port.queue .free).elems.length (port'.queue .free).size.toNat
  chunks : d'.live = d'.freeQueue portno :: d.live.erase (d.freeQueue portno)

structure Unchanged (d d' : HeapedData) (portno : xport) : Prop where
  port : d'.seg.reqs.getPort portno = d.seg.reqs.getPort portno
  queue : d'.freeQueue portno = d.freeQueue portno
  chunks : d'.live = d.live

def AllOrNothing (d d' : HeapedData) (portno : xport) (ret : Int) : Prop :=
  (ret = 0 ∧ Moved d d' portno) ∨ (ret = -1 ∧ Unchanged d d' portno)

/-- The port is there, the heap gives a chunk, and then a busy lock is not waited for. -/
def GivesUp (d : HeapedData) (held : Finset SegmentLock) (portno : xport) (flags : UInt32)
    (chunk : QueueChunkAt) : Prop :=
  (d.seg.reqs.getPort portno).isSome ∧ chunk.isSome ∧ flags &&& X_NONBLOCK ≠ 0 ∧
    SegmentLock.queue .free portno ∈ held

variable {d : HeapedData} {portno : xport} {port : Port}

theorem resizeFree_moved {addr : xptr} {newq : Xq}
    (hport : d.seg.reqs.getPort portno = some port)
    (hrepr : (port.queue .free).Repr (port.queue .free).elems)
    (hnone : Noneidx ∉ (port.queue .free).elems) (hnew : newq.Repr [])
    (hlive : d.freeQueue portno ∈ d.live) (hfresh : addr ∉ d.live) :
    (resizeFree portno port addr newq (allocated addr d).2).1 = 0 ∧
      Moved d (resizeFree portno port addr newq (allocated addr d).2).2 portno := by
  obtain ⟨q', s', hresize, hport', hq', hsize, hlist⟩ := Xseg.resizeFree_spec hport hrepr hnone hnew
  have hrun : resizeFree portno port addr newq (allocated addr d).2 =
      (0, { seg := { d.seg with reqs := s' }
            freeQueue := Function.update d.freeQueue portno addr
            live := (addr :: d.live).erase (d.freeQueue portno) }) := by
    unfold resizeFree allocated
    dsimp only
    rw [hresize]
    exact if_neg (Int.lt_irrefl 0)
  rw [hrun]
  refine ⟨rfl, ?_, ?_⟩
  · refine ⟨port, _, (port.queue .free).elems.drop
        ((port.queue .free).elems.length - newq.size.toNat), _, hport, hport', ?_, ?_,
      hlist ▸ (List.reverse_perm _).append_right _, ?_⟩
    · have hsplit := List.take_append_drop
        ((port.queue .free).elems.length - newq.size.toNat) (port.queue .free).elems
      exact (List.Perm.of_eq hsplit.symm).trans List.perm_append_comm
    · rw [Port.queue_setQueue, hq'.elems_eq]
      exact List.reverse_perm _
    · rw [List.length_drop, Port.queue_setQueue, hsize]
      omega
  · have hne : addr ≠ d.freeQueue portno := fun h => hfresh (h ▸ hlive)
    have hnew : Function.update d.freeQueue portno addr portno = addr := Function.update_self ..
    dsimp only
    rw [hnew, List.erase_cons_tail (by rwa [beq_iff_eq])]

/-- The call is all or nothing if and only if it does not give up on a busy lock. -/
theorem setFreequeueSize_allOrNothing_iff [Builtins] {held : Finset SegmentLock} {flags : UInt32}
    {chunk : QueueChunkAt} {ret : Int} {s' : Locked SegmentLock HeapedData}
    (hqueue : ∀ port, d.seg.reqs.getPort portno = some port →
      (port.queue .free).Repr (port.queue .free).elems ∧ Noneidx ∉ (port.queue .free).elems ∧
        d.freeQueue portno ∈ d.live)
    (hfresh : ∀ c, chunk = some c → c.1 ∉ d.live)
    (hrun : setFreequeueSize portno flags chunk ⟨d, held⟩ = some (ret, s')) :
    AllOrNothing d s'.data portno ret ↔ ¬ GivesUp d held portno flags chunk := by
  rcases hport : d.seg.reqs.getPort portno with _ | port
  · rw [run_unmapped hport] at hrun
    obtain ⟨rfl, rfl⟩ := Prod.mk.inj (Option.some.inj hrun)
    refine iff_of_true (.inr ⟨rfl, rfl, rfl, rfl⟩) fun h => ?_
    rw [GivesUp, hport] at h
    exact Bool.false_ne_true h.1
  rcases chunk with _ | ⟨addr, size, mem⟩
  · rw [run_noChunk hport] at hrun
    obtain ⟨rfl, rfl⟩ := Prod.mk.inj (Option.some.inj hrun)
    exact iff_of_true (.inr ⟨rfl, rfl, rfl, rfl⟩) fun h => Bool.false_ne_true h.2.1
  by_cases hheld : SegmentLock.queue .free portno ∈ held
  · rw [run_busy hport hheld] at hrun
    by_cases hflag : flags &&& X_NONBLOCK ≠ 0
    · rw [if_pos hflag] at hrun
      obtain ⟨rfl, rfl⟩ := Prod.mk.inj (Option.some.inj hrun)
      have hgives : GivesUp d held portno flags (some (addr, size, mem)) := by
        refine ⟨?_, rfl, hflag, hheld⟩
        rw [hport]
        rfl
      refine iff_of_false ?_ (not_not_intro hgives)
      rintro (⟨hzero, -⟩ | ⟨-, hkept⟩)
      · exact absurd hzero (by decide)
      · exact List.cons_ne_self _ _ hkept.chunks
    · rw [if_neg hflag] at hrun
      cases hrun
  · obtain ⟨hrepr, hnone, hlive⟩ := hqueue port hport
    obtain ⟨hret, hmoved⟩ := resizeFree_moved hport hrepr hnone
      (Xq.repr_initEmpty ((size - 48) / 8) mem) hlive (hfresh _ rfl)
    rw [run_resize _ hport hheld] at hrun
    obtain ⟨rfl, rfl⟩ := Prod.mk.inj (Option.some.inj hrun)
    exact iff_of_true (.inl ⟨hret, hmoved⟩) fun h => hheld h.2.2.2

def newHeaped [Builtins] : HeapedData := ⟨newSegment, fun _ => 1024, [1024]⟩

theorem newHeaped_port [Builtins] : newHeaped.seg.reqs.getPort 0 = some madePort :=
  madeSeg_getPort (by decide)

theorem newHeaped_queue [Builtins] (port : Port) (h : newHeaped.seg.reqs.getPort 0 = some port) :
    (port.queue .free).Repr (port.queue .free).elems ∧ Noneidx ∉ (port.queue .free).elems ∧
      newHeaped.freeQueue 0 ∈ newHeaped.live := by
  have hrepr : (madePort.queue .free).Repr [] := (madePort_holding .free).repr
  obtain rfl := Option.some.inj (newHeaped_port.symm.trans h)
  rw [hrepr.elems_eq]
  exact ⟨hrepr, List.not_mem_nil, List.mem_singleton_self _⟩

def stockedHeaped [Builtins] : HeapedData := ⟨stockedSegment, fun _ => 1024, [1024]⟩

/-- With the lock free the requests move, and the new queue takes the place of the old one. -/
theorem setFreequeueSize_allOrNothing_three : ∃ (_ : Builtins) (s' : Locked SegmentLock HeapedData),
    stockedHeaped.seg.reqs.bag 0 .free = {4096, 4608, 5120} ∧
      setFreequeueSize 0 X_NONBLOCK (some (8192, 4072, fun _ => 0)) ⟨stockedHeaped, ∅⟩ =
        some (0, s') ∧
      AllOrNothing stockedHeaped s'.data 0 0 := by
  let _ : Builtins := ⟨0⟩
  have hport : stockedHeaped.seg.reqs.getPort 0 = some (madePort.setQueue .free stockedQueue) :=
    stockedSegment_port
  have hqueue : ∀ port, stockedHeaped.seg.reqs.getPort 0 = some port →
      (port.queue .free).Repr (port.queue .free).elems ∧ Noneidx ∉ (port.queue .free).elems ∧
        stockedHeaped.freeQueue 0 ∈ stockedHeaped.live := by
    intro port h
    rw [(stockedSegment_free h).elems_eq]
    exact ⟨stockedSegment_free h, by decide, List.mem_singleton_self _⟩
  have hfresh : (8192 : xptr) ∉ stockedHeaped.live := (by decide : (8192 : xptr) ∉ [(1024 : xptr)])
  obtain ⟨hrepr, hnone, hlive⟩ := hqueue _ hport
  have hrun := run_resize X_NONBLOCK hport (Finset.notMem_empty _) 8192 4072 (fun _ => 0)
  rw [(resizeFree_moved hport hrepr hnone (Xq.repr_initEmpty ((4072 - 48) / 8) (fun _ => 0)) hlive
    hfresh).1] at hrun
  refine ⟨⟨0⟩, _, ?_, hrun, (setFreequeueSize_allOrNothing_iff hqueue ?_ hrun).mpr ?_⟩
  · rw [Xseg.bag_eq hport, (stockedSegment_free hport).elems_eq]
    rfl
  · intro c hc
    obtain rfl := Option.some.inj hc
    exact hfresh
  · exact fun h => Finset.notMem_empty _ h.2.2.2

/-- The lock of the queue is busy. -/
theorem not_setFreequeueSize_allOrNothing : ¬ ∀ (_ : Builtins) (d : HeapedData) (portno : xport)
    (held : Finset SegmentLock) (flags : UInt32) (chunk : QueueChunkAt) (ret : Int)
    (s' : Locked SegmentLock HeapedData),
    (∀ port, d.seg.reqs.getPort portno = some port →
      (port.queue .free).Repr (port.queue .free).elems ∧ Noneidx ∉ (port.queue .free).elems ∧
        d.freeQueue portno ∈ d.live) →
    (∀ c, chunk = some c → c.1 ∉ d.live) →
    setFreequeueSize portno flags chunk ⟨d, held⟩ = some (ret, s') →
    AllOrNothing d s'.data portno ret := by
  intro h
  let _ : Builtins := ⟨0⟩
  have hrun := (run_busy newHeaped_port (Finset.mem_singleton_self _) 8192 4072
    (fun _ => 0)).trans (if_pos (show X_NONBLOCK &&& X_NONBLOCK ≠ 0 by decide))
  have hall := h ⟨0⟩ newHeaped 0 _ X_NONBLOCK _ _ _ newHeaped_queue (fun c hc => ?_) hrun
  · rcases hall with ⟨hzero, -⟩ | ⟨-, hkept⟩
    · exact absurd hzero (by decide)
    · exact absurd hkept.chunks (by decide : [(8192 : xptr), 1024] ≠ [1024])
  · obtain rfl := Option.some.inj hc
    exact (by decide : (8192 : xptr) ∉ [(1024 : xptr)])

end HeapedM

end Libxseg
