import Libxseg.LockProgram
import Libxseg.XsegAllocReqs
import Libxseg.XsegPorts

/-!
# The locks of xseg.c

The operations on requests and ports with their locks: the lock of the segment, and for
each port the locks of its three queues and the port lock. Between taking a lock and
releasing it they do what the sections of the earlier modules do. A port that is being
made has no number yet, and its locks are not among these.

`xseg_free_requests` and `xseg_bind_dynport` each have an exit that keeps a lock.
-/

namespace Libxseg

set_option autoImplicit false

/-- `segment_lock`, the locks `fq_lock`, `rq_lock` and `pq_lock`, and `port_lock`. -/
inductive SegmentLock where
  | segment
  | queue (kind : QueueKind) (portno : xport)
  | port (portno : xport)
  deriving DecidableEq

structure SegmentData where
  reqs : Xseg
  ports : XsegPorts
  priv : XsegPrivate

abbrev SegM := LockM SegmentLock SegmentData

namespace SegM
open LockM

def onReqs {α : Type} (f : Xseg → α × Xseg) (d : SegmentData) : α × SegmentData :=
  ((f d.reqs).1, { d with reqs := (f d.reqs).2 })

def onReqs_ (f : Xseg → Xseg) (d : SegmentData) : Unit × SegmentData :=
  ((), { d with reqs := f d.reqs })

def onPorts {α : Type} (f : XsegPorts → XsegPrivate → α × XsegPorts × XsegPrivate)
    (d : SegmentData) : α × SegmentData :=
  ((f d.ports d.priv).1, { d with ports := (f d.ports d.priv).2.1, priv := (f d.ports d.priv).2.2 })

def portAt (s : Xseg) (portno : xport) (port : Port) : Port := (s.getPort portno).getD port

def allocRequests (portno : xport) (nr : UInt32) (mems : Nat → Option (xptr × UInt64)) :
    SegM Int := do
  match (← look).reqs.getPort portno with
  | none => return -1
  | some port =>
    let i ← critical (.queue .free portno) (onReqs fun s => s.fillFree portno port mems nr.toNat 0)
    return if i = 0 then -1 else i

def freeRequests (portno : xport) (nr : Int) : SegM Int := do
  match (← look).reqs.getPort portno with
  | none => return -1
  | some port =>
    acquire (.queue .free portno)
    let i ← act (onReqs fun s => s.drainFree portno port nr.toNat 0)
    if i = 0 then return -1
    else
      release (.queue .free portno)
      critical (.port portno) (onReqs_ fun s => s.settleFreed portno (portAt s portno port) i)
      return i

def countRequest (elapsed : UInt64) : SegM Unit :=
  if elapsed ≠ 0 then critical .segment (onReqs_ fun s => s.countRequest elapsed) else return ()

def pushFree (portno : xport) (port : Port) (xreq : xptr) (s : Xseg) : xqindex × Xseg :=
  let (xqi, q) := ((portAt s portno port).queue .free).appendHead xreq
  (xqi, s.setPort portno ((portAt s portno port).setQueue .free q))

def putRequest [Builtins] (xreq : Option xptr) (_portno : xport) : SegM Int := do
  match xreq with
  | none => return -1
  | some xreq =>
    let req := (← look).reqs.requests xreq
    match (← look).reqs.getPort req.srcPortno with
    | none => return -1
    | some port =>
      act (onReqs_ fun s => s.setRequest xreq (Xseg.emptied req))
      countRequest (Xseg.emptied req).elapsed
      let xqi ← critical (.queue .free req.srcPortno) (onReqs (pushFree req.srcPortno port xreq))
      if xqi ≠ Noneidx then return 0
      else
        act (onReqs_ fun s => s.putObj xreq)
        critical (.port req.srcPortno) (onReqs_ fun s =>
          s.putDone req.srcPortno (portAt s req.srcPortno port))
        return 0

/-- `xseg_get_request` from `done` on. -/
def getDone [Builtins] (req : xptr) (src_portno dst_portno : xport) : SegM (Option xptr) := do
  if ← act (onReqs fun s => s.getDone req src_portno dst_portno) then return some req
  else
    let _ ← putRequest (some req) src_portno
    return none

def getRequest [Builtins] (src_portno dst_portno : xport) (flags : UInt32)
    (mem : Option (xptr × UInt64)) : SegM (Option xptr) := do
  match (← look).reqs.getPort src_portno with
  | none => return none
  | some port =>
    let xqi ← critical (.queue .free src_portno) (onReqs fun s => s.getFree src_portno port)
    if xqi ≠ Noneidx then getDone xqi src_portno dst_portno
    else if flags &&& X_LOCAL ≠ 0 then return none
    else
      match ← critical (.port src_portno) (onReqs fun s =>
        s.getAlloc src_portno (portAt s src_portno port) flags mem) with
      | none => return none
      | some req => getDone req src_portno dst_portno

/-- `xseg_submit`, whose first loop may take `turns` turns. -/
def submit [Builtins] (xreq : Option xptr) (_portno : xport) (flags : UInt32) (chunk : QueueChunk)
    (turns : Nat) : SegM xport := do
  match xreq with
  | none => return NoPort
  | some xreq =>
    let s := (← look).reqs
    let cur := (s.requests xreq).transitPortno
    let dst := (s.requests xreq).effectiveDstPortno
    if ¬ s.validatePort cur then return NoPort
    else if ¬ s.validatePort dst then return NoPort
    else
      match s.discover dst turns cur with
      | none => diverge
      | some none => return NoPort
      | some (some (next, port)) =>
        let (serial, path) := (s.requests xreq).path.appendHead cur.toUInt64
        if serial = Noneidx then return NoPort
        else
          act (onReqs_ fun s => s.setPath xreq path)
          let serial ← critical (.queue .request next) (onReqs fun s =>
            s.appendQueue next port .request xreq flags chunk)
          if serial = Noneidx then
            act (onReqs_ fun s => s.setPath xreq path.popHead.2)
            return NoPort
          else return next

/-- The lock of a queue, taken as the flags say; `false` is the exit of a failed try. -/
def takeQueue (flags : UInt32) (kind : QueueKind) (portno : xport) : SegM Bool := do
  if flags &&& X_NONBLOCK ≠ 0 then tryLock (.queue kind portno)
  else
    acquire (.queue kind portno)
    return true

def popQueue (kind : QueueKind) (portno : xport) (port : Port) (s : Xseg) : xqindex × Xseg :=
  let (xqi, q) := ((portAt s portno port).queue kind).popHead
  (xqi, s.setPort portno ((portAt s portno port).setQueue kind q))

/-- `xseg_receive` from `retry` on, which it may reach `turns` times. -/
def receiveFrom (portno : xport) (port : Port) (flags : UInt32) : Nat → SegM (Option xptr)
  | 0 => diverge
  | turns + 1 => do
    if ← takeQueue flags .reply portno then
      let xqi ← act (onReqs (popQueue .reply portno port))
      release (.queue .reply portno)
      if xqi = Noneidx then return none
      else
        let (serial, path) := ((← look).reqs.requests xqi).path.popHead
        act (onReqs_ fun s => s.setPath xqi path)
        if serial = Noneidx then receiveFrom portno port flags turns else return some xqi
    else return none

def receive (portno : xport) (flags : UInt32) (turns : Nat) : SegM (Option xptr) := do
  match (← look).reqs.getPort portno with
  | none => return none
  | some port => receiveFrom portno port flags turns

def accept (portno : xport) (flags : UInt32) : SegM (Option xptr) := do
  match (← look).reqs.getPort portno with
  | none => return none
  | some port =>
    if ← takeQueue flags .request portno then
      let xqi ← act (onReqs (popQueue .request portno port))
      release (.queue .request portno)
      if xqi = Noneidx then return none
      else
        act (onReqs_ fun s => s.setRequest xqi { s.requests xqi with transitPortno := portno })
        return some xqi
    else return none

def respond [Builtins] (xreq : Option xptr) (_portno : xport) (flags : UInt32)
    (chunk : QueueChunk) : SegM xport := do
  match xreq with
  | none => return NoPort
  | some xreq =>
    match ← act (onReqs fun s =>
      let (dst, path) := s.respondTo (s.requests xreq).path
      (dst, s.setPath xreq path)) with
    | none => return NoPort
    | some (dst, port) =>
      let serial ← critical (.queue .reply dst) (onReqs fun s =>
        s.appendQueue dst port .reply xreq flags chunk)
      return if serial = Noneidx then NoPort else dst

def setMaxRequests (portno : xport) (nr_reqs : UInt64) : SegM Int := do
  if XSEG_MAX_ALLOCATED_REQS < nr_reqs then return -1
  else
    match (← look).reqs.getPort portno with
    | none => return -1
    | some port =>
      let r ← critical (.queue .free portno) (onReqs fun s => s.limitReqs portno port nr_reqs)
      act (onReqs_ fun s => s.setMaxAllocReqs portno (portAt s portno port) nr_reqs)
      return r

def setFreequeueSize [Builtins] (portno : xport) (flags : UInt32) (chunk : QueueChunk) :
    SegM Int := do
  match (← look).reqs.getPort portno with
  | none => return -1
  | some port =>
    match allocQueue chunk with
    | none => return -1
    | some newq =>
      if ← takeQueue flags .free portno then
        let ret ← act (onReqs fun s => s.resizeFree portno port newq)
        release (.queue .free portno)
        return ret
      else return -1

def bindPort [Builtins] (peer : XsegPeer) (id : UInt64) (req : UInt32) (sd : UInt64)
    (ans : BindAnswers) : SegM (Option xptr) := do
  let s := (← look).ports
  if s.nr_ports ≤ s.dynports then return none
  else critical .segment (onPorts fun s priv => s.bindPort priv peer id req sd ans)

def bindDynport [Builtins] (peer : XsegPeer) (id : UInt64) (ans : BindAnswers) :
    SegM (Option xptr) := do
  acquire .segment
  let driver ← act (onPorts fun s priv =>
    let (driver, shared, priv) := enableDriver s.shared priv peer ans.data
    (driver, { s with shared := shared }, priv))
  if driver < 0 then return none
  else
    let port ← act (onPorts fun s priv =>
      s.bindDynportLoop priv driver.toNat id.toUInt32.toUInt64 ans
        (s.nr_ports.toNat - s.dynports.toNat) s.dynports)
    release .segment
    return port

def leaveDynport (port : Option xptr) : SegM Int := do
  match port with
  | none => return -1
  | some port =>
    critical .segment (onPorts fun s priv => ((), s.leaveDynport port, priv))
    return 0

section Runs
variable {d : SegmentData} {portno : xport} {flags : UInt32}

theorem run_takeQueue (flags : UInt32) (kind : QueueKind) (portno : xport) (d : SegmentData) :
    takeQueue flags kind portno ⟨d, ∅⟩ = some (true, ⟨d, {.queue kind portno}⟩) := by
  unfold takeQueue
  by_cases hflag : flags &&& X_NONBLOCK ≠ 0
  · rw [if_pos hflag, run_tryLock]
  · rw [if_neg hflag, run_bind (run_acquire _ d)]
    rfl

theorem portAt_eq {s : Xseg} {port : Port} (h : s.getPort portno = some port) (p : Port) :
    portAt s portno p = port := by
  unfold portAt
  rw [h]
  rfl

/-- With its lock `xseg_accept` is the operation that was described without locks. -/
theorem run_accept (portno : xport) (flags : UInt32) (d : SegmentData) :
    accept portno flags ⟨d, ∅⟩ = some ((d.reqs.accept portno).1,
      ⟨{ d with reqs := (d.reqs.accept portno).2 }, ∅⟩) := by
  unfold accept Xseg.accept
  rw [run_bind rfl]
  dsimp only
  cases hport : d.reqs.getPort portno with
  | none => rfl
  | some port =>
    dsimp only
    rw [run_bind (run_takeQueue flags .request portno d), if_pos rfl, run_bind rfl,
      run_bind (run_release _ _)]
    unfold onReqs popQueue
    dsimp only
    rw [portAt_eq hport]
    by_cases hnone : (port.queue .request).popHead.1 = Noneidx
    · rw [if_pos hnone, if_pos hnone]
      rfl
    · rw [if_neg hnone, if_neg hnone]
      rfl

theorem run_respond [Builtins] (xreq : xptr) (portno : xport) (flags : UInt32) (chunk : QueueChunk)
    (d : SegmentData) :
    respond (some xreq) portno flags chunk ⟨d, ∅⟩ =
      some ((d.reqs.respond xreq portno flags chunk).1,
        ⟨{ d with reqs := (d.reqs.respond xreq portno flags chunk).2 }, ∅⟩) := by
  unfold respond Xseg.respond
  dsimp only
  rw [run_bind rfl]
  unfold onReqs
  dsimp only
  rcases d.reqs.respondTo (d.reqs.requests xreq).path with ⟨_ | ⟨dst, port⟩, path⟩
  · rfl
  · exact run_bind (run_critical _ _ _) _

theorem run_submit [Builtins] (xreq : xptr) (portno : xport) (flags : UInt32) (chunk : QueueChunk)
    (turns : Nat) (d : SegmentData) :
    submit (some xreq) portno flags chunk turns ⟨d, ∅⟩ =
      (d.reqs.submit xreq portno flags chunk turns).map fun r =>
        (r.1, ⟨{ d with reqs := r.2 }, ∅⟩) := by
  unfold submit Xseg.submit
  dsimp only
  rw [run_bind rfl]
  dsimp only
  by_cases hcur : d.reqs.validatePort (d.reqs.requests xreq).transitPortno
  · rw [if_neg (not_not_intro hcur), if_neg (not_not_intro hcur)]
    by_cases hdst : d.reqs.validatePort (d.reqs.requests xreq).effectiveDstPortno
    · rw [if_neg (not_not_intro hdst), if_neg (not_not_intro hdst)]
      rcases d.reqs.discover (d.reqs.requests xreq).effectiveDstPortno turns
        (d.reqs.requests xreq).transitPortno with _ | _ | ⟨next, port⟩
      · rfl
      · rfl
      · unfold Xseg.deliver
        dsimp only
        split
        · rfl
        · rw [run_bind rfl, run_bind (run_critical _ _ _)]
          unfold onReqs onReqs_
          dsimp only
          split <;> rfl
    · rw [if_pos hdst, if_pos hdst]
      rfl
  · rw [if_pos hcur, if_pos hcur]
    rfl

end Runs

end SegM

end Libxseg
