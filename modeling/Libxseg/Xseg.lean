import Libxseg.Xobj
import Libxseg.XqDeque

/-!
# xseg: requests, ports and their queues (xseg.c)

A request is an object of the request handler. It lies in the handler's free
list, in one of the three queues of a port, or it is held by a peer. The memory
of the requests is a function from addresses to records, and an `xptr` to a
request is its address. Pointer translation (`XPTR_MAKE`, `XPTR_TAKE`), logging
and null checks are left out.

Every function below is what the C function does between taking a lock and
leaving it, together with the accesses to the request it has in hand, which no
other peer touches. A function with several such sections has one definition for
each. What the heap answers to an allocation is an argument.
-/

namespace Libxseg

set_option autoImplicit false

abbrev xport := UInt32

def NoPort : xport := 0xFFFFFFFF
def MAX_PATH_LEN : xqindex := 32
def CAN_ACCEPT : UInt32 := (1 : UInt32) <<< 0
def CAN_RECEIVE : UInt32 := (1 : UInt32) <<< 1

/-- `!x` -/
def cNot (x : UInt32) : UInt32 := if x = 0 then 1 else 0

structure Payload where
  buffer : xptr
  bufferlen : UInt64
  target : xptr
  data : xptr
  datalen : UInt64
  targetlen : UInt32
  state : UInt32
  elapsed : UInt64
  tvSec : Int64
  tvUsec : Int64
  flags : UInt32
  serviced : UInt64
  v0Size : UInt64

structure Request extends Payload where
  srcPortno : xport
  transitPortno : xport
  dstPortno : xport
  effectiveDstPortno : xport
  path : Xq

inductive QueueKind where
  | free
  | request
  | reply
  deriving DecidableEq

/-- The queues `free_queue`, `request_queue` and `reply_queue` are `queue .free` and so on. -/
structure Port where
  queue : QueueKind → Xq
  maxAllocReqs : UInt64
  allocReqs : UInt64
  flags : UInt32

def Port.setQueue (port : Port) (kind : QueueKind) (q : Xq) : Port :=
  { port with queue := Function.update port.queue kind q }

structure Xseg where
  nrPorts : UInt32
  ports : xport → Option Port
  pathNext : xport → xport
  requestH : XobjectH
  requests : xptr → Request
  reqCnt : UInt64
  avgReqLat : UInt64

/-- The answer of the heap to `__alloc_queue`: the size of the chunk, and what is in it. -/
abbrev QueueChunk := Option (UInt64 × (xqindex → xqindex))

/-- `__alloc_queue`; `sizeof(struct xq)` is 48 and `sizeof(xqindex)` is 8. -/
def allocQueue [Builtins] (chunk : QueueChunk) : Option Xq :=
  chunk.map fun c => Xq.initEmpty ((c.1 - 48) / 8) c.2

namespace Xseg

def validatePort (s : Xseg) (portno : xport) : Prop := portno < s.nrPorts

instance (s : Xseg) (portno : xport) : Decidable (s.validatePort portno) :=
  inferInstanceAs (Decidable (_ < _))

def getPort (s : Xseg) (portno : xport) : Option Port :=
  if s.validatePort portno then s.ports portno else none

def setPort (s : Xseg) (portno : xport) (port : Port) : Xseg :=
  { s with ports := Function.update s.ports portno (some port) }

def setRequest (s : Xseg) (xreq : xptr) (req : Request) : Xseg :=
  { s with requests := Function.update s.requests xreq req }

def setPath (s : Xseg) (xreq : xptr) (path : Xq) : Xseg :=
  s.setRequest xreq { s.requests xreq with path := path }

/-- The first assignments after `done`, which `xseg_put_request` makes as well. -/
def clearBuffers (req : Request) : Request :=
  { req with buffer := 0, bufferlen := 0, target := 0, data := 0, datalen := 0, targetlen := 0 }

/-- `xseg_prep_ports`; `none` is the result `-1`. -/
def prepPorts (s : Xseg) (req : Request) (srcPortno dstPortno : xport) : Option Request :=
  if ¬ s.validatePort srcPortno then none
  else if ¬ s.validatePort dstPortno then none
  else some { req with
    srcPortno := srcPortno, transitPortno := srcPortno,
    dstPortno := dstPortno, effectiveDstPortno := dstPortno }

/-- `xq_init_empty(&xreq->path, MAX_PATH_LEN, xreq->path_bufs)` -/
def emptyPath [Builtins] (req : Request) : Request :=
  { req with path := Xq.initEmpty MAX_PATH_LEN req.path.queue }

/-- The section of `xseg_get_request` under `fq_lock`: try to take a request of the free queue. -/
def getFree (s : Xseg) (srcPortno : xport) (port : Port) : xqindex × Xseg :=
  let (xqi, q) := (port.queue .free).popHead
  (xqi, s.setPort srcPortno (port.setQueue .free q))

/-- The section under `port_lock`: try to allocate from the handler. -/
def getAlloc (s : Xseg) (srcPortno : xport) (port : Port) (flags : UInt32)
    (mem : Option (xptr × UInt64)) : Option xptr × Xseg :=
  if port.allocReqs < port.maxAllocReqs then
    match s.requestH.getObj (flags &&& X_ALLOC) mem with
    | (none, h) => (none, { s with requestH := h })
    | (some req, h) =>
      (some req, { s with requestH := h }.setPort srcPortno
        { port with allocReqs := port.allocReqs + 1 })
  else (none, s)

/-- From `done` on: the request is set up, or its ports are refused (`false`). -/
def getDone [Builtins] (s : Xseg) (xreq : xptr) (srcPortno dstPortno : xport) : Bool × Xseg :=
  let req := clearBuffers (s.requests xreq)
  match s.prepPorts req srcPortno dstPortno with
  | none => (false, s.setRequest xreq req)
  | some req =>
    (true, s.setRequest xreq (emptyPath
      { req with
        state := 0, elapsed := 0, tvSec := 0, tvUsec := 0, flags := 0, serviced := 0
        v0Size := 0xFFFFFFFFFFFFFFFF }))

/-- What `xseg_put_request` assigns to the request. -/
def emptied [Builtins] (req : Request) : Request :=
  { clearBuffers (emptyPath req) with
    state := 0, srcPortno := NoPort, dstPortno := NoPort, transitPortno := NoPort
    effectiveDstPortno := NoPort, serviced := 0 }

/-- The section of `xseg_put_request` under the segment lock. -/
def countRequest (s : Xseg) (elapsed : UInt64) : Xseg :=
  if elapsed ≠ 0 then { s with reqCnt := s.reqCnt + 1, avgReqLat := s.avgReqLat + elapsed } else s

/-- `xseg_put_request` up to the end of its section under `fq_lock`; `none` is the result `-1`.
The request is emptied, counted, and offered to the free queue of its source port. -/
def putFree [Builtins] (s : Xseg) (xreq : xptr) : Option (xport × xqindex × Xseg) :=
  let req := s.requests xreq
  match s.getPort req.srcPortno with
  | none => none
  | some port =>
    let s := (s.setRequest xreq (emptied req)).countRequest (emptied req).elapsed
    let (xqi, q) := (port.queue .free).appendHead xreq
    some (req.srcPortno, xqi, s.setPort req.srcPortno (port.setQueue .free q))

def putObj (s : Xseg) (xreq : xptr) : Xseg := { s with requestH := s.requestH.putObj xreq }

/-- The last section of `xseg_put_request`, under `port_lock`. -/
def putDone (s : Xseg) (srcPortno : xport) (port : Port) : Xseg :=
  s.setPort srcPortno { port with allocReqs := port.allocReqs - 1 }

/-- The loop of `xseg_submit` that looks for the port to submit to, at `next`. The outer `none`
means that `fuel` turns are not enough, the inner one the result `NoPort`. -/
def discover (s : Xseg) (effectiveDst : xport) : Nat → xport → Option (Option (xport × Port))
  | 0, _ => none
  | fuel + 1, next =>
    if next = effectiveDst then some none
    else
      let next := if s.pathNext next ≠ NoPort then s.pathNext next else effectiveDst
      match s.getPort next with
      | none => some none
      | some port =>
        if cNot port.flags &&& CAN_ACCEPT ≠ 0 then s.discover effectiveDst fuel next
        else some (some (next, port))

/-- The append of `xseg_submit` and `xseg_respond` to a port's queue, which doubles a full queue
when the caller allows it. -/
def appendGrowing [Builtins] (q : Xq) (xqi : xqindex) (flags : UInt32) (chunk : QueueChunk) :
    xqindex × Xq :=
  let (serial, q) := q.appendTail xqi
  if flags &&& X_ALLOC ≠ 0 ∧ serial = Noneidx then
    match allocQueue chunk with
    | none => (serial, q)
    | some newq =>
      match q.resize newq with
      | (r, newq) => if r = Noneidx then (serial, q) else newq.appendTail xqi
  else (serial, q)

/-- The section of `xseg_submit` and `xseg_respond` under the lock of the queue. -/
def appendQueue [Builtins] (s : Xseg) (portno : xport) (port : Port) (kind : QueueKind)
    (xreq : xptr) (flags : UInt32) (chunk : QueueChunk) : xqindex × Xseg :=
  let (serial, q) := appendGrowing (port.queue kind) xreq flags chunk
  (serial, s.setPort portno (port.setQueue kind q))

/-- `xseg_submit` from `/* submit */` on. -/
def deliver [Builtins] (s : Xseg) (xreq : xptr) (cur next : xport) (port : Port)
    (flags : UInt32) (chunk : QueueChunk) : xport × Xseg :=
  let (serial, path) := (s.requests xreq).path.appendHead cur.toUInt64
  if serial = Noneidx then (NoPort, s)
  else
    let (serial, s) := (s.setPath xreq path).appendQueue next port .request xreq flags chunk
    if serial = Noneidx then (NoPort, s.setPath xreq path.popHead.2)
    else (next, s)

/-- `xseg_submit`; `none` means that `fuel` is not enough. The code makes no use of `portno`. -/
def submit [Builtins] (s : Xseg) (xreq : xptr) (_portno : xport) (flags : UInt32)
    (chunk : QueueChunk) (fuel : Nat) : Option (xport × Xseg) :=
  let req := s.requests xreq
  if ¬ s.validatePort req.transitPortno then some (NoPort, s)
  else if ¬ s.validatePort req.effectiveDstPortno then some (NoPort, s)
  else
    let cur := req.transitPortno
    match s.discover req.effectiveDstPortno fuel cur with
    | none => none
    | some none => some (NoPort, s)
    | some (some (next, port)) => some (s.deliver xreq cur next port flags chunk)

def forward [Builtins] (s : Xseg) (xreq : xptr) (newDst portno : xport) (flags : UInt32)
    (chunk : QueueChunk) (fuel : Nat) : Option (xport × Xseg) :=
  if ¬ s.validatePort newDst then some (NoPort, s)
  else (s.setRequest xreq { s.requests xreq with effectiveDstPortno := newDst }).submit
    xreq portno flags chunk fuel

def accept (s : Xseg) (portno : xport) : Option xptr × Xseg :=
  match s.getPort portno with
  | none => (none, s)
  | some port =>
    match (port.queue .request).popHead with
    | (xqi, q) =>
      let s := s.setPort portno (port.setQueue .request q)
      if xqi = Noneidx then (none, s)
      else (some xqi, s.setRequest xqi { s.requests xqi with transitPortno := portno })

theorem popHead_count_lt {q : Xq} (h : q.peekHead ≠ Noneidx) :
    q.popHead.2.count.toNat < q.count.toNat := by
  have hc : q.count ≠ 0 := by
    intro hc
    simp [Xq.peekHead, hc] at h
  have hpos : 0 < q.count.toNat := by
    have : q.count.toNat ≠ 0 := fun h0 => hc (UInt64.toNat_inj.mp h0)
    omega
  have hpop : q.popHead.2.count = q.count - 1 := by
    rw [Xq.popHead, if_neg hc]
    simp only [Xq.count]
    grind
  have hlt := q.count.toNat_lt
  rw [hpop, UInt64.toNat_sub, UInt64.toNat_one]
  omega

/-- The loop of `xseg_respond`: ports that cannot receive are popped off the path. The result is
the first other port, or `none` for the result `NoPort`, and the path that is left. -/
def respondTo (s : Xseg) (path : Xq) : Option (xport × Port) × Xq :=
  if path.peekHead = Noneidx then (none, path)
  else
    let dst := path.peekHead.toUInt32
    match s.getPort dst with
    | none => (none, path)
    | some port =>
      if port.flags &&& CAN_RECEIVE = 0 then respondTo s path.popHead.2
      else (some (dst, port), path)
termination_by path.count.toNat
decreasing_by exact popHead_count_lt ‹_›

def respond [Builtins] (s : Xseg) (xreq : xptr) (_portno : xport) (flags : UInt32)
    (chunk : QueueChunk) : xport × Xseg :=
  match s.respondTo (s.requests xreq).path with
  | (none, path) => (NoPort, s.setPath xreq path)
  | (some (dst, port), path) =>
    let (serial, s) := (s.setPath xreq path).appendQueue dst port .reply xreq flags chunk
    (if serial = Noneidx then NoPort else dst, s)

/-- What one turn of `xseg_receive` comes to; after `retry` it starts over, and the request it
popped is dropped. -/
inductive Received where
  | null
  | retry (xreq : xptr)
  | request (xreq : xptr)

def receive (s : Xseg) (portno : xport) : Received × Xseg :=
  match s.getPort portno with
  | none => (.null, s)
  | some port =>
    match (port.queue .reply).popHead with
    | (xqi, q) =>
      let s := s.setPort portno (port.setQueue .reply q)
      if xqi = Noneidx then (.null, s)
      else
        match (s.requests xqi).path.popHead with
        | (serial, path) =>
          (if serial = Noneidx then .retry xqi else .request xqi, s.setPath xqi path)

end Xseg

end Libxseg
