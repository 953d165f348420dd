import Libxseg.Bookkeeping
import Libxseg.XsegAllocReqs
import Libxseg.XsegSimulation

/-!
# What a port has drawn from the request handler

`alloc_reqs` of a port is meant to count the requests drawn from the handler on behalf of
the port. The peers at work on a segment also call `xseg_alloc_requests`,
`xseg_free_requests` and `xseg_set_freequeue_size` here. A ledger notes for every request
drawn from the handler the port it was drawn for, and what `xseg_free_requests` has put back and not
yet subtracted.
-/

namespace Libxseg

set_option autoImplicit false

open Xseg

variable {ι : Type}

def Xseg.drawn (s : Xseg) : Finset xptr := s.requestH.objects.toFinset \ s.requestH.list.toFinset

def Xseg.allocs (s : Xseg) (p : xport) : Option UInt64 := (s.getPort p).map Port.allocReqs

structure Ledger (ι : Type) where
  world : World ι
  /-- The port that a request was last drawn for. -/
  account : xptr → xport
  /-- The port and the number of requests of an `xseg_free_requests` that has still to decrease
  `alloc_reqs`. -/
  freeing : ι → Option (xport × Nat)

inductive AccountCall where
  | base (e : Event)
  | allocRequests (portno : xport) (nr : UInt32) (mems : Nat → Option (xptr × UInt64))
  | freeRequests (portno : xport) (nr : Int)
  /-- The last section of `xseg_free_requests`. -/
  | freed
  | setFreequeueSize (portno : xport) (chunk : QueueChunk)

def Event.client : Event → Option xport
  | got src _ _ _ => some src
  | refused src _ _ _ => some src
  | _ => none

/-- The subtraction from `alloc_reqs` of port `p` that `xseg_put_request` still owes. -/
def Pc.due : Pc → xport → Nat
  | counting src, p => if src = p then 1 else 0
  | _, _ => 0

def freeingDue : Option (xport × Nat) → xport → Nat
  | some (src, n), p => if src = p then n else 0
  | none, _ => 0

namespace Ledger

def charge (l : Ledger ι) (s : Xseg) (p : xport) (x : xptr) : xport :=
  if x ∈ s.drawn ∧ x ∉ l.world.seg.drawn then p else l.account x

def Idle (l : Ledger ι) (i : ι) : Prop := (l.world.peers i).pc = .idle ∧ l.freeing i = none

/-- The ledger after a section of a call in bulk, which leads to `s` and may draw requests for
port `p`. -/
def put (l : Ledger ι) (s : Xseg) (p : xport) (freeing : ι → Option (xport × Nat)) : Ledger ι :=
  ⟨{ l.world with seg := s }, l.charge s p, freeing⟩

def after (l : Ledger ι) (e : Event) (w : World ι) : Ledger ι :=
  { l with
    world := w
    account := match e.client with
      | some p => l.charge w.seg p
      | none => l.account }

def HeapChunks (h : XobjectH) (mems : Nat → Option (xptr × UInt64)) : Prop :=
  (∀ n c, mems n = some c → h.HeapChunk c) ∧
  ∀ n m c d, n ≠ m → mems n = some c → mems m = some d → XobjectH.Apart c d

/-- One section of a call of peer `i`. A call that fails before it looks at a queue is no step. -/
inductive Step [DecidableEq ι] [Builtins] (l : Ledger ι) : ι × AccountCall → Ledger ι → Prop
  | base {i e w} :
      l.freeing i = none → l.world.Step (i, e) w → Step l (i, .base e) (l.after e w)
  | allocRequests {i portno nr mems port n s} :
      l.Idle i → l.world.seg.getPort portno = some port →
      HeapChunks l.world.seg.requestH mems →
      l.world.seg.fillFree portno port mems nr.toNat 0 = (n, s) →
      Step l (i, .allocRequests portno nr mems) (l.put s portno l.freeing)
  | freeRequests {i portno nr port n s} :
      l.Idle i → l.world.seg.getPort portno = some port →
      l.world.seg.drainFree portno port nr.toNat 0 = (n, s) →
      Step l (i, .freeRequests portno nr)
        (l.put s portno (Function.update l.freeing i (if n = 0 then none else some (portno, n))))
  | freed {i portno n port} :
      l.freeing i = some (portno, n) → l.world.seg.getPort portno = some port →
      Step l (i, .freed)
        (l.put (l.world.seg.settleFreed portno port n) portno (Function.update l.freeing i none))
  | setFreequeueSize {i portno chunk port newq ret s} :
      l.Idle i → l.world.seg.getPort portno = some port → allocQueue chunk = some newq →
      l.world.seg.resizeFree portno port newq = (ret, s) →
      Step l (i, .setFreequeueSize portno chunk) (l.put s portno l.freeing)

structure Opening [Builtins] (l : Ledger ι) : Prop where
  start : Start l.world
  allocs : ∀ {p port}, l.world.seg.getPort p = some port → port.allocReqs = 0
  freeing : ∀ i, l.freeing i = none

def drawnFor (l : Ledger ι) (p : xport) : Finset xptr :=
  l.world.seg.drawn.filter fun x => l.account x = p

theorem mem_drawnFor {l : Ledger ι} {p : xport} {x : xptr} :
    x ∈ l.drawnFor p ↔ x ∈ l.world.seg.drawn ∧ l.account x = p := Finset.mem_filter

/-- What the calls of peer `i` have put back and not yet subtracted from `alloc_reqs`. -/
def due (l : Ledger ι) (i : ι) (p : xport) : Nat :=
  (l.world.peers i).pc.due p + freeingDue (l.freeing i) p

/-- `alloc_reqs` counts what was drawn on behalf of the port: its free queue and the requests in
hands and in queues that carry its number. A subtraction finds enough to subtract. -/
structure Accounted [Fintype ι] (l : Ledger ι) : Prop where
  count : ∀ {p port}, l.world.seg.getPort p = some port →
    port.allocReqs.toNat = (l.drawnFor p).card + ∑ i, l.due i p
  enough : ∀ {p port}, l.world.seg.getPort p = some port → ∀ i, l.due i p ≤ port.allocReqs.toNat
  queued : ∀ {p x}, x ∈ l.world.seg.bag p .free → x ∈ l.drawnFor p
  live : ∀ {pl x}, x ∈ contents l.world pl → pl.Live →
    x ∈ l.drawnFor (l.world.seg.requests x).srcPortno

/-- What is drawn on behalf of a port is in its free queue, in flight or held, or a call of
`xseg_get_request` or `xseg_put_request` is at work on it. -/
def Located (l : Ledger ι) : Prop :=
  ∀ {p x}, x ∈ l.drawnFor p → x ∈ l.world.seg.bag p .free ∨
    (∃ pl, pl.Live ∧ x ∈ contents l.world pl ∧ (l.world.seg.requests x).srcPortno = p) ∨
    ∃ i, x ∈ (l.world.peers i).pc.held

def books (l : Ledger ι) : Books xptr xport ι where
  drawn := l.world.seg.drawn
  account := l.account
  count p := ((l.world.seg.allocs p).map UInt64.toNat).getD 0
  due := l.due

/-- When as many requests are out for port `p` as before and no subtraction is due, `alloc_reqs`
is what it was. -/
def Returns (l l' : Ledger ι) : Prop :=
  ∀ {p port port'}, l.world.seg.getPort p = some port → l'.world.seg.getPort p = some port' →
    (∀ i, l.due i p = 0) → (∀ i, l'.due i p = 0) →
    (l'.drawnFor p).card = (l.drawnFor p).card → port'.allocReqs = port.allocReqs

end Ledger

/-- No request is lost: `xseg_free_requests` asks for all that the free queue holds, and
`xseg_get_request` for a destination that is there. -/
def AccountCall.Lossless (s : Xseg) : AccountCall → Prop
  | base e => e.Mapped s
  | freeRequests portno nr =>
    ∀ port, s.getPort portno = some port → (port.queue .free).count.toNat ≤ nr.toNat
  | _ => True

def Event.KnownSource (s : Xseg) : Event → Prop
  | refused src _ _ x =>
    s.getPort (s.requests x).srcPortno = none ∨ (s.requests x).srcPortno = src
  | _ => True

/-- `xseg_alloc_requests` keeps no request, and `xseg_set_freequeue_size` drops none. -/
def AccountCall.Even [Builtins] (s : Xseg) : AccountCall → Prop
  | base e => e.KnownSource s
  | allocRequests portno nr mems =>
    (s.requestH.getObj X_ALLOC (mems 0)).1 = none ∨
      nr ≠ 0 ∧ ∀ port, s.getPort portno = some port →
        (port.queue .free).count = (port.queue .free).size
  | setFreequeueSize portno chunk =>
    ∀ port newq, s.getPort portno = some port → allocQueue chunk = some newq →
      (port.queue .free).count ≤ newq.size
  | _ => True

end Libxseg
