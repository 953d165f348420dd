import Libxseg.Placement
import Libxseg.Transition
import Libxseg.XsegQueueChunk
import Libxseg.XsegSections

/-!
# Peers at work on a segment

Any number of peers call the request operations at the same time. A step is one
section of a call; `Pc` says where a peer is inside a call that has more than
one. `Flow` is the same system seen from the requests: where each one is, its
path, and the port that took it over last. Every step of the segment is a step of
the flow.
-/

namespace Libxseg

set_option autoImplicit false

variable {ι : Type}

inductive Pc where
  | idle
  /-- `xseg_get_request` found nothing in the free queue. -/
  | getting (src dst : xport) (flags : UInt32)
  /-- `xseg_get_request` is about to put the request back, since its ports are refused. -/
  | aborting (x : xptr)
  /-- `xseg_put_request` found the free queue full. -/
  | putting (x : xptr) (src : xport)
  /-- `xseg_put_request` has still to decrease `alloc_reqs`. -/
  | counting (src : xport)
  /-- `xseg_receive` starts over. -/
  | receiving (portno : xport) (flags : UInt32)

def Pc.held : Pc → Multiset xptr
  | aborting x => {x}
  | putting x _ => {x}
  | _ => 0

structure Peer where
  hands : List xptr
  pc : Pc

structure World (ι : Type) where
  seg : Xseg
  peers : ι → Peer

inductive Event where
  | miss (src dst : xport) (flags : UInt32)
  | got (src dst : xport) (flags : UInt32) (x : xptr)
  | refused (src dst : xport) (flags : UInt32) (x : xptr)
  | lost (x : xptr)
  | submit (x : xptr) (portno : xport) (flags : UInt32) (r : xport)
  | forward (x : xptr) (newDst portno : xport) (flags : UInt32) (r : xport)
  | accept (portno : xport) (flags : UInt32) (r : Option xptr)
  | respond (x : xptr) (portno : xport) (flags : UInt32) (r : xport)
  | receive (portno : xport) (flags : UInt32) (r : Option xptr)
  | drop (portno : xport) (flags : UInt32) (x : xptr)
  | put (x : xptr)
  | putRefused (x : xptr)
  | putFull (x : xptr)
  | putObj (x : xptr)
  | putDone
  | fill (x : xptr)

/-- Peer `peer` hands the request `x` to `xseg_put_request`: as a caller, or because
`xseg_get_request` could not set it up. -/
inductive Peer.Gives (peer : Peer) (x : xptr) : Peer → Prop
  | held : peer.pc = .idle → x ∈ peer.hands → Gives peer x ⟨peer.hands.erase x, .idle⟩
  | aborted : peer.pc = .aborting x → Gives peer x ⟨peer.hands, .idle⟩

namespace World
variable [DecidableEq ι]

def act (w : World ι) (i : ι) (peer : Peer) (s : Xseg) : World ι :=
  { seg := s, peers := Function.update w.peers i peer }

/-- How peer `i` comes by a request in `xseg_get_request`. -/
inductive Obtains (w : World ι) (i : ι) (src dst : xport) (flags : UInt32) : xptr → Xseg → Prop
  | free {port : Port} {x : xptr} {s : Xseg} :
      (w.peers i).pc = .idle → w.seg.getPort src = some port → w.seg.getFree src port = (x, s) →
      x ≠ Noneidx → Obtains w i src dst flags x s
  | alloc {port : Port} {mem : Option (xptr × UInt64)} {x : xptr} {s : Xseg} :
      (w.peers i).pc = .getting src dst flags → w.seg.getPort src = some port →
      (∀ c, mem = some c → w.seg.requestH.HeapChunk c) →
      w.seg.getAlloc src port flags mem = (some x, s) → Obtains w i src dst flags x s

inductive Misses (w : World ι) (i : ι) (src dst : xport) (flags : UInt32) : Pc → Xseg → Prop
  | port : (w.peers i).pc = .idle → w.seg.getPort src = none → Misses w i src dst flags .idle w.seg
  | free {port : Port} {s : Xseg} :
      (w.peers i).pc = .idle → w.seg.getPort src = some port →
      w.seg.getFree src port = (Noneidx, s) →
      Misses w i src dst flags
        (if flags &&& X_LOCAL ≠ 0 then .idle else .getting src dst flags) s
  | alloc {port : Port} {mem : Option (xptr × UInt64)} {s : Xseg} :
      (w.peers i).pc = .getting src dst flags → w.seg.getPort src = some port →
      (∀ c, mem = some c → w.seg.requestH.HeapChunk c) →
      w.seg.getAlloc src port flags mem = (none, s) → Misses w i src dst flags .idle s

def after (hands : List xptr) (x : xptr) (r : xport) : List xptr :=
  if r = NoPort then hands else hands.erase x

/-- One section of a call of peer `i`. A peer passes only requests that it has in hand. -/
inductive Step [Builtins] (w : World ι) : ι × Event → World ι → Prop
  | miss {i src dst flags pc s} :
      w.Misses i src dst flags pc s →
      Step w (i, .miss src dst flags) (w.act i ⟨(w.peers i).hands, pc⟩ s)
  | got {i src dst flags x s s'} :
      w.Obtains i src dst flags x s → s.getDone x src dst = (true, s') →
      Step w (i, .got src dst flags x) (w.act i ⟨x :: (w.peers i).hands, .idle⟩ s')
  | refused {i src dst flags x s s'} :
      w.Obtains i src dst flags x s → s.getDone x src dst = (false, s') →
      Step w (i, .refused src dst flags x) (w.act i ⟨(w.peers i).hands, .aborting x⟩ s')
  | submit {i x portno flags chunk fuel r s} :
      (w.peers i).pc = .idle → x ∈ (w.peers i).hands →
      w.seg.DoubledChunk x fuel chunk → w.seg.submit x portno flags chunk fuel = some (r, s) →
      Step w (i, .submit x portno flags r) (w.act i ⟨after (w.peers i).hands x r, .idle⟩ s)
  | forward {i x newDst portno flags chunk fuel r s} :
      (w.peers i).pc = .idle → x ∈ (w.peers i).hands →
      (w.seg.redirect x newDst).DoubledChunk x fuel chunk →
      w.seg.forward x newDst portno flags chunk fuel = some (r, s) →
      Step w (i, .forward x newDst portno flags r) (w.act i ⟨after (w.peers i).hands x r, .idle⟩ s)
  | accept {i portno flags r s} :
      (w.peers i).pc = .idle → w.seg.accept portno = (r, s) →
      Step w (i, .accept portno flags r) (w.act i ⟨r.toList ++ (w.peers i).hands, .idle⟩ s)
  | acceptBusy {i portno flags} :
      (w.peers i).pc = .idle → flags &&& X_NONBLOCK ≠ 0 →
      Step w (i, .accept portno flags none) (w.act i ⟨(w.peers i).hands, .idle⟩ w.seg)
  | respond {i x portno flags chunk r s} :
      (w.peers i).pc = .idle → x ∈ (w.peers i).hands →
      w.seg.DoubledReply x chunk → w.seg.respond x portno flags chunk = (r, s) →
      Step w (i, .respond x portno flags r) (w.act i ⟨after (w.peers i).hands x r, .idle⟩ s)
  | receiveNull {i portno flags s} :
      (w.peers i).pc = .idle ∨ (w.peers i).pc = .receiving portno flags →
      w.seg.receive portno = (.null, s) →
      Step w (i, .receive portno flags none) (w.act i ⟨(w.peers i).hands, .idle⟩ s)
  | receiveBusy {i portno flags} :
      (w.peers i).pc = .idle ∨ (w.peers i).pc = .receiving portno flags →
      flags &&& X_NONBLOCK ≠ 0 →
      Step w (i, .receive portno flags none) (w.act i ⟨(w.peers i).hands, .idle⟩ w.seg)
  | receive {i portno flags x s} :
      (w.peers i).pc = .idle ∨ (w.peers i).pc = .receiving portno flags →
      w.seg.receive portno = (.request x, s) →
      Step w (i, .receive portno flags (some x)) (w.act i ⟨x :: (w.peers i).hands, .idle⟩ s)
  | drop {i portno flags x s} :
      (w.peers i).pc = .idle ∨ (w.peers i).pc = .receiving portno flags →
      w.seg.receive portno = (.retry x, s) →
      Step w (i, .drop portno flags x)
        (w.act i ⟨(w.peers i).hands, .receiving portno flags⟩ s)
  | putRefused {i x} :
      (w.peers i).pc = .idle → x ∈ (w.peers i).hands → w.seg.putFree x = none →
      Step w (i, .putRefused x) (w.act i ⟨(w.peers i).hands, .idle⟩ w.seg)
  | lost {i x} :
      (w.peers i).pc = .aborting x → w.seg.putFree x = none →
      Step w (i, .lost x) (w.act i ⟨(w.peers i).hands, .idle⟩ w.seg)
  | put {i x peer src xqi s} :
      (w.peers i).Gives x peer → w.seg.putFree x = some (src, xqi, s) → xqi ≠ Noneidx →
      Step w (i, .put x) (w.act i peer s)
  | putFull {i x peer src s} :
      (w.peers i).Gives x peer → w.seg.putFree x = some (src, Noneidx, s) →
      Step w (i, .putFull x) (w.act i ⟨peer.hands, .putting x src⟩ s)
  | putObj {i x src} :
      (w.peers i).pc = .putting x src →
      Step w (i, .putObj x) (w.act i ⟨(w.peers i).hands, .counting src⟩ (w.seg.putObj x))
  | putDone {i src port} :
      (w.peers i).pc = .counting src → w.seg.getPort src = some port →
      Step w (i, .putDone) (w.act i ⟨(w.peers i).hands, .idle⟩ (w.seg.putDone src port))
  | fill {i x} (payload : Payload) :
      (w.peers i).pc = .idle → x ∈ (w.peers i).hands →
      Step w (i, .fill x) (w.act i ⟨(w.peers i).hands, .idle⟩
        (w.seg.setRequest x { w.seg.requests x with toPayload := payload }))

end World

/-- Where a request can be. A request in the hands of peer `i` is at `hand i`, or at `busy i` while
a call of its own still works on it. -/
inductive Place (ι : Type) where
  | list
  | queue (p : xport) (kind : QueueKind)
  | hand (i : ι)
  | busy (i : ι)
  deriving DecidableEq

def Place.Live : Place ι → Prop
  | queue _ .request => True
  | queue _ .reply => True
  | hand _ => True
  | _ => False

def contents (w : World ι) : Place ι → Multiset xptr
  | .list => w.seg.requestH.list
  | .queue p kind => w.seg.bag p kind
  | .hand i => (w.peers i).hands
  | .busy i => (w.peers i).pc.held

structure Flow (ι : Type) where
  place : xptr → Option (Place ι)
  path : xptr → List xport
  transit : xptr → xport
  lost : xptr → Prop

namespace Flow

def move (a : Flow ι) (x : xptr) (pl : Place ι) (l : List xport) (t : xport) : Flow ι :=
  { a with
    place := Function.update a.place x (some pl)
    path := Function.update a.path x l
    transit := Function.update a.transit x t }

def lose (a : Flow ι) (x : xptr) : Flow ι :=
  { a with place := Function.update a.place x none, lost := fun y => y = x ∨ a.lost y }

def extend (a : Flow ι) (fresh : List xptr) : Flow ι :=
  { a with place := fun x => if x ∈ fresh then some .list else a.place x }

def New (a : Flow ι) (fresh : List xptr) : Prop := ∀ x ∈ fresh, a.place x = none ∧ ¬ a.lost x

end Flow

def Event.Still : Event → Prop
  | miss _ _ _ => True
  | submit _ _ _ r => r = NoPort
  | forward _ _ _ _ r => r = NoPort
  | accept _ _ r => r = none
  | receive _ _ r => r = none
  | putRefused _ => True
  | putDone => True
  | fill _ => True
  | _ => False

inductive FlowStep (a : Flow ι) : ι × Event → Flow ι → Prop
  | still {i e} : e.Still → FlowStep a (i, e) a
  | got {i src dst flags x p fresh} :
      a.New fresh → (a.extend fresh).place x = some p → p = .list ∨ p = .queue src .free →
      FlowStep a (i, .got src dst flags x) ((a.extend fresh).move x (.hand i) [] src)
  | refused {i src dst flags x p fresh} :
      a.New fresh → (a.extend fresh).place x = some p → p = .list ∨ p = .queue src .free →
      FlowStep a (i, .refused src dst flags x)
        ((a.extend fresh).move x (.busy i) (a.path x) (a.transit x))
  | lost {i x} : a.place x = some (.busy i) → FlowStep a (i, .lost x) (a.lose x)
  | submit {i x portno flags r} :
      a.place x = some (.hand i) → r ≠ NoPort →
      FlowStep a (i, .submit x portno flags r)
        (a.move x (.queue r .request) (a.transit x :: a.path x) (a.transit x))
  | forward {i x newDst portno flags r} :
      a.place x = some (.hand i) → r ≠ NoPort →
      FlowStep a (i, .forward x newDst portno flags r)
        (a.move x (.queue r .request) (a.transit x :: a.path x) (a.transit x))
  | accept {i portno flags x} :
      a.place x = some (.queue portno .request) →
      FlowStep a (i, .accept portno flags (some x)) (a.move x (.hand i) (a.path x) portno)
  | respond {i x portno flags r l} :
      a.place x = some (.hand i) → l <:+ a.path x → r ≠ NoPort → l.head? = some r →
      FlowStep a (i, .respond x portno flags r) (a.move x (.queue r .reply) l (a.transit x))
  | trim {i x portno flags l} :
      a.place x = some (.hand i) → l <:+ a.path x →
      FlowStep a (i, .respond x portno flags NoPort) (a.move x (.hand i) l (a.transit x))
  | receive {i portno flags x p l} :
      a.place x = some (.queue portno .reply) → a.path x = p :: l →
      FlowStep a (i, .receive portno flags (some x)) (a.move x (.hand i) l (a.transit x))
  | drop {i portno flags x} :
      a.place x = some (.queue portno .reply) → a.path x = [] →
      FlowStep a (i, .drop portno flags x) (a.lose x)
  | put {i x src} :
      a.place x = some (.hand i) ∨ a.place x = some (.busy i) →
      FlowStep a (i, .put x) (a.move x (.queue src .free) (a.path x) (a.transit x))
  | putFull {i x} :
      a.place x = some (.hand i) ∨ a.place x = some (.busy i) →
      FlowStep a (i, .putFull x) (a.move x (.busy i) (a.path x) (a.transit x))
  | putObj {i x} :
      a.place x = some (.busy i) →
      FlowStep a (i, .putObj x) (a.move x .list (a.path x) (a.transit x))

/-- The world when the segment was just made: the queues are those of `__alloc_queue`, all
requests are in the list of the handler. -/
structure Start [Builtins] (w : World ι) : Prop where
  peers : ∀ i, w.peers i = ⟨[], .idle⟩
  queues : ∀ {p port}, w.seg.getPort p = some port → ∀ kind,
    ∃ size mem, port.queue kind = Xq.initEmpty size mem
  handler : w.seg.requestH.Wf
  list : w.seg.requestH.list.Perm w.seg.requestH.objects

def Event.Mapped (s : Xseg) : Event → Prop
  | miss src dst _ => (s.getPort src).isSome ∧ (s.getPort dst).isSome
  | got src dst _ _ => (s.getPort src).isSome ∧ (s.getPort dst).isSome
  | refused src dst _ _ => (s.getPort src).isSome ∧ (s.getPort dst).isSome
  | _ => True

/-- The segment's queues, hands and requests are what the flow says. -/
structure Refines (w : World ι) (a : Flow ι) : Prop where
  wf : w.seg.Wf
  places : Places (contents w) a.place
  objects : ∀ {x}, x ∈ w.seg.requestH.objects ↔ a.place x ≠ none ∨ a.lost x
  tracks : ∀ {x pl}, a.place x = some pl → pl.Live →
    Xseg.Tracks (w.seg.requests x) (a.path x) (a.transit x)

end Libxseg
