import Libxseg.Xseg
import Libxseg.XsegDriver

/-!
# Binding ports: xseg_alloc_port, xseg_bind_port, xseg_bind_dynport, xseg_leave_dynport

A port is an object of the port handler; the array `ports` maps port numbers to ports,
with 0 for none. The numbers below `dynports` are static, those from there to `nr_ports`
dynamic: bound by `xseg_bind_dynport` and left again by their owner. What the heap, the
driver and its signal descriptors answer is an argument. The answers are used at most
once in a call, since a loop goes on only past ports that it leaves alone.
-/

namespace Libxseg

set_option autoImplicit false

def NoOwner : UInt64 := 0xFFFFFFFFFFFFFFFF
def XSEG_DEF_MAX_ALLOCATED_REQS : UInt64 := 1024

structure XsegPort where
  queue : QueueKind → Option Xq
  owner : UInt64
  peer_type : UInt64
  portno : xport
  max_alloc_reqs : UInt64
  alloc_reqs : UInt64
  signal_desc : xptr
  flags : UInt32

structure XsegPorts where
  dynports : UInt32
  nr_ports : UInt32
  ports : xport → xptr
  records : xptr → XsegPort
  port_h : XobjectH
  shared : XsegPeerTypes

/-- The answers to a call: a chunk for port objects, chunks for the three queues, the data of the
driver, a signal descriptor (or a null pointer) and the result of its initialisation. -/
structure BindAnswers where
  mem : Option (xptr × UInt64)
  queues : QueueKind → QueueChunk
  data : UInt64
  sigdesc : UInt64
  init : Int

namespace XsegPorts

def setRecord (s : XsegPorts) (port : xptr) (record : XsegPort) : XsegPorts :=
  { s with records := Function.update s.records port record }

def map (s : XsegPorts) (portno : xport) (port : xptr) : XsegPorts :=
  { s with ports := Function.update s.ports portno port }

def setQueue (s : XsegPorts) (port : xptr) (kind : QueueKind) (q : Option Xq) : XsegPorts :=
  s.setRecord port { s.records port with queue := Function.update (s.records port).queue kind q }

/-- `xobj_put_obj(xseg->port_h, port)` -/
def putPort (s : XsegPorts) (port : xptr) : XsegPorts := { s with port_h := s.port_h.putObj port }

def initPort (s : XsegPorts) (port : xptr) : XsegPorts :=
  s.setRecord port
    { s.records port with
      owner := NoOwner
      portno := NoPort
      peer_type := 0
      alloc_reqs := 0
      max_alloc_reqs := XSEG_DEF_MAX_ALLOCATED_REQS
      flags := 0
      signal_desc := 0 }

def allocPort [Builtins] (s : XsegPorts) (flags : UInt32) (ans : BindAnswers) :
    Option xptr × XsegPorts :=
  match s.port_h.getObj flags ans.mem with
  | (none, port_h) => (none, { s with port_h := port_h })
  | (some port, port_h) =>
    let s := { s with port_h := port_h }
    match allocQueue (ans.queues .free) with
    | none => (none, s.putPort port)
    | some q =>
      let s := s.setQueue port .free (some q)
      match allocQueue (ans.queues .request) with
      | none => (none, (s.setQueue port .free none).putPort port)
      | some q =>
        let s := s.setQueue port .request (some q)
        match allocQueue (ans.queues .reply) with
        | none =>
          (none, ((s.setQueue port .request none).setQueue port .free none).putPort port)
        | some q => (some port, (s.setQueue port .reply (some q)).initPort port)

def freePort (s : XsegPorts) (port : xptr) : XsegPorts :=
  (((s.setQueue port .request none).setQueue port .free none).setQueue port .reply none).putPort port

def getPort (s : XsegPorts) (portno : xport) : Option xptr :=
  if portno < s.nr_ports ∧ s.ports portno ≠ 0 then some (s.ports portno) else none

def newSignalDesc (shared : XsegPeerTypes) (priv : XsegPrivate) (driver : Nat)
    (ans : BindAnswers) : Option xptr × XsegPrivate :=
  let (peer_data, priv) := getPeerTypeData shared priv driver
  if peer_data = 0 then (none, priv)
  else if ans.sigdesc = 0 then (none, priv)
  else if ans.init < 0 then (none, priv)
  else (some (ans.sigdesc - priv.segment), priv)

/-- The assignments to a port that is bound. -/
def bindRecord (s : XsegPorts) (port : xptr) (portno : xport) (driver id : UInt64) : XsegPorts :=
  s.setRecord port
    { s.records port with
      peer_type := driver
      owner := id
      portno := portno
      flags := CAN_ACCEPT ||| CAN_RECEIVE }

def setSignalDesc (s : XsegPorts) (port sigdesc : xptr) : XsegPorts :=
  s.setRecord port { s.records port with signal_desc := sigdesc }

/-- The body of the loop of `xseg_bind_port` from `__enable_driver` on, with what comes after a
`break`. A descriptor `sd` of the caller is used if there is one. -/
def bindPortAt (s : XsegPorts) (priv : XsegPrivate) (peer : XsegPeer) (id : UInt64) (sd : UInt64)
    (ans : BindAnswers) (port : xptr) (portno : xport) :
    Option xptr × XsegPorts × XsegPrivate :=
  let (driver, shared, priv) := enableDriver s.shared priv peer ans.data
  let s := { s with shared := shared }
  if driver < 0 then (none, (s.freePort port).map portno 0, priv)
  else
    let (sigdesc, priv) :=
      if sd = 0 then newSignalDesc s.shared priv driver.toNat ans
      else (some (sd - priv.segment), priv)
    match sigdesc with
    | none => (none, (s.freePort port).map portno 0, priv)
    | some sigdesc =>
      let s := s.setSignalDesc port sigdesc
      let s := s.bindRecord port portno (UInt64.ofNat driver.toNat) id
      (some port, s.map portno port, priv)

/-- The loop of `xseg_bind_port` from `portno` on, with the turns that are left. -/
def bindPortLoop [Builtins] (s : XsegPorts) (priv : XsegPrivate) (peer : XsegPeer) (id sd : UInt64)
    (ans : BindAnswers) (force : Bool) : Nat → xport → Option xptr × XsegPorts × XsegPrivate
  | 0, _ => (none, s, priv)
  | turns + 1, portno =>
    if s.ports portno = 0 then
      match s.allocPort X_ALLOC ans with
      | (none, s) => (none, s, priv)
      | (some port, s) => s.bindPortAt priv peer id sd ans port portno
    else if force then
      match s.getPort portno with
      | none => (none, s, priv)
      | some port => s.bindPortAt priv peer id sd ans port portno
    else bindPortLoop s priv peer id sd ans force turns (portno + 1)

/-- `xseg_bind_port` by a process with this `id` and peer type. -/
def bindPort [Builtins] (s : XsegPorts) (priv : XsegPrivate) (peer : XsegPeer) (id : UInt64)
    (req : UInt32) (sd : UInt64) (ans : BindAnswers) : Option xptr × XsegPorts × XsegPrivate :=
  let id := id.toUInt32.toUInt64
  if s.nr_ports ≤ s.dynports then (none, s, priv)
  else if s.dynports ≤ req then
    s.bindPortLoop priv peer id sd ans false s.dynports.toNat 0
  else s.bindPortLoop priv peer id sd ans true 1 req

/-- The body of the loop of `xseg_bind_dynport` from `if (!has_sd)` on, with what comes after a
`break`. -/
def bindDynportAt (s : XsegPorts) (priv : XsegPrivate) (driver : Nat) (id : UInt64)
    (ans : BindAnswers) (has_sd port_allocated : Bool) (port : xptr) (portno : xport) :
    Option xptr × XsegPorts × XsegPrivate :=
  let (sigdesc, priv) :=
    if has_sd then (some (s.records port).signal_desc, priv)
    else newSignalDesc s.shared priv driver ans
  match sigdesc with
  | none =>
    (none, if port_allocated then (s.freePort port).map portno 0 else s, priv)
  | some sigdesc =>
    let s := s.setSignalDesc port sigdesc
    (some port, s.bindRecord port portno (UInt64.ofNat driver) id, priv)

/-- The loop of `xseg_bind_dynport` from `portno` on, with the turns that are left. -/
def bindDynportLoop [Builtins] (s : XsegPorts) (priv : XsegPrivate) (driver : Nat) (id : UInt64)
    (ans : BindAnswers) : Nat → xport → Option xptr × XsegPorts × XsegPrivate
  | 0, _ => (none, s, priv)
  | turns + 1, portno =>
    if s.ports portno = 0 then
      match s.allocPort X_ALLOC ans with
      | (none, s) => (none, s, priv)
      | (some port, s) =>
        (s.map portno port).bindDynportAt priv driver id ans false true port portno
    else
      match s.getPort portno with
      | none => (none, s, priv)
      | some port =>
        if (s.records port).owner ≠ NoOwner then
          bindDynportLoop s priv driver id ans turns (portno + 1)
        else if (s.records port).signal_desc ≠ 0 then
          if (s.records port).peer_type = UInt64.ofNat driver then
            s.bindDynportAt priv driver id ans true false port portno
          else
            -- the old descriptor is abandoned
            (s.setSignalDesc port 0).bindDynportAt priv driver id ans false false port portno
        else s.bindDynportAt priv driver id ans false false port portno

/-- `xseg_bind_dynport` by a process with this `id` and peer type. -/
def bindDynport [Builtins] (s : XsegPorts) (priv : XsegPrivate) (peer : XsegPeer) (id : UInt64)
    (ans : BindAnswers) : Option xptr × XsegPorts × XsegPrivate :=
  let id := id.toUInt32.toUInt64
  let (driver, shared, priv) := enableDriver s.shared priv peer ans.data
  let s := { s with shared := shared }
  if driver < 0 then (none, s, priv)
  else
    s.bindDynportLoop priv driver.toNat id ans (s.nr_ports.toNat - s.dynports.toNat) s.dynports

def leaveDynport (s : XsegPorts) (port : xptr) : XsegPorts :=
  s.setRecord port { s.records port with owner := NoOwner }

end XsegPorts

end Libxseg
