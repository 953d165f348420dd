import Libxseg.XsegSimulation

/-!
# The steps of a request that goes from port to port

The operations when nothing stands in the way: the port accepts and receives, its
queue has room, the path too. And a segment to start from.
-/

namespace Libxseg

set_option autoImplicit false

open Xseg

@[simp] theorem Port.queue_setQueue (port : Port) (kind : QueueKind) (q : Xq) :
    (port.setQueue kind q).queue kind = q := by
  simp [Port.setQueue]

theorem Port.queue_setQueue_of_ne (port : Port) {kind kind' : QueueKind} (h : kind' ≠ kind)
    (q : Xq) : (port.setQueue kind q).queue kind' = port.queue kind' := by
  simp [Port.setQueue, h]

@[simp] theorem Port.flags_setQueue (port : Port) (kind : QueueKind) (q : Xq) :
    (port.setQueue kind q).flags = port.flags := rfl

namespace Xseg
variable {s s' : Xseg} {p k cur dst : xport} {port port' : Port} {q : Xq} {x : xptr}
  {l : List xport} {rest : List xptr}

structure Changes (s s' : Xseg) (p : xport) (port : Port) : Prop where
  nr : s'.nrPorts = s.nrPorts
  next : s'.pathNext = s.pathNext
  list : s'.requestH = s.requestH
  port : s'.getPort p = some port
  others : ∀ {q}, q ≠ p → s'.getPort q = s.getPort q
  sources : ∀ y, (s'.requests y).srcPortno = (s.requests y).srcPortno

theorem changes_setPort (h : s.getPort p = some port) (port' : Port) :
    Changes s (s.setPort p port') p port' where
  nr := rfl
  next := rfl
  list := rfl
  port := by simp [getPort_setPort h]
  others hq := by simp [getPort_setPort h, hq]
  sources _ := rfl

theorem Sized.setQueue (h : s.Sized) (hport : s.getPort p = some port) (kind : QueueKind)
    (hq : q.size.toNat < 2 ^ 31) : (s.setPort p (port.setQueue kind q)).Sized := by
  intro p' port' hport' kind'
  rw [getPort_setPort hport] at hport'
  split at hport'
  · obtain rfl := Option.some.inj hport'
    by_cases hkind : kind' = kind
    · rw [hkind, Port.queue_setQueue]
      exact hq
    · rw [Port.queue_setQueue_of_ne port hkind]
      exact h hport kind'
  · exact h hport' kind'

theorem Changes.sized {kind : QueueKind} (hch : Changes s s' p (port.setQueue kind q))
    (h : s.Sized) (hport : s.getPort p = some port) (hq : q.size.toNat < 2 ^ 31) : s'.Sized := by
  intro p' port' hport' kind'
  have hset : (s.setPort p (port.setQueue kind q)).Sized := h.setQueue hport kind hq
  refine hset (p := p') ?_ kind'
  rw [getPort_setPort hport]
  split
  · rename_i hp
    rw [← hport', hp, hch.port]
  · rename_i hp
    rw [← hport', hch.others hp]

theorem setRequest_source {req : Request} (h : req.srcPortno = (s.requests x).srcPortno)
    (y : xptr) : ((s.setRequest x req).requests y).srcPortno = (s.requests y).srcPortno := by
  by_cases hy : y = x
  · rw [hy, requests_setRequest, h]
  · rw [requests_setRequest_of_ne hy]

theorem Changes.setRequest (h : Changes s s' p port) {req : Request}
    (hreq : req.srcPortno = (s'.requests x).srcPortno) :
    Changes s (s'.setRequest x req) p port where
  nr := h.nr
  next := h.next
  list := h.list
  port := h.port
  others := h.others
  sources y := (setRequest_source hreq y).trans (h.sources y)

theorem Changes.of_setRequest {req : Request} (h : Changes (s.setRequest x req) s' p port)
    (hreq : req.srcPortno = (s.requests x).srcPortno) : Changes s s' p port where
  nr := h.nr
  next := h.next
  list := h.list
  port := h.port
  others := h.others
  sources y := (h.sources y).trans (setRequest_source hreq y)

theorem setPort_self (h : s.getPort p = some port) (kind : QueueKind) :
    s.setPort p (port.setQueue kind (port.queue kind)) = s := by
  have hports : s.ports p = some port := by
    have hv : s.validatePort p := getPort_lt h
    rwa [getPort, if_pos hv] at h
  have hsame : port.setQueue kind (port.queue kind) = port := by
    simp [Port.setQueue]
  rw [hsame, setPort, ← hports, Function.update_eq_self]

structure Holding (q : Xq) (l : List xptr) : Prop where
  repr : q.Repr l
  size : q.size = 256

theorem Holding.appendTail {l : List xptr} (h : Holding q l) (hroom : l.length < 256) (x : xptr) :
    Holding (q.appendTail x).2 (l ++ [x]) := by
  have hw : l.length < window q.size := by
    rw [h.size]
    exact hroom
  obtain ⟨q', happ, hr, hs⟩ := h.repr.appendTail hw x
  rw [happ]
  exact ⟨hr, hs.trans h.size⟩

theorem Holding.append [Builtins] (h : Holding q []) (hx : x ≠ Noneidx) (flags : UInt32) :
    ∃ q', appendGrowing q x flags none = (x, q') ∧ Holding q' [x] := by
  have hw : 0 < window q.size := by
    rw [h.size]
    decide
  obtain ⟨q', happ, hr, hs⟩ := h.repr.appendTail hw x
  exact ⟨q', by simp [appendGrowing, happ, hx], hr, hs.trans h.size⟩

theorem Holding.pop (h : Holding q [x]) : ∃ q', q.popHead = (x, q') ∧ Holding q' [] := by
  obtain ⟨q', hpop, hr, hs⟩ := h.repr.popHead
  exact ⟨q', hpop, hr, hs.trans h.size⟩

theorem obtain_reaches [Builtins] {flags : UInt32} {mem : Option (xptr × UInt64)} {h' : XobjectH}
    (hport : s.getPort k = some port) (hlt : port.allocReqs < port.maxAllocReqs)
    (hobj : s.requestH.getObj (flags &&& X_ALLOC) mem = (some x, h')) (hdst : s.validatePort dst) :
    ∃ s1 s', s.getAlloc k port flags mem = (some x, s1) ∧ s1.getDone x k dst = (true, s') ∧
      s'.nrPorts = s.nrPorts ∧ s'.pathNext = s.pathNext ∧ s'.requestH = h' ∧
      s'.getPort k = some { port with allocReqs := port.allocReqs + 1 } ∧
      (∀ {q}, q ≠ k → s'.getPort q = s.getPort q) ∧
      Tracks (s'.requests x) [] k ∧ (s'.requests x).effectiveDstPortno = dst := by
  let s1 : Xseg :=
    { s with requestH := h' }.setPort k { port with allocReqs := port.allocReqs + 1 }
  have hk : s1.validatePort k := (getPort_lt hport : k < s.nrPorts)
  have hd : s1.validatePort dst := hdst
  have hport1 : Xseg.getPort { s with requestH := h' } k = some port := hport
  have hch := changes_setPort hport1 { port with allocReqs := port.allocReqs + 1 }
  have halloc : s.getAlloc k port flags mem = (some x, s1) := by
    simp only [getAlloc, if_pos hlt, hobj]
    rfl
  obtain ⟨req, hdone, htracks, heff⟩ := getDone_valid hk hd x
  refine ⟨s1, _, halloc, hdone, rfl, rfl, rfl, hch.port, fun hq => hch.others hq, ?_⟩
  rw [requests_setRequest]
  exact ⟨htracks, heff⟩

theorem get_reaches [Builtins] (hport : s.getPort k = some port)
    (hlt : port.allocReqs < port.maxAllocReqs) (hlist : s.requestH.list = x :: rest)
    (hdst : s.validatePort dst) :
    ∃ s1 s', s.getAlloc k port 0 none = (some x, s1) ∧ s1.getDone x k dst = (true, s') ∧
      s'.nrPorts = s.nrPorts ∧ s'.pathNext = s.pathNext ∧ s'.requestH.list = rest ∧
      s'.getPort k = some { port with allocReqs := port.allocReqs + 1 } ∧
      (∀ {q}, q ≠ k → s'.getPort q = s.getPort q) ∧
      Tracks (s'.requests x) [] k ∧ (s'.requests x).effectiveDstPortno = dst := by
  have hobj : s.requestH.getObj (0 &&& X_ALLOC) none =
      (some x, { s.requestH with list := rest, nrFree := s.requestH.nrFree - 1 }) := by
    simp only [XobjectH.getObj, hlist, XobjectH.popObj_cons hlist]
  obtain ⟨s1, s', halloc, hdone, hnr, hnext, hobjs, hrest⟩ := obtain_reaches hport hlt hobj hdst
  exact ⟨s1, s', halloc, hdone, hnr, hnext, by rw [hobjs], hrest⟩

theorem submit_reaches [Builtins] (hx : x ≠ Noneidx) (ht : Tracks (s.requests x) l cur)
    (hdst : (s.requests x).effectiveDstPortno = dst) (hcur : s.validatePort cur)
    (hcd : cur ≠ dst) (hnext : s.pathNext cur = NoPort) (hport : s.getPort dst = some port)
    (hflags : port.flags ≠ 0) (hq : Holding (port.queue .request) []) (hlen : l.length < 32)
    (portno : xport) (flags : UInt32) :
    ∃ s' q', s.submit x portno flags none 1 = some (dst, s') ∧
      Changes s s' dst (port.setQueue .request q') ∧ Holding q' [x] ∧
      Tracks (s'.requests x) (cur :: l) cur := by
  obtain ⟨path', hpush, hpath'⟩ := ht.path.push_of_lt hlen cur
  obtain ⟨q', happ, hq'⟩ := hq.append hx flags
  have hport' : (s.setPath x path').getPort dst = some port := hport
  refine ⟨(s.setPath x path').setPort dst (port.setQueue .request q'), q', ?_, ?_, hq', ?_⟩
  · have hv : s.validatePort dst := getPort_lt hport
    have hacc : ¬ cNot port.flags &&& CAN_ACCEPT ≠ 0 := by
      rw [cNot, if_neg hflags]
      decide
    have hdisc : s.discover dst 1 cur = some (some (dst, port)) := by
      simp only [discover, if_neg hcd, hnext, ne_eq, not_true, if_false, hport, if_neg hacc]
    simp only [submit, ht.transit, hdst, hcur, hv, not_true, if_false, hdisc, deliver, hpush,
      if_neg (PathIs.toUInt64_ne_noneidx cur), appendQueue, happ, if_neg hx]
  · exact (changes_setPort hport' (port.setQueue .request q')).of_setRequest rfl
  · have hreq : ((s.setPath x path').setPort dst (port.setQueue .request q')).requests x =
        { s.requests x with path := path' } := requests_setRequest _ _ _
    rw [hreq]
    exact ⟨hpath', ht.transit⟩

theorem forward_reaches [Builtins] (dst : xport) (hx : x ≠ Noneidx)
    (ht : Tracks (s.requests x) l cur) (hcur : s.validatePort cur) (hcd : cur ≠ dst)
    (hnext : s.pathNext cur = NoPort) (hport : s.getPort dst = some port) (hflags : port.flags ≠ 0)
    (hq : Holding (port.queue .request) []) (hlen : l.length < 32) (portno : xport) :
    ∃ s' q', s.forward x dst portno 0 none 1 = some (dst, s') ∧
      Changes s s' dst (port.setQueue .request q') ∧ Holding q' [x] ∧
      Tracks (s'.requests x) (cur :: l) cur := by
  have hv : s.validatePort dst := getPort_lt hport
  obtain ⟨s', q', hsub, hch, hq', ht'⟩ := submit_reaches
    (s := s.setRequest x { s.requests x with effectiveDstPortno := dst }) hx
    (by rw [requests_setRequest]; exact ⟨ht.path, ht.transit⟩)
    (by rw [requests_setRequest]) hcur hcd hnext hport hflags hq hlen portno 0
  refine ⟨s', q', ?_, hch.of_setRequest rfl, hq', ht'⟩
  simp only [forward, hv, not_true, if_false, hsub]

theorem accept_reaches (hx : x ≠ Noneidx) (ht : Tracks (s.requests x) l cur)
    (hport : s.getPort p = some port) (hq : Holding (port.queue .request) [x]) :
    ∃ s' q', s.accept p = (some x, s') ∧ Changes s s' p (port.setQueue .request q') ∧
      Holding q' [] ∧ Tracks (s'.requests x) l p := by
  obtain ⟨q', hpop, hq'⟩ := hq.pop
  refine ⟨(s.setPort p (port.setQueue .request q')).setRequest x
    { s.requests x with transitPortno := p }, q', ?_, ?_, hq', ?_⟩
  · simp only [accept, hport, hpop, if_neg hx]
    rfl
  · exact (changes_setPort hport _).setRequest rfl
  · rw [requests_setRequest]
    exact ⟨ht.path, rfl⟩

theorem respondTo_reaches (ht : Tracks (s.requests x) (p :: l) cur)
    (hport : s.getPort p = some port) (hflags : port.flags = 3) :
    s.respondTo (s.requests x).path = (some (p, port), (s.requests x).path) := by
  have hrec : ¬ port.flags &&& CAN_RECEIVE = 0 := by
    rw [hflags]
    decide
  rw [respondTo, ht.path.peek, if_neg (PathIs.toUInt64_ne_noneidx p)]
  simp only [UInt32.toUInt32_toUInt64, hport, if_neg hrec]

/-- A request goes to the reply queue of the port on top of its path, which receives. -/
theorem respond_reaches [Builtins] (ht : Tracks (s.requests x) (p :: l) cur)
    (hport : s.getPort p = some port) (hflags : port.flags = 3) {flags : UInt32}
    {chunk : QueueChunk} {q' : Xq}
    (happ : appendGrowing (port.queue .reply) x flags chunk = (x, q')) (hx : x ≠ Noneidx)
    (portno : xport) :
    ∃ s', s.respond x portno flags chunk = (p, s') ∧ Changes s s' p (port.setQueue .reply q') ∧
      Tracks (s'.requests x) (p :: l) cur := by
  have hto := respondTo_reaches ht hport hflags
  have hport' : (s.setPath x (s.requests x).path).getPort p = some port := hport
  refine ⟨(s.setPath x (s.requests x).path).setPort p (port.setQueue .reply q'), ?_, ?_, ?_⟩
  · simp only [respond, hto, appendQueue, happ, if_neg hx]
  · exact (changes_setPort hport' (port.setQueue .reply q')).of_setRequest rfl
  · have hreq : ((s.setPath x (s.requests x).path).setPort p
        (port.setQueue .reply q')).requests x = s.requests x := requests_setRequest _ _ _
    rw [hreq]
    exact ht

/-- A reply that waits at port `p` is received, and `p` comes off its path. -/
theorem receive_reaches (hx : x ≠ Noneidx) (ht : Tracks (s.requests x) (p :: l) cur)
    (hport : s.getPort p = some port) (hq : Holding (port.queue .reply) [x]) :
    ∃ s' q', s.receive p = (.request x, s') ∧ Changes s s' p (port.setQueue .reply q') ∧
      Holding q' [] ∧ Tracks (s'.requests x) l cur := by
  obtain ⟨q', hpop, hq'⟩ := hq.pop
  obtain ⟨path', hpath, hpath'⟩ := ht.path.pop
  refine ⟨(s.setPort p (port.setQueue .reply q')).setPath x path', q', ?_, ?_, hq', ?_⟩
  · have hreq : (s.setPort p (port.setQueue .reply q')).requests = s.requests := rfl
    simp only [receive, hport, hpop, if_neg hx, hreq, hpath,
      if_neg (PathIs.toUInt64_ne_noneidx p)]
  · exact (changes_setPort hport _).setRequest rfl
  · rw [setPath, requests_setRequest]
    exact ⟨hpath', ht.transit⟩

/-- A request is put back into the empty free queue of its source port. -/
theorem put_reaches [Builtins] (hsrc : (s.requests x).srcPortno = p)
    (hport : s.getPort p = some port) (hq : Holding (port.queue .free) []) :
    ∃ s', s.putFree x = some (p, x, s') := by
  have hroom : 0 < window (port.queue .free).size := by
    rw [hq.size]
    decide
  obtain ⟨q', happ, -, -⟩ := hq.repr.appendHead hroom x
  simp only [putFree, hsrc, hport, happ]
  exact ⟨_, rfl⟩

end Xseg

section Steps
variable {ι : Type} [DecidableEq ι] [Builtins] {w : World ι} {i : ι} {hands : List xptr}
  {s : Xseg} {p k dst portno : xport} {port : Port} {x : xptr}

theorem miss_step {flags : UInt32} (hlocal : flags &&& X_LOCAL = 0)
    (hp : w.peers i = ⟨hands, .idle⟩) (hport : w.seg.getPort k = some port)
    (hfree : (port.queue .free).Repr []) (dst : xport) :
    w.Step (i, .miss k dst flags) (w.act i ⟨hands, .getting k dst flags⟩ w.seg) := by
  have hget : w.seg.getFree k port = (Noneidx, w.seg) := by
    simp only [getFree, hfree.popHead_nil, setPort_self hport]
  have hm : w.Misses i k dst flags (.getting k dst flags) w.seg := by
    have hm : w.Misses i k dst flags _ w.seg := .free (by rw [hp]) hport hget
    rwa [if_neg (not_not_intro hlocal)] at hm
  have hstep := World.Step.miss hm
  rwa [hp] at hstep

theorem got_step {flags : UInt32} {mem : Option (xptr × UInt64)}
    (hp : w.peers i = ⟨hands, .getting k dst flags⟩) (hport : w.seg.getPort k = some port)
    (hmem : ∀ c, mem = some c → w.seg.requestH.HeapChunk c) {s1 : Xseg}
    (halloc : w.seg.getAlloc k port flags mem = (some x, s1))
    (hdone : s1.getDone x k dst = (true, s)) :
    w.Step (i, .got k dst flags x) (w.act i ⟨x :: hands, .idle⟩ s) := by
  have ho : w.Obtains i k dst flags x s1 := .alloc (by rw [hp]) hport hmem halloc
  have hstep := World.Step.got ho hdone
  rwa [hp] at hstep

theorem submit_step {flags : UInt32} (portno : xport) (hp : w.peers i = ⟨hands, .idle⟩)
    (hx : x ∈ hands) (hdst : dst ≠ NoPort)
    (h : w.seg.submit x portno flags none 1 = some (dst, s)) :
    w.Step (i, .submit x portno flags dst) (w.act i ⟨hands.erase x, .idle⟩ s) := by
  have hstep := World.Step.submit (i := i) (by rw [hp]) (by rw [hp]; exact hx) (.none _ _ _) h
  rwa [World.after, if_neg hdst, hp] at hstep

theorem forward_step (portno : xport) (hp : w.peers i = ⟨hands, .idle⟩) (hx : x ∈ hands)
    (hdst : dst ≠ NoPort)
    {newDst : xport} (h : w.seg.forward x newDst portno 0 none 1 = some (dst, s)) :
    w.Step (i, .forward x newDst portno 0 dst) (w.act i ⟨hands.erase x, .idle⟩ s) := by
  have hstep := World.Step.forward (i := i) (by rw [hp]) (by rw [hp]; exact hx) (.none _ _ _) h
  rwa [World.after, if_neg hdst, hp] at hstep

theorem accept_step (hp : w.peers i = ⟨hands, .idle⟩) (h : w.seg.accept p = (some x, s)) :
    w.Step (i, .accept p 0 (some x)) (w.act i ⟨x :: hands, .idle⟩ s) := by
  have hstep : w.Step (i, .accept p 0 (some x)) _ := .accept (by rw [hp]) h
  rwa [hp] at hstep

theorem fill_step (hp : w.peers i = ⟨hands, .idle⟩) (hx : x ∈ hands) :
    w.Step (i, .fill x) (w.act i ⟨hands, .idle⟩ w.seg) := by
  have hself : w.seg.setRequest x (w.seg.requests x) = w.seg := by
    rw [setRequest, Function.update_eq_self]
  have hstep := World.Step.fill (i := i) (w.seg.requests x).toPayload (by rw [hp])
    (show x ∈ (w.peers i).hands by rw [hp]; exact hx)
  rw [hp] at hstep
  exact (congrArg (w.act i ⟨hands, .idle⟩) hself) ▸ hstep

theorem put_step (hp : w.peers i = ⟨hands, .idle⟩) (hx : x ∈ hands) (hne : x ≠ Noneidx)
    (h : w.seg.putFree x = some (p, x, s)) :
    w.Step (i, .put x) (w.act i ⟨hands.erase x, .idle⟩ s) := by
  have hg : (w.peers i).Gives x ⟨hands.erase x, .idle⟩ := by
    rw [hp]
    exact .held rfl hx
  exact .put hg h hne

theorem respond_step {flags : UInt32} {chunk : QueueChunk} (portno : xport)
    (hp : w.peers i = ⟨hands, .idle⟩) (hx : x ∈ hands) (hdst : dst ≠ NoPort)
    (hchunk : w.seg.DoubledReply x chunk) (h : w.seg.respond x portno flags chunk = (dst, s)) :
    w.Step (i, .respond x portno flags dst) (w.act i ⟨hands.erase x, .idle⟩ s) := by
  have hstep := World.Step.respond (i := i) (by rw [hp]) (by rw [hp]; exact hx) hchunk h
  rwa [World.after, if_neg hdst, hp] at hstep

theorem receive_step (hp : w.peers i = ⟨hands, .idle⟩) (h : w.seg.receive p = (.request x, s)) :
    w.Step (i, .receive p 0 (some x)) (w.act i ⟨x :: hands, .idle⟩ s) := by
  have hstep : w.Step (i, .receive p 0 (some x)) _ := .receive (by rw [hp]; exact .inl rfl) h
  rwa [hp] at hstep

end Steps

def blankRequest : Request where
  buffer := 0
  bufferlen := 0
  target := 0
  data := 0
  datalen := 0
  targetlen := 0
  state := 0
  elapsed := 0
  tvSec := 0
  tvUsec := 0
  flags := 0
  serviced := 0
  v0Size := 0
  srcPortno := 0
  transitPortno := 0
  dstPortno := 0
  effectiveDstPortno := 0
  path := ⟨1, 0, 0, fun _ => 0⟩

def madePort [Builtins] : Port where
  queue _ := Xq.initEmpty 256 fun _ => 0
  maxAllocReqs := 1024
  allocReqs := 0
  flags := 3

def madeWith [Builtins] (nr : UInt32) (requestH : XobjectH) : Xseg where
  nrPorts := nr
  ports _ := some madePort
  pathNext _ := NoPort
  requestH := requestH
  requests _ := blankRequest
  reqCnt := 0
  avgReqLat := 0

def madeSeg [Builtins] (nr : UInt32) (bytes : UInt64) : Xseg :=
  madeWith nr
    { objSize := 512
      allocated := [(4096, bytes)]
      nrAllocated := bytes / 512
      allocatedSpace := bytes
      list := carve 512 bytes.toNat 4096 0
      nrFree := bytes / 512 }

section Made
variable [Builtins] {nr : UInt32} {bytes : UInt64} {p : xport} {requestH : XobjectH}

theorem madeWith_getPort (hp : p < nr) : (madeWith nr requestH).getPort p = some madePort :=
  if_pos hp

theorem madeWith_start {ι : Type} (hwf : requestH.Wf)
    (hlist : requestH.list.Perm requestH.objects) :
    Start (⟨madeWith nr requestH, fun _ => ⟨[], .idle⟩⟩ : World ι) where
  peers _ := rfl
  queues := by
    intro p port hport kind
    have hp : p < nr := getPort_lt hport
    rw [madeWith_getPort hp] at hport
    obtain rfl := Option.some.inj hport
    exact ⟨_, _, rfl⟩
  handler := hwf
  list := hlist

theorem madeSeg_getPort (hp : p < nr) : (madeSeg nr bytes).getPort p = some madePort := if_pos hp

theorem madeSeg_objects :
    (madeSeg nr bytes).requestH.objects = carve 512 bytes.toNat 4096 0 := by
  simp [XobjectH.objects, XobjectH.chunkObjects, madeSeg, madeWith]

theorem madeSeg_wf (hb : 4096 + bytes.toNat < 2 ^ 64) : (madeSeg nr bytes).requestH.Wf where
  size := show 0 < (512 : UInt64).toNat by decide
  bound := by
    intro c hc
    obtain rfl := List.mem_singleton.mp hc
    exact hb
  apart := List.pairwise_singleton _ _

theorem madeSeg_start {ι : Type} (hb : 4096 + bytes.toNat < 2 ^ 64) :
    Start (⟨madeSeg nr bytes, fun _ => ⟨[], .idle⟩⟩ : World ι) := by
  have hwf : (madeSeg nr bytes).requestH.Wf := madeSeg_wf hb
  apply madeWith_start hwf
  have hobjects : (madeSeg nr bytes).requestH.objects = (madeSeg nr bytes).requestH.list :=
    madeSeg_objects
  exact hobjects.symm ▸ List.Perm.refl (madeSeg nr bytes).requestH.list

theorem madePort_holding (kind : QueueKind) : Xseg.Holding (madePort.queue kind) [] :=
  ⟨Xq.repr_initEmpty 256 _, show snap 256 = 256 from snap_two_pow (k := 8) (by decide) (by decide)⟩

end Made

theorem madeSeg_list [Builtins] {nr : UInt32} :
    (madeSeg nr 1024).requestH.list = [4096] := by
  have h1 : carve 512 1024 4096 512 = [] := by
    rw [carve]
    exact if_neg (by decide)
  have h0 : carve 512 1024 4096 0 = [4096] := by
    rw [carve, if_pos (by decide), h1]
    rfl
  exact h0

def solo (s : Xseg) (hands : List xptr) (pc : Pc) : World Unit := ⟨s, fun _ => ⟨hands, pc⟩⟩

theorem act_solo (w : World Unit) (hands : List xptr) (pc : Pc) (s : Xseg) :
    w.act () ⟨hands, pc⟩ s = solo s hands pc := by
  have : Function.update w.peers () ⟨hands, pc⟩ = fun _ => ⟨hands, pc⟩ := by
    funext u
    cases u
    simp
  rw [World.act, this]
  rfl

/-- A world of two peers; the peer `false` works for port 0 and the peer `true` for port 1. -/
def duo (s : Xseg) (peer0 peer1 : Peer) : World Bool := ⟨s, fun i => if i then peer1 else peer0⟩

theorem act_duo_false (s s' : Xseg) (peer0 peer1 peer : Peer) :
    (duo s peer0 peer1).act false peer s' = duo s' peer peer1 := by
  unfold World.act duo
  congr 1
  funext i
  cases i <;> simp

theorem act_duo_true (s s' : Xseg) (peer0 peer1 peer : Peer) :
    (duo s peer0 peer1).act true peer s' = duo s' peer0 peer := by
  unfold World.act duo
  congr 1
  funext i
  cases i <;> simp

theorem duo_idle (s : Xseg) (peer : Peer) : duo s peer peer = ⟨s, fun _ => peer⟩ := by
  unfold duo
  congr 1
  funext i
  cases i <;> rfl

theorem madeSeg_sized [Builtins] {nr : UInt32} {bytes : UInt64} : (madeSeg nr bytes).Sized := by
  intro p port hport kind
  have hp : p < nr := getPort_lt hport
  rw [madeSeg_getPort hp] at hport
  obtain rfl := Option.some.inj hport
  rw [(madePort_holding kind).size]
  decide

/-- The calls by which port 0 of a new segment gets a request and submits it to port 1. -/
theorem submitted_calls [Builtins] (flags : UInt32) {s0 : Xseg} (hs0 : s0 = madeSeg 4 1024) :
    ∃ s1 s2 s3 q, s0.getAlloc 0 madePort flags none = (some 4096, s1) ∧
      s1.getDone 4096 0 1 = (true, s2) ∧ s2.submit 4096 0 flags none 1 = some (1, s3) ∧
      s2.pathNext = s0.pathNext ∧ s2.getPort 0 = some { madePort with allocReqs := 0 + 1 } ∧
      (∀ {p}, p ≠ 0 → s2.getPort p = s0.getPort p) ∧
      Changes s2 s3 1 (madePort.setQueue .request q) ∧ Holding q [4096] ∧
      Tracks (s3.requests 4096) [0] 0 := by
  have hlist : s0.requestH.list = [4096] := by rw [hs0]; exact madeSeg_list
  have h0 : s0.getPort 0 = some madePort := by rw [hs0]; exact madeSeg_getPort (by decide)
  have h1 : s0.getPort 1 = some madePort := by rw [hs0]; exact madeSeg_getPort (by decide)
  have hnext : s0.pathNext = fun _ => NoPort := by rw [hs0]; rfl
  have hobj : s0.requestH.getObj (flags &&& X_ALLOC) none =
      (some 4096, { s0.requestH with list := [], nrFree := s0.requestH.nrFree - 1 }) := by
    simp only [XobjectH.getObj, hlist, XobjectH.popObj_cons hlist]
  obtain ⟨s1, s2, hget, hdone, -, hnext2, -, hk2, hother2, ht2, he2⟩ :=
    obtain_reaches h0 (show (0 : UInt64) < 1024 by decide) hobj (getPort_lt h1)
  obtain ⟨s3, q, hsub, hch, hq, ht3⟩ := submit_reaches (by decide) ht2 he2 (getPort_lt hk2)
    (by decide) (by rw [hnext2, hnext]) ((hother2 (by decide)).trans h1) (by simp [madePort])
    (madePort_holding _) (by decide) 0 flags
  exact ⟨s1, s2, s3, q, hget, hdone, hsub, hnext2, hk2, hother2, hch, hq, ht3⟩

theorem sized_of_others [Builtins] {s0 s2 : Xseg} {port : Port} (hs0 : s0 = madeSeg 4 1024)
    (hport : s2.getPort 0 = some port) (hqueue : port.queue = madePort.queue)
    (hothers : ∀ {p}, p ≠ 0 → s2.getPort p = s0.getPort p) : s2.Sized := by
  intro p port' hport' kind
  rcases eq_or_ne p 0 with rfl | hp
  · obtain rfl := Option.some.inj (hport.symm.trans hport')
    rw [hqueue, (madePort_holding kind).size]
    decide
  · rw [hothers hp, hs0] at hport'
    exact madeSeg_sized hport' kind

/-- Port 0 of a new segment gets a request and submits it to port 1. -/
theorem first_steps [Builtins] {s0 : Xseg} (hs0 : s0 = madeSeg 4 1024) :
    ∃ s2 s3, World.Step (solo s0 [] .idle) ((), .miss 0 1 0) (solo s0 [] (.getting 0 1 0)) ∧
      World.Step (solo s0 [] (.getting 0 1 0)) ((), .got 0 1 0 4096) (solo s2 [4096] .idle) ∧
      World.Step (solo s2 [4096] .idle) ((), .submit 4096 0 0 1) (solo s3 [] .idle) ∧
      s0.Sized ∧ s2.Sized ∧ (s0.getPort 0).isSome ∧ (s0.getPort 1).isSome := by
  have h0 : s0.getPort 0 = some madePort := by rw [hs0]; exact madeSeg_getPort (by decide)
  have h1 : s0.getPort 1 = some madePort := by rw [hs0]; exact madeSeg_getPort (by decide)
  obtain ⟨s1, s2, s3, q, hget, hdone, hsub, -, hk2, hother2, -⟩ := submitted_calls 0 hs0
  have step1 := miss_step (w := solo s0 [] .idle) (i := ())
    (show (0 : UInt32) &&& X_LOCAL = 0 by decide) rfl h0 (madePort_holding .free).repr 1
  have step2 := got_step (w := solo s0 [] (.getting 0 1 0)) (i := ()) rfl h0 (by simp) hget hdone
  have step3 := submit_step (w := solo s2 [4096] .idle) (i := ()) 0 rfl
    (List.mem_singleton_self _) (by decide) hsub
  rw [act_solo] at step1 step2 step3
  refine ⟨s2, s3, step1, step2, by simpa using step3, ?_, sized_of_others hs0 hk2 rfl hother2,
    by simp [h0], by simp [h1]⟩
  rw [hs0]
  exact madeSeg_sized

/-- Peer `false` gets a request at port 0 of a new segment and submits it to port 1, where peer
`true` accepts it and responds; peer `false` receives it back. -/
structure Returned [Builtins] (flags : UInt32) (s0 s2 s3 s4 s5 s6 : Xseg) : Prop where
  miss : World.Step (duo s0 ⟨[], .idle⟩ ⟨[], .idle⟩) (false, .miss 0 1 flags)
    (duo s0 ⟨[], .getting 0 1 flags⟩ ⟨[], .idle⟩)
  got : World.Step (duo s0 ⟨[], .getting 0 1 flags⟩ ⟨[], .idle⟩) (false, .got 0 1 flags 4096)
    (duo s2 ⟨[4096], .idle⟩ ⟨[], .idle⟩)
  submit : World.Step (duo s2 ⟨[4096], .idle⟩ ⟨[], .idle⟩) (false, .submit 4096 0 flags 1)
    (duo s3 ⟨[], .idle⟩ ⟨[], .idle⟩)
  accept : World.Step (duo s3 ⟨[], .idle⟩ ⟨[], .idle⟩) (true, .accept 1 0 (some 4096))
    (duo s4 ⟨[], .idle⟩ ⟨[4096], .idle⟩)
  respond : World.Step (duo s4 ⟨[], .idle⟩ ⟨[4096], .idle⟩) (true, .respond 4096 1 0 0)
    (duo s5 ⟨[], .idle⟩ ⟨[], .idle⟩)
  receive : World.Step (duo s5 ⟨[], .idle⟩ ⟨[], .idle⟩) (false, .receive 0 0 (some 4096))
    (duo s6 ⟨[4096], .idle⟩ ⟨[], .idle⟩)
  sized : s2.Sized ∧ s3.Sized ∧ s4.Sized ∧ s5.Sized ∧ s6.Sized
  next : s6.pathNext = s0.pathNext
  tracks : Tracks (s6.requests 4096) [] 1
  source : ∃ s1 : Xseg, s1.getDone 4096 0 1 = (true, s2) ∧
    (s6.requests 4096).srcPortno = (s2.requests 4096).srcPortno
  home : ∃ port, s6.getPort 0 = some port ∧ Holding (port.queue .free) []
  server : (s6.getPort 1).isSome
  others : ∀ {p}, p ≠ 0 → p ≠ 1 → s6.getPort p = s0.getPort p

theorem returned_steps [Builtins] {flags : UInt32} (hlocal : flags &&& X_LOCAL = 0) {s0 : Xseg}
    (hs0 : s0 = madeSeg 4 1024) : ∃ s2 s3 s4 s5 s6, Returned flags s0 s2 s3 s4 s5 s6 := by
  have h0 : s0.getPort 0 = some madePort := by rw [hs0]; exact madeSeg_getPort (by decide)
  have h1 : s0.getPort 1 = some madePort := by rw [hs0]; exact madeSeg_getPort (by decide)
  have hx : (4096 : xptr) ≠ Noneidx := by decide
  have hsmall {q : Xq} {l : List xptr} (hq : Holding q l) : q.size.toNat < 2 ^ 31 := by
    rw [hq.size]
    decide
  obtain ⟨s1, s2, s3, q3, hget, hdone, hsub, hnext2, hk2, hother2, hch3, hq3, ht3⟩ :=
    submitted_calls flags hs0
  have hsized2 : s2.Sized := sized_of_others hs0 hk2 rfl hother2
  have hsized3 : s3.Sized := hch3.sized hsized2 ((hother2 (by decide)).trans h1) (hsmall hq3)
  obtain ⟨s4, q4, hacc, hch4, hq4, ht4⟩ :=
    accept_reaches hx ht3 hch3.port (by simpa using hq3)
  have hsized4 : s4.Sized := hch4.sized hsized3 hch3.port (hsmall hq4)
  have h04 : s4.getPort 0 = some { madePort with allocReqs := 0 + 1 } :=
    (hch4.others (by decide)).trans ((hch3.others (by decide)).trans hk2)
  obtain ⟨q5, happ, hq5⟩ := (madePort_holding .reply).append hx 0
  obtain ⟨s5, hresp, hch5, ht5⟩ := respond_reaches ht4 h04 rfl happ hx 1
  have hsized5 : s5.Sized := hch5.sized hsized4 h04 (hsmall hq5)
  obtain ⟨s6, q6, hrec, hch6, hq6, ht6⟩ :=
    receive_reaches hx ht5 hch5.port (by rw [Port.queue_setQueue]; exact hq5)
  have hsized6 : s6.Sized := hch6.sized hsized5 hch5.port (hsmall hq6)
  have hone : [(4096 : xptr)].erase 4096 = [] := by simp
  have hmem : (4096 : xptr) ∈ [(4096 : xptr)] := List.mem_singleton_self _
  have step1 := miss_step (w := duo s0 ⟨[], .idle⟩ ⟨[], .idle⟩) (i := false) hlocal rfl h0
    (madePort_holding .free).repr 1
  have step2 := got_step (w := duo s0 ⟨[], .getting 0 1 flags⟩ ⟨[], .idle⟩) (i := false) rfl h0
    (by simp) hget hdone
  have step3 := submit_step (w := duo s2 ⟨[4096], .idle⟩ ⟨[], .idle⟩) (i := false) 0 rfl hmem
    (by decide) hsub
  have step4 := accept_step (w := duo s3 ⟨[], .idle⟩ ⟨[], .idle⟩) (i := true) rfl hacc
  have step5 := respond_step (w := duo s4 ⟨[], .idle⟩ ⟨[4096], .idle⟩) (i := true) 1 rfl hmem
    (by decide) (.none _ _) hresp
  have step6 := receive_step (w := duo s5 ⟨[], .idle⟩ ⟨[], .idle⟩) (i := false) rfl hrec
  rw [act_duo_false] at step1 step2 step3 step6
  rw [act_duo_true] at step4 step5
  rw [hone] at step3 step5
  refine ⟨s2, s3, s4, s5, s6, step1, step2, step3, step4, step5, step6,
    ⟨hsized2, hsized3, hsized4, hsized5, hsized6⟩, ?_, ht6, ⟨s1, hdone, ?_⟩,
    ⟨_, hch6.port, madePort_holding .free⟩, ?_, fun hp hp' => ?_⟩
  · rw [hch6.next, hch5.next, hch4.next, hch3.next, hnext2]
  · rw [hch6.sources, hch5.sources, hch4.sources, hch3.sources]
  · rw [hch6.others (by decide), hch5.others (by decide), hch4.port]
    rfl
  · rw [hch6.others hp, hch5.others hp, hch4.others hp', hch3.others hp', hother2 hp]

end Libxseg
