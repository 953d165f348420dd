import Mathlib.Data.Multiset.AddSub
import Libxseg.Xseg

/-!
# What the sections of the request operations do

`bag s p kind` is what lies in a queue of a port. Each section has one lemma that
says which bag gains or loses a request, what becomes of the path of that
request, and that nothing else changes. The capacities are those `__snap`
computes correctly: `Sized`.
-/

namespace Libxseg

set_option autoImplicit false

/-- The path of a request holds the ports `l`, the last one submitted first. -/
structure PathIs (path : Xq) (l : List xport) : Prop where
  repr : path.Repr (l.map UInt32.toUInt64)
  size : path.size = MAX_PATH_LEN

namespace PathIs
variable {path : Xq} {l : List xport} {p : xport}

theorem toUInt64_ne_noneidx (p : xport) : p.toUInt64 ≠ Noneidx := by
  intro h
  have hlt := p.toNat_lt
  have := congrArg UInt64.toNat h
  rw [UInt32.toNat_toUInt64] at this
  have hn : Noneidx.toNat = 2 ^ 64 - 1 := by decide
  omega

theorem emptyPath [Builtins] (req : Request) : PathIs (Xseg.emptyPath req).path [] where
  repr := Xq.repr_initEmpty _ _
  size := by
    have hlen : MAX_PATH_LEN.toNat = 2 ^ 5 := by decide
    exact snap_two_pow (by decide) hlen

theorem window_eq (h : PathIs path l) : window path.size = 32 := by
  rw [h.size]
  decide

theorem pop (h : PathIs path (p :: l)) :
    ∃ path', path.popHead = (p.toUInt64, path') ∧ PathIs path' l := by
  obtain ⟨path', hpop, hr, hs⟩ := h.repr.popHead
  exact ⟨path', hpop, hr, hs.trans h.size⟩

theorem peek (h : PathIs path (p :: l)) : path.peekHead = p.toUInt64 := h.repr.peekHead

theorem peek_nil (h : PathIs path []) : path.peekHead = Noneidx := h.repr.peekHead_nil

theorem push_of_lt (h : PathIs path l) (hlt : l.length < 32) (p : xport) :
    ∃ path', path.appendHead p.toUInt64 = (p.toUInt64, path') ∧ PathIs path' (p :: l) := by
  have hroom : (l.map UInt32.toUInt64).length < window path.size := by
    rwa [h.window_eq, List.length_map]
  obtain ⟨path', happ, hr, hs⟩ := h.repr.appendHead hroom p.toUInt64
  exact ⟨path', happ, hr, hs.trans h.size⟩

theorem push (h : PathIs path l) (p : xport) :
    path.appendHead p.toUInt64 = (Noneidx, path) ∨
    ∃ path', path.appendHead p.toUInt64 = (p.toUInt64, path') ∧ PathIs path' (p :: l) := by
  rcases Nat.lt_or_ge l.length 32 with hlt | hge
  · exact .inr (h.push_of_lt hlt p)
  · left
    apply h.repr.appendHead_full
    have hfits := h.repr.fits
    rw [h.window_eq, List.length_map] at hfits
    have hsize : path.size.toNat = 32 := by
      rw [h.size]
      decide
    rw [List.length_map]
    omega

end PathIs

namespace Xseg
variable {s s' : Xseg} {p dst : xport} {port port' : Port} {kind : QueueKind} {q : Xq}
  {x y : xptr} {l : List xport} {flags : UInt32}

def bag (s : Xseg) (p : xport) (kind : QueueKind) : Multiset xptr :=
  match s.getPort p with
  | none => 0
  | some port => (port.queue kind).elems

structure Wf (s : Xseg) : Prop where
  queues : ∀ {p port}, s.getPort p = some port → ∀ kind,
    (port.queue kind).Repr (port.queue kind).elems
  handler : s.requestH.Wf

def Sized (s : Xseg) : Prop :=
  ∀ {p port}, s.getPort p = some port → ∀ kind, (port.queue kind).size.toNat < 2 ^ 31

theorem bag_eq (h : s.getPort p = some port) (kind : QueueKind) :
    s.bag p kind = ↑(port.queue kind).elems := by
  simp [bag, h]

theorem getPort_lt (h : s.getPort p = some port) : p < s.nrPorts := by
  by_contra hp
  have hp : ¬ s.validatePort p := hp
  simp [getPort, hp] at h

theorem getPort_ne_noPort (h : s.getPort p = some port) : p ≠ NoPort := by
  rintro rfl
  have hlt := UInt32.lt_iff_toNat_lt.mp (getPort_lt h)
  have hmax := s.nrPorts.toNat_lt
  have hn : NoPort.toNat = 2 ^ 32 - 1 := by decide
  omega

theorem getPort_setPort (h : s.getPort p = some port) (p' : xport) :
    (s.setPort p port').getPort p' = if p' = p then some port' else s.getPort p' := by
  by_cases hp : p' = p
  · have hv : s.validatePort p := getPort_lt h
    have hv : (s.setPort p port').validatePort p := hv
    rw [getPort, hp, if_pos hv, if_pos rfl]
    simp [setPort]
  · have hv : (s.setPort p port').validatePort p' = s.validatePort p' := rfl
    simp only [getPort, hv, if_neg hp]
    simp [setPort, hp]

@[simp] theorem getPort_setRequest (s : Xseg) (x : xptr) (req : Request) (p : xport) :
    (s.setRequest x req).getPort p = s.getPort p := rfl

@[simp] theorem getPort_setPath (s : Xseg) (x : xptr) (path : Xq) (p : xport) :
    (s.setPath x path).getPort p = s.getPort p := rfl

@[simp] theorem requests_setRequest (s : Xseg) (x : xptr) (req : Request) :
    (s.setRequest x req).requests x = req := by
  simp [setRequest]

theorem requests_setRequest_of_ne (h : y ≠ x) (req : Request) :
    (s.setRequest x req).requests y = s.requests y := by
  simp [setRequest, h]

/-- `s'` differs from `s` in the queues, in what the request `x` holds and in the counters. -/
structure Frame (s s' : Xseg) (x : xptr) : Prop where
  wf : s'.Wf
  objects : s'.requestH = s.requestH
  others : ∀ {y}, y ≠ x → s'.requests y = s.requests y

theorem Frame.trans {s'' : Xseg} (h : Frame s s' x) (h' : Frame s' s'' x) : Frame s s'' x where
  wf := h'.wf
  objects := h'.objects.trans h.objects
  others hy := (h'.others hy).trans (h.others hy)

theorem Wf.setRequest (hs : s.Wf) (x : xptr) (req : Request) : Frame s (s.setRequest x req) x where
  wf := ⟨hs.queues, hs.handler⟩
  objects := rfl
  others hy := requests_setRequest_of_ne hy req

theorem Wf.setPath (hs : s.Wf) (x : xptr) (path : Xq) : Frame s (s.setPath x path) x :=
  hs.setRequest x _

theorem Wf.setPort (hs : s.Wf) (hport : s.getPort p = some port)
    (hq : ∀ kind, (port'.queue kind).Repr (port'.queue kind).elems) (x : xptr) :
    Frame s (s.setPort p port') x where
  wf := by
    refine ⟨fun {p' port''} hp' => ?_, hs.handler⟩
    rw [getPort_setPort hport] at hp'
    split at hp'
    · cases hp'
      exact hq
    · exact hs.queues hp'
  objects := rfl
  others _ := rfl

theorem Wf.setQueue (hs : s.Wf) (kind : QueueKind) (hport : s.getPort p = some port)
    {l' : List xqindex}
    (hq : q.Repr l') (x : xptr) :
    Frame s (s.setPort p (port.setQueue kind q)) x ∧
      (s.setPort p (port.setQueue kind q)).bag p kind = ↑l' ∧
      ∀ p' kind', (p', kind') ≠ (p, kind) →
        (s.setPort p (port.setQueue kind q)).bag p' kind' = s.bag p' kind' := by
  have hget : (s.setPort p (port.setQueue kind q)).getPort p = some (port.setQueue kind q) := by
    simp [getPort_setPort hport]
  refine ⟨hs.setPort hport (fun kind' => ?_) x, ?_, ?_⟩
  · by_cases hk : kind' = kind
    · subst hk
      have hkind : (port.setQueue kind' q).queue kind' = q := by simp [Port.setQueue]
      rw [hkind, hq.elems_eq]
      exact hq
    · have hkind : (port.setQueue kind q).queue kind' = port.queue kind' := by
        simp [Port.setQueue, hk]
      rw [hkind]
      exact hs.queues hport kind'
  · rw [bag_eq hget]
    simp [Port.setQueue, hq.elems_eq]
  · intro p' kind' hne
    rw [bag, getPort_setPort hport]
    by_cases hp : p' = p
    · subst hp
      have hk : kind' ≠ kind := fun hk => hne (by rw [hk])
      simp [bag_eq hport, Port.setQueue, hk]
    · rw [if_neg hp, bag]

theorem bag_setPort_same (port' : Port) (hport : s.getPort p = some port)
    (hq : port'.queue = port.queue) (p' : xport) (kind : QueueKind) :
    (s.setPort p port').bag p' kind = s.bag p' kind := by
  rw [bag, getPort_setPort hport]
  by_cases hp : p' = p
  · subst hp
    simp [bag_eq hport, hq]
  · rw [if_neg hp, bag]

theorem Wf.setPort_same (hs : s.Wf) (port' : Port) (hport : s.getPort p = some port)
    (hq : port'.queue = port.queue) (x : xptr) : Frame s (s.setPort p port') x := by
  apply hs.setPort hport
  intro kind
  rw [hq]
  exact hs.queues hport kind

theorem window_of_lt {size : xqindex} (h : size.toNat < 2 ^ 31) :
    window size = size.toNat := Nat.min_eq_left (Nat.le_of_lt h)

/-- The append of submit and respond puts the request into the queue or leaves the queue as it
was; a queue that doubles keeps what is in it. -/
theorem appendGrowing_spec [Builtins] (flags : UInt32) {elems : List xqindex} (hq : q.Repr elems)
    (hsize : q.size.toNat < 2 ^ 31) (hx : x ≠ Noneidx) (chunk : QueueChunk) :
    ∃ serial q' elems', appendGrowing q x flags chunk = (serial, q') ∧ q'.Repr elems' ∧
      (serial = x ∧ (↑elems' : Multiset xptr) = x ::ₘ ↑elems ∨
        serial = Noneidx ∧ (↑elems' : Multiset xptr) = ↑elems) := by
  have hfits := hq.fits
  rw [window_of_lt hsize] at hfits
  have hbag : ∀ es : List xqindex, (↑(es ++ [x]) : Multiset xptr) = x ::ₘ ↑es := by
    intro es
    rw [← Multiset.coe_add, Multiset.coe_singleton, Multiset.add_comm, Multiset.singleton_add]
  rcases Nat.lt_or_ge elems.length q.size.toNat with hlt | hge
  · obtain ⟨q', happ, hr, _⟩ := hq.appendTail (by rwa [window_of_lt hsize]) x
    refine ⟨x, q', elems ++ [x], ?_, hr, .inl ⟨rfl, hbag elems⟩⟩
    simp [appendGrowing, happ, hx]
  have hfull : elems.length = q.size.toNat := by omega
  have happ := hq.appendTail_full hfull x
  by_cases hflag : flags &&& X_ALLOC = 0
  · exact ⟨Noneidx, q, elems, by simp [appendGrowing, happ, hflag], hq, .inr ⟨rfl, rfl⟩⟩
  cases hchunk : allocQueue chunk with
  | none =>
    exact ⟨Noneidx, q, elems, by simp [appendGrowing, happ, hflag, hchunk], hq, .inr ⟨rfl, rfl⟩⟩
  | some newq =>
    have hnew : newq.Repr [] := by
      simp only [allocQueue, Option.map_eq_some_iff] at hchunk
      obtain ⟨c, _, rfl⟩ := hchunk
      exact Xq.repr_initEmpty _ _
    have hstep : appendGrowing q x flags chunk =
        if (q.resize newq).1 = Noneidx then (Noneidx, q) else (q.resize newq).2.appendTail x := by
      simp only [appendGrowing, happ, hchunk, ne_eq, hflag, not_false_eq_true, true_and, if_true]
    rw [hstep]
    rcases Nat.lt_or_ge newq.size.toNat elems.length with hsmall | hroom
    · exact ⟨Noneidx, q, elems, by rw [Xq.resize_full hq hsmall, if_pos rfl], hq,
        .inr ⟨rfl, rfl⟩⟩
    obtain ⟨q', hres, hcount, hr, hsz⟩ := Xq.Repr.resize_room hq hnew hroom
    rw [hres]
    simp only [if_neg hcount]
    have hrev : (↑elems.reverse : Multiset xptr) = ↑elems := by simp
    rcases Nat.lt_or_ge elems.length (window q'.size) with hlt | hge'
    · obtain ⟨q'', happ', hr', _⟩ := hr.appendTail (by simpa using hlt) x
      exact ⟨x, q'', _, happ', hr', .inl ⟨rfl, by rw [hbag, hrev]⟩⟩
    · have hq' : elems.reverse.length = q'.size.toNat := by
        rw [List.length_reverse]
        unfold window at hge'
        rw [hsz] at hge' ⊢
        omega
      exact ⟨Noneidx, q', _, hr.appendTail_full hq' x, hr, .inr ⟨rfl, hrev⟩⟩

structure Appended (s s' : Xseg) (p : xport) (kind : QueueKind) (x : xptr) (done : Prop) : Prop where
  into : done → s'.bag p kind = x ::ₘ s.bag p kind
  rest : ∀ p' kind', (done → (p', kind') ≠ (p, kind)) → s'.bag p' kind' = s.bag p' kind'

theorem appendQueue_spec [Builtins] (kind : QueueKind) (flags : UInt32) (hs : s.Wf)
    (hsized : s.Sized)
    (hport : s.getPort p = some port) (hx : x ≠ Noneidx) (chunk : QueueChunk) :
    ∃ serial s', s.appendQueue p port kind x flags chunk = (serial, s') ∧ Frame s s' x ∧
      s'.requests = s.requests ∧ Appended s s' p kind x (serial ≠ Noneidx) := by
  obtain ⟨serial, q', elems', happ, hr, hcases⟩ :=
    appendGrowing_spec flags (hs.queues hport kind) (hsized hport kind) hx chunk
  obtain ⟨hframe, hbag, hrest⟩ := hs.setQueue kind hport hr x
  refine ⟨serial, s.setPort p (port.setQueue kind q'), by simp only [appendQueue, happ], hframe,
    rfl, ?_, ?_⟩
  · intro hdone
    rcases hcases with ⟨_, he⟩ | ⟨hnone, _⟩
    · rw [hbag, he, bag_eq hport]
    · exact absurd hnone hdone
  · intro p' kind' hout
    by_cases heq : (p', kind') = (p, kind)
    · obtain ⟨rfl, rfl⟩ := Prod.mk.inj heq
      rcases hcases with ⟨hser, _⟩ | ⟨_, he⟩
      · exact absurd rfl (hout (hser ▸ hx))
      · rw [hbag, he, bag_eq hport]
    · exact hrest p' kind' heq

structure Quiet (s s' : Xseg) : Prop where
  wf : s'.Wf
  objects : s'.requestH = s.requestH
  requests : s'.requests = s.requests
  bags : ∀ p kind, s'.bag p kind = s.bag p kind

theorem Wf.quiet (hs : s.Wf) : Quiet s s := ⟨hs, rfl, rfl, fun _ _ => rfl⟩

structure Taken (s s' : Xseg) (p : xport) (kind : QueueKind) (x : xptr) : Prop where
  frame : Frame s s' x
  out : s.bag p kind = x ::ₘ s'.bag p kind
  rest : ∀ p' kind', (p', kind') ≠ (p, kind) → s'.bag p' kind' = s.bag p' kind'

theorem Taken.mem (h : Taken s s' p kind x) : x ∈ s.bag p kind := by
  rw [h.out]
  exact Multiset.mem_cons_self x _

theorem popQueue_spec (hs : s.Wf) (hport : s.getPort p = some port) (kind : QueueKind) :
    ∃ xqi q, (port.queue kind).popHead = (xqi, q) ∧
      (s.setPort p (port.setQueue kind q)).requests = s.requests ∧
      (xqi = Noneidx ∧ Quiet s (s.setPort p (port.setQueue kind q)) ∨
        Taken s (s.setPort p (port.setQueue kind q)) p kind xqi) := by
  have hq := hs.queues hport kind
  have hbag := bag_eq hport kind
  cases hl : (port.queue kind).elems with
  | nil =>
    rw [hl] at hq hbag
    obtain ⟨hframe, hself, hrest⟩ := hs.setQueue kind hport hq 0
    refine ⟨_, _, hq.popHead_nil, rfl, .inl ⟨rfl, hframe.wf, rfl, rfl, fun p' kind' => ?_⟩⟩
    by_cases heq : (p', kind') = (p, kind)
    · obtain ⟨rfl, rfl⟩ := Prod.mk.inj heq
      rw [hself, hbag]
    · exact hrest p' kind' heq
  | cons x rest =>
    rw [hl] at hq hbag
    obtain ⟨q', hpop, hr, _⟩ := hq.popHead
    obtain ⟨hframe, hself, hrest⟩ := hs.setQueue kind hport hr x
    refine ⟨_, _, hpop, rfl, .inr ⟨hframe, ?_, hrest⟩⟩
    rw [hself, hbag]
    rfl

/-- The request has the path `l` and was last taken over by port `t`. -/
structure Tracks (req : Request) (l : List xport) (t : xport) : Prop where
  path : PathIs req.path l
  transit : req.transitPortno = t

theorem discover_spec {fuel : Nat} {next : xport}
    (h : s.discover dst fuel next = some (some (p, port))) : s.getPort p = some port := by
  induction fuel generalizing next with
  | zero => simp [discover] at h
  | succ fuel ih =>
    simp only [discover] at h
    split at h
    · simp at h
    · split at h
      · simp at h
      · rename_i hport
        split at h
        · exact ih h
        · simp only [Option.some.injEq, Prod.mk.injEq] at h
          obtain ⟨rfl, rfl⟩ := h
          exact hport

/-- What a submit that returns `r` does: nothing, or the request goes to the request queue of
port `r` with its transit port on top of the path. -/
structure Submitted (s s' : Xseg) (x : xptr) (l : List xport) (t r : xport) : Prop where
  frame : Frame s s' x
  moved : r ≠ NoPort → (∃ port, s.getPort r = some port) ∧ Tracks (s'.requests x) (t :: l) t
  kept : r = NoPort → Tracks (s'.requests x) l t
  bags : Appended s s' r .request x (r ≠ NoPort)

theorem Submitted.nothing {t : xport} (hs : s.Wf) (h : Tracks (s.requests x) l t) :
    Submitted s s x l t NoPort where
  frame := ⟨hs, rfl, fun _ => rfl⟩
  moved hne := absurd rfl hne
  kept _ := h
  bags := ⟨fun hne => absurd rfl hne, fun _ _ _ => rfl⟩

theorem deliver_spec [Builtins] (flags : UInt32) (hs : s.Wf) (hsized : s.Sized)
    (hport : s.getPort p = some port)
    (hx : x ≠ Noneidx) {t : xport} (h : Tracks (s.requests x) l t) (chunk : QueueChunk) :
    ∃ r s', s.deliver x t p port flags chunk = (r, s') ∧ Submitted s s' x l t r := by
  rcases h.path.push t with hfull | ⟨path', hpush, hpath'⟩
  · exact ⟨NoPort, s, by simp [deliver, hfull], .nothing hs h⟩
  have hset := hs.setPath x path'
  obtain ⟨serial, s', happ, hframe, hreq, hbags⟩ :=
    appendQueue_spec (s := s.setPath x path') .request flags hset.wf hsized
      hport hx chunk
  have hx' : s'.requests x = { s.requests x with path := path' } := by
    rw [hreq]
    exact requests_setRequest _ _ _
  have hstep : s.deliver x t p port flags chunk =
      if serial = Noneidx then (NoPort, s'.setPath x path'.popHead.2) else (p, s') := by
    simp only [deliver, hpush, if_neg (PathIs.toUInt64_ne_noneidx t), happ]
  by_cases hserial : serial = Noneidx
  · rw [if_pos hserial] at hstep
    obtain ⟨path'', hpop, hpath''⟩ := hpath'.pop
    refine ⟨_, _, hstep, hset.trans (hframe.trans (hframe.wf.setPath x _)), ?_, fun _ => ?_, ?_⟩
    · exact fun hne => absurd rfl hne
    · refine ⟨?_, ?_⟩
      · rw [setPath, requests_setRequest, hpop]
        exact hpath''
      · rw [setPath, requests_setRequest, hx']
        exact h.transit
    · refine ⟨fun hne => absurd rfl hne, fun p' kind' _ => ?_⟩
      exact hbags.rest p' kind' fun hdone => absurd hserial hdone
  · rw [if_neg hserial] at hstep
    refine ⟨_, _, hstep, hset.trans hframe, fun _ => ⟨⟨port, hport⟩, ?_, ?_⟩, ?_, ?_⟩
    · rw [hx']
      exact hpath'
    · rw [hx']
      exact h.transit
    · intro hnone
      exact absurd hnone (getPort_ne_noPort hport)
    · exact ⟨fun _ => hbags.into hserial,
        fun p' kind' hout => hbags.rest p' kind' fun _ => hout (getPort_ne_noPort hport)⟩

theorem submit_spec [Builtins] (hs : s.Wf) (hsized : s.Sized) (hx : x ≠ Noneidx) {t : xport}
    (h : Tracks (s.requests x) l t) {portno r : xport} {chunk : QueueChunk} {fuel : Nat}
    (hsub : s.submit x portno flags chunk fuel = some (r, s')) : Submitted s s' x l t r := by
  have hnothing : some (NoPort, s) = some (r, s') → Submitted s s' x l t r := by
    intro heq
    obtain ⟨rfl, rfl⟩ := Prod.mk.inj (Option.some.inj heq)
    exact .nothing hs h
  simp only [submit] at hsub
  split at hsub
  · exact hnothing hsub
  split at hsub
  · exact hnothing hsub
  split at hsub
  · simp at hsub
  · exact hnothing hsub
  · rename_i next port hnext
    obtain ⟨r', s'', hstep, hspec⟩ :=
      deliver_spec flags hs hsized (discover_spec hnext) hx h chunk
    rw [h.transit, hstep] at hsub
    obtain ⟨rfl, rfl⟩ := Prod.mk.inj (Option.some.inj hsub)
    exact hspec

theorem forward_spec [Builtins] (hs : s.Wf) (hsized : s.Sized) (hx : x ≠ Noneidx) {t : xport}
    (h : Tracks (s.requests x) l t) {newDst portno r : xport} {chunk : QueueChunk} {fuel : Nat}
    (hfwd : s.forward x newDst portno flags chunk fuel = some (r, s')) :
    Submitted s s' x l t r := by
  simp only [forward] at hfwd
  split at hfwd
  · obtain ⟨rfl, rfl⟩ := Prod.mk.inj (Option.some.inj hfwd)
    exact .nothing hs h
  · have hset := hs.setRequest x { s.requests x with effectiveDstPortno := newDst }
    have htracks : Tracks ((s.setRequest x
        { s.requests x with effectiveDstPortno := newDst }).requests x) l t := by
      rw [requests_setRequest]
      exact ⟨h.path, h.transit⟩
    have hspec := submit_spec hset.wf hsized hx htracks hfwd
    exact ⟨hset.trans hspec.frame, hspec.moved, hspec.kept, hspec.bags.into, hspec.bags.rest⟩

/-- The loop of respond pops ports that cannot receive; what it stops at is the path's head. -/
theorem respondTo_spec {path : Xq} (h : PathIs path l) :
    ∃ l', PathIs (s.respondTo path).2 l' ∧ l' <:+ l ∧
      ∀ dst port, (s.respondTo path).1 = some (dst, port) →
        s.getPort dst = some port ∧ l'.head? = some dst := by
  induction l generalizing path with
  | nil =>
    rw [respondTo, if_pos h.peek_nil]
    exact ⟨[], h, List.suffix_refl _, by simp⟩
  | cons p l ih =>
    have hdst : p.toUInt64.toUInt32 = p := by simp
    have hne := PathIs.toUInt64_ne_noneidx p
    cases hport : s.getPort p with
    | none =>
      have hstep : s.respondTo path = (none, path) := by
        rw [respondTo, h.peek, if_neg hne]
        simp only [hdst, hport]
      rw [hstep]
      exact ⟨p :: l, h, List.suffix_refl _, by simp⟩
    | some port =>
      have hstep : s.respondTo path =
          if port.flags &&& CAN_RECEIVE = 0 then s.respondTo path.popHead.2
          else (some (p, port), path) := by
        rw [respondTo, h.peek, if_neg hne]
        simp only [hdst, hport]
      rw [hstep]
      split
      · obtain ⟨path', hpop, hpath'⟩ := h.pop
        obtain ⟨l', hl', hsuf, hhead⟩ := ih hpath'
        rw [hpop]
        exact ⟨l', hl', hsuf.trans (List.suffix_cons p l), hhead⟩
      · refine ⟨p :: l, h, List.suffix_refl _, fun dst port' heq => ?_⟩
        obtain ⟨rfl, rfl⟩ := Prod.mk.inj (Option.some.inj heq)
        exact ⟨hport, rfl⟩

/-- What a respond that returns `r` does: the path may lose its last ports, and unless `r` is
`NoPort` the request goes to the reply queue of port `r`, the head of what is left. -/
structure Responded (s s' : Xseg) (x : xptr) (l : List xport) (t r : xport) : Prop where
  frame : Frame s s' x
  path : ∃ l', Tracks (s'.requests x) l' t ∧ l' <:+ l ∧ (r ≠ NoPort → l'.head? = some r)
  port : r ≠ NoPort → ∃ port, s.getPort r = some port
  bags : Appended s s' r .reply x (r ≠ NoPort)

theorem respond_spec [Builtins] (flags : UInt32) (hs : s.Wf) (hsized : s.Sized) (hx : x ≠ Noneidx)
    {t : xport}
    (h : Tracks (s.requests x) l t) (portno : xport) (chunk : QueueChunk) :
    ∃ r s', s.respond x portno flags chunk = (r, s') ∧ Responded s s' x l t r := by
  obtain ⟨l', hl', hsuf, hhead⟩ := respondTo_spec (s := s) h.path
  have htracks : Tracks ((s.setPath x (s.respondTo (s.requests x).path).2).requests x) l' t := by
    rw [setPath, requests_setRequest]
    exact ⟨hl', h.transit⟩
  have hset := hs.setPath x (s.respondTo (s.requests x).path).2
  cases hstop : s.respondTo (s.requests x).path with
  | mk stop path =>
  rw [hstop] at hhead htracks hset
  cases stop with
  | none =>
    refine ⟨NoPort, _, by simp only [respond, hstop], hset, ⟨l', htracks, hsuf, ?_⟩, ?_, ?_⟩
    · exact fun hne => absurd rfl hne
    · exact fun hne => absurd rfl hne
    · exact ⟨fun hne => absurd rfl hne, fun _ _ _ => rfl⟩
  | some stop =>
    obtain ⟨dst, port⟩ := stop
    obtain ⟨hport, hdst⟩ := hhead dst port rfl
    obtain ⟨serial, s', happ, hframe, hreq, hbags⟩ :=
      appendQueue_spec (s := s.setPath x path) .reply flags hset.wf hsized
        hport hx chunk
    refine ⟨if serial = Noneidx then NoPort else dst, s', by simp only [respond, hstop, happ],
      hset.trans hframe, ⟨l', by rw [hreq]; exact htracks, hsuf, ?_⟩, ?_, ?_⟩
    all_goals by_cases hserial : serial = Noneidx
    all_goals simp only [hserial, if_true, if_false]
    · exact fun hne => absurd rfl hne
    · exact fun _ => hdst
    · exact fun hne => absurd rfl hne
    · exact fun _ => ⟨port, hport⟩
    · exact ⟨fun hne => absurd rfl hne,
        fun p' kind' _ => hbags.rest p' kind' fun hdone => absurd hserial hdone⟩
    · exact ⟨fun _ => hbags.into hserial,
        fun p' kind' hout => hbags.rest p' kind' fun _ => hout (getPort_ne_noPort hport)⟩

theorem accept_spec (hs : s.Wf) (hne : ∀ x ∈ s.bag p .request, x ≠ Noneidx) {r : Option xptr}
    (hacc : s.accept p = (r, s')) :
    r = none ∧ Quiet s s' ∨
    ∃ x, r = some x ∧ Taken s s' p .request x ∧
      s'.requests x = { s.requests x with transitPortno := p } := by
  simp only [accept] at hacc
  cases hport : s.getPort p with
  | none =>
    simp only [hport] at hacc
    obtain ⟨rfl, rfl⟩ := Prod.mk.inj hacc
    exact .inl ⟨rfl, hs.quiet⟩
  | some port =>
    obtain ⟨xqi, q, hpop, hreq, ⟨hnone, hquiet⟩ | htaken⟩ := popQueue_spec hs hport .request
    · simp only [hport, hpop, hnone, if_true] at hacc
      obtain ⟨rfl, rfl⟩ := Prod.mk.inj hacc
      exact .inl ⟨rfl, hquiet⟩
    · simp only [hport, hpop, if_neg (hne xqi htaken.mem)] at hacc
      obtain ⟨rfl, rfl⟩ := Prod.mk.inj hacc
      refine .inr ⟨xqi, rfl, ⟨?_, htaken.out, htaken.rest⟩, ?_⟩
      · exact htaken.frame.trans (htaken.frame.wf.setRequest xqi _)
      · rw [requests_setRequest, hreq]

/-- One turn of receive: nothing, or a request comes out of the reply queue and its path loses
its head; a request without a path is dropped. -/
theorem receive_spec (hs : s.Wf) (hne : ∀ x ∈ s.bag p .reply, x ≠ Noneidx) {r : Received}
    (hrec : s.receive p = (r, s')) :
    r = .null ∧ Quiet s s' ∨
    ∃ x, Taken s s' p .reply x ∧ ∀ {l t}, Tracks (s.requests x) l t →
      (l = [] ∧ r = .retry x ∨ ∃ p' l', l = p' :: l' ∧ r = .request x ∧
        Tracks (s'.requests x) l' t) := by
  simp only [receive] at hrec
  cases hport : s.getPort p with
  | none =>
    simp only [hport] at hrec
    obtain ⟨rfl, rfl⟩ := Prod.mk.inj hrec
    exact .inl ⟨rfl, hs.quiet⟩
  | some port =>
    obtain ⟨xqi, q, hpop, hreq, ⟨hnone, hquiet⟩ | htaken⟩ := popQueue_spec hs hport .reply
    · simp only [hport, hpop, hnone, if_true] at hrec
      obtain ⟨rfl, rfl⟩ := Prod.mk.inj hrec
      exact .inl ⟨rfl, hquiet⟩
    · simp only [hport, hpop, if_neg (hne xqi htaken.mem), hreq] at hrec
      obtain ⟨hr, rfl⟩ := Prod.mk.inj hrec
      refine .inr ⟨xqi, ⟨?_, htaken.out, htaken.rest⟩, fun {l t} htracks => ?_⟩
      · exact htaken.frame.trans (htaken.frame.wf.setPath xqi _)
      · cases l with
        | nil =>
          left
          refine ⟨rfl, ?_⟩
          rw [← hr, htracks.path.repr.popHead_nil]
          exact if_pos rfl
        | cons p' l' =>
          right
          obtain ⟨path', hpath, hpath'⟩ := htracks.path.pop
          refine ⟨p', l', rfl, ?_, ?_, ?_⟩
          · rw [← hr, hpath]
            exact if_neg (PathIs.toUInt64_ne_noneidx p')
          · rw [setPath, requests_setRequest, hpath]
            exact hpath'
          · rw [setPath, requests_setRequest, hreq]
            exact htracks.transit

theorem getDone_valid [Builtins] {src : xport} (hsrc : s.validatePort src)
    (hdst : s.validatePort dst) (x : xptr) :
    ∃ req, s.getDone x src dst = (true, s.setRequest x req) ∧ Tracks req [] src ∧
      req.effectiveDstPortno = dst := by
  refine ⟨emptyPath { clearBuffers (s.requests x) with
    srcPortno := src, transitPortno := src, dstPortno := dst, effectiveDstPortno := dst
    state := 0, elapsed := 0, tvSec := 0, tvUsec := 0, flags := 0, serviced := 0
    v0Size := 0xFFFFFFFFFFFFFFFF }, ?_, ⟨PathIs.emptyPath _, rfl⟩, rfl⟩
  simp only [getDone, prepPorts, hsrc, hdst, not_true, if_false]

/-- The request is set up with an empty path; only an invalid destination is refused. -/
theorem getDone_spec [Builtins] (hs : s.Wf) {src : xport} (hsrc : s.validatePort src)
    {ok : Bool} (hdone : s.getDone x src dst = (ok, s')) :
    Frame s s' x ∧ (∀ p kind, s'.bag p kind = s.bag p kind) ∧
      (ok = true ∧ Tracks (s'.requests x) [] src ∨ ok = false ∧ ¬ s.validatePort dst) := by
  by_cases hdst : s.validatePort dst
  · obtain ⟨req, hvalid, htracks, -⟩ := getDone_valid hsrc hdst x
    rw [hvalid] at hdone
    obtain ⟨rfl, rfl⟩ := Prod.mk.inj hdone
    refine ⟨hs.setRequest x _, fun _ _ => rfl, .inl ⟨rfl, ?_⟩⟩
    rwa [requests_setRequest]
  · simp only [getDone, prepPorts, hsrc, hdst, not_true, not_false_eq_true, if_true,
      if_false] at hdone
    obtain ⟨rfl, rfl⟩ := Prod.mk.inj hdone
    exact ⟨hs.setRequest x _, fun _ _ => rfl, .inr ⟨rfl, hdst⟩⟩

/-- The handler gives nothing, or its first object after a new chunk may have come to it. -/
theorem getAlloc_spec (hs : s.Wf) (hport : s.getPort p = some port)
    {mem : Option (xptr × UInt64)} (hmem : ∀ c, mem = some c → s.requestH.HeapChunk c)
    {r : Option xptr} (halloc : s.getAlloc p port flags mem = (r, s')) :
    s'.Wf ∧ s'.requests = s.requests ∧ (∀ p' kind, s'.bag p' kind = s.bag p' kind) ∧
      (∀ p', s.validatePort p' → s'.validatePort p') ∧
      (r = none ∧ s'.requestH = s.requestH ∨
        ∃ x fresh, r = some x ∧ x :: s'.requestH.list = fresh ++ s.requestH.list ∧
          s'.requestH.objects = fresh ++ s.requestH.objects ∧ fresh.Nodup ∧
          ∀ y ∈ fresh, y ∉ s.requestH.objects) := by
  simp only [getAlloc] at halloc
  split at halloc
  · rcases XobjectH.getObj_spec (flags &&& X_ALLOC) hs.handler hmem with
      hnone | ⟨x, fresh, list, h', hsome, hw, hlist, hcons, hobjs⟩
    · rw [hnone] at halloc
      obtain ⟨rfl, rfl⟩ := Prod.mk.inj halloc
      exact ⟨⟨hs.queues, hs.handler⟩, rfl, fun _ _ => rfl, fun _ h => h, .inl ⟨rfl, rfl⟩⟩
    · rw [hsome] at halloc
      obtain ⟨rfl, rfl⟩ := Prod.mk.inj halloc
      have hs' : Wf { s with requestH := h' } := ⟨hs.queues, hw⟩
      have hport' : getPort { s with requestH := h' } p = some port := hport
      let port' : Port := { port with allocReqs := port.allocReqs + 1 }
      refine ⟨(hs'.setPort_same port' hport' rfl x).wf, rfl, bag_setPort_same port' hport' rfl,
        fun _ h => h, .inr ⟨x, fresh, rfl, ?_, hobjs⟩⟩
      rw [← hcons, ← hlist]
      rfl
  · obtain ⟨rfl, rfl⟩ := Prod.mk.inj halloc
    exact ⟨hs, rfl, fun _ _ => rfl, fun _ h => h, .inl ⟨rfl, rfl⟩⟩

theorem countRequest_quiet (hs : s.Wf) (elapsed : UInt64) : Quiet s (s.countRequest elapsed) := by
  unfold countRequest
  split
  · exact ⟨⟨hs.queues, hs.handler⟩, rfl, rfl, fun _ _ => rfl⟩
  · exact hs.quiet

theorem getPort_countRequest (s : Xseg) (elapsed : UInt64) (p : xport) :
    (s.countRequest elapsed).getPort p = s.getPort p := by
  unfold countRequest
  split <;> rfl

/-- The request is refused, or offered to the free queue of its source port. -/
theorem putFree_spec [Builtins] (hs : s.Wf) (hsized : s.Sized) (hx : x ≠ Noneidx)
    {src : xport} {xqi : xqindex} (hput : s.putFree x = some (src, xqi, s')) :
    Frame s s' x ∧ Appended s s' src .free x (xqi ≠ Noneidx) := by
  simp only [putFree] at hput
  split at hput
  · simp at hput
  rename_i port hport
  simp only [Option.some.injEq, Prod.mk.injEq] at hput
  obtain ⟨rfl, rfl, rfl⟩ := hput
  have hset := hs.setRequest x (emptied (s.requests x))
  have hcount := countRequest_quiet hset.wf (emptied (s.requests x)).elapsed
  have hframe := hset.trans ⟨hcount.wf, hcount.objects, fun _ => congrFun hcount.requests _⟩
  have hport' := (getPort_countRequest (s.setRequest x (emptied (s.requests x)))
    (emptied (s.requests x)).elapsed _).trans hport
  have hq := hs.queues hport .free
  have hsize := hsized hport .free
  have hfits := hq.fits
  rw [window_of_lt hsize] at hfits
  rcases Nat.lt_or_ge (port.queue .free).elems.length (port.queue .free).size.toNat with hlt | hge
  · obtain ⟨q', happ, hr, _⟩ := hq.appendHead (by rwa [window_of_lt hsize]) x
    obtain ⟨hqueue, hself, hrest⟩ := hcount.wf.setQueue .free hport' hr x
    rw [happ]
    refine ⟨hframe.trans hqueue, fun _ => ?_, fun p' kind' hout => ?_⟩
    · rw [hself, bag_eq hport]
      rfl
    · exact (hrest p' kind' (hout hx)).trans (hcount.bags p' kind')
  · have happ := hq.appendHead_full (by omega) x
    obtain ⟨hqueue, hself, hrest⟩ := hcount.wf.setQueue .free hport' hq x
    rw [happ]
    refine ⟨hframe.trans hqueue, fun hne => absurd rfl hne, fun p' kind' _ => ?_⟩
    by_cases heq : (p', kind') = ((s.requests x).srcPortno, QueueKind.free)
    · obtain ⟨rfl, rfl⟩ := Prod.mk.inj heq
      rw [hself, bag_eq hport]
    · exact (hrest p' kind' heq).trans (hcount.bags p' kind')

theorem putDone_spec (hs : s.Wf) (hport : s.getPort p = some port) :
    Quiet s (s.putDone p port) := by
  let port' : Port := { port with allocReqs := port.allocReqs - 1 }
  exact ⟨(hs.setPort_same port' hport rfl 0).wf, rfl, rfl, bag_setPort_same port' hport rfl⟩

end Xseg

end Libxseg
