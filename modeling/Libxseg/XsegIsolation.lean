import Libxseg.XsegPayload
import Libxseg.XsegSections

/-!
# Requests do not see each other's data

A run of the calls that peers make for the requests they hold, together with whatever else is
allocated and freed in the heap. Every request that is held keeps its data and its target to
itself.
-/

namespace Libxseg

set_option autoImplicit false

namespace Payload

/-- What `xseg_get_request` assigns. -/
def fresh : Payload where
  buffer := 0
  bufferlen := 0
  target := 0
  data := 0
  datalen := 0
  targetlen := 0
  state := 0
  elapsed := 0
  tvSec := 0
  tvUsec := 0
  flags := 0
  serviced := 0
  v0Size := 0xFFFFFFFFFFFFFFFF

/-- What `xseg_put_request` assigns. -/
def emptied (req : Payload) : Payload :=
  { req with
    buffer := 0, bufferlen := 0, target := 0, data := 0, datalen := 0, targetlen := 0
    state := 0, serviced := 0 }

end Payload

namespace Xseg

theorem emptied_toPayload [Builtins] (req : Request) :
    (emptied req).toPayload = req.toPayload.emptied := rfl

theorem getDone_toPayload [Builtins] {s s' : Xseg} {x : xptr} {src dst : xport}
    (hsrc : s.validatePort src) (h : s.getDone x src dst = (true, s')) :
    (s'.requests x).toPayload = Payload.fresh := by
  by_cases hdst : s.validatePort dst
  · simp only [getDone, prepPorts, hsrc, hdst, not_true, if_false] at h
    rw [← (Prod.mk.inj h).2, requests_setRequest]
    rfl
  · simp [getDone, prepPorts, hsrc, hdst] at h

end Xseg

structure PayloadWorld where
  heap : XheapSession
  reqs : xptr → Payload
  held : List xptr

/-- `fill` is what a peer writes to a request that it holds; `other` is a use of the heap that is
not for a request. -/
inductive PayloadEvent where
  | get (x : xptr)
  | prep (x : xptr) (targetlen : UInt32) (datalen : UInt64) (ret : Int)
  | resize (x : xptr) (targetlen : UInt32) (datalen : UInt64) (ret : Int)
  | fill (x : xptr) (req : Payload) (memory : Memory)
  | put (x : xptr)
  | other (ev : XheapEvent)

def PayloadEvent.request : PayloadEvent → Option xptr
  | .get x => some x
  | .prep x _ _ _ => some x
  | .resize x _ _ _ => some x
  | .fill x _ _ => some x
  | .put x => some x
  | .other _ => none

namespace PayloadWorld
open Xheap XheapSession Payload

def renew (w : PayloadWorld) (x : xptr) (heap : XheapSession) (req : Payload) (held : List xptr) :
    PayloadWorld where
  heap := heap
  reqs := Function.update w.reqs x req
  held := held

def Step (segment : UInt64) (w : PayloadWorld) : PayloadEvent → PayloadWorld → Prop
  | .get x, w' => w' = w.renew x w.heap fresh (x :: w.held)
  | .prep x targetlen datalen ret, w' => ∃ heap req,
      prepRequest segment w.heap (w.reqs x) targetlen datalen = some (ret, heap, req) ∧
        w' = w.renew x heap req w.held
  | .resize x targetlen datalen ret, w' => ∃ heap req,
      resizeRequest segment w.heap (w.reqs x) targetlen datalen = some (ret, heap, req) ∧
        w' = w.renew x heap req w.held
  | .fill x req memory, w' => w' = w.renew x { w.heap with memory := memory } req w.held
  | .put x, w' => ∃ heap, (w.reqs x).release segment w.heap = some heap ∧
      w' = w.renew x heap (w.reqs x).emptied (w.held.filter (· ≠ x))
  | .other ev, w' => ∃ heap, w.heap.Step64 ev heap ∧ w' = { w with heap := heap }

def Unowned (segment : UInt64) (w : PayloadWorld) (p : Nat) : Prop :=
  ∀ x ∈ w.held, ¬ (w.reqs x).Has segment p

/-- Only the holder of a request calls for it, and it writes to its data and its target. The sum of
the lengths is below 2^64, and the heap is asked for nothing that would break it. Nobody else frees
or writes a buffer. -/
def Admissible (segment : UInt64) (w : PayloadWorld) : PayloadEvent → Prop
  | .get x => x ∉ w.held
  | .prep x targetlen datalen _ => x ∈ w.held ∧ targetlen.toNat + datalen.toNat < 2 ^ 64 ∧
      w.heap.Tame (targetlen.toUInt64 + datalen).toNat
  | .resize x targetlen datalen _ => x ∈ w.held ∧ targetlen.toNat + datalen.toNat < 2 ^ 64 ∧
      ResizeTame segment w.heap (w.reqs x) targetlen datalen
  | .fill x req memory => x ∈ w.held ∧ SameBuffer (w.reqs x) req ∧
      ∀ n, memory n ≠ w.heap.memory n → ∃ a, n = (segment + a).toNat ∧ (w.reqs x).buffer ≠ 0 ∧
        (a ∈ region (w.reqs x).data (w.reqs x).datalen ∨
          a ∈ region (w.reqs x).target (w.reqs x).targetlen.toUInt64)
  | .put x => x ∈ w.held
  | .other (.allocate bytes _) => w.heap.Tame bytes
  | .other (.free ptr) => w.heap.Live ptr ∧ w.Unowned segment ptr
  | .other (.write memory) => ∀ n, memory n ≠ w.heap.memory n → ∃ p, w.heap.Live p ∧
      w.Unowned segment p ∧ p ≤ n ∧ n < p + getChunkSize w.heap.memory p

structure Isolated (segment : UInt64) (w : PayloadWorld) : Prop where
  laidOut : ∀ x ∈ w.held, (w.reqs x).buffer ≠ 0 → (w.reqs x).LaidOut segment w.heap
  apart : ∀ x ∈ w.held, ∀ y ∈ w.held, x ≠ y →
    Disjoint (region (w.reqs x).buffer (w.reqs x).bufferlen)
      (region (w.reqs y).buffer (w.reqs y).bufferlen)
  /-- the buffer can be given back -/
  returnable : ∀ x ∈ w.held, ∃ heap, (w.reqs x).release segment w.heap = some heap

def SameContents (segment : UInt64) (w w' : PayloadWorld) (x : xptr) : Prop :=
  x ∈ w'.held ∧ w'.reqs x = w.reqs x ∧
    ∀ a ∈ region (w.reqs x).buffer (w.reqs x).bufferlen,
      w'.heap.memory (segment + a).toNat = w.heap.memory (segment + a).toNat

structure Sound (segment : UInt64) (w : PayloadWorld) : Prop where
  inv : ∃ L, Inv L w.heap
  unit : w.heap.heap.alignment_unit ≤ 20
  base : segment.toNat ≤ w.heap.heap.mem
  owned : ∀ x ∈ w.held, (w.reqs x).Owned segment w.heap
  apart : ∀ x ∈ w.held, ∀ y ∈ w.held, x ≠ y → ∀ p, (w.reqs x).Has segment p →
    ¬ (w.reqs y).Has segment p

variable {segment : UInt64} {w w' : PayloadWorld} {x y : xptr} {heap : XheapSession}

section Renew
variable (w x heap) (req : Payload) (held : List xptr)

@[simp] theorem renew_heap : (w.renew x heap req held).heap = heap := rfl

@[simp] theorem renew_held : (w.renew x heap req held).held = held := rfl

@[simp] theorem renew_same : (w.renew x heap req held).reqs x = req := by
  simp [PayloadWorld.renew]

end Renew

theorem renew_other {req : Payload} {held : List xptr} (h : y ≠ x) :
    (w.renew x heap req held).reqs y = w.reqs y := by
  simp [PayloadWorld.renew, h]

/-- A region of length 0 is empty, so a request whose region is not empty has a buffer. -/
theorem has_of_mem_region {s : XheapSession} {req : Payload} {a : UInt64}
    (h : req.Owned segment s) (ha : a ∈ region req.buffer req.bufferlen) :
    req.Has segment (req.bufferAddr segment) := by
  refine ⟨fun hbuffer => ?_, rfl⟩
  rw [mem_region, h.none hbuffer] at ha
  exact absurd ha (Nat.not_lt_zero _)

/-- Whoever has a chunk that was not touched finds its request as it was. -/
theorem Sound.kept (h : Sound segment w) {touched : Nat → Prop} (hc : w.heap.Changes heap touched)
    (hy : y ∈ w.held) (hout : ∀ p, (w.reqs y).Has segment p → ¬ touched p) :
    (w.reqs y).Owned segment heap ∧ ∀ a ∈ region (w.reqs y).buffer (w.reqs y).bufferlen,
      heap.memory (segment + a).toNat = w.heap.memory (segment + a).toNat := by
  obtain ⟨L, hi⟩ := h.inv
  have howned := h.owned y hy
  constructor
  · refine howned.congr ⟨rfl, rfl, rfl, rfl, rfl, rfl⟩ fun p hp => ?_
    have hlive := (howned.live p hp).1
    obtain ⟨hlive', hkeeps⟩ := hc.live p hlive (hout p hp)
    exact ⟨hlive', hkeeps.size hi (hlive.mem_chunks hi)⟩
  · intro a ha
    have hp := has_of_mem_region howned ha
    obtain ⟨hlive, hsize⟩ := howned.live _ hp
    have haddr := hp.region_addr (howned.fit hi hp) ha
    exact (hc.live _ hlive (hout _ hp)).2 _ (by omega) (by omega)

/-- A call for `x`. `old` is the request before the call, as far as its buffer matters. -/
theorem Sound.renew {old req : Payload} {held : List xptr} (h : Sound segment w)
    (hr : Renews segment w.heap heap old req)
    (hold : ∀ y ∈ w.held, y ≠ x → ∀ p, (w.reqs y).Has segment p → ¬ old.Has segment p)
    (hheld : ∀ y ∈ held, y = x ∨ y ∈ w.held) (hkept : ∀ y ∈ w.held, y ≠ x → y ∈ held) :
    Sound segment (w.renew x heap req held) ∧
      ∀ y ∈ w.held, y ≠ x → SameContents segment w (w.renew x heap req held) y := by
  have hnew (y : xptr) (hy : y ∈ w.held) (hyx : y ≠ x) (p : Nat) (hp : (w.reqs y).Has segment p) :
      ¬ req.Has segment p :=
    hr.fresh p ((h.owned y hy).live p hp).1 (hold y hy hyx p hp)
  refine ⟨⟨hr.changes.inv, hr.changes.unit h.unit, hr.changes.base h.base, fun y hy => ?_,
    fun y hy z hz hyz p => ?_⟩, fun y hy hyx => ⟨hkept y hy hyx, renew_other hyx, ?_⟩⟩
  · by_cases hyx : y = x
    · rw [hyx, renew_same]
      exact hr.owned
    · have hy := (hheld y hy).resolve_left hyx
      rw [renew_other hyx]
      exact (h.kept hr.changes hy (hold y hy hyx)).1
  · by_cases hyx : y = x
    · have hzx : z ≠ x := fun hzx => hyz (hyx.trans hzx.symm)
      have hz := (hheld z hz).resolve_left hzx
      rw [hyx, renew_same, renew_other hzx]
      exact fun hp hpz => hnew z hz hzx p hpz hp
    · have hy := (hheld y hy).resolve_left hyx
      rw [renew_other hyx]
      by_cases hzx : z = x
      · rw [hzx, renew_same]
        exact hnew y hy hyx p
      · rw [renew_other hzx]
        exact h.apart y hy z ((hheld z hz).resolve_left hzx) hyz p
  · exact (h.kept hr.changes hy (hold y hy hyx)).2

theorem other_changes (h : Sound segment w) {ev : XheapEvent}
    (hadm : w.Admissible segment (.other ev)) (hstep : w.heap.Step64 ev heap) :
    w.heap.Changes heap (w.Unowned segment) := by
  obtain ⟨L, hi⟩ := h.inv
  cases ev with
  | allocate bytes ret =>
    obtain ⟨m, heap', hcall, rfl⟩ := hstep
    exact (Tame.changes hadm hi h.unit hcall).1.mono fun p hp => hp.elim
  | free ptr =>
    obtain ⟨m, hfree, rfl⟩ := hstep
    obtain ⟨m', hfree', hchanges⟩ := free64_live hi h.unit hadm.1
    obtain rfl := Option.some.inj (hfree'.symm.trans hfree)
    exact hchanges.mono fun p hp => hp ▸ hadm.2
  | write m =>
    obtain rfl := hstep
    exact (changes_write hi _ hadm).1

/-- Every admissible event keeps the requests apart, and the requests it is not for as they
were. -/
theorem Sound.step (h : Sound segment w) {ev : PayloadEvent} (hadm : w.Admissible segment ev)
    (hstep : w.Step segment ev w') :
    Sound segment w' ∧
      ∀ y ∈ w.held, ev.request ≠ some y → SameContents segment w w' y := by
  obtain ⟨L, hi⟩ := h.inv
  have hown (x : xptr) (hx : x ∈ w.held) (heap : XheapSession) (req : Payload)
      (hr : Renews segment w.heap heap (w.reqs x) req) :
      Sound segment (w.renew x heap req w.held) ∧ ∀ y ∈ w.held, (some x : Option xptr) ≠ some y →
        SameContents segment w (w.renew x heap req w.held) y := by
    obtain ⟨hsound, hsame⟩ := h.renew hr (fun y hy hyx p hp => h.apart y hy x hx hyx p hp)
      (fun y hy => .inr hy) fun y hy _ => hy
    exact ⟨hsound, fun y hy hne => hsame y hy fun hyx => hne (congrArg some hyx.symm)⟩
  cases ev with
  | get x =>
    obtain rfl := hstep
    have hr : Renews segment w.heap w.heap fresh fresh :=
      ⟨.refl hi _, owned_empty rfl rfl, fun p _ _ => not_has rfl p⟩
    obtain ⟨hsound, hsame⟩ := h.renew (x := x) hr (fun y _ _ p _ => not_has rfl p)
      (fun y hy => List.mem_cons.mp hy) fun y hy _ => List.mem_cons_of_mem x hy
    exact ⟨hsound, fun y hy _ => hsame y hy fun hyx => hadm (hyx ▸ hy)⟩
  | prep x targetlen datalen ret =>
    obtain ⟨heap, req, hcall, rfl⟩ := hstep
    obtain ⟨hx, hsum, htame⟩ := hadm
    obtain ⟨ret', heap', req', hcall', hr⟩ := prepRequest_renews _ hi h.unit h.base hsum htame
    rw [hcall] at hcall'
    cases hcall'
    exact hown x hx _ _ hr
  | resize x targetlen datalen ret =>
    obtain ⟨heap, req, hcall, rfl⟩ := hstep
    obtain ⟨hx, hsum, htame⟩ := hadm
    obtain ⟨ret', heap', req', hcall', hr⟩ :=
      resizeRequest_renews hi h.unit h.base (h.owned x hx) hsum htame
    rw [hcall] at hcall'
    cases hcall'
    exact hown x hx _ _ hr
  | fill x req m =>
    obtain rfl := hstep
    obtain ⟨hx, hsame, hm⟩ := hadm
    exact hown x hx _ _ (fill_renews hi (h.owned x hx) hsame hm)
  | put x =>
    obtain ⟨heap, hrelease, rfl⟩ := hstep
    obtain ⟨heap', hrelease', hempty⟩ := release_renews hi h.unit (h.owned x hadm)
    obtain rfl := Option.some.inj (hrelease'.symm.trans hrelease)
    obtain ⟨hsound, hsame⟩ := h.renew (hempty (w.reqs x).emptied rfl rfl)
      (fun y hy hyx p hp => h.apart y hy x hadm hyx p hp)
      (fun y hy => .inr (List.mem_filter.mp hy).1)
      fun y hy hyx => List.mem_filter.mpr ⟨hy, decide_eq_true hyx⟩
    exact ⟨hsound, fun y hy hne => hsame y hy fun hyx => hne (congrArg some hyx.symm)⟩
  | other ev =>
    obtain ⟨heap, hstep, rfl⟩ := hstep
    have hchanges := other_changes h hadm hstep
    have hout (y : xptr) (hy : y ∈ w.held) (p : Nat) (hp : (w.reqs y).Has segment p) :
        ¬ w.Unowned segment p := fun hun => hun y hy hp
    refine ⟨⟨hchanges.inv, hchanges.unit h.unit, hchanges.base h.base, fun y hy => ?_, h.apart⟩,
      fun y hy _ => ⟨hy, rfl, (h.kept hchanges hy (hout y hy)).2⟩⟩
    exact (h.kept hchanges hy (hout y hy)).1

theorem Sound.isolated (h : Sound segment w) : w.Isolated segment := by
  obtain ⟨L, hi⟩ := h.inv
  refine ⟨fun x hx hbuffer => (h.owned x hx).laidOut hbuffer, fun x hx y hy hxy => ?_,
    fun x hx => ?_⟩
  · refine Set.disjoint_left.mpr fun a ha ha' => ?_
    have hp := has_of_mem_region (h.owned x hx) ha
    have hq := has_of_mem_region (h.owned y hy) ha'
    obtain ⟨hlive, hsize⟩ := (h.owned x hx).live _ hp
    obtain ⟨hlive', hsize'⟩ := (h.owned y hy).live _ hq
    have hin := hp.region_addr ((h.owned x hx).fit hi hp) ha
    have hin' := hq.region_addr ((h.owned y hy).fit hi hq) ha'
    have hne : (w.reqs x).bufferAddr segment ≠ (w.reqs y).bufferAddr segment :=
      fun heq => h.apart x hx y hy hxy _ hp (heq ▸ hq)
    have := hi.shape.apart _ (hlive.mem_chunks hi) _ (hlive'.mem_chunks hi) hne
    omega
  · obtain ⟨heap, hrelease, -⟩ := release_renews hi h.unit (h.owned x hx)
    exact ⟨heap, hrelease⟩

def start (heap : XheapSession) (reqs : xptr → Payload) : PayloadWorld := ⟨heap, reqs, []⟩

section Runs
variable {m0 m : Memory} {addr size alignment_unit mem : Nat} {heap : Xheap}
  {reqs : xptr → Payload} {evs evs' : List PayloadEvent}

theorem sound_start (hb : ValidBlock addr size alignment_unit mem)
    (h : init m0 addr size alignment_unit mem = (0, m, heap)) (hbase : segment.toNat ≤ heap.mem) :
    Sound segment (start (XheapSession.start m heap) reqs) := by
  refine ⟨⟨_, inv_init hb h⟩, ?_, hbase, fun x hx => ?_, fun x hx => ?_⟩
  · show heap.alignment_unit ≤ 20
    rw [init_unit h]
    exact hb.unit_le
  · exact absurd hx List.not_mem_nil
  · exact absurd hx List.not_mem_nil

theorem run_sound (hrun : Run (Guarded (Step segment) (Admissible segment)) w evs w')
    (h : Sound segment w) : Sound segment w' :=
  hrun.invariant (fun h hstep => (h.step hstep.1 hstep.2).1) h

/-- In every run, the data and the target of each request that is held lie apart in a buffer that
is its own. -/
theorem run_isolated (hb : ValidBlock addr size alignment_unit mem)
    (h : init m0 addr size alignment_unit mem = (0, m, heap)) (hbase : segment.toNat ≤ heap.mem)
    (hrun : Run (Guarded (Step segment) (Admissible segment))
      (start (XheapSession.start m heap) reqs) evs w) : w.Isolated segment :=
  (run_sound hrun (sound_start hb h hbase)).isolated

/-- While only others are called for, a request that is held keeps its fields and every byte of its
buffer. -/
theorem run_contents (hb : ValidBlock addr size alignment_unit mem)
    (h : init m0 addr size alignment_unit mem = (0, m, heap)) (hbase : segment.toNat ≤ heap.mem)
    (hrun : Run (Guarded (Step segment) (Admissible segment))
      (start (XheapSession.start m heap) reqs) evs w)
    (hrest : Run (Guarded (Step segment) (Admissible segment)) w evs' w') (hx : x ∈ w.held)
    (hothers : ∀ ev ∈ evs', ev.request ≠ some x) : SameContents segment w w' x := by
  have hsound := run_sound hrun (sound_start hb h hbase)
  clear hrun
  induction hrest with
  | refl => exact ⟨hx, rfl, fun a _ => rfl⟩
  | @snoc t u as ev hprefix hstep ih =>
    obtain ⟨hheld, hreq, hbytes⟩ :=
      ih fun ev hev => hothers ev (List.mem_append_left _ hev)
    obtain ⟨hheld', hreq', hbytes'⟩ := ((run_sound hprefix hsound).step hstep.1 hstep.2).2 x hheld
      (hothers ev (List.mem_append_right _ List.mem_cons_self))
    rw [hreq] at hreq' hbytes'
    exact ⟨hheld', hreq', fun a ha => (hbytes' a ha).trans (hbytes a ha)⟩

end Runs

theorem allocBuffer_of_prep {s s' : XheapSession} {req req' : Payload} {targetlen : UInt32}
    {datalen : UInt64} {ret : Int}
    (h : prepRequest segment s req targetlen datalen = some (ret, s', req')) :
    ∃ buf, s.allocBuffer (targetlen.toUInt64 + datalen).toNat = some (buf, s') := by
  rcases hcall : allocate64 s.memory s.heap (targetlen.toUInt64 + datalen).toNat with ⟨buf, m, heap⟩
  refine ⟨buf, ?_⟩
  rw [allocBuffer_eq, hcall]
  by_cases hbuf : buf = 0
  · subst hbuf
    rw [prepRequest_null hcall] at h
    cases h
    rfl
  · obtain ⟨req₁, hprep, -⟩ := prepRequest_given segment req hbuf hcall
    rw [hprep] at h
    cases h
    rfl

def smallFirst : XheapSession :=
  XheapSession.start XheapSession.smallStart.2.1 (XheapSession.smallHeap 456)

theorem prep_small : ∃ req, prepRequest 0 smallFirst fresh 8 32 = some (0, smallSession, req) ∧
    req.buffer ≠ 0 := by
  have hresult : (prepRequest 0 smallFirst fresh 8 32).map (fun r => (r.1, r.2.2.buffer)) =
      some (0, 4576) := by decide +kernel
  obtain ⟨⟨ret, s', req⟩, hprep, hret⟩ := Option.map_eq_some_iff.mp hresult
  obtain ⟨rfl, hbuffer⟩ := Prod.mk.inj hret
  obtain ⟨buf, halloc⟩ := allocBuffer_of_prep hprep
  have hsession : smallSession = s' := by
    unfold smallSession
    rw [show XheapSession.allocBuffer (XheapSession.start XheapSession.smallStart.2.1
      (XheapSession.smallHeap 456)) 40 = some (buf, s') from halloc]
    rfl
  refine ⟨req, hsession ▸ hprep, fun h0 => ?_⟩
  rw [h0] at hbuffer
  exact absurd hbuffer (by decide)

theorem tame_smallFirst : smallFirst.Tame ((8 : UInt32).toUInt64 + 32).toNat := by
  unfold Tame
  decide +kernel

theorem tame_smallSession : smallSession.Tame ((8 : UInt32).toUInt64 + 32).toNat := by
  unfold Tame
  decide +kernel

theorem run_small : ∃ w, Run (Guarded (Step 0) (Admissible 0)) (start smallFirst fun _ => fresh)
      [.get 1, .prep 1 8 32 0, .get 2] w ∧ w.heap = smallSession ∧ w.held = [2, 1] ∧
    (w.reqs 1).buffer ≠ 0 ∧ w.reqs 2 = fresh := by
  obtain ⟨req, hprep, hbuffer⟩ := prep_small
  generalize hw : (start smallFirst fun _ => fresh).renew 1 smallFirst fresh [1] = w
  have hheap : w.heap = smallFirst := by
    rw [← hw, renew_heap]
  have hheld : w.held = [1] := by
    rw [← hw, renew_held]
  have hfirst : w.reqs 1 = fresh := by
    rw [← hw, renew_same]
  have hget : Guarded (Step 0) (Admissible 0) (start smallFirst fun _ => fresh) (.get 1) w :=
    ⟨List.not_mem_nil, hw.symm⟩
  have hprepped : Guarded (Step 0) (Admissible 0) w (.prep 1 8 32 0)
      (w.renew 1 smallSession req w.held) := by
    refine ⟨⟨?_, by decide, ?_⟩, smallSession, req, ?_, rfl⟩
    · rw [hheld]
      decide
    · rw [hheap]
      exact tame_smallFirst
    · rw [hheap, hfirst]
      exact hprep
  generalize hw' : w.renew 1 smallSession req w.held = w' at hprepped
  have hheap' : w'.heap = smallSession := by
    rw [← hw', renew_heap]
  have hheld' : w'.held = [1] := by
    rw [← hw', renew_held, hheld]
  have hbuffer' : (w'.reqs 1).buffer ≠ 0 := by
    rw [← hw', renew_same]
    exact hbuffer
  have hagain : Guarded (Step 0) (Admissible 0) w' (.get 2)
      (w'.renew 2 w'.heap fresh (2 :: w'.held)) := by
    refine ⟨?_, rfl⟩
    show 2 ∉ w'.held
    rw [hheld']
    decide
  refine ⟨_, .cons hget (.cons hprepped (.single hagain)), hheap', congrArg (2 :: ·) hheld', ?_,
    renew_same ..⟩
  rw [renew_other (by decide)]
  exact hbuffer'

theorem small_base : (0 : UInt64).toNat ≤ (XheapSession.smallHeap 456).mem := by
  decide

theorem run_isolated_both : ∃ w, Run (Guarded (Step 0) (Admissible 0))
      (start smallFirst fun _ => fresh) [.get 1, .prep 1 8 32 0, .get 2, .prep 2 8 32 0] w ∧
    w.held = [2, 1] ∧ (w.reqs 1).buffer ≠ 0 ∧ (w.reqs 2).buffer ≠ 0 ∧ w.Isolated 0 := by
  obtain ⟨w, hrun, hheap, hheld, hbuffer, hfresh⟩ := run_small
  have hresult : (prepRequest 0 smallSession fresh 8 32).map (fun r => (r.1, r.2.2.buffer)) =
      some (0, 4640) := by decide +kernel
  obtain ⟨⟨ret, heap, req⟩, hprep, hret⟩ := Option.map_eq_some_iff.mp hresult
  obtain ⟨rfl, hsecond⟩ := Prod.mk.inj hret
  have hstep : Guarded (Step 0) (Admissible 0) w (.prep 2 8 32 0)
      (w.renew 2 heap req w.held) := by
    refine ⟨⟨?_, by decide, ?_⟩, heap, req, ?_, rfl⟩
    · rw [hheld]
      decide
    · rw [hheap]
      exact tame_smallSession
    · rw [hheap, hfresh]
      exact hprep
  have hwhole := hrun.snoc hstep
  refine ⟨_, hwhole, ?_, ?_, ?_,
    run_isolated XheapSession.smallBlock XheapSession.smallStart_eq small_base hwhole⟩
  · rw [renew_held, hheld]
  · rw [renew_other (by decide)]
    exact hbuffer
  · rw [renew_same]
    intro hzero
    rw [hzero] at hsecond
    exact absurd hsecond (by decide)

/-- Request 2 gets a buffer and is put, and request 1 does not notice. -/
theorem run_contents_small : ∃ w ret w', Run (Guarded (Step 0) (Admissible 0))
      (start smallFirst fun _ => fresh) [.get 1, .prep 1 8 32 0, .get 2] w ∧
    Run (Guarded (Step 0) (Admissible 0)) w [.prep 2 8 32 ret, .put 2] w' ∧
    SameContents 0 w w' 1 := by
  obtain ⟨w, hrun, hheap, hheld, -, hfresh⟩ := run_small
  have hsound := run_sound hrun
    (sound_start XheapSession.smallBlock XheapSession.smallStart_eq small_base)
  obtain ⟨L, hi⟩ := hsound.inv
  have hmem : (2 : xptr) ∈ w.held := by
    rw [hheld]
    decide
  have htame : w.heap.Tame ((8 : UInt32).toUInt64 + 32).toNat := hheap ▸ tame_smallSession
  obtain ⟨ret, heap, req, hprep, -⟩ :=
    prepRequest_renews (w.reqs 2) hi hsound.unit hsound.base (by decide) htame
  have hstep : Guarded (Step 0) (Admissible 0) w (.prep 2 8 32 ret) (w.renew 2 heap req w.held) :=
    ⟨⟨hmem, by decide, htame⟩, heap, req, hprep, rfl⟩
  obtain ⟨hsound', -⟩ := hsound.step hstep.1 hstep.2
  obtain ⟨L', hi'⟩ := hsound'.inv
  obtain ⟨heap', hrelease, -⟩ := release_renews hi' hsound'.unit (hsound'.owned 2 hmem)
  have hrest : Run (Guarded (Step 0) (Admissible 0)) w [.prep 2 8 32 ret, .put 2] _ :=
    .cons hstep (.single ⟨hmem, heap', hrelease, rfl⟩)
  refine ⟨w, ret, _, hrun, hrest, run_contents XheapSession.smallBlock XheapSession.smallStart_eq
    small_base hrun hrest ?_ ?_⟩
  · rw [hheld]
    decide
  · intro ev hev
    have hrequest : ev.request = some 2 := by
      rcases List.mem_cons.mp hev with rfl | hev
      · rfl
      · rw [List.mem_singleton.mp hev]
        rfl
    rw [hrequest]
    decide

end PayloadWorld

end Libxseg
