import Libxseg.XsegDangling
import Libxseg.XsegSized

/-!
# Recovery of the requests of a port

When a peer is gone, the tool fails the requests that went through its port last and that are
neither queued nor free. What it does to such a request is what the peer that has it could have
done: respond, or put the request back. The tool holds the lock of the request handler meanwhile,
so a request that would have to go back to the handler makes it wait for itself.
-/

namespace Libxseg

set_option autoImplicit false

open Xseg

def XS_SERVED : UInt32 := (1 : UInt32) <<< 0
def XS_FAILED : UInt32 := (1 : UInt32) <<< 1

/-- The actions of `enum req_action` that finish a request. -/
inductive ReqAction where
  | fail
  | complete
  deriving DecidableEq

/-- The assignments of `finish_req`. -/
def Payload.finished (req : Payload) (action : ReqAction) : Payload :=
  let state :=
    if action = .complete then (req.state &&& ~~~XS_FAILED) ||| XS_SERVED
    else (req.state ||| XS_FAILED) &&& ~~~XS_SERVED
  { req with state := state, serviced := 0 }

namespace Xseg

/-- `finish_req`; the result is `some src` if the free queue of `src` is full, and then the request
has still to be given back to the handler. -/
def finishReq [Builtins] (s : Xseg) (xreq : xptr) (action : ReqAction) (srcport : xport)
    (chunk : QueueChunk) : Option xport × Xseg :=
  let req := s.requests xreq
  let s := s.setRequest xreq { req with toPayload := req.toPayload.finished action }
  let (p, s) := s.respond xreq srcport X_ALLOC chunk
  if p = NoPort then
    match s.putFree xreq with
    | none => (none, s)
    | some (src, xqi, s) => (if xqi = Noneidx then some src else none, s)
  else (none, s)

/-- The loop of `cmd_recoverport` and `cmd_verify` over the objects of the handler, whose lock they
hold. `pick` says which of the stray requests are failed, `chunks` what the heap answers to each call
of `xseg_respond`, and `none` that the tool never returns. -/
def failStray [Builtins] (pick : xptr → Request → Bool) (srcport : xport)
    (chunks : Xseg → xptr → QueueChunk) (s : Xseg) : List xptr → Option Xseg
  | [] => some s
  | req :: objs =>
    if s.isStray req && pick req (s.requests req) then
      match s.finishReq req .fail srcport (chunks s req) with
      | (some _, _) => none
      | (none, s) => failStray pick srcport chunks s objs
    else failStray pick srcport chunks s objs

def recoverport [Builtins] (portno srcport : xport) (chunks : Xseg → xptr → QueueChunk) (s : Xseg)
    (objs : List xptr) : Option Xseg :=
  s.failStray (fun _ req => req.transitPortno = portno) srcport chunks objs

/-- `cmd_verify(1)` after the locks; `answer` is what the user says. -/
def verifyFix [Builtins] (answer : xptr → Bool) (srcport : xport)
    (chunks : Xseg → xptr → QueueChunk) (s : Xseg) (objs : List xptr) : Option Xseg :=
  s.failStray (fun req _ => answer req) srcport chunks objs

end Xseg

variable {ι : Type}

structure Tidy (w : World ι) : Prop where
  keeping : ∃ a, Keeping w a
  sourced : Sourced w
  sized : w.seg.Sized
  idle : ∀ i, (w.peers i).pc = .idle

/-- The handler and the requests outside `picked` are what they were, and these are where they
were. -/
structure Spares (picked : xptr → Prop) (w w' : World ι) : Prop where
  handler : w'.seg.requestH = w.seg.requestH
  requests : ∀ x, ¬ picked x → w'.seg.requests x = w.seg.requests x
  places : ∀ x, ¬ picked x → ∀ pl, x ∈ contents w' pl ↔ x ∈ contents w pl

structure Finished (picked : xptr → Prop) (w w' : World ι) : Prop where
  spares : Spares picked w w'
  queued : ∀ x, picked x → ∃ p kind, x ∈ w'.seg.bag p kind

theorem Spares.trans {picked : xptr → Prop} {w w₁ w' : World ι} (h : Spares picked w w₁)
    (h' : Spares picked w₁ w') : Spares picked w w' where
  handler := h'.handler.trans h.handler
  requests x hx := (h'.requests x hx).trans (h.requests x hx)
  places x hx pl := (h'.places x hx pl).trans (h.places x hx pl)

/-- What `chunks` answers are chunks of the heap for a queue of twice the size, below 16 GiB. -/
structure FromHeaps (chunks : Xseg → xptr → QueueChunk) : Prop where
  small : ∀ s x, SmallChunk (chunks s x)
  doubled : ∀ s x, DoubledReply s x (chunks s x)

def Orderly (w : World ι) (b : ι × Event) : Prop := w.seg.Sized ∧ b.2.Mapped w.seg

variable {w w' : World ι} {a a' : Flow ι} {i : ι} {x y : xptr} {e : Event} {s' : Xseg}
  {action : ReqAction} {srcport portno r : xport} {chunk : QueueChunk}
  {chunks : Xseg → xptr → QueueChunk}

def Event.Finishes (x : xptr) : Event → Prop
  | fill y => y = x
  | respond y _ _ _ => y = x
  | put y => y = x
  | _ => False

theorem FlowStep.place_eq (h : FlowStep a (i, e) a') (he : e.Finishes x) (hy : y ≠ x) :
    a'.place y = a.place y := by
  cases h with
  | still _ => rfl
  | respond _ _ _ _ =>
    obtain rfl := he
    exact Flow.place_move_of_ne hy
  | trim _ _ =>
    obtain rfl := he
    exact Flow.place_move_of_ne hy
  | put _ =>
    obtain rfl := he
    exact Flow.place_move_of_ne hy
  | _ => exact absurd he id

theorem Spares.isStray {picked : xptr → Prop} (h : Spares picked w w') (hw : w.seg.Wf)
    (hw' : w'.seg.Wf) (hx : ¬ picked x) : w'.seg.isStray x = w.seg.isStray x := by
  have hbag (p : xport) (kind : QueueKind) : x ∈ w'.seg.bag p kind ↔ x ∈ w.seg.bag p kind :=
    h.places x hx (.queue p kind)
  rw [Bool.eq_iff_iff, isStray_iff hw', isStray_iff hw, h.handler]
  simp only [hbag]

theorem Tidy.stray_iff (h : Tidy w) (hx : x ∈ w.seg.requestH.objects) :
    w.seg.isStray x = true ↔ ∃ i, x ∈ (w.peers i).hands := by
  obtain ⟨a, ha⟩ := h.keeping
  rw [ha.stray_iff hx]
  constructor
  · rintro ⟨i, hhand | hheld⟩
    · exact ⟨i, hhand⟩
    · rw [h.idle i] at hheld
      exact absurd hheld (Multiset.notMem_zero x)
  · exact fun ⟨i, hhand⟩ => ⟨i, .inl hhand⟩

def Picked (pick : xptr → Request → Bool) (w : World ι) (objs : List xptr) (x : xptr) : Prop :=
  x ∈ objs ∧ w.seg.isStray x = true ∧ pick x (w.seg.requests x) = true

theorem not_isStray {s : Xseg} {p : xport} {kind : QueueKind} (hs : s.Wf) (hx : x ∈ s.bag p kind) :
    s.isStray x ≠ true := fun h => ((isStray_iff hs).mp h).1 p kind hx

theorem Finished.cons {pick : xptr → Request → Bool} {objs : List xptr} {w₁ : World ι}
    (hy : Picked pick w (y :: objs) y) (hw : w.seg.Wf) (hw₁ : w₁.seg.Wf)
    (h : Finished (· = y) w w₁) (h' : Finished (Picked pick w₁ objs) w₁ w') :
    Finished (Picked pick w (y :: objs)) w w' := by
  obtain ⟨p, kind, hbag⟩ := h.queued y rfl
  have hdone : ¬ Picked pick w₁ objs y := fun hp => not_isStray hw₁ hbag hp.2.1
  have hlater {x : xptr} (hx : Picked pick w₁ objs x) : Picked pick w (y :: objs) x := by
    by_cases hxy : x = y
    · rw [hxy]
      exact hy
    · obtain ⟨hmem, hstray, hpick⟩ := hx
      rw [h.spares.isStray hw hw₁ hxy] at hstray
      rw [h.spares.requests x hxy] at hpick
      exact ⟨List.mem_cons_of_mem y hmem, hstray, hpick⟩
  have hspared {x : xptr} (hx : ¬ Picked pick w (y :: objs) x) :
      x ≠ y ∧ ¬ Picked pick w₁ objs x := by
    refine ⟨fun hxy => hx ?_, fun hp => hx (hlater hp)⟩
    rw [hxy]
    exact hy
  refine ⟨⟨h'.spares.handler.trans h.spares.handler, fun x hx => ?_, fun x hx pl => ?_⟩,
    fun x hx => ?_⟩
  · obtain ⟨hxy, hp⟩ := hspared hx
    exact (h'.spares.requests x hp).trans (h.spares.requests x hxy)
  · obtain ⟨hxy, hp⟩ := hspared hx
    exact (h'.spares.places x hp pl).trans (h.spares.places x hxy pl)
  · by_cases hxy : x = y
    · rw [hxy]
      exact ⟨p, kind, (h'.spares.places y hdone (.queue p kind)).mpr hbag⟩
    · obtain ⟨hmem, hstray, hpick⟩ := hx
      refine h'.queued x ⟨(List.mem_cons.mp hmem).resolve_left hxy, ?_, ?_⟩
      · rw [h.spares.isStray hw hw₁ hxy]
        exact hstray
      · rw [h.spares.requests x hxy]
        exact hpick

variable [DecidableEq ι] [Builtins]

theorem Tidy.step (h : Tidy w) (he : e.Finishes x) (hstep : w.Step (i, e) w')
    (hsized : w'.seg.Sized) (hidle : (w'.peers i).pc = .idle) (hframe : Frame w.seg w'.seg x) :
    Tidy w' ∧ Guarded World.Step Orderly w (i, e) w' ∧ Spares (· = x) w w' := by
  obtain ⟨a, ha⟩ := h.keeping
  have hmapped : e.Mapped w.seg := by
    cases e with
    | miss _ _ _ => exact absurd he id
    | got _ _ _ _ => exact absurd he id
    | refused _ _ _ _ => exact absurd he id
    | _ => trivial
  obtain ⟨a', hflow, hr'⟩ := hstep.simulates ha.refines h.sized
  refine ⟨⟨ha.step h.sized hmapped hstep, h.sourced.step ha.refines h.sized hstep, hsized,
    fun j => ?_⟩, ⟨⟨h.sized, hmapped⟩, hstep⟩, hframe.objects, fun y hy => hframe.others hy,
    fun y hy pl => ?_⟩
  · by_cases hj : j = i
    · rw [hj]
      exact hidle
    · rw [hstep.peers_of_ne hj]
      exact h.idle j
  · rw [hr'.mem_iff, hflow.place_eq he hy, ha.refines.mem_iff]

theorem Tidy.fill (h : Tidy w) (hx : x ∈ (w.peers i).hands) (payload : Payload) :
    ∃ w', w'.seg = w.seg.setRequest x { w.seg.requests x with toPayload := payload } ∧
      (w'.peers i).hands = (w.peers i).hands ∧ Tidy w' ∧
      Guarded World.Step Orderly w (i, .fill x) w' ∧ Spares (· = x) w w' := by
  obtain ⟨a, ha⟩ := h.keeping
  refine ⟨_, rfl, ?_, h.step (e := .fill x) rfl (World.Step.fill payload (h.idle i) hx) h.sized ?_
    (ha.refines.wf.setRequest x _)⟩
  · rw [act_peers_self]
  · rw [act_peers_self]

omit [DecidableEq ι] [Builtins] in
theorem respondTo_congr {s t : Xseg} (h : ∀ p, t.getPort p = s.getPort p) (path : Xq) :
    t.respondTo path = s.respondTo path := by
  induction path using respondTo.induct s with
  | case1 path hnil =>
    unfold respondTo
    rw [if_pos hnil, if_pos hnil]
  | case2 path hne dst hport =>
    unfold respondTo
    rw [if_neg hne, if_neg hne]
    dsimp only
    rw [h, show s.getPort path.peekHead.toUInt32 = none from hport]
  | case3 path hne dst port hport hflags ih =>
    unfold respondTo
    rw [if_neg hne, if_neg hne]
    dsimp only
    rw [h, show s.getPort path.peekHead.toUInt32 = some port from hport]
    dsimp only
    rw [if_pos hflags, if_pos hflags, ih]
  | case4 path hne dst port hport hflags =>
    unfold respondTo
    rw [if_neg hne, if_neg hne]
    dsimp only
    rw [h, show s.getPort path.peekHead.toUInt32 = some port from hport]
    dsimp only
    rw [if_neg hflags, if_neg hflags]

omit [DecidableEq ι] [Builtins] in
/-- The ports that a reply may go to do not depend on what the request carries. -/
theorem doubledReply_fill {s : Xseg} (h : s.DoubledReply x chunk) (payload : Payload) :
    (s.setRequest x { s.requests x with toPayload := payload }).DoubledReply x chunk := by
  intro p port path hto
  obtain ⟨t, ht⟩ : ∃ t, t = s.setRequest x { s.requests x with toPayload := payload } := ⟨_, rfl⟩
  have hports (q : xport) : t.getPort q = s.getPort q := by
    rw [ht]
    rfl
  rw [requests_setRequest, ← ht, respondTo_congr hports] at hto
  exact h p port path hto

theorem Tidy.respond (h : Tidy w) (hx : x ∈ (w.peers i).hands) (hchunk : SmallChunk chunk)
    (hheap : w.seg.DoubledReply x chunk) (hcall : w.seg.respond x srcport X_ALLOC chunk = (r, s')) :
    ∃ w', w'.seg = s' ∧ (r = NoPort → (w'.peers i).hands = (w.peers i).hands) ∧
      (r ≠ NoPort → x ∈ w'.seg.bag r .reply) ∧ Tidy w' ∧
      Guarded World.Step Orderly w (i, .respond x srcport X_ALLOC r) w' ∧
      Spares (· = x) w w' := by
  obtain ⟨a, ha⟩ := h.keeping
  have hplace := ha.refines.in_hand hx
  have htracks := ha.refines.tracks hplace trivial
  obtain ⟨r', s'', hres, hspec⟩ := respond_spec X_ALLOC ha.refines.wf h.sized
    (ha.refines.ne_noneidx hplace) htracks srcport chunk
  obtain ⟨rfl, rfl⟩ := Prod.mk.inj (hres.symm.trans hcall)
  refine ⟨_, rfl, fun hr => ?_, fun hr => ?_, h.step (e := .respond x srcport X_ALLOC r') rfl
    (World.Step.respond (h.idle i) hx hheap hres) ?_ ?_ hspec.frame⟩
  · rw [act_peers_self, World.after, if_pos hr]
  · rw [act_seg, hspec.bags.into hr]
    exact Multiset.mem_cons_self x _
  · exact Sized.respond h.sized hchunk htracks.path hres
  · rw [act_peers_self]

theorem Tidy.put {src : xport} {xqi : xqindex} (h : Tidy w) (hx : x ∈ (w.peers i).hands)
    (hput : w.seg.putFree x = some (src, xqi, s')) (hxqi : xqi ≠ Noneidx) :
    ∃ w', w'.seg = s' ∧ x ∈ w'.seg.bag src .free ∧ Tidy w' ∧
      Guarded World.Step Orderly w (i, .put x) w' ∧ Spares (· = x) w w' := by
  obtain ⟨a, ha⟩ := h.keeping
  obtain ⟨hframe, hbags⟩ := putFree_spec ha.refines.wf h.sized
    (ha.refines.ne_noneidx (ha.refines.in_hand hx)) hput
  refine ⟨_, rfl, ?_, h.step (e := .put x) rfl
    (World.Step.put (.held (h.idle i) hx) hput hxqi) (Sized.putFree h.sized hput) ?_ hframe⟩
  · rw [act_seg, hbags.into hxqi]
    exact Multiset.mem_cons_self x _
  · rw [act_peers_self]

/-- The tool finishes a request in the place of the peer that has it. -/
theorem Tidy.finish (h : Tidy w) (hx : x ∈ (w.peers i).hands) (hchunk : SmallChunk chunk)
    (hheap : w.seg.DoubledReply x chunk) (hcall : w.seg.finishReq x action srcport chunk = (none, s')) :
    ∃ bs w', Run (Guarded World.Step Orderly) w bs w' ∧ w'.seg = s' ∧ Tidy w' ∧
      Finished (· = x) w w' := by
  obtain ⟨w₁, hseg₁, hhands₁, h₁, hstep₁, hspares₁⟩ :=
    h.fill hx ((w.seg.requests x).toPayload.finished action)
  unfold finishReq at hcall
  dsimp only at hcall
  rw [← hseg₁] at hcall
  rcases hres : w₁.seg.respond x srcport X_ALLOC chunk with ⟨r, s₂⟩
  rw [hres] at hcall
  obtain ⟨w₂, rfl, hhands₂, hbag₂, h₂, hstep₂, hspares₂⟩ :=
    h₁.respond (hhands₁ ▸ hx) hchunk (by rw [hseg₁]; exact doubledReply_fill hheap _) hres
  dsimp only at hcall
  by_cases hr : r = NoPort
  · have hx₂ : x ∈ (w₂.peers i).hands := by
      rw [hhands₂ hr, hhands₁]
      exact hx
    rw [if_pos hr] at hcall
    cases hput : w₂.seg.putFree x with
    | none => exact absurd hput (h₂.sourced.putFree hx₂)
    | some result =>
      obtain ⟨src, xqi, s₃⟩ := result
      rw [hput] at hcall
      have hxqi : xqi ≠ Noneidx := by
        intro hnone
        rw [hnone] at hcall
        cases congrArg Prod.fst hcall
      obtain ⟨w₃, rfl, hbag₃, h₃, hstep₃, hspares₃⟩ := h₂.put hx₂ hput hxqi
      exact ⟨_, w₃, .cons hstep₁ (.cons hstep₂ (.single hstep₃)), congrArg Prod.snd hcall, h₃,
        (hspares₁.trans hspares₂).trans hspares₃, fun y hy => ⟨src, .free, hy ▸ hbag₃⟩⟩
  · rw [if_neg hr] at hcall
    exact ⟨_, w₂, .cons hstep₁ (.single hstep₂), congrArg Prod.snd hcall, h₂,
      hspares₁.trans hspares₂, fun y hy => ⟨r, .reply, hy ▸ hbag₂ hr⟩⟩

theorem Tidy.failStray {pick : xptr → Request → Bool} {objs : List xptr} (h : Tidy w)
    (hchunks : FromHeaps chunks) (hobjs : ∀ x ∈ objs, x ∈ w.seg.requestH.objects)
    (hcall : w.seg.failStray pick srcport chunks objs = some s') :
    ∃ bs w', Run (Guarded World.Step Orderly) w bs w' ∧ w'.seg = s' ∧ Tidy w' ∧
      Finished (Picked pick w objs) w w' := by
  induction objs generalizing w with
  | nil =>
    obtain rfl := Option.some.inj hcall
    refine ⟨[], w, .refl w, rfl, h, ⟨rfl, fun _ _ => rfl, fun _ _ _ => Iff.rfl⟩, fun x hx => ?_⟩
    exact absurd hx.1 List.not_mem_nil
  | cons y objs ih =>
    obtain ⟨hy, hobjs⟩ := List.forall_mem_cons.mp hobjs
    rw [Xseg.failStray] at hcall
    by_cases hpick : (w.seg.isStray y && pick y (w.seg.requests y)) = true
    · rw [if_pos hpick] at hcall
      obtain ⟨hstray, hpicked⟩ := Bool.and_eq_true_iff.mp hpick
      obtain ⟨i, hhand⟩ := (h.stray_iff hy).mp hstray
      rcases hfinish : w.seg.finishReq y .fail srcport (chunks w.seg y) with ⟨full, s₁⟩
      rw [hfinish] at hcall
      cases full with
      | some src => cases hcall
      | none =>
        obtain ⟨bs₁, w₁, hrun₁, rfl, h₁, hfinished₁⟩ := h.finish hhand
          (hchunks.small _ y) (hchunks.doubled _ y) hfinish
        obtain ⟨bs₂, w', hrun₂, hseg, h', hfinished₂⟩ :=
          ih h₁ (by rw [hfinished₁.spares.handler]; exact hobjs) hcall
        obtain ⟨a, ha⟩ := h.keeping
        obtain ⟨a₁, ha₁⟩ := h₁.keeping
        exact ⟨bs₁ ++ bs₂, w', hrun₁.trans hrun₂, hseg, h', .cons
          ⟨List.mem_cons_self, hstray, hpicked⟩ ha.refines.wf ha₁.refines.wf hfinished₁ hfinished₂⟩
    · rw [if_neg hpick] at hcall
      obtain ⟨bs, w', hrun, hseg, h', hfinished⟩ := ih h hobjs hcall
      refine ⟨bs, w', hrun, hseg, h', ?_⟩
      have hsame : Picked pick w (y :: objs) = Picked pick w objs := by
        funext x
        refine propext ⟨fun hx => ⟨?_, hx.2⟩, fun hx => ⟨List.mem_cons_of_mem y hx.1, hx.2⟩⟩
        refine (List.mem_cons.mp hx.1).resolve_left fun hxy => ?_
        subst hxy
        exact hpick (Bool.and_eq_true_iff.mpr hx.2)
      rw [hsame]
      exact hfinished

/-- The tool finds no call in progress, and the loop comes to an end: what it does is a run of the
peers that have the requests. It leaves the other requests as they were, and afterwards exactly those
are stray that it was not to fail. -/
theorem run_failStray {pick : xptr → Request → Bool} {objs : List xptr} {as : List (ι × Event)}
    (hs : Start w) (h : Run (Guarded World.Step Orderly) w as w') (hsized : w'.seg.Sized)
    (hidle : ∀ i, (w'.peers i).pc = .idle) (hchunks : FromHeaps chunks)
    (hobjs : ∀ x, x ∈ objs ↔ x ∈ w'.seg.requestH.objects)
    (hcall : w'.seg.failStray pick srcport chunks objs = some s') :
    ∃ bs w'', Run (Guarded World.Step Orderly) w' bs w'' ∧ w''.seg = s' ∧
      Finished (Picked pick w' objs) w' w'' ∧
      ∀ x ∈ objs, s'.isStray x = true ↔
        w'.seg.isStray x = true ∧ ¬ pick x (w'.seg.requests x) = true := by
  obtain ⟨hkeeping, hsourced⟩ := run_sourced hs h
  obtain ⟨bs, w'', hrun, rfl, h'', hfinished⟩ :=
    Tidy.failStray ⟨hkeeping, hsourced, hsized, hidle⟩ hchunks (fun x hx => (hobjs x).mp hx) hcall
  refine ⟨bs, w'', hrun, rfl, hfinished, fun x hx => ?_⟩
  obtain ⟨a, ha⟩ := hkeeping
  obtain ⟨a'', ha''⟩ := h''.keeping
  by_cases hpicked : Picked pick w' objs x
  · obtain ⟨p, kind, hbag⟩ := hfinished.queued x hpicked
    exact ⟨fun hstray => absurd hstray (not_isStray ha''.refines.wf hbag),
      fun hnot => absurd hpicked.2.2 hnot.2⟩
  · rw [hfinished.spares.isStray ha.refines.wf ha''.refines.wf hpicked]
    exact ⟨fun hstray => ⟨hstray, fun hpick => hpicked ⟨hx, hstray, hpick⟩⟩, And.left⟩

omit [Builtins] in
theorem getAlloc_objects {s : Xseg} {port : Port} {rest : List xptr} {flags : UInt32}
    {mem : Option (xptr × UInt64)} (hlist : s.requestH.list = x :: rest)
    (h : s.getAlloc portno port flags mem = (some y, s')) :
    s'.requestH.objects = s.requestH.objects := by
  simp only [getAlloc, XobjectH.getObj, hlist, XobjectH.popObj_cons hlist] at h
  split at h
  · cases h
    rfl
  · cases h

theorem getDone_requestH {s : Xseg} {src dst : xport} {ok : Bool}
    (h : s.getDone x src dst = (ok, s')) : s'.requestH = s.requestH := by
  simp only [getDone] at h
  split at h
  · cases h
    rfl
  · cases h
    rfl

omit [DecidableEq ι] in
theorem run_got_objects : ∃ s : Xseg,
    Run (Guarded World.Step Orderly) (solo (madeSeg 4 1024) [] .idle)
      [((), .miss 0 1 0), ((), .got 0 1 0 4096)] (solo s [4096] .idle) ∧ s.Sized ∧
      s.requestH.objects = [4096] ∧
      s.getPort 0 = some { madePort with allocReqs := madePort.allocReqs + 1 } ∧
      Tracks (s.requests 4096) [] 0 ∧ (s.requests 4096).srcPortno = 0 := by
  obtain ⟨s0, hs0⟩ : ∃ s, s = madeSeg 4 1024 := ⟨_, rfl⟩
  have hsized : s0.Sized := by rw [hs0]; exact madeSeg_sized
  have hlist : s0.requestH.list = [4096] := by rw [hs0]; exact madeSeg_list
  have h0 : s0.getPort 0 = some madePort := by rw [hs0]; exact madeSeg_getPort (by decide)
  have h1 : s0.getPort 1 = some madePort := by rw [hs0]; exact madeSeg_getPort (by decide)
  have hobjects : s0.requestH.objects = [4096] := by
    rw [hs0, madeSeg_objects]
    exact @madeSeg_list _ 4
  obtain ⟨s1, s2, hget1, hget2, -, -, -, hk2, hother2, ht2, -⟩ :=
    get_reaches h0 (show (0 : UInt64) < 1024 by decide) hlist (getPort_lt h1)
  have step1 := miss_step (w := solo s0 [] .idle) (i := ())
    (show (0 : UInt32) &&& X_LOCAL = 0 by decide) rfl h0 (madePort_holding .free).repr 1
  have step2 := got_step (w := solo s0 [] (.getting 0 1 0)) (i := ()) rfl h0 (by simp) hget1 hget2
  rw [act_solo] at step1 step2
  have hmapped : (s0.getPort 0).isSome ∧ (s0.getPort 1).isSome := by simp [h0, h1]
  rw [← hs0]
  refine ⟨s2, .cons ⟨⟨hsized, hmapped⟩, step1⟩ (.single ⟨⟨hsized, hmapped⟩, step2⟩), ?_, ?_, hk2,
    ht2, (getDone_source hget2).2.2⟩
  · exact sized_of_others hs0 hk2 rfl hother2
  · rw [getDone_requestH hget2, getAlloc_objects hlist hget1, hobjects]

theorem respond_nil {s : Xseg} {flags : UInt32} (h : PathIs (s.requests x).path []) :
    s.respond x portno flags chunk = (NoPort, s.setPath x (s.requests x).path) := by
  rw [Xseg.respond, respondTo, if_pos h.peek_nil]

/-- A request whose path leads nowhere goes to the free queue of its source. -/
theorem finishReq_nil (action : ReqAction) (srcport : xport) (chunk : QueueChunk) {s : Xseg}
    {p : xport} {port : Port} (hpath : PathIs (s.requests x).path [])
    (hsrc : (s.requests x).srcPortno = p) (hport : s.getPort p = some port)
    (hq : Holding (port.queue .free) []) (hx : x ≠ Noneidx) :
    ∃ s', s.finishReq x action srcport chunk = (none, s') := by
  obtain ⟨t, ht⟩ : ∃ t, t = s.setRequest x
      { s.requests x with toPayload := (s.requests x).toPayload.finished action } := ⟨_, rfl⟩
  have htreq : t.requests x =
      { s.requests x with toPayload := (s.requests x).toPayload.finished action } := by
    rw [ht, requests_setRequest]
  have htpath : PathIs (t.requests x).path [] := by
    rw [htreq]
    exact hpath
  have htsrc : ((t.setPath x (t.requests x).path).requests x).srcPortno = p := by
    rw [setPath, requests_setRequest, htreq]
    exact hsrc
  have htport : (t.setPath x (t.requests x).path).getPort p = some port := by
    rw [ht]
    exact hport
  obtain ⟨s', hput⟩ := put_reaches htsrc htport hq
  unfold finishReq
  dsimp only
  rw [← ht, respond_nil htpath]
  dsimp only
  rw [if_pos rfl, hput]
  exact ⟨s', by simp [hx]⟩

omit [DecidableEq ι] [Builtins] in
theorem run_failStray_got : ∃ _ : Builtins, ∃ s s' : Xseg, ∃ bs w'',
    Run (Guarded World.Step Orderly) (solo (madeSeg 4 1024) [] .idle)
      [((), .miss 0 1 0), ((), .got 0 1 0 4096)] (solo s [4096] .idle) ∧
    s.recoverport 0 1 (fun _ _ => none) [4096] = some s' ∧
    Run (Guarded World.Step Orderly) (solo s [4096] .idle) bs w'' ∧ w''.seg = s' ∧
    s.isStray 4096 = true ∧ s'.isStray 4096 ≠ true := by
  let _ : Builtins := ⟨0⟩
  obtain ⟨s, hrun, hsized, hobjects, hport, htracks, hsrc⟩ := run_got_objects
  have hstart : Start (solo (madeSeg 4 1024) [] .idle) := madeSeg_start (by decide)
  have hobjs (x : xptr) : x ∈ [4096] ↔ x ∈ s.requestH.objects := by rw [hobjects]
  have hstray : s.isStray 4096 = true :=
    (run_stray_iff hstart hrun 4096 ((hobjs 4096).mp List.mem_cons_self)).mpr
      ⟨(), .inl List.mem_cons_self⟩
  have hpick : (decide ((s.requests 4096).transitPortno = 0)) = true :=
    decide_eq_true htracks.transit
  obtain ⟨s', hfinish⟩ := finishReq_nil .fail 1 none htracks.path hsrc hport
    (madePort_holding .free) (by decide)
  have hcall : s.failStray (fun _ req => req.transitPortno = 0) 1 (fun _ _ => none) [4096] =
      some s' := by
    rw [Xseg.failStray, hstray, hpick, hfinish]
    rfl
  have hchunks : FromHeaps fun _ _ => none :=
    ⟨fun _ _ c hc => absurd hc (Option.some_ne_none c).symm, fun s x => .none s x⟩
  obtain ⟨bs, w'', hrun', hseg, -, hleft⟩ :=
    run_failStray hstart hrun hsized (fun _ => rfl) hchunks hobjs hcall
  exact ⟨⟨0⟩, s, s', bs, w'', hrun, hcall, hrun', hseg, hstray,
    fun h => ((hleft 4096 List.mem_cons_self).mp h).2 hpick⟩

end Libxseg
