import Libxseg.XsegFlood

/-!
# Where requests are, and where replies go

`Conserved` says that every request object is in one place. `RepliesHome` says
that a request in the reply queue of a port has that port on top of its path, so
that receive never drops a request. Both follow from what the flow of requests
can do, in every run in which no queue has a capacity that `__snap` gets wrong.
-/

namespace Libxseg

set_option autoImplicit false

open Xseg

variable {ι : Type} {w w' : World ι} {a a' : Flow ι} {i : ι} {e : Event} {x : xptr}

/-- Every request object is in exactly one place, and no request is twice in one. -/
structure Conserved (w : World ι) : Prop where
  one : ∀ x ∈ w.seg.requestH.objects, ∃! p, x ∈ contents w p
  nodup : ∀ p, (contents w p).Nodup
  known : ∀ {p x}, x ∈ contents w p → x ∈ w.seg.requestH.objects

def Flow.start (w : World ι) : Flow ι where
  place x := if x ∈ w.seg.requestH.list then some .list else none
  path _ := []
  transit _ := 0
  lost _ := False

theorem Start.wf [Builtins] (h : Start w) : w.seg.Wf where
  queues := by
    intro p port hport kind
    obtain ⟨size, mem, hq⟩ := h.queues hport kind
    have hr := Xq.repr_initEmpty size mem
    rw [hq, hr.elems_eq]
    exact hr
  handler := h.handler

theorem Start.bag [Builtins] (h : Start w) (p : xport) (kind : QueueKind) :
    w.seg.bag p kind = 0 := by
  unfold Xseg.bag
  split
  · rfl
  · rename_i port hport
    obtain ⟨size, mem, hq⟩ := h.queues hport kind
    rw [hq, (Xq.repr_initEmpty size mem).elems_eq]
    rfl

theorem Start.refines [Builtins] (h : Start w) : Refines w (Flow.start w) where
  wf := h.wf
  places := by
    have hempty : ∀ p, p ≠ .list → contents w p = 0 := by
      rintro (_ | ⟨p, kind⟩ | i | i) hp
      · exact absurd rfl hp
      · exact h.bag p kind
      · simp [h.peers i]
      · simp [h.peers i, Pc.held]
    constructor
    · intro p
      rcases eq_or_ne p .list with rfl | hp
      · exact Multiset.coe_nodup.mpr (h.list.nodup_iff.mpr h.handler.nodup)
      · simp [hempty p hp]
    · intro p x
      rcases eq_or_ne p .list with rfl | hp
      · simp [Flow.start]
      · simpa [hempty p hp, Flow.start] using fun _ => Ne.symm hp
  objects := by
    intro x
    simp [Flow.start, h.list.mem_iff]
  tracks := by
    intro x pl hx hlive
    simp only [Flow.start] at hx
    split at hx
    · obtain rfl := Option.some.inj hx
      exact absurd hlive id
    · cases hx

def Flow.RepliesHome (a : Flow ι) : Prop :=
  ∀ {x p}, a.place x = some (.queue p .reply) → (a.path x).head? = some p

theorem Flow.RepliesHome.move (h : a.RepliesHome) {pl : Place ι} {l : List xport} {t : xport}
    (hpl : ∀ p, pl = .queue p .reply → l.head? = some p) : (a.move x pl l t).RepliesHome := by
  intro y p hy
  rcases eq_or_ne y x with rfl | hne
  · simp only [Flow.move, Function.update_self] at hy ⊢
    exact hpl p (Option.some.inj hy)
  · simp only [Flow.move, Function.update_of_ne hne] at hy ⊢
    exact h hy

theorem Flow.RepliesHome.lose (h : a.RepliesHome) : (a.lose x).RepliesHome := by
  intro y p hy
  rcases eq_or_ne y x with rfl | hne
  · simp [Flow.lose] at hy
  · simp only [Flow.lose, Function.update_of_ne hne] at hy ⊢
    exact h hy

theorem Flow.RepliesHome.extend (h : a.RepliesHome) (fresh : List xptr) :
    (a.extend fresh).RepliesHome := by
  intro y p hy
  simp only [Flow.extend] at hy ⊢
  split at hy
  · cases hy
  · exact h hy

theorem FlowStep.repliesHome (h : FlowStep a (i, e) a') (ha : a.RepliesHome) :
    a'.RepliesHome := by
  cases h with
  | still _ => exact ha
  | got _ _ _ => exact Flow.RepliesHome.move (ha.extend _) (by simp)
  | refused _ _ _ => exact Flow.RepliesHome.move (ha.extend _) (by simp)
  | lost _ => exact ha.lose
  | submit _ _ => exact ha.move (by simp)
  | forward _ _ => exact ha.move (by simp)
  | accept _ => exact ha.move (by simp)
  | respond _ _ _ hhead =>
    refine ha.move fun p hp => ?_
    simp only [Place.queue.injEq, and_true] at hp
    exact hp ▸ hhead
  | trim _ _ => exact ha.move (by simp)
  | receive _ _ => exact ha.move (by simp)
  | drop _ _ => exact ha.lose
  | put _ => exact ha.move (by simp)
  | putFull _ => exact ha.move (by simp)
  | putObj _ => exact ha.move (by simp)

theorem Refines.path_reply (h : Refines w a) (ha : a.RepliesHome) {p : xport}
    (hx : x ∈ contents w (.queue p .reply)) :
    ∃ l, Tracks (w.seg.requests x) (p :: l) (a.transit x) := by
  have hpl := h.mem_iff.mp hx
  have htracks := h.tracks hpl trivial
  obtain ⟨l, hl⟩ := List.head?_eq_some_iff.mp (ha hpl)
  exact ⟨l, hl ▸ htracks⟩

/-- Only a dropped request or one that get_request cannot give back is lost. -/
theorem FlowStep.lost_eq (h : FlowStep a (i, e) a') (ha : a.RepliesHome)
    (he : ∀ x, e ≠ .lost x) : a'.lost = a.lost := by
  cases h with
  | lost _ => exact absurd rfl (he _)
  | drop hx hl =>
    have := ha hx
    rw [hl] at this
    cases this
  | _ => rfl

structure Keeping (w : World ι) (a : Flow ι) : Prop where
  refines : Refines w a
  home : a.RepliesHome
  none_lost : ∀ x, ¬ a.lost x
  none_refused : ∀ i x, (w.peers i).pc ≠ .aborting x

theorem Start.keeping [Builtins] (h : Start w) : Keeping w (Flow.start w) where
  refines := h.refines
  home := by
    intro x p hx
    simp only [Flow.start] at hx
    split at hx <;> simp at hx
  none_lost := fun _ => id
  none_refused := fun i x => by simp [h.peers i]

theorem Keeping.conserved (h : Keeping w a) : Conserved w where
  one := by
    intro x hx
    have hpl : a.place x ≠ none := (h.refines.objects.mp hx).resolve_right (h.none_lost x)
    obtain ⟨p, ⟨hp, -⟩, -⟩ := h.refines.places.existsUnique hpl
    exact ⟨p, hp, fun q hq => h.refines.places.unique hq hp⟩
  nodup := h.refines.places.nodup
  known := by
    intro p x hx
    exact h.refines.objects.mpr (.inl (by simp [h.refines.mem_iff.mp hx]))

variable [DecidableEq ι]

/-- The requests in the reply queue of a port have that port on top of their paths, and no peer
can drop a request in receive. -/
structure RepliesHome [Builtins] (w : World ι) : Prop where
  head : ∀ {p port x}, w.seg.getPort p = some port → x ∈ (port.queue .reply).elems →
    (w.seg.requests x).path.count ≠ 0 ∧ (w.seg.requests x).path.peekHead = p.toUInt64
  kept : ∀ i portno flags x w', ¬ w.Step (i, .drop portno flags x) w'

theorem Refines.repliesHome [Builtins] (h : Refines w a) (ha : a.RepliesHome) : RepliesHome w where
  head := by
    intro p port x hport hx
    have hmem : x ∈ contents w (.queue p .reply) := by
      rw [contents_queue, bag_eq hport]
      exact hx
    obtain ⟨l, hl⟩ := h.path_reply ha hmem
    refine ⟨?_, hl.path.peek⟩
    rw [Ne, hl.path.repr.count_eq_zero]
    simp
  kept := by
    rintro i portno flags x w' hstep
    cases hstep with
    | drop hpc hrec =>
    rcases receive_spec h.wf (fun x hx => h.ne_noneidx_of_mem (p := .queue _ .reply) hx) hrec
      with ⟨hr, -⟩ | ⟨y, htaken, hspec⟩
    · cases hr
    · obtain ⟨l, hl⟩ := h.path_reply ha (p := portno) htaken.mem
      rcases hspec hl with ⟨hnil, -⟩ | ⟨-, -, -, hr, -⟩
      · cases hnil
      · cases hr

/-- A run that no queue of 2^31 elements or more takes part in is a run of the flow. -/
theorem run_refines [Builtins] {as : List (ι × Event)} {ok : World ι → ι × Event → Prop}
    (hok : ∀ {w b}, ok w b → w.seg.Sized) (hs : Start w)
    (h : Run (Guarded World.Step ok) w as w') :
    ∃ a, Refines w' a ∧ a.RepliesHome := by
  refine h.invariant (I := fun w => ∃ a, Refines w a ∧ a.RepliesHome) ?_ ?_
  · rintro s ⟨i, e⟩ t ⟨a, hr, ha⟩ ⟨hsized, hstep⟩
    obtain ⟨a', hflow, hr'⟩ := hstep.simulates hr (hok hsized)
    exact ⟨a', hr', hflow.repliesHome ha⟩
  · exact ⟨_, hs.refines, hs.keeping.home⟩

theorem run_repliesHome [Builtins] {as : List (ι × Event)} (hs : Start w)
    (h : Run (Guarded World.Step fun w _ => w.seg.Sized) w as w') : RepliesHome w' := by
  obtain ⟨a, hr, ha⟩ := run_refines (fun hsized => hsized) hs h
  exact hr.repliesHome ha

theorem run_repliesHome_submit : ∃ _ : Builtins, ∃ s3 : Xseg,
    Run (Guarded World.Step fun w _ => w.seg.Sized) (solo (madeSeg 4 1024) [] .idle)
      [((), .miss 0 1 0), ((), .got 0 1 0 4096), ((), .submit 4096 0 0 1)] (solo s3 [] .idle) ∧
    RepliesHome (solo s3 [] .idle) := by
  let _ : Builtins := ⟨0⟩
  obtain ⟨s2, s3, step1, step2, step3, hsized, hsized2, -⟩ := first_steps rfl
  have hrun : Run (Guarded World.Step fun w _ => w.seg.Sized) (solo (madeSeg 4 1024) [] .idle)
      [((), .miss 0 1 0), ((), .got 0 1 0 4096), ((), .submit 4096 0 0 1)] (solo s3 [] .idle) :=
    Run.cons ⟨hsized, step1⟩ (Run.cons ⟨hsized, step2⟩ (Run.single ⟨hsized2, step3⟩))
  exact ⟨⟨0⟩, s3, hrun, run_repliesHome (madeSeg_start (by decide)) hrun⟩

/-- A request that waits at the tail end of the reply queue of port 0 with another port on its
path has gone astray. -/
theorem not_repliesHome [Builtins] {s : Xseg} {hands : List xptr} {pc : Pc} {port : Port} {q : Xq}
    (hport : s.getPort 0 = some port) (hq : port.queue .reply = q) (hcount : q.count ≠ 0) {z : xptr}
    (hz : q.get (q.tail + 1) = z) {k : xport} {l : List xport}
    (hpath : PathIs (s.requests z).path (k :: l)) (hk : k ≠ 0) :
    ¬ RepliesHome (solo s hands pc) := by
  intro h
  have hmem : z ∈ (port.queue .reply).elems := by
    rw [hq, ← hz]
    exact tail_mem_elems hcount
  have hhead : (s.requests z).path.peekHead = (0 : xport).toUInt64 := (h.head hport hmem).2
  rw [hpath.peek, UInt32.toUInt64_inj] at hhead
  exact hk hhead

/-- Once the reply queue of port 0 has grown to 2^31 slots, a request that was received can still be
in the queue, and its path begins with another port. -/
theorem not_run_repliesHome : ∃ _ : Builtins, Start (solo floodSeg [] .idle) ∧
    ¬ ∀ (w : World Unit) (as : List (Unit × Event)),
      Run World.Step (solo floodSeg [] .idle) as w → RepliesHome w := by
  let _ : Builtins := ⟨0⟩
  refine ⟨⟨0⟩, floodSeg_start, fun h => ?_⟩
  obtain ⟨n, hn⟩ : ∃ n, n = 2 ^ 31 + 2 := ⟨_, rfl⟩
  obtain ⟨as, s, hrun, hflood⟩ := flood_run (n := n) (by omega)
  have hrun := hrun.mono fun hstep => hstep.2
  obtain ⟨port, hport, -, -, hreplies, hlast⟩ := hflood.zero
  obtain ⟨z, k, t, hz, hk, htracks, hget⟩ := hlast (by omega)
  obtain ⟨q, hq⟩ : ∃ q, port.queue .reply = q := ⟨_, rfl⟩
  rw [hq] at hreplies hget
  have hhead := hreplies.head
  have htail' : q.tail = 0 - 0x80000002 := by
    rw [hreplies.tail, hn]
    rfl
  obtain ⟨e1, hands1, pc1, s1, hstep1, hpc1, hpop1⟩ :=
    receive_pops [] .idle (.inl rfl) hport hq (by rw [Xq.count, hhead, htail']; decide)
  have hrun1 := hrun.snoc hstep1
  obtain ⟨path', hpath, hpath'⟩ := htracks.path.pop
  by_cases hfirst : q.get (q.head - 1) = z
  · have hreq := hpop1.popped (by rw [hfirst]; exact hz)
    rw [hfirst, hpath] at hreq
    refine not_repliesHome hpop1.port (Port.queue_setQueue _ _ _) ?_ hget (by rw [hreq]; exact hpath') hk
      (h _ _ hrun1)
    simp only [Xq.count, hhead, htail']
    decide
  obtain ⟨e2, hands2, pc2, s2, hstep2, -, hpop2⟩ := receive_pops hands1 pc1 hpc1 hpop1.port
    (Port.queue_setQueue _ _ _) (by simp only [Xq.count, hhead, htail']; decide)
  have hsecond : q.get (q.head - 1 - 1) = z := by
    rw [← hget, hhead, htail']
    unfold Xq.get Xq.slot
    rw [hreplies.size (by omega) (by omega)]
    exact congrArg q.queue (by decide)
  have hreq := hpop2.popped (by
    change q.get (q.head - 1 - 1) ≠ Noneidx
    rw [hsecond]
    exact hz)
  change (s2.requests (q.get (q.head - 1 - 1))).path =
    (s1.requests (q.get (q.head - 1 - 1))).path.popHead.2 at hreq
  rw [hsecond, hpop1.others z (Ne.symm hfirst), hpath] at hreq
  refine not_repliesHome hpop2.port (Port.queue_setQueue _ _ _) ?_ hget (by rw [hreq]; exact hpath') hk
    (h _ _ (hrun1.snoc hstep2))
  simp only [Xq.count, hhead, htail']
  decide

theorem not_refused [Builtins] (h : Refines w a) {src dst : xport} {flags : UInt32}
    (hmapped : (w.seg.getPort dst).isSome) : ¬ w.Step (i, .refused src dst flags x) w' := by
  intro hstep
  cases hstep with
  | refused ho hdone =>
  obtain ⟨fresh, p, c, ho⟩ := h.obtains ho
  obtain ⟨port, hport⟩ := Option.isSome_iff_exists.mp hmapped
  obtain ⟨-, -, ⟨hok, -⟩ | ⟨-, hdst⟩⟩ := getDone_spec (x := x) ho.wf (ho.valid ho.src) hdone
  · cases hok
  · exact hdst (ho.valid (getPort_lt hport))

/-- Only a refusal makes a peer put back the request it was about to get. -/
theorem World.Step.pc [Builtins] (h : w.Step (i, e) w') (hpc : ∀ j x, (w.peers j).pc ≠ .aborting x)
    (he : ∀ src dst flags x, e ≠ .refused src dst flags x) :
    ∀ j x, (w'.peers j).pc ≠ .aborting x := by
  intro j x
  rcases eq_or_ne j i with rfl | hj
  · cases h with
    | miss hm =>
      cases hm with
      | free hidle hport hget =>
        simp only [act_peers_self]
        split <;> simp
      | _ => simp
    | refused _ _ => exact absurd rfl (he _ _ _ _)
    | put hg _ _ =>
      cases hg <;> simp
    | _ => simp
  · rw [h.peers_of_ne hj]
    exact hpc j x

theorem Keeping.step [Builtins] (h : Keeping w a) (hsized : w.seg.Sized)
    (hmapped : e.Mapped w.seg) (hstep : w.Step (i, e) w') : ∃ a', Keeping w' a' := by
  obtain ⟨a', hflow, hr'⟩ := hstep.simulates h.refines hsized
  have hlost : ∀ x, e ≠ .lost x := by
    rintro x rfl
    cases hstep with
    | lost hpc _ => exact h.none_refused _ _ hpc
  have hrefused : ∀ src dst flags x, e ≠ .refused src dst flags x := by
    rintro src dst flags x rfl
    exact not_refused h.refines hmapped.2 hstep
  refine ⟨a', hr', hflow.repliesHome h.home, ?_, hstep.pc h.none_refused hrefused⟩
  rw [hflow.lost_eq h.home hlost]
  exact h.none_lost

theorem run_conserved [Builtins] {as : List (ι × Event)} (hs : Start w)
    (h : Run (Guarded World.Step fun w b => w.seg.Sized ∧ b.2.Mapped w.seg) w as w') :
    Conserved w' := by
  obtain ⟨a, ha⟩ := h.invariant (I := fun w => ∃ a, Keeping w a)
    (by
      rintro s ⟨i, e⟩ t ⟨a, ha⟩ ⟨⟨hsized, hmapped⟩, hstep⟩
      exact ha.step hsized hmapped hstep)
    ⟨Flow.start w, hs.keeping⟩
  exact ha.conserved

theorem run_conserved_submit : ∃ _ : Builtins, ∃ s : Xseg,
    Run (Guarded World.Step fun w b => w.seg.Sized ∧ b.2.Mapped w.seg)
      (solo (madeSeg 4 1024) [] .idle)
      [((), .miss 0 1 0), ((), .got 0 1 0 4096), ((), .submit 4096 0 0 1)] (solo s [] .idle) ∧
    Conserved (solo s [] .idle) := by
  let _ : Builtins := ⟨0⟩
  obtain ⟨s2, s3, step1, step2, step3, hsized, hsized2, hmapped⟩ := first_steps rfl
  have hrun : Run (Guarded World.Step fun w b => w.seg.Sized ∧ b.2.Mapped w.seg)
      (solo (madeSeg 4 1024) [] .idle)
      [((), .miss 0 1 0), ((), .got 0 1 0 4096), ((), .submit 4096 0 0 1)] (solo s3 [] .idle) :=
    Run.cons ⟨⟨hsized, hmapped⟩, step1⟩
      (Run.cons ⟨⟨hsized, hmapped⟩, step2⟩ (Run.single ⟨⟨hsized2, trivial⟩, step3⟩))
  exact ⟨⟨0⟩, s3, hrun, run_conserved (madeSeg_start (by decide)) hrun⟩

/-- Once the reply queue of port 0 has grown to 2^31 slots, a request can be lost and another one be
there twice. -/
theorem not_run_conserved : ∃ _ : Builtins, Start (solo floodSeg [] .idle) ∧
    ¬ ∀ (w : World Unit) (as : List (Unit × Event)),
      Run (Guarded World.Step fun w b => b.2.Mapped w.seg) (solo floodSeg [] .idle) as w →
        Conserved w := by
  let _ : Builtins := ⟨0⟩
  refine ⟨⟨0⟩, floodSeg_start, fun h => ?_⟩
  obtain ⟨n, hn⟩ : ∃ n, n = 2 ^ 31 + 2 := ⟨_, rfl⟩
  obtain ⟨as, s, hrun, hflood⟩ := flood_run (n := n) (by omega)
  have hcons := h _ as hrun
  obtain ⟨port, hport, -, -, hreplies, -⟩ := hflood.zero
  have hnd : (s.bag 0 .reply).Nodup := hcons.nodup (.queue 0 .reply)
  rw [bag_eq hport, Multiset.coe_nodup] at hnd
  exact hreplies.not_nodup_elems hn hnd

end Libxseg
