import Libxseg.XsegRuns

/-!
# The segment simulates the flow of its requests

The queues of the segment are sequences (`Wf`), every request the handler made is
in one place of the flow, and the paths of the requests that matter are those of
the flow. Every step keeps this, and is the step of the flow with the same event.
-/

namespace Libxseg

set_option autoImplicit false

open Xseg

variable {ι : Type} {w w' : World ι} {a : Flow ι} {i : ι} {peer : Peer}
  {s : Xseg} {x : xptr} {p q : Place ι} {l : List xport} {t src dst portno r : xport}
  {flags : UInt32}

@[simp] theorem contents_list (w : World ι) : contents w .list = ↑w.seg.requestH.list := rfl

@[simp] theorem contents_queue (w : World ι) (p : xport) (kind : QueueKind) :
    contents w (.queue p kind) = w.seg.bag p kind := rfl

@[simp] theorem contents_hand (w : World ι) (i : ι) :
    contents w (.hand i) = ↑(w.peers i).hands := rfl

@[simp] theorem contents_busy (w : World ι) (i : ι) :
    contents w (.busy i) = (w.peers i).pc.held := rfl

theorem cons_coe_erase {hands : List xptr} (hx : x ∈ hands) :
    (↑hands : Multiset xptr) = x ::ₘ ↑(hands.erase x) := by
  rw [← Multiset.coe_erase, Multiset.cons_erase (Multiset.mem_coe.mpr hx)]

namespace Refines

theorem mem_iff (h : Refines w a) : x ∈ contents w p ↔ a.place x = some p := h.places.mem_iff

theorem ne_noneidx (h : Refines w a) (hx : a.place x = some p) : x ≠ Noneidx := by
  apply h.wf.handler.ne_noneidx
  rw [h.objects]
  exact .inl (by simp [hx])

theorem ne_noneidx_of_mem (h : Refines w a) (hx : x ∈ contents w p) : x ≠ Noneidx :=
  h.ne_noneidx (h.mem_iff.mp hx)

theorem in_hand (h : Refines w a) (hx : x ∈ (w.peers i).hands) : a.place x = some (.hand i) :=
  h.mem_iff.mp (Multiset.mem_coe.mpr hx)

theorem queue_tracks (h : Refines w a) {portno : xport} {kind : QueueKind}
    (hs : Taken w.seg s portno kind x) (hlive : (Place.queue (ι := ι) portno kind).Live) :
    Tracks (w.seg.requests x) (a.path x) (a.transit x) := by
  have hmem : x ∈ contents w (.queue portno kind) := hs.mem
  exact h.tracks (h.mem_iff.mp hmem) hlive

end Refines

variable [DecidableEq ι]

@[simp] theorem act_seg (w : World ι) (i : ι) (peer : Peer) (s : Xseg) :
    (w.act i peer s).seg = s := rfl

@[simp] theorem act_peers_self (w : World ι) (i : ι) (peer : Peer) (s : Xseg) :
    (w.act i peer s).peers i = peer := by
  simp [World.act]

theorem act_peers_of_ne {j : ι} (h : j ≠ i) (peer : Peer) (s : Xseg) :
    (w.act i peer s).peers j = w.peers j := by
  simp [World.act, h]

theorem World.Step.peers_of_ne [Builtins] {e : Event} {j : ι} (hstep : w.Step (i, e) w')
    (hj : j ≠ i) : w'.peers j = w.peers j := by
  cases hstep <;> exact act_peers_of_ne hj _ _

/-- A place whose own part of the state stays the same keeps what lies in it. -/
theorem contents_act (hlist : p = .list → s.requestH.list = w.seg.requestH.list)
    (hqueue : ∀ q kind, p = .queue q kind → s.bag q kind = w.seg.bag q kind)
    (hhand : p = .hand i → peer.hands = (w.peers i).hands)
    (hbusy : p = .busy i → peer.pc.held = (w.peers i).pc.held) :
    contents (w.act i peer s) p = contents w p := by
  cases p with
  | list => simp [hlist rfl]
  | queue q kind => exact hqueue q kind rfl
  | hand j =>
    rcases eq_or_ne j i with rfl | hj
    · simp [hhand rfl]
    · simp [act_peers_of_ne hj]
  | busy j =>
    rcases eq_or_ne j i with rfl | hj
    · simp [hbusy rfl]
    · simp [act_peers_of_ne hj]

namespace Refines

/-- A step of the segment after which every request lies where it lay. -/
theorem still (h : Refines w a) (hs : Quiet w.seg s) (hhands : peer.hands = (w.peers i).hands)
    (hheld : peer.pc.held = (w.peers i).pc.held) : Refines (w.act i peer s) a where
  wf := hs.wf
  places := h.places.stay fun _ =>
    contents_act (fun _ => congrArg _ hs.objects) (fun q kind _ => hs.bags q kind)
      (fun _ => hhands) fun _ => hheld
  objects := by
    rw [act_seg, hs.objects]
    exact h.objects
  tracks := by
    rw [act_seg, hs.requests]
    exact h.tracks

/-- One request comes to a place, and the other requests are left alone. -/
theorem put (h : Refines w a) (hwf : s.Wf) (hobjs : s.requestH.objects = w.seg.requestH.objects)
    (hothers : ∀ y, y ≠ x → s.requests y = w.seg.requests y) (hx : a.place x ≠ none)
    (hplaces : Places (contents (w.act i peer s)) (Function.update a.place x (some q)))
    (htracks : q.Live → Tracks (s.requests x) l t) :
    Refines (w.act i peer s) (a.move x q l t) where
  wf := hwf
  places := hplaces
  objects := by
    intro y
    rw [act_seg, hobjs, h.objects]
    rcases eq_or_ne y x with rfl | hy
    · simp [Flow.move, hx]
    · simp [Flow.move, hy]
  tracks := by
    intro y pl hy hlive
    rw [act_seg]
    rcases eq_or_ne y x with rfl | hne
    · obtain rfl : q = pl := by simpa [Flow.move] using hy
      simpa [Flow.move] using htracks hlive
    · rw [hothers y hne]
      simp only [Flow.move, Function.update_of_ne hne] at hy ⊢
      exact h.tracks hy hlive

theorem move (h : Refines w a) (peer : Peer) (hs : Frame w.seg s x) (hqp : q ≠ p)
    (hp : contents w p = x ::ₘ contents (w.act i peer s) p)
    (hq : contents (w.act i peer s) q = x ::ₘ contents w q)
    (hrest : ∀ pl, pl ≠ p → pl ≠ q → contents (w.act i peer s) pl = contents w pl)
    (htracks : q.Live → Tracks (s.requests x) l t) :
    a.place x = some p ∧ Refines (w.act i peer s) (a.move x q l t) := by
  have hx : a.place x = some p := by
    apply h.mem_iff.mp
    rw [hp]
    exact Multiset.mem_cons_self x _
  refine ⟨hx, h.put hs.wf (congrArg _ hs.objects) (fun _ => hs.others) (by simp [hx]) ?_ htracks⟩
  exact h.places.move hqp hp hq hrest

theorem retrack (h : Refines w a) (hs : Frame w.seg s x) (hx : a.place x = some p)
    (hrest : ∀ pl, contents (w.act i peer s) pl = contents w pl)
    (htracks : p.Live → Tracks (s.requests x) l t) :
    Refines (w.act i peer s) (a.move x p l t) := by
  apply h.put hs.wf (congrArg _ hs.objects) (fun _ => hs.others) (by simp [hx]) _ htracks
  have hsame : Function.update a.place x (some p) = a.place := by
    rw [← hx, Function.update_eq_self]
  rw [hsame]
  exact h.places.stay hrest

theorem lose (h : Refines w a) (peer : Peer) (hs : Frame w.seg s x)
    (hp : contents w p = x ::ₘ contents (w.act i peer s) p)
    (hrest : ∀ pl, pl ≠ p → contents (w.act i peer s) pl = contents w pl) :
    a.place x = some p ∧ Refines (w.act i peer s) (a.lose x) := by
  have hx : a.place x = some p := by
    apply h.mem_iff.mp
    rw [hp]
    exact Multiset.mem_cons_self x _
  refine ⟨hx, hs.wf, h.places.remove hp hrest, ?_, ?_⟩
  · intro y
    rw [act_seg, hs.objects, h.objects]
    rcases eq_or_ne y x with rfl | hy
    · simp [Flow.lose, hx]
    · simp [Flow.lose, hy]
  · intro y pl hy hlive
    rw [act_seg]
    rcases eq_or_ne y x with rfl | hne
    · simp [Flow.lose] at hy
    · rw [hs.others hne]
      simp only [Flow.lose, Function.update_of_ne hne] at hy ⊢
      exact h.tracks hy hlive

end Refines

namespace Refines

theorem miss (h : Refines w a) {pc : Pc} (hm : w.Misses i src dst flags pc s) :
    Refines (w.act i ⟨(w.peers i).hands, pc⟩ s) a := by
  cases hm with
  | port hidle hport => exact h.still h.wf.quiet rfl (by simp [hidle, Pc.held])
  | @free port s hidle hport hget =>
    obtain ⟨xqi, q', hpop, hreq, ⟨hnone, hquiet⟩ | htaken⟩ := popQueue_spec h.wf hport .free
    · simp only [getFree, hpop] at hget
      obtain ⟨-, rfl⟩ := Prod.mk.inj hget
      refine h.still hquiet rfl ?_
      rw [hidle]
      dsimp only
      split <;> rfl
    · simp only [getFree, hpop] at hget
      obtain ⟨rfl, -⟩ := Prod.mk.inj hget
      exact absurd rfl (h.ne_noneidx_of_mem (p := .queue src .free) htaken.mem)
  | @alloc port mem s hpc hport hmem halloc =>
    obtain ⟨hwf, hreq, hbags, -, ⟨-, hobj⟩ | ⟨x, _, hsome, _⟩⟩ :=
      getAlloc_spec h.wf hport hmem halloc
    · exact h.still ⟨hwf, hobj, hreq, hbags⟩ rfl (by simp [hpc, Pc.held])
    · cases hsome

/-- Where the request that `xseg_get_request` obtains comes from: the place `p`, after the
requests `fresh` may have come to the list. `c` is what lay in the places just before. -/
structure Obtained (w : World ι) (a : Flow ι) (i : ι) (src : xport) (x : xptr) (s : Xseg)
    (fresh : List xptr) (p : Place ι) (c : Place ι → Multiset xptr) : Prop where
  new : a.New fresh
  origin : p = .list ∨ p = .queue src .free
  places : Places c (a.extend fresh).place
  out : c p = x ::ₘ contents (w.act i (w.peers i) s) p
  rest : ∀ pl, pl ≠ p → contents (w.act i (w.peers i) s) pl = c pl
  objects : ∀ y, y ∈ s.requestH.objects ↔ y ∈ fresh ∨ y ∈ w.seg.requestH.objects
  wf : s.Wf
  requests : s.requests = w.seg.requests
  valid : ∀ {p}, w.seg.validatePort p → s.validatePort p
  src : w.seg.validatePort src
  free : (w.peers i).pc.held = 0

theorem obtains (h : Refines w a) (ho : w.Obtains i src dst flags x s) :
    ∃ fresh p c, Obtained w a i src x s fresh p c := by
  cases ho with
  | @free port x s hidle hport hget hx =>
    obtain ⟨xqi, q', hpop, hreq, ⟨hnone, -⟩ | htaken⟩ := popQueue_spec h.wf hport .free
    · simp only [getFree, hpop] at hget
      obtain ⟨rfl, -⟩ := Prod.mk.inj hget
      exact absurd hnone hx
    simp only [getFree, hpop] at hget
    obtain ⟨rfl, rfl⟩ := Prod.mk.inj hget
    refine ⟨[], .queue src .free, contents w, ?_⟩
    constructor
    · simp [Flow.New]
    · exact .inr rfl
    · simpa [Flow.extend] using h.places
    · exact htaken.out
    · intro pl hpl
      refine contents_act (fun _ => rfl) (fun q kind hq => ?_) (fun _ => rfl) fun _ => rfl
      refine htaken.rest q kind fun heq => hpl ?_
      rw [hq, (Prod.mk.inj heq).1, (Prod.mk.inj heq).2]
    · simp [htaken.frame.objects]
    · exact htaken.frame.wf
    · exact hreq
    · exact id
    · exact getPort_lt hport
    · rw [hidle]; rfl
  | @alloc port mem x s hpc hport hmem halloc =>
    obtain ⟨hwf, hreq, hbags, hvalid, ⟨hnone, -⟩ | ⟨y, fresh, hsome, hlist, hobjs, hnd, hfresh⟩⟩ :=
      getAlloc_spec h.wf hport hmem halloc
    · cases hnone
    obtain rfl := Option.some.inj hsome
    have hnew : a.New fresh := by
      intro y hy
      have hout := hfresh y hy
      rw [h.objects, not_or, not_not] at hout
      exact hout
    refine ⟨fresh, .list, Function.update (contents w) .list (↑fresh + contents w .list), ?_⟩
    constructor
    · exact hnew
    · exact .inl rfl
    · exact h.places.insert hnd (fun y hy => (hnew y hy).1) (by simp) fun r hr => by simp [hr]
    · rw [Function.update_self]
      exact congrArg _ hlist.symm
    · intro pl hpl
      rw [Function.update_of_ne hpl]
      exact contents_act (fun hl => absurd hl hpl) (fun q kind _ => hbags q kind) (fun _ => rfl)
        fun _ => rfl
    · simp [hobjs]
    · exact hwf
    · exact hreq
    · exact hvalid _
    · exact getPort_lt hport
    · rw [hpc]; rfl

/-- A request is obtained and set up, and comes to the place `q` of the peer. -/
theorem obtain_done [Builtins] (h : Refines w a) (peer : Peer) {fresh : List xptr}
    {c : Place ι → Multiset xptr} (ho : Obtained w a i src x s fresh p c) {s' : Xseg}
    (hframe : Frame s s' x) (hbags : ∀ p kind, s'.bag p kind = s.bag p kind)
    (hq : q = .hand i ∨ q = .busy i)
    (hcontents : contents (w.act i peer s') q = x ::ₘ contents w q)
    (hrest : ∀ pl, pl = .hand i ∨ pl = .busy i → pl ≠ q →
      contents (w.act i peer s') pl = contents w pl)
    (htracks : q.Live → Tracks (s'.requests x) l t) :
    (a.extend fresh).place x = some p ∧
      Refines (w.act i peer s') ((a.extend fresh).move x q l t) := by
  have hout : ∀ pl, pl = .hand i ∨ pl = .busy i → pl ≠ p := by
    intro pl hpl
    rcases hpl with rfl | rfl <;> rcases ho.origin with rfl | rfl <;> simp
  have hseg : ∀ pl, pl ≠ .hand i → pl ≠ .busy i →
      contents (w.act i peer s') pl = contents (w.act i (w.peers i) s) pl := by
    intro pl hh hb
    have hact : w.act i peer s' = (w.act i (w.peers i) s).act i peer s' := by
      simp [World.act]
    rw [hact]
    exact contents_act (fun _ => congrArg _ hframe.objects) (fun q kind _ => hbags q kind)
      (fun hpl => absurd hpl hh) fun hpl => absurd hpl hb
  have hown : ∀ pl, pl = .hand i ∨ pl = .busy i → c pl = contents w pl := by
    intro pl hpl
    rw [← ho.rest pl (hout pl hpl)]
    exact contents_act (by rcases hpl with rfl | rfl <;> simp)
      (by rcases hpl with rfl | rfl <;> simp) (fun _ => rfl) fun _ => rfl
  have hx : (a.extend fresh).place x = some p := by
    apply ho.places.mem_iff.mp
    rw [ho.out]
    exact Multiset.mem_cons_self x _
  refine ⟨hx, hframe.wf, ?_, ?_, ?_⟩
  · apply ho.places.move (hout q hq)
    · rw [ho.out, hseg p (hout _ (.inl rfl)).symm (hout _ (.inr rfl)).symm]
    · rw [hcontents, hown q hq]
    · intro pl hpl hplq
      by_cases hi : pl = .hand i ∨ pl = .busy i
      · rw [hrest pl hi hplq, hown pl hi]
      · rw [hseg pl (fun hh => hi (.inl hh)) (fun hb => hi (.inr hb)), ho.rest pl hpl]
  · intro y
    rw [act_seg, hframe.objects, ho.objects, h.objects]
    simp only [Flow.extend] at hx
    rcases eq_or_ne y x with rfl | hy
    · by_cases hf : y ∈ fresh
      · simp [Flow.move, hf]
      · rw [if_neg hf] at hx
        simp [Flow.move, hx]
    · by_cases hf : y ∈ fresh
      · simp [Flow.move, Flow.extend, hf, hy]
      · simp [Flow.move, Flow.extend, hf, hy]
  · intro y pl hy hlive
    rw [act_seg]
    rcases eq_or_ne y x with rfl | hne
    · obtain rfl : q = pl := by simpa [Flow.move] using hy
      simpa [Flow.move] using htracks hlive
    · rw [hframe.others hne, ho.requests]
      simp only [Flow.move, Flow.extend, Function.update_of_ne hne] at hy ⊢
      by_cases hf : y ∈ fresh
      · rw [if_pos hf] at hy
        obtain rfl := Option.some.inj hy
        exact absurd hlive id
      · rw [if_neg hf] at hy
        exact h.tracks hy hlive

/-- A call on a request in hand that moves it into a queue of port `r`. -/
theorem send (h : Refines w a) (hidle : (w.peers i).pc = .idle) (hx : x ∈ (w.peers i).hands)
    {kind : QueueKind} (hs : Frame w.seg s x)
    (hbags : Appended w.seg s r kind x (r ≠ NoPort)) (hr : r ≠ NoPort)
    (htracks : (Place.queue (ι := ι) r kind).Live → Tracks (s.requests x) l t) :
    Refines (w.act i ⟨World.after (w.peers i).hands x r, .idle⟩ s)
      (a.move x (.queue r kind) l t) := by
  have hafter : World.after (w.peers i).hands x r = (w.peers i).hands.erase x := if_neg hr
  rw [hafter]
  refine (h.move _ hs (p := .hand i) (by simp) ?_ ?_ ?_ htracks).2
  · simpa using cons_coe_erase hx
  · exact hbags.into hr
  · intro pl hpl hplq
    refine contents_act (fun _ => congrArg _ hs.objects) (fun q kind' hq => ?_)
      (fun hh => absurd hh hpl) fun _ => by simp [hidle]
    refine hbags.rest q kind' fun _ heq => hplq ?_
    rw [hq, (Prod.mk.inj heq).1, (Prod.mk.inj heq).2]

theorem keep (h : Refines w a) (hidle : (w.peers i).pc = .idle) (hx : x ∈ (w.peers i).hands)
    (hs : Frame w.seg s x) (hbags : ∀ p kind, s.bag p kind = w.seg.bag p kind)
    (htracks : Tracks (s.requests x) l t) :
    Refines (w.act i ⟨(w.peers i).hands, .idle⟩ s) (a.move x (.hand i) l t) := by
  refine h.retrack hs (h.in_hand hx) (fun pl => ?_) fun _ => htracks
  exact contents_act (fun _ => congrArg _ hs.objects) (fun q kind _ => hbags q kind)
    (fun _ => rfl) fun _ => by simp [hidle]

/-- A request that a peer has in hand comes out of the call with the path it had. -/
theorem keep_same (h : Refines w a) (hidle : (w.peers i).pc = .idle) (hx : x ∈ (w.peers i).hands)
    (hs : Frame w.seg s x) (hbags : ∀ p kind, s.bag p kind = w.seg.bag p kind)
    (htracks : Tracks (s.requests x) (a.path x) (a.transit x)) :
    Refines (w.act i ⟨(w.peers i).hands, .idle⟩ s) a := by
  have hmove := h.keep hidle hx hs hbags htracks
  have hsame : a.move x (.hand i) (a.path x) (a.transit x) = a := by
    simp [Flow.move, ← h.in_hand hx]
  rwa [hsame] at hmove

theorem submitted (h : Refines w a) (hidle : (w.peers i).pc = .idle)
    (hx : x ∈ (w.peers i).hands)
    (hsub : Submitted w.seg s x (a.path x) (a.transit x) r) :
    (r = NoPort ∧ Refines (w.act i ⟨World.after (w.peers i).hands x r, .idle⟩ s) a) ∨
    (r ≠ NoPort ∧ Refines (w.act i ⟨World.after (w.peers i).hands x r, .idle⟩ s)
      (a.move x (.queue r .request) (a.transit x :: a.path x) (a.transit x))) := by
  by_cases hr : r = NoPort
  · refine .inl ⟨hr, ?_⟩
    have hafter : World.after (w.peers i).hands x r = (w.peers i).hands := if_pos hr
    rw [hafter]
    refine h.keep_same hidle hx hsub.frame (fun p kind => ?_) (hsub.kept hr)
    exact hsub.bags.rest p kind fun hne => absurd hr hne
  · exact .inr ⟨hr, h.send hidle hx hsub.frame hsub.bags hr fun _ => (hsub.moved hr).2⟩

theorem take (h : Refines w a) {portno : xport} {kind : QueueKind} (hs : Taken w.seg s portno kind x)
    (hheld : (w.peers i).pc.held = 0) (htracks : Tracks (s.requests x) l t) :
    a.place x = some (.queue portno kind) ∧
      Refines (w.act i ⟨x :: (w.peers i).hands, .idle⟩ s) (a.move x (.hand i) l t) := by
  refine h.move _ hs.frame (by simp) hs.out ?_ (fun pl hpl hplq => ?_) fun _ => htracks
  · simp
  · refine contents_act (fun _ => congrArg _ hs.frame.objects) (fun q kind' hq => ?_)
      (fun hh => absurd hh hplq) fun _ => hheld.symm
    refine hs.rest q kind' fun heq => hpl ?_
    rw [hq, (Prod.mk.inj heq).1, (Prod.mk.inj heq).2]

theorem gives (h : Refines w a) (hg : (w.peers i).Gives x peer) :
    ∃ p, (p = .hand i ∨ p = .busy i) ∧ a.place x = some p ∧ peer.pc = .idle ∧
      contents w p = x ::ₘ contents (w.act i peer s) p ∧
      ∀ pl, pl = .hand i ∨ pl = .busy i → pl ≠ p →
        contents (w.act i peer s) pl = contents w pl := by
  cases hg with
  | held hidle hx =>
    refine ⟨.hand i, .inl rfl, h.in_hand hx, rfl, by simpa using cons_coe_erase hx, ?_⟩
    rintro pl (rfl | rfl) hpl
    · exact absurd rfl hpl
    · simp [hidle]
  | aborted hpc =>
    have hmem : x ∈ contents w (.busy i) := by simp [hpc, Pc.held]
    refine ⟨.busy i, .inr rfl, h.mem_iff.mp hmem, rfl, by simp [hpc, Pc.held], ?_⟩
    rintro pl (rfl | rfl) hpl
    · simp
    · exact absurd rfl hpl

end Refines

theorem held_of_receiving {peer : Peer} {portno : xport} {flags : UInt32}
    (h : peer.pc = .idle ∨ peer.pc = .receiving portno flags) : peer.pc.held = 0 := by
  rcases h with h | h <;> rw [h] <;> rfl

theorem World.Step.simulates [Builtins] {e : Event} (h : Refines w a) (hsized : w.seg.Sized)
    (hstep : w.Step (i, e) w') : ∃ a', FlowStep a (i, e) a' ∧ Refines w' a' := by
  cases hstep with
  | miss hm => exact ⟨a, .still trivial, h.miss hm⟩
  | @got _ src dst flags x s s' ho hdone =>
    obtain ⟨fresh, p, c, ho⟩ := h.obtains ho
    obtain ⟨hframe, hbags, ⟨-, htracks⟩ | ⟨hno, -⟩⟩ := getDone_spec (x := x) ho.wf (ho.valid ho.src) hdone
    · obtain ⟨hx, hr⟩ := h.obtain_done ⟨x :: (w.peers i).hands, .idle⟩ ho hframe hbags (.inl rfl)
        (by simp)
        (by
          rintro pl (rfl | rfl) hpl
          · exact absurd rfl hpl
          · rw [contents_busy, contents_busy, act_peers_self, ho.free]; rfl)
        fun _ => htracks
      exact ⟨_, .got ho.new hx ho.origin, hr⟩
    · cases hno
  | @refused _ src dst flags x s s' ho hdone =>
    obtain ⟨fresh, p, c, ho⟩ := h.obtains ho
    obtain ⟨hframe, hbags, -⟩ := getDone_spec (x := x) ho.wf (ho.valid ho.src) hdone
    obtain ⟨hx, hr⟩ := h.obtain_done ⟨(w.peers i).hands, .aborting x⟩ ho hframe hbags (.inr rfl)
      (by rw [contents_busy, contents_busy, act_peers_self, ho.free]; rfl)
      (by
        rintro pl (rfl | rfl) hpl
        · simp
        · exact absurd rfl hpl)
      fun hlive => absurd hlive id
    exact ⟨_, .refused ho.new hx ho.origin, hr⟩
  | @lost _ x hpc hput =>
    obtain ⟨hx, hr⟩ := h.lose (p := .busy i) (x := x) ⟨(w.peers i).hands, .idle⟩
      ⟨h.wf, rfl, fun _ => rfl⟩ (by simp [hpc, Pc.held])
      (fun pl hpl => contents_act (fun _ => rfl) (fun _ _ _ => rfl) (fun _ => rfl)
        fun hb => absurd hb hpl)
    exact ⟨_, .lost hx, hr⟩
  | submit hidle hx _ hsub =>
    have hlive := h.tracks (h.in_hand hx) trivial
    rcases h.submitted hidle hx (submit_spec h.wf hsized (h.ne_noneidx (h.in_hand hx)) hlive hsub)
      with ⟨rfl, hr⟩ | ⟨hne, hr⟩
    · exact ⟨a, .still rfl, hr⟩
    · exact ⟨_, .submit (h.in_hand hx) hne, hr⟩
  | forward hidle hx _ hfwd =>
    have hlive := h.tracks (h.in_hand hx) trivial
    rcases h.submitted hidle hx (forward_spec h.wf hsized (h.ne_noneidx (h.in_hand hx)) hlive hfwd)
      with ⟨rfl, hr⟩ | ⟨hne, hr⟩
    · exact ⟨a, .still rfl, hr⟩
    · exact ⟨_, .forward (h.in_hand hx) hne, hr⟩
  | accept hidle hacc =>
    rcases accept_spec h.wf (fun x hx => h.ne_noneidx_of_mem (p := .queue _ .request) hx) hacc
      with ⟨rfl, hq⟩ | ⟨x, rfl, htaken, hreq⟩
    · exact ⟨a, .still rfl, h.still hq rfl (by rw [hidle])⟩
    · have hlive := h.queue_tracks htaken trivial
      obtain ⟨hx, hr⟩ := h.take htaken (by rw [hidle]; rfl) (by rw [hreq]; exact ⟨hlive.path, rfl⟩)
      exact ⟨_, .accept hx, hr⟩
  | acceptBusy hidle _ => exact ⟨a, .still rfl, h.still h.wf.quiet rfl (by rw [hidle])⟩
  | @respond _ x portno flags chunk r s hidle hx _ hres =>
    have hlive := h.tracks (h.in_hand hx) trivial
    obtain ⟨r', s', hres', hspec⟩ := respond_spec flags h.wf hsized
      (h.ne_noneidx (h.in_hand hx)) hlive portno chunk
    rw [hres] at hres'
    obtain ⟨rfl, rfl⟩ := Prod.mk.inj hres'
    obtain ⟨l', htracks, hsuf, hhead⟩ := hspec.path
    by_cases hr : r = NoPort
    · subst hr
      have hafter : after (w.peers i).hands x NoPort = (w.peers i).hands := if_pos rfl
      rw [hafter]
      refine ⟨_, .trim (h.in_hand hx) hsuf, h.keep hidle hx hspec.frame (fun p kind => ?_) htracks⟩
      exact hspec.bags.rest p kind fun hne => absurd rfl hne
    · exact ⟨_, .respond (h.in_hand hx) hsuf hr (hhead hr),
        h.send hidle hx hspec.frame hspec.bags hr fun _ => htracks⟩
  | receiveNull hpc hrec =>
    rcases receive_spec h.wf (fun x hx => h.ne_noneidx_of_mem (p := .queue _ .reply) hx) hrec
      with ⟨-, hq⟩ | ⟨x, htaken, hspec⟩
    · exact ⟨a, .still rfl, h.still hq rfl (held_of_receiving hpc).symm⟩
    · rcases hspec (h.queue_tracks htaken trivial) with ⟨-, hr⟩ | ⟨-, -, -, hr, -⟩ <;> cases hr
  | receiveBusy hpc _ =>
    exact ⟨a, .still rfl, h.still h.wf.quiet rfl (held_of_receiving hpc).symm⟩
  | receive hpc hrec =>
    rcases receive_spec h.wf (fun x hx => h.ne_noneidx_of_mem (p := .queue _ .reply) hx) hrec
      with ⟨hr, -⟩ | ⟨x, htaken, hspec⟩
    · cases hr
    · rcases hspec (h.queue_tracks htaken trivial) with ⟨-, hr⟩ | ⟨p', l', hl, hr, htracks⟩
      · cases hr
      · cases hr
        obtain ⟨hx, hr⟩ := h.take htaken (held_of_receiving hpc) htracks
        exact ⟨_, .receive hx hl, hr⟩
  | @drop _ portno flags x s hpc hrec =>
    rcases receive_spec h.wf (fun x hx => h.ne_noneidx_of_mem (p := .queue _ .reply) hx) hrec
      with ⟨hr, -⟩ | ⟨x, htaken, hspec⟩
    · cases hr
    · rcases hspec (h.queue_tracks htaken trivial) with ⟨hl, hr⟩ | ⟨-, -, -, hr, -⟩
      · cases hr
        obtain ⟨hx, hr⟩ := h.lose (p := .queue portno .reply)
          ⟨(w.peers i).hands, .receiving portno flags⟩ htaken.frame htaken.out fun pl hpl => by
            refine contents_act (fun _ => congrArg _ htaken.frame.objects) (fun q kind hq => ?_)
              (fun _ => rfl) fun _ => (held_of_receiving hpc).symm
            refine htaken.rest q kind fun heq => hpl ?_
            rw [hq, (Prod.mk.inj heq).1, (Prod.mk.inj heq).2]
        exact ⟨_, .drop hx hl, hr⟩
      · cases hr
  | putRefused hidle hx _ =>
    exact ⟨a, .still trivial, h.still h.wf.quiet rfl (by rw [hidle])⟩
  | @put _ x peer src xqi s hg hput hne =>
    obtain ⟨p, hp, hx, hpc, hout, hown⟩ := h.gives (s := s) hg
    obtain ⟨hframe, hbags⟩ := putFree_spec h.wf hsized (h.ne_noneidx hx) hput
    obtain ⟨-, hr⟩ := h.move (l := a.path x) (t := a.transit x) (q := .queue src .free) peer hframe
      (by rcases hp with rfl | rfl <;> simp) hout (hbags.into hne)
      (fun pl hpl hplq => by
        by_cases hi : pl = .hand i ∨ pl = .busy i
        · exact hown pl hi hpl
        · refine contents_act (fun _ => congrArg _ hframe.objects) (fun q kind hq => ?_)
            (fun hh => absurd (.inl hh) hi) fun hb => absurd (.inr hb) hi
          refine hbags.rest q kind fun _ heq => hplq ?_
          rw [hq, (Prod.mk.inj heq).1, (Prod.mk.inj heq).2])
      fun hlive => absurd hlive id
    exact ⟨_, .put (by rcases hp with rfl | rfl <;> simp [hx]), hr⟩
  | @putFull _ x peer src s hg hput =>
    have hx : ∃ p, a.place x = some p := by
      obtain ⟨p, -, hx, -⟩ := h.gives (s := s) hg
      exact ⟨p, hx⟩
    obtain ⟨hframe, hbags⟩ := putFree_spec h.wf hsized (h.ne_noneidx hx.choose_spec) hput
    have hseg : ∀ pl, pl ≠ .hand i → pl ≠ .busy i →
        contents (w.act i ⟨peer.hands, .putting x src⟩ s) pl = contents w pl := fun pl hh hb =>
      contents_act (fun _ => congrArg _ hframe.objects)
        (fun q kind _ => hbags.rest q kind fun hne => absurd rfl hne)
        (fun hpl => absurd hpl hh) fun hpl => absurd hpl hb
    cases hg with
    | held hidle hx =>
      obtain ⟨hpl, hr⟩ := h.move (l := a.path x) (t := a.transit x) (p := .hand i) (q := .busy i)
        ⟨(w.peers i).hands.erase x, .putting x src⟩ hframe (by simp)
        (by simpa using cons_coe_erase hx) (by simp [hidle, Pc.held])
        (fun pl hpl hplq => hseg pl hpl hplq) fun hlive => absurd hlive id
      exact ⟨_, .putFull (.inl hpl), hr⟩
    | aborted hpc =>
      have hmem : x ∈ contents w (.busy i) := by simp [hpc, Pc.held]
      have hpl := h.mem_iff.mp hmem
      refine ⟨_, .putFull (.inr hpl), h.retrack hframe hpl (fun pl => ?_) fun hlive =>
        absurd hlive id⟩
      by_cases hi : pl = .hand i ∨ pl = .busy i
      · rcases hi with rfl | rfl
        · simp
        · simp [hpc, Pc.held]
      · exact hseg pl (fun hh => hi (.inl hh)) fun hb => hi (.inr hb)
  | @putObj _ x src hpc =>
    have hmem : x ∈ contents w (.busy i) := by simp [hpc, Pc.held]
    have hpl := h.mem_iff.mp hmem
    refine ⟨_, .putObj hpl, h.put ⟨h.wf.queues, h.wf.handler.size, h.wf.handler.bound,
      h.wf.handler.apart⟩ rfl (fun _ _ => rfl) (by simp [hpl]) ?_ fun hlive => absurd hlive id⟩
    apply h.places.move (p := .busy i) (by simp)
    · simp [hpc, Pc.held]
    · rfl
    · intro pl hpl hplq
      exact contents_act (fun hl => absurd hl hplq) (fun _ _ _ => rfl) (fun _ => rfl)
        fun hb => absurd hb hpl
  | putDone hpc hport =>
    exact ⟨a, .still trivial, h.still (putDone_spec h.wf hport) rfl (by rw [hpc]; rfl)⟩
  | @fill _ x payload hidle hx =>
    have hlive := h.tracks (h.in_hand hx) trivial
    refine ⟨a, .still trivial, h.keep_same hidle hx (h.wf.setRequest x _) (fun _ _ => rfl) ?_⟩
    rw [requests_setRequest]
    exact ⟨hlive.path, hlive.transit⟩

end Libxseg
