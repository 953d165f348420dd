import Libxseg.XsegAccountsSteps
import Libxseg.XsegConservation

/-!
# What the calls in bulk do to the flow of the requests

`xseg_free_requests` takes requests out of a free queue and puts them back into the list, and may
lose one. `xseg_alloc_requests` with no room in the queue and `xseg_set_freequeue_size` with
enough room leave every request where it is; new ones may come to the list.
-/

namespace Libxseg

set_option autoImplicit false

open Xseg

variable {ι : Type} {w : World ι} {a a' : Flow ι} {s : Xseg} {portno : xport} {port : Port}
  {x : xptr} {xs : Finset xptr}

/-- The requests `xs` of the free queue of a port have come to the list. The others are where they
were, or in the list, or lost. -/
structure Relisted (w : World ι) (a : Flow ι) (portno : xport) (xs : Finset xptr) (s : Xseg)
    (a' : Flow ι) : Prop where
  refines : Refines { w with seg := s } a'
  queued : ∀ x ∈ xs, a.place x = some (.queue portno .free)
  rest : ∀ {x pl}, a'.place x = some pl → pl ≠ .list → a.place x = some pl
  out : ∀ x, a'.Out x ↔ a.Out x ∧ x ∉ xs
  steady : Steady w.seg s
  home : a.RepliesHome → a'.RepliesHome

variable [DecidableEq ι]

theorem act_self (w : World ι) (i : ι) (s : Xseg) :
    w.act i (w.peers i) s = { w with seg := s } := by
  rw [World.act, Function.update_eq_self]

omit [DecidableEq ι] in
theorem Keeping.relisted (h : Keeping w a) (hs : Relisted w a portno xs s a')
    (hlost : a'.lost = a.lost) : Keeping { w with seg := s } a' where
  refines := hs.refines
  home := hs.home h.home
  none_lost := hlost ▸ h.none_lost
  none_refused := h.none_refused

theorem Relisted.quiet (i : ι) (h : Refines w a) (hs : Quiet w.seg s)
    (hallocs : s.allocs = w.seg.allocs) : Relisted w a portno ∅ s a where
  refines := act_self w i s ▸ h.still hs rfl rfl
  queued := fun x hx => absurd hx (Finset.notMem_empty x)
  rest := fun hpl _ => hpl
  out := fun x => by simp
  steady := ⟨hallocs, fun x => by rw [hs.requests]⟩
  home := id

theorem Refines.relist (i : ι) (h : Refines w a) (hs : Taken w.seg s portno .free x) :
    a.place x = some (.queue portno .free) ∧
      Refines { w with seg := s.putObj x } (a.move x .list [] 0) := by
  have hx : a.place x = some (.queue portno .free) :=
    (h.mem_iff (p := .queue portno .free)).mp hs.mem
  have hwf := hs.frame.wf
  have hlist : (s.putObj x).requestH.list = x :: w.seg.requestH.list := by
    rw [← hs.frame.objects]
    rfl
  have hobjects : (s.putObj x).requestH.objects = w.seg.requestH.objects := by
    rw [← hs.frame.objects]
    rfl
  rw [← act_self w i]
  refine ⟨hx, h.put ⟨hwf.queues, hwf.handler.size, hwf.handler.bound, hwf.handler.apart⟩
    hobjects (fun y hy => hs.frame.others hy) (by simp [hx]) ?_ fun hlive => absurd hlive id⟩
  apply h.places.move (p := .queue portno .free) (by simp)
  · exact hs.out
  · rw [contents_list, act_seg, hlist]
    rfl
  · intro pl hpl hplq
    refine contents_act (fun hl => absurd hl hplq) (fun q kind hq => ?_) (fun _ => rfl) fun _ => rfl
    refine hs.rest q kind fun heq => hpl ?_
    rw [hq, (Prod.mk.inj heq).1, (Prod.mk.inj heq).2]

theorem Relisted.lost (i : ι) (h : Refines w a) (hs : Taken w.seg s portno .free x)
    (hsteady : Steady w.seg s) : Relisted w a portno ∅ s (a.lose x) := by
  obtain ⟨hx, hr⟩ := h.lose (w.peers i) (p := .queue portno .free) hs.frame hs.out
    fun pl hpl => contents_act (fun _ => congrArg _ hs.frame.objects)
      (fun q kind hq => hs.rest q kind fun heq =>
        hpl (by rw [hq, (Prod.mk.inj heq).1, (Prod.mk.inj heq).2])) (fun _ => rfl) fun _ => rfl
  refine ⟨act_self w i s ▸ hr, by simp, ?_, ?_, hsteady, fun ha => ha.lose⟩
  · intro y pl hpl _
    rcases eq_or_ne y x with rfl | hy
    · simp [Flow.lose] at hpl
    · simpa [Flow.lose, hy] using hpl
  · intro y
    rw [Flow.out_lose (.of_place hx (by simp))]
    simp

omit [DecidableEq ι] in
theorem Relisted.cons {s₁ : Xseg} (hx : a.place x = some (.queue portno .free))
    (hsteady : Steady w.seg s₁)
    (h : Relisted { w with seg := s₁ } (a.move x .list [] 0) portno xs s a') :
    x ∉ xs ∧ Relisted w a portno (insert x xs) s a' := by
  have hnot : x ∉ xs := by
    intro hmem
    have hpl := h.queued x hmem
    rw [Flow.place_move_self] at hpl
    cases hpl
  have hback {y : xptr} {pl : Place ι} (hpl : (a.move x .list [] 0).place y = some pl)
      (hlist : pl ≠ .list) : a.place y = some pl := by
    rcases eq_or_ne y x with rfl | hy
    · rw [Flow.place_move_self] at hpl
      exact absurd (Option.some.inj hpl).symm hlist
    · rwa [Flow.place_move_of_ne hy] at hpl
  refine ⟨hnot, h.refines, ?_, ?_, ?_, hsteady.trans h.steady, fun ha => h.home (ha.move (by simp))⟩
  · intro y hy
    rcases Finset.mem_insert.mp hy with rfl | hy
    · exact hx
    · exact hback (h.queued y hy) (by simp)
  · exact fun hpl hlist => hback (h.rest hpl hlist) hlist
  · intro y
    rw [h.out, Flow.out_move_list, Finset.mem_insert, not_or]
    exact ⟨fun ⟨⟨hne, hout⟩, hy⟩ => ⟨hout, hne, hy⟩, fun ⟨hout, hne, hy⟩ => ⟨⟨hne, hout⟩, hy⟩⟩

omit [DecidableEq ι] in
theorem drainFree_empty {s : Xseg} {q : Xq} (hpop : (port.queue .free).popHead = (Noneidx, q))
    (left k : Nat) :
    s.drainFree portno port left k = (k, s.setPort portno (port.setQueue .free q)) := by
  cases left with
  | zero =>
    unfold drainFree
    simp only [hpop, if_true]
  | succ left =>
    unfold drainFree
    simp only [hpop, if_true]

omit [DecidableEq ι] in
theorem popHead_count {q q' : Xq} {x : xqindex} (hpop : q.popHead = (x, q')) (hx : x ≠ Noneidx) :
    q.count.toNat = q'.count.toNat + 1 := by
  have hcount : q.count ≠ 0 := by
    intro hzero
    rw [Xq.popHead, if_pos hzero] at hpop
    exact hx (Prod.mk.inj hpop).1.symm
  have hpred := popHead_count_sub_one hcount
  have hpos : q.count.toNat ≠ 0 := fun hzero => hcount (UInt64.toNat_inj.mp hzero)
  have hone : (1 : UInt64) ≤ q.count := by
    rw [UInt64.le_iff_toNat_le, UInt64.toNat_one]
    omega
  rw [hpop] at hpred
  rw [hpred, UInt64.toNat_sub_of_le _ _ hone, UInt64.toNat_one]
  omega

/-- The first section of `xseg_free_requests` puts back as many requests as it counts. -/
theorem drainFree_relists (i : ι) (left : Nat) {k n : Nat} (h : Refines w a)
    (hport : w.seg.getPort portno = some port)
    (hdrain : w.seg.drainFree portno port left k = (n, s)) :
    ∃ xs a', n = k + xs.card ∧ Relisted w a portno xs s a' ∧
      ((port.queue .free).count.toNat ≤ left → a'.lost = a.lost) := by
  induction left generalizing w a port k with
  | zero =>
    obtain ⟨xqi, q, hpop, -, ⟨hnone, hquiet⟩ | htaken⟩ := popQueue_spec h.wf hport .free
    · rw [drainFree_empty (hnone ▸ hpop)] at hdrain
      obtain ⟨rfl, rfl⟩ := Prod.mk.inj hdrain
      exact ⟨∅, a, rfl, .quiet i h hquiet (allocs_setQueue hport .free q), fun _ => rfl⟩
    · have hne := h.ne_noneidx_of_mem (p := .queue portno .free) htaken.mem
      unfold drainFree at hdrain
      simp only [hpop, if_neg hne] at hdrain
      obtain ⟨rfl, rfl⟩ := Prod.mk.inj hdrain
      refine ⟨∅, _, rfl, .lost i h htaken (.setQueue hport .free q), fun hzero => ?_⟩
      have hcount := popHead_count hpop hne
      omega
  | succ left ih =>
    obtain ⟨xqi, q, hpop, -, ⟨hnone, hquiet⟩ | htaken⟩ := popQueue_spec h.wf hport .free
    · rw [drainFree_empty (hnone ▸ hpop)] at hdrain
      obtain ⟨rfl, rfl⟩ := Prod.mk.inj hdrain
      exact ⟨∅, a, rfl, .quiet i h hquiet (allocs_setQueue hport .free q), fun _ => rfl⟩
    · have hne := h.ne_noneidx_of_mem (p := .queue portno .free) htaken.mem
      unfold drainFree at hdrain
      simp only [hpop, if_neg hne] at hdrain
      obtain ⟨hx, hr⟩ := h.relist i htaken
      have hqueue := Steady.setQueue hport .free q
      have hsteady : Steady w.seg ((w.seg.setPort portno (port.setQueue .free q)).putObj xqi) :=
        ⟨hqueue.allocs, hqueue.sources⟩
      have hport' : Xseg.getPort ((w.seg.setPort portno (port.setQueue .free q)).putObj xqi) portno =
          some (port.setQueue .free q) := (getPort_setPort hport portno).trans (if_pos rfl)
      obtain ⟨xs, a', rfl, hrest, hlost⟩ := ih (w := { w with
        seg := (w.seg.setPort portno (port.setQueue .free q)).putObj xqi }) hr hport' hdrain
      obtain ⟨hnot, hall⟩ := Relisted.cons hx hsteady hrest
      refine ⟨insert xqi xs, a', ?_, hall, fun hfew => hlost ?_⟩
      · rw [Finset.card_insert_of_notMem hnot]
        omega
      · have hcount := popHead_count hpop hne
        rw [Port.queue_setQueue]
        omega

theorem Relisted.extend (i : ι) (h : Refines w a) {fresh : List xptr} (hwf : s.Wf)
    (hsteady : Steady w.seg s) (hrequests : s.requests = w.seg.requests)
    (hbags : ∀ p kind, s.bag p kind = w.seg.bag p kind)
    (hlist : s.requestH.list = fresh ++ w.seg.requestH.list)
    (hobjects : s.requestH.objects = fresh ++ w.seg.requestH.objects) (hnd : fresh.Nodup)
    (hfresh : ∀ y ∈ fresh, y ∉ w.seg.requestH.objects) :
    Relisted w a portno ∅ s (a.extend fresh) := by
  have hnew : a.New fresh := by
    intro y hy
    have hout := hfresh y hy
    rw [h.objects, not_or, not_not] at hout
    exact hout
  refine ⟨⟨hwf, ?_, ?_, ?_⟩, by simp, fun hpl hlist => Flow.place_of_extend hlist hpl, ?_, hsteady,
    fun ha => ha.extend fresh⟩
  · refine h.places.insert hnd (fun y hy => (hnew y hy).1) (p := .list) ?_ fun pl hpl => ?_
    · rw [contents_list, contents_list, hlist]
      rfl
    · rw [← act_self w i]
      exact contents_act (fun hl => absurd hl hpl) (fun q kind _ => hbags q kind) (fun _ => rfl)
        fun _ => rfl
  · intro y
    rw [hobjects, List.mem_append, h.objects]
    by_cases hy : y ∈ fresh
    · simp [Flow.extend, hy]
    · simp [Flow.extend, hy]
  · intro y pl hpl hlive
    have hlist : pl ≠ .list := fun heq => by simp [heq, Place.Live] at hlive
    rw [hrequests]
    exact h.tracks (Flow.place_of_extend hlist hpl) hlive
  · intro y
    rw [Flow.out_extend hnew]
    simp

omit [DecidableEq ι] in
theorem fillFree_none {s : Xseg} {mems : Nat → Option (xptr × UInt64)} {i : Nat} {h : XobjectH}
    (hget : s.requestH.getObj X_ALLOC (mems i) = (none, h)) (left : Nat) :
    s.fillFree portno port mems left i = (i, { s with requestH := h }) := by
  cases left with
  | zero =>
    unfold fillFree
    simp only [hget]
  | succ left =>
    unfold fillFree
    simp only [hget]

theorem fillFree_relists (i : ι) (h : Refines w a) (hport : w.seg.getPort portno = some port)
    {mems : Nat → Option (xptr × UInt64)} {left n : Nat}
    (hmem : ∀ c, mems 0 = some c → w.seg.requestH.HeapChunk c)
    (hfew : (w.seg.requestH.getObj X_ALLOC (mems 0)).1 = none ∨
      left ≠ 0 ∧ (port.queue .free).count = (port.queue .free).size)
    (hfill : w.seg.fillFree portno port mems left 0 = (n, s)) :
    ∃ a', Relisted w a portno ∅ s a' ∧ a'.lost = a.lost := by
  rcases XobjectH.getObj_spec X_ALLOC h.wf.handler hmem with
    hnone | ⟨x, fresh, list, h', hsome, hw, hlist, hcons, hobjects, hnd, hfresh⟩
  · rw [fillFree_none hnone] at hfill
    obtain ⟨rfl, rfl⟩ := Prod.mk.inj hfill
    exact ⟨a, .quiet i h h.wf.quiet rfl, rfl⟩
  obtain ⟨hleft, hfull⟩ : left ≠ 0 ∧ (port.queue .free).count = (port.queue .free).size := by
    refine hfew.resolve_left fun hnone => ?_
    rw [hsome] at hnone
    cases hnone
  obtain ⟨left, rfl⟩ := Nat.exists_eq_succ_of_ne_zero hleft
  have hq := h.wf.queues hport .free
  have happ := hq.appendTail_full (by rw [← hq.count, hfull]) x
  unfold fillFree at hfill
  simp only [hsome, happ, if_true] at hfill
  obtain ⟨rfl, rfl⟩ := Prod.mk.inj hfill
  have hport' : Xseg.getPort { w.seg with requestH := h' } portno = some port := hport
  have hwf : Wf { w.seg with requestH := h' } := ⟨h.wf.queues, hw⟩
  have hqueue : (port.setQueue .free (port.queue .free)).queue = port.queue :=
    Function.update_eq_self ..
  have hframe := hwf.setPort_same _ hport' hqueue x
  have hput : (Xseg.setPort { w.seg with requestH := h' } portno
      (port.setQueue .free (port.queue .free))).Wf := hframe.wf
  refine ⟨_, .extend i h ⟨hput.queues, hw.size, hw.bound, hw.apart⟩ ?_ rfl
    (bag_setPort_same _ hport' hqueue) ?_ hobjects hnd hfresh, rfl⟩
  · have hsteady := Steady.setQueue hport' .free (port.queue .free)
    exact ⟨hsteady.allocs, hsteady.sources⟩
  · rw [← hcons, ← hlist]
    rfl

theorem resizeFree_relists (i : ι) (h : Refines w a) (hport : w.seg.getPort portno = some port)
    {newq : Xq} {ret : Int} (hnew : newq.Repr []) (hfits : (port.queue .free).count ≤ newq.size)
    (hresize : w.seg.resizeFree portno port newq = (ret, s)) :
    Relisted w a portno ∅ s a := by
  have hq := h.wf.queues hport .free
  have hkept : w.seg.dropExcess newq.size (port.queue .free) = (port.queue .free, w.seg) := by
    rw [dropExcess, if_neg (UInt64.not_lt.mpr hfits)]
  have hroom := UInt64.le_iff_toNat_le.mp hfits
  rw [hq.count] at hroom
  obtain ⟨q', hmove, hcount, hrepr, -⟩ := Xq.Repr.resize_room hq hnew hroom
  unfold resizeFree at hresize
  simp only [hkept, hmove, if_neg hcount] at hresize
  obtain ⟨rfl, rfl⟩ := Prod.mk.inj hresize
  obtain ⟨hframe, hself, hrest⟩ := h.wf.setQueue .free hport hrepr 0
  refine .quiet i h ⟨hframe.wf, rfl, rfl, fun p kind => ?_⟩ (allocs_setQueue hport .free q')
  by_cases heq : (p, kind) = (portno, QueueKind.free)
  · obtain ⟨rfl, rfl⟩ := Prod.mk.inj heq
    rw [hself, bag_eq hport, Multiset.coe_reverse]
  · exact hrest p kind heq

end Libxseg
