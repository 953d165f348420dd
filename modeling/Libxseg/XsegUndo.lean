import Libxseg.XsegBulk

/-!
# Calls to xseg_get_request that fail

When the ports that a caller names are refused, `xseg_get_request` hands the request it has
taken to `xseg_put_request`, which looks for the port in the request itself. There the number
of the port has not been written yet: it is that of an earlier use, or whatever the memory of a
new object holds. `UndoHome` says when the request finds its way back.
-/

namespace Libxseg

set_option autoImplicit false

namespace Xseg

/-- What `xseg_put_request` can make of the request `x`, as far as ports and the handler go. -/
inductive PutBack (s : Xseg) (x : xptr) : Xseg → Prop
  | refused {s' : Xseg} : s.getPort (s.requests x).srcPortno = none → s'.requestH = s.requestH →
      (∀ p, s'.getPort p = s.getPort p) → PutBack s x s'
  | free {port : Port} {s' : Xseg} : s.getPort (s.requests x).srcPortno = some port →
      ¬ (port.queue .free).size ≤ (port.queue .free).count → s'.requestH = s.requestH →
      (∀ p, s'.getPort p = if p = (s.requests x).srcPortno then
        some (port.setQueue .free ((port.queue .free).appendHead x).2) else s.getPort p) →
      PutBack s x s'
  | list {port : Port} {s' : Xseg} : s.getPort (s.requests x).srcPortno = some port →
      (port.queue .free).size ≤ (port.queue .free).count →
      s'.requestH = s.requestH.putObj x →
      (∀ p, s'.getPort p = if p = (s.requests x).srcPortno then
        some { port with allocReqs := port.allocReqs - 1 } else s.getPort p) →
      PutBack s x s'

theorem PutBack.of_clearBuffers {s s' : Xseg} {x : xptr}
    (h : (s.setRequest x (clearBuffers (s.requests x))).PutBack x s') : s.PutBack x s' := by
  have hsrc : ((s.setRequest x (clearBuffers (s.requests x))).requests x).srcPortno =
      (s.requests x).srcPortno := by
    rw [requests_setRequest]
    rfl
  cases h with
  | refused hport hhandler hports =>
    rw [hsrc] at hport
    exact .refused hport hhandler hports
  | free hport hroom hhandler hports =>
    rw [hsrc] at hport hports
    exact .free hport hroom hhandler hports
  | list hport hfull hhandler hports =>
    rw [hsrc] at hport hports
    exact .list hport hfull hhandler hports

/-- Nothing is allocated, or the first object of the list after a new chunk may have come. -/
theorem getAlloc_draws {s : Xseg} {src : xport} {port : Port} (flags : UInt32)
    {mem : Option (xptr × UInt64)}
    (hlist : Noneidx ∉ s.requestH.list) (hmem : XobjectH.InSpace mem) :
    s.getAlloc src port flags mem = (none, s) ∨
      ∃ x fresh h', s.getAlloc src port flags mem = (some x, { s with requestH := h' }.setPort src
        { port with allocReqs := port.allocReqs + 1 }) ∧ x ≠ Noneidx ∧
        x :: h'.list = fresh ++ s.requestH.list ∧ h'.objects = fresh ++ s.requestH.objects := by
  unfold getAlloc
  by_cases hmay : port.allocReqs < port.maxAllocReqs
  · rw [if_pos hmay]
    rcases XobjectH.getObj_draws (flags &&& X_ALLOC) hlist hmem with
      hnone | ⟨x, fresh, h', hsome, hx, -, hcons, hobjs⟩
    · rw [hnone]
      exact .inl rfl
    · rw [hsome]
      exact .inr ⟨x, fresh, h', rfl, hx, hcons, hobjs⟩
  · rw [if_neg hmay]
    exact .inl rfl

theorem getAlloc_nrPorts (s : Xseg) (src : xport) (port : Port) (flags : UInt32)
    (mem : Option (xptr × UInt64)) : (s.getAlloc src port flags mem).2.nrPorts = s.nrPorts := by
  unfold getAlloc
  split
  · split <;> rfl
  · rfl

end Xseg

namespace SegM
open LockM
variable {d d' : SegmentData} {x : xptr} {src dst : xport} {flags : UInt32}
  {mem : Option (xptr × UInt64)}

theorem run_countRequest (elapsed : UInt64) (d : SegmentData) :
    countRequest elapsed ⟨d, ∅⟩ =
      some ((), ⟨{ d with reqs := d.reqs.countRequest elapsed }, ∅⟩) := by
  unfold countRequest
  by_cases helapsed : elapsed ≠ 0
  · rw [if_pos helapsed]
    exact run_critical SegmentLock.segment _ d
  · rw [if_neg helapsed, Xseg.countRequest, if_neg helapsed]
    rfl

theorem pushFree_eq {s : Xseg} {r : xport} {port : Port} (h : s.getPort r = some port)
    (port' : Port) (x : xptr) : pushFree r port' x s =
      (((port.queue .free).appendHead x).1,
        s.setPort r (port.setQueue .free ((port.queue .free).appendHead x).2)) := by
  rw [pushFree, portAt_eq h]

variable [Builtins]

theorem putRequest_putBack (hx : x ≠ Noneidx) (portno : xport) (d : SegmentData) :
    ∃ ret s', putRequest (some x) portno ⟨d, ∅⟩ = some (ret, ⟨{ d with reqs := s' }, ∅⟩) ∧
      d.reqs.PutBack x s' := by
  unfold putRequest
  dsimp only
  rw [run_bind rfl, run_bind rfl]
  dsimp only
  cases hport : d.reqs.getPort (d.reqs.requests x).srcPortno with
  | none => exact ⟨_, _, rfl, .refused hport rfl fun _ => rfl⟩
  | some port =>
    dsimp only
    rw [run_bind rfl, run_bind (run_countRequest _ _)]
    -- neither of these two touches a port or the handler
    generalize hs₁ : (onReqs_ (fun s => s.setRequest x (Xseg.emptied (d.reqs.requests x))) d).2 = d₁
    have hports (p : xport) :
        (d₁.reqs.countRequest (Xseg.emptied (d.reqs.requests x)).elapsed).getPort p =
          d.reqs.getPort p := by
      rw [Xseg.getPort_countRequest, ← hs₁]
      rfl
    have hhandler : (d₁.reqs.countRequest (Xseg.emptied (d.reqs.requests x)).elapsed).requestH =
        d.reqs.requestH := by
      rw [← hs₁]
      unfold Xseg.countRequest
      split <;> rfl
    have hother : d₁.ports = d.ports ∧ d₁.priv = d.priv := by
      rw [← hs₁]
      exact ⟨rfl, rfl⟩
    obtain ⟨hd₁, hd₁'⟩ := hother
    generalize d₁.reqs.countRequest (Xseg.emptied (d.reqs.requests x)).elapsed = s₁ at hports hhandler
    have hport₁ := (hports _).trans hport
    rw [run_bind (run_critical _ _ _), onReqs_eq (pushFree_eq hport₁ port x)]
    dsimp only
    rw [hd₁, hd₁']
    by_cases hfull : (port.queue .free).size ≤ (port.queue .free).count
    · have happ : (port.queue .free).appendHead x = (Noneidx, port.queue .free) := if_pos hfull
      have hsame : s₁.setPort (d.reqs.requests x).srcPortno
          (port.setQueue .free (port.queue .free)) = s₁ := Xseg.setPort_self hport₁ .free
      rw [happ]
      dsimp only
      rw [if_neg (not_not_intro rfl), hsame, run_bind rfl, run_bind (run_critical _ _ _)]
      refine ⟨0, _, rfl, .list hport hfull ?_ fun p => ?_⟩
      · exact congrArg (XobjectH.putObj · x) hhandler
      · have hput : (s₁.putObj x).getPort (d.reqs.requests x).srcPortno = some port := hport₁
        dsimp only [onReqs_]
        rw [portAt_eq hput, Xseg.putDone, Xseg.getPort_setPort hput]
        have hp : (s₁.putObj x).getPort p = d.reqs.getPort p := hports p
        rw [hp]
    · have happ : ((port.queue .free).appendHead x).1 = x := by
        rw [Xq.appendHead, if_neg hfull]
      rw [if_pos (by rwa [happ])]
      refine ⟨0, _, rfl, .free hport hfull hhandler fun p => ?_⟩
      rw [Xseg.getPort_setPort hport₁, hports]

theorem act_getDone {ok : Bool} {s₁ : Xseg} (h : d.reqs.getDone x src dst = (ok, s₁)) :
    (act (onReqs fun s => s.getDone x src dst) : SegM Bool) ⟨d, ∅⟩ =
      some (ok, ⟨{ d with reqs := s₁ }, ∅⟩) := by
  unfold act
  dsimp only
  rw [onReqs_eq h]

/-- The ports of a request that `xseg_get_request` has taken are refused, and it goes back. -/
theorem getDone_none (hx : x ≠ Noneidx) (hsrc : d.reqs.validatePort src)
    (h : getDone x src dst ⟨d, ∅⟩ = some (none, ⟨d', ∅⟩)) :
    ¬ d.reqs.validatePort dst ∧ d.reqs.PutBack x d'.reqs := by
  unfold getDone at h
  by_cases hdst : d.reqs.validatePort dst
  · obtain ⟨req, hdone, -⟩ := Xseg.getDone_valid hsrc hdst x
    rw [run_bind (act_getDone hdone)] at h
    cases h
  · have hdone : d.reqs.getDone x src dst =
        (false, d.reqs.setRequest x (Xseg.clearBuffers (d.reqs.requests x))) := by
      simp only [Xseg.getDone, Xseg.prepPorts, hsrc, hdst, not_true, not_false_eq_true, if_true,
        if_false]
    obtain ⟨ret, s', hput, hback⟩ := putRequest_putBack hx src
      { d with reqs := d.reqs.setRequest x (Xseg.clearBuffers (d.reqs.requests x)) }
    rw [run_bind (act_getDone hdone), if_neg Bool.false_ne_true, run_bind hput] at h
    cases h
    exact ⟨hdst, hback.of_clearBuffers⟩

/-- The ways in which `xseg_get_request` comes to return nothing. -/
inductive GetFails (s : Xseg) (src dst : xport) (flags : UInt32) (mem : Option (xptr × UInt64)) :
    Xseg → Prop
  | unmapped : s.getPort src = none → GetFails s src dst flags mem s
  | empty {port : Port} : s.getPort src = some port → (port.queue .free).count = 0 →
      flags &&& X_LOCAL ≠ 0 ∨ (s.getAlloc src port flags mem).1 = none →
      GetFails s src dst flags mem s
  | popped {port : Port} {x : xptr} {q : Xq} {s' : Xseg} : s.getPort src = some port →
      (port.queue .free).popHead = (x, q) → x ≠ Noneidx → ¬ s.validatePort dst →
      (s.setPort src (port.setQueue .free q)).PutBack x s' → GetFails s src dst flags mem s'
  | drawn {port : Port} {x : xptr} {s₁ s' : Xseg} : s.getPort src = some port →
      (port.queue .free).count = 0 → flags &&& X_LOCAL = 0 →
      s.getAlloc src port flags mem = (some x, s₁) → ¬ s.validatePort dst → s₁.PutBack x s' →
      GetFails s src dst flags mem s'

theorem getRequest_fails
    (hfree : ∀ port, d.reqs.getPort src = some port →
      (port.queue .free).Repr (port.queue .free).elems ∧ Noneidx ∉ (port.queue .free).elems)
    (hlist : Noneidx ∉ d.reqs.requestH.list) (hmem : XobjectH.InSpace mem)
    (h : getRequest src dst flags mem ⟨d, ∅⟩ = some (none, ⟨d', ∅⟩)) :
    GetFails d.reqs src dst flags mem d'.reqs := by
  unfold getRequest at h
  rw [run_bind rfl] at h
  dsimp only at h
  cases hport : d.reqs.getPort src with
  | none =>
    rw [hport] at h
    cases h
    exact .unmapped hport
  | some port =>
    obtain ⟨hrepr, hne⟩ := hfree port hport
    have hsrc : d.reqs.validatePort src := Xseg.getPort_lt hport
    rw [hport] at h
    dsimp only at h
    rw [run_bind (run_critical _ _ _)] at h
    cases helems : (port.queue .free).elems with
    | cons x l =>
      rw [helems] at hrepr hne
      have hx : x ≠ Noneidx := fun hx => hne (by simp [hx])
      obtain ⟨q, hpop, -, -⟩ := hrepr.popHead
      have hget : d.reqs.getFree src port = (x, d.reqs.setPort src (port.setQueue .free q)) := by
        simp only [Xseg.getFree, hpop]
      rw [onReqs_eq hget] at h
      dsimp only at h
      rw [if_pos hx] at h
      obtain ⟨hdst, hback⟩ := getDone_none hx (by exact hsrc) h
      exact .popped hport hpop hx hdst hback
    | nil =>
      rw [helems] at hrepr
      have hpop := hrepr.popHead_nil
      have hget : d.reqs.getFree src port = (Noneidx, d.reqs) := by
        simp only [Xseg.getFree, hpop, Xseg.setPort_self hport]
      have hcount := hrepr.count_eq_zero.mpr rfl
      rw [onReqs_eq hget] at h
      dsimp only at h
      rw [if_neg (not_not_intro rfl)] at h
      by_cases hlocal : flags &&& X_LOCAL ≠ 0
      · rw [if_pos hlocal] at h
        cases h
        exact .empty hport hcount (.inl hlocal)
      · rw [if_neg hlocal, run_bind (run_critical _ _ _)] at h
        rcases Xseg.getAlloc_draws flags hlist hmem with
          hnone | ⟨x, fresh, h', halloc, hx, -⟩
        · have hact : onReqs (fun s => s.getAlloc src (portAt s src port) flags mem) d =
              (none, { d with reqs := d.reqs }) := onReqs_eq (by rw [portAt_eq hport, hnone])
          rw [hact] at h
          cases h
          exact .empty hport hcount (.inr (by rw [hnone]))
        · have hact : onReqs (fun s => s.getAlloc src (portAt s src port) flags mem) d =
              (some x, { d with reqs := _ }) := onReqs_eq (by rw [portAt_eq hport, halloc])
          rw [hact] at h
          obtain ⟨hdst, hback⟩ := getDone_none hx (by exact hsrc) h
          exact .drawn hport hcount (not_not.mp hlocal) halloc hdst hback

end SegM

namespace Xseg
variable {s s' : Xseg} {src dst : xport} {port : Port} {x : xptr} {flags : UInt32}
  {mem : Option (xptr × UInt64)}

/-- No request has left the free queue of `src` and the list of the handler, the free queues of the
other ports are as they were, and so is `alloc_reqs` of `src`. -/
structure TakesNothing (s s' : Xseg) (src : xport) : Prop where
  kept : Keeps s s' src
  others : ∀ p ≠ src, (s'.getPort p).map (·.queue .free) = (s.getPort p).map (·.queue .free)
  allocs : (s'.getPort src).map (·.allocReqs) = (s.getPort src).map (·.allocReqs)

/-- The destination is valid, or the request that is taken names the right port as its source: its
own when it comes from the free queue, or one whose free queue is full; and `src` with a free queue
of no capacity when it comes from the handler. -/
def UndoHome (s : Xseg) (src dst : xport) (flags : UInt32) (mem : Option (xptr × UInt64)) : Prop :=
  ∀ port, s.getPort src = some port → ¬ s.validatePort dst →
    if (port.queue .free).count ≠ 0 then
      (s.requests (port.queue .free).peekHead).srcPortno = src ∨
        ∃ port', s.getPort (s.requests (port.queue .free).peekHead).srcPortno = some port' ∧
          (port'.queue .free).size ≤ (port'.queue .free).count
    else
      flags &&& X_LOCAL ≠ 0 ∨ ∀ x, (s.getAlloc src port flags mem).1 = some x →
        (s.requests x).srcPortno = src ∧ (port.queue .free).size = 0

theorem takesNothing_self (s : Xseg) (src : xport) : TakesNothing s s src :=
  ⟨⟨[], rfl, by simp⟩, fun _ _ => rfl, rfl⟩

theorem update_appendHead_ne {q : Xq} (hroom : ¬ q.size ≤ q.count) (x : xptr) :
    (q.appendHead x).2 ≠ q := by
  intro h
  have hhead : q.head + 1 = q.head := by
    have := congrArg Xq.head h
    rwa [Xq.appendHead, if_neg hroom] at this
  exact absurd hhead (by grind)

/-- The new number of a source port that has counted another request. -/
theorem allocs_ne {port port' : Port} (hport : s.getPort src = some port)
    (hport' : s'.getPort src = some port') (hallocs : port'.allocReqs = port.allocReqs + 1) :
    ¬ TakesNothing s s' src := by
  intro htakes
  have hsame := htakes.allocs
  rw [hport, hport', Option.map_some, Option.map_some, hallocs] at hsame
  exact absurd (Option.some.inj hsame) (by grind)

theorem PutBack.popped_iff {q : Xq} {l : List xptr} (hport : s.getPort src = some port)
    (hrepr : (port.queue .free).Repr (x :: l)) (hpop : (port.queue .free).popHead = (x, q))
    (h : (s.setPort src (port.setQueue .free q)).PutBack x s') :
    TakesNothing s s' src ↔ (s.requests x).srcPortno = src ∨
      ∃ port', s.getPort (s.requests x).srcPortno = some port' ∧
        (port'.queue .free).size ≤ (port'.queue .free).count := by
  obtain ⟨q', hpop', hq, hsize⟩ := hrepr.popHead
  obtain ⟨-, rfl⟩ := Prod.mk.inj (hpop.symm.trans hpop')
  have hfits : l.length < window q.size := by
    have := hrepr.fits
    rwa [hsize]
  have hold : s.bag src .free = ↑(x :: l) := by rw [bag_eq hport, hrepr.elems_eq]
  have hat (p : xport) : (s.setPort src (port.setQueue .free q)).getPort p =
      if p = src then some (port.setQueue .free q) else s.getPort p := getPort_setPort hport p
  have hcell : (port.setQueue .free q).queue .free = q := by simp [Port.setQueue]
  have hrequests : (s.setPort src (port.setQueue .free q)).requests = s.requests := rfl
  have hlist : (s.setPort src (port.setQueue .free q)).requestH = s.requestH := rfl
  cases h with
  | refused hnone hhandler hports =>
    rw [hrequests] at hnone
    have hne : (s.requests x).srcPortno ≠ src := by
      intro heq
      rw [hat, if_pos heq] at hnone
      cases hnone
    rw [hat, if_neg hne] at hnone
    refine iff_of_false (fun htakes => ?_) ?_
    · -- the request is nowhere
      obtain ⟨fresh, hobjs, hkept⟩ := htakes.kept
      have hself : s'.getPort src = some (port.setQueue .free q) := by
        rw [hports, hat, if_pos rfl]
      have hbag : s'.bag src .free = ↑l := by rw [bag_eq hself, hcell, hq.elems_eq]
      rw [hhandler, hlist, hbag, hold] at hkept
      have hcard := congrArg Multiset.card hkept
      simp only [Multiset.card_add, Multiset.coe_card, List.length_cons] at hcard
      omega
    · rintro (heq | ⟨port', hport', -⟩)
      · exact hne heq
      · rw [hnone] at hport'
        cases hport'
  | @free port₁ _ hback hroom hhandler hports =>
    rw [hrequests] at hback hports
    by_cases heq : (s.requests x).srcPortno = src
    · rw [heq] at hback hports
      rw [hat, if_pos rfl] at hback
      obtain rfl := Option.some.inj hback
      obtain ⟨q₁, happ, hq₁, -⟩ := hq.appendHead hfits x
      have hself : s'.getPort src = some ((port.setQueue .free q).setQueue .free q₁) := by
        rw [hports, if_pos rfl, hcell, happ]
      have hbag : s'.bag src .free = ↑(x :: l) := by
        rw [bag_eq hself, Port.queue_setQueue, hq₁.elems_eq]
      refine iff_of_true ⟨⟨[], congrArg XobjectH.objects hhandler, ?_⟩, fun p hp => ?_, ?_⟩ (.inl heq)
      · rw [hbag, hold, hhandler, hlist, Multiset.coe_nil, Multiset.add_zero]
      · rw [hports, if_neg hp, hat, if_neg hp]
      · rw [hself, hport]
        rfl
    · rw [hat, if_neg heq] at hback
      refine iff_of_false (fun htakes => ?_) ?_
      · have hchanged := htakes.others _ heq
        rw [hports, if_pos rfl, hback, Option.map_some, Option.map_some, Port.queue_setQueue] at hchanged
        exact update_appendHead_ne hroom x (Option.some.inj hchanged)
      · rintro (h | ⟨port', hport', hfull⟩)
        · exact heq h
        · obtain rfl := Option.some.inj (hback.symm.trans hport')
          exact hroom hfull
  | @list port₁ _ hback hfull hhandler hports =>
    rw [hrequests] at hback hports
    by_cases heq : (s.requests x).srcPortno = src
    · rw [heq, hat, if_pos rfl] at hback
      obtain rfl := Option.some.inj hback
      rw [hcell] at hfull
      exact absurd hfull (hq.not_full hfits)
    · rw [hat, if_neg heq] at hback
      have hself : s'.getPort src = some (port.setQueue .free q) := by
        rw [hports, if_neg (Ne.symm heq), hat, if_pos rfl]
      have hbag : s'.bag src .free = ↑l := by rw [bag_eq hself, hcell, hq.elems_eq]
      have hobjs : s'.requestH.objects = s.requestH.objects := by
        rw [hhandler]
        rfl
      refine iff_of_true ⟨⟨[], hobjs, ?_⟩, fun p hp => ?_, ?_⟩ (.inr ⟨port₁, hback, hfull⟩)
      · rw [hbag, hold, hhandler, hlist, Multiset.coe_nil, Multiset.add_zero]
        change (↑l : Multiset xptr) + ↑(x :: s.requestH.list) = _
        rw [← Multiset.cons_coe, ← Multiset.cons_coe, Multiset.add_cons, Multiset.cons_add]
      · rw [hports, hat, if_neg hp]
        split
        · rename_i h
          rw [h, hback]
          rfl
        · rfl
      · rw [hself, hport]
        rfl

theorem PutBack.drawn_iff {h' : XobjectH} {fresh : List xptr} (hport : s.getPort src = some port)
    (hempty : (port.queue .free).count = 0) (hlist : x :: h'.list = fresh ++ s.requestH.list)
    (hobjs : h'.objects = fresh ++ s.requestH.objects)
    (h : (({ s with requestH := h' } : Xseg).setPort src
      { port with allocReqs := port.allocReqs + 1 }).PutBack x s') :
    TakesNothing s s' src ↔ (s.requests x).srcPortno = src ∧ (port.queue .free).size = 0 := by
  have hport₀ : ({ s with requestH := h' } : Xseg).getPort src = some port := hport
  have hat (p : xport) : (({ s with requestH := h' } : Xseg).setPort src
      { port with allocReqs := port.allocReqs + 1 }).getPort p =
        if p = src then some { port with allocReqs := port.allocReqs + 1 } else s.getPort p :=
    getPort_setPort hport₀ p
  generalize hs₁ : ({ s with requestH := h' } : Xseg).setPort src
    { port with allocReqs := port.allocReqs + 1 } = s₁ at h hat
  have hrequests : s₁.requests = s.requests := by
    rw [← hs₁]
    rfl
  have hhandler₁ : s₁.requestH = h' := by
    rw [← hs₁]
    rfl
  cases h with
  | refused hnone hhandler hports =>
    rw [hrequests] at hnone
    refine iff_of_false (allocs_ne hport (by rw [hports, hat, if_pos rfl]) rfl) ?_
    rintro ⟨heq, -⟩
    rw [hat, if_pos heq] at hnone
    cases hnone
  | free hback hroom hhandler hports =>
    rw [hrequests] at hback hports
    by_cases heq : (s.requests x).srcPortno = src
    · rw [heq] at hback hports
      rw [hat, if_pos rfl] at hback
      obtain rfl := Option.some.inj hback
      refine iff_of_false (allocs_ne hport (by rw [hports, if_pos rfl]) rfl) ?_
      rintro ⟨-, hzero⟩
      exact hroom (by rw [hempty, hzero]; exact UInt64.le_refl 0)
    · refine iff_of_false (allocs_ne hport (by
        rw [hports, if_neg (Ne.symm heq), hat, if_pos rfl]) rfl) fun h => heq h.1
  | list hback hfull hhandler hports =>
    rw [hrequests] at hback hports
    by_cases heq : (s.requests x).srcPortno = src
    · rw [heq] at hback hports
      rw [hat, if_pos rfl] at hback
      obtain rfl := Option.some.inj hback
      have hzero : (port.queue .free).size = 0 := by
        rw [hempty] at hfull
        exact UInt64.le_zero_iff.mp hfull
      have hself := hports src
      rw [if_pos rfl] at hself
      refine iff_of_true ⟨⟨fresh, ?_, ?_⟩, fun p hp => ?_, ?_⟩ ⟨heq, hzero⟩
      · rw [hhandler, hhandler₁]
        exact hobjs
      · have hput : s'.requestH.list = x :: h'.list := by
          rw [hhandler, hhandler₁]
          rfl
        have hbag : s'.bag src .free = s.bag src .free := by
          rw [bag_eq hself, bag_eq hport]
        rw [hbag, hput, hlist, ← Multiset.coe_add, Multiset.add_comm (fresh : Multiset xptr),
          Multiset.add_assoc]
      · rw [hports, if_neg hp, hat, if_neg hp]
      · rw [hself, hport, Option.map_some, Option.map_some, UInt64.add_sub_cancel]
    · refine iff_of_false (allocs_ne hport (by
        rw [hports, if_neg (Ne.symm heq), hat, if_pos rfl]) rfl) fun h => heq h.1

theorem takesNothing_iff_undoHome
    (hfree : ∀ port, s.getPort src = some port → (port.queue .free).Repr (port.queue .free).elems)
    (hlist : Noneidx ∉ s.requestH.list) (hmem : XobjectH.InSpace mem)
    (h : SegM.GetFails s src dst flags mem s') :
    TakesNothing s s' src ↔ UndoHome s src dst flags mem := by
  cases h with
  | unmapped hnone =>
    refine iff_of_true (takesNothing_self s src) fun port hport => ?_
    rw [hnone] at hport
    cases hport
  | empty hport hempty hmiss =>
    refine iff_of_true (takesNothing_self s src) fun port' hport' _ => ?_
    obtain rfl := Option.some.inj (hport.symm.trans hport')
    rw [if_neg (not_not_intro hempty)]
    refine hmiss.imp id fun hnone x hx => ?_
    rw [hnone] at hx
    cases hx
  | @popped port x q _ hport hpop hx hdst hback =>
    have hrepr := hfree port hport
    have hcount : (port.queue .free).count ≠ 0 := by
      intro hcount
      rw [Xq.popHead, if_pos hcount] at hpop
      exact hx (Prod.mk.inj hpop).1.symm
    have hpeek : (port.queue .free).peekHead = x := by
      rw [Xq.popHead, if_neg hcount] at hpop
      rw [Xq.peekHead, if_neg hcount]
      exact (Prod.mk.inj hpop).1
    obtain ⟨l, hl⟩ : ∃ l, (port.queue .free).elems = x :: l := by
      cases helems : (port.queue .free).elems with
      | nil =>
        rw [helems] at hrepr
        exact absurd (hrepr.count_eq_zero.mpr rfl) hcount
      | cons y l =>
        rw [helems] at hrepr
        exact ⟨l, by rw [← hpeek, hrepr.peekHead]⟩
    rw [hl] at hrepr
    rw [PutBack.popped_iff hport hrepr hpop hback]
    constructor
    · intro hhome port' hport' _
      obtain rfl := Option.some.inj (hport.symm.trans hport')
      rw [if_pos hcount, hpeek]
      exact hhome
    · intro hhome
      have hhome := hhome port hport hdst
      rwa [if_pos hcount, hpeek] at hhome
  | @drawn port x s₁ _ hport hempty hlocal halloc hdst hback =>
    rcases getAlloc_draws flags hlist hmem with hnone | ⟨y, fresh, h', hsome, -, hcons, hobjs⟩
    · rw [hnone] at halloc
      cases halloc
    · obtain ⟨hxy, hs₁⟩ := Prod.mk.inj (hsome.symm.trans halloc)
      obtain rfl := Option.some.inj hxy
      rw [← hs₁] at hback
      rw [PutBack.drawn_iff hport hempty hcons hobjs hback]
      constructor
      · intro hhome port' hport' _
        obtain rfl := Option.some.inj (hport.symm.trans hport')
        rw [if_neg (not_not_intro hempty)]
        refine .inr fun z hz => ?_
        rw [halloc] at hz
        obtain rfl := Option.some.inj hz
        exact hhome
      · intro hhome
        have hhome := hhome port hport hdst
        rw [if_neg (not_not_intro hempty)] at hhome
        exact (hhome.resolve_left (not_not_intro hlocal)) y (by rw [halloc])

end Xseg

namespace SegM
open LockM

section Calls
variable [Builtins] {d d' : SegmentData} {src dst : xport} {flags : UInt32}
  {mem : Option (xptr × UInt64)}

/-- A call that returns nothing takes nothing if and only if the request it has taken, if any,
finds its way back. -/
theorem getRequest_takesNothing_iff
    (hfree : ∀ port, d.reqs.getPort src = some port →
      (port.queue .free).Repr (port.queue .free).elems ∧ Noneidx ∉ (port.queue .free).elems)
    (hlist : Noneidx ∉ d.reqs.requestH.list) (hmem : XobjectH.InSpace mem)
    (h : getRequest src dst flags mem ⟨d, ∅⟩ = some (none, ⟨d', ∅⟩)) :
    d.reqs.TakesNothing d'.reqs src ↔ d.reqs.UndoHome src dst flags mem :=
  Xseg.takesNothing_iff_undoHome (fun port hport => (hfree port hport).1) hlist hmem
    (getRequest_fails hfree hlist hmem h)

theorem getDone_invalid (x : xptr) (hdst : ¬ d.reqs.validatePort dst) :
    ∃ d', getDone x src dst ⟨d, ∅⟩ = some (none, ⟨d', ∅⟩) := by
  have hdone : ∃ s₁, d.reqs.getDone x src dst = (false, s₁) := by
    unfold Xseg.getDone Xseg.prepPorts
    dsimp only
    rw [if_pos hdst]
    split
    · exact ⟨_, rfl⟩
    · rename_i h
      split at h <;> cases h
  obtain ⟨s₁, hdone⟩ := hdone
  unfold getDone
  rw [run_bind (act_getDone hdone), if_neg Bool.false_ne_true]
  obtain ⟨ret, d', hput⟩ := frees_putRequest (d := { d with reqs := s₁ }) (some x) src
  rw [run_bind hput]
  exact ⟨d', rfl⟩

theorem getRequest_invalid (d : SegmentData) (src dst : xport) (flags : UInt32)
    (mem : Option (xptr × UInt64)) (hdst : ¬ d.reqs.validatePort dst) :
    ∃ d', getRequest src dst flags mem ⟨d, ∅⟩ = some (none, ⟨d', ∅⟩) := by
  unfold getRequest
  rw [run_bind rfl]
  dsimp only
  cases hport : d.reqs.getPort src with
  | none => exact ⟨d, rfl⟩
  | some port =>
    dsimp only
    rw [run_bind (run_critical _ _ _)]
    have hfree : ¬ ((onReqs (fun s => s.getFree src port) d).2.reqs).validatePort dst := hdst
    generalize onReqs (fun s => s.getFree src port) d = r at hfree ⊢
    by_cases hnone : r.1 ≠ Noneidx
    · rw [if_pos hnone]
      exact getDone_invalid _ hfree
    · rw [if_neg hnone]
      by_cases hlocal : flags &&& X_LOCAL ≠ 0
      · rw [if_pos hlocal]
        exact ⟨_, rfl⟩
      · rw [if_neg hlocal, run_bind (run_critical _ _ _)]
        have halloc : ¬ ((onReqs (fun s =>
            s.getAlloc src (portAt s src port) flags mem) r.2).2.reqs).validatePort dst := by
          rwa [onReqs, Xseg.validatePort, Xseg.getAlloc_nrPorts]
        generalize onReqs (fun s => s.getAlloc src (portAt s src port) flags mem) r.2 = r' at halloc ⊢
        obtain ⟨_ | x, d₁⟩ := r'
        · exact ⟨_, rfl⟩
        · exact getDone_invalid x halloc

end Calls

/-- The call takes a request for a port that does not exist, and it goes back into the queue. -/
theorem getRequest_takesNothing_back : ∃ _ : Builtins, ∃ d',
    stockedSegment.reqs.bag 0 .free = {4096, 4608, 5120} ∧
      getRequest 0 5 0 none ⟨stockedSegment, ∅⟩ = some (none, ⟨d', ∅⟩) ∧
      stockedSegment.reqs.TakesNothing d'.reqs 0 := by
  let _ : Builtins := ⟨0⟩
  obtain ⟨d', hcall⟩ := getRequest_invalid stockedSegment 0 5 0 none (by decide)
  refine ⟨⟨0⟩, d', ?_, hcall, (getRequest_takesNothing_iff (fun port h => ?_) List.not_mem_nil
    (fun _ h => by cases h) hcall).mpr fun port h _ => ?_⟩
  · rw [Xseg.bag_eq stockedSegment_port, (stockedSegment_free stockedSegment_port).elems_eq]
    rfl
  · rw [(stockedSegment_free h).elems_eq]
    exact ⟨stockedSegment_free h, by decide⟩
  · have hcount : (port.queue .free).count ≠ 0 := by
      intro hzero
      exact absurd ((stockedSegment_free h).count_eq_zero.mp hzero) (List.cons_ne_nil _ _)
    rw [if_pos hcount]
    exact .inl rfl

def usedSegment [Builtins] : SegmentData :=
  { newSegment with
    reqs := { madeSeg 1 1024 with requests := fun _ => { blankRequest with srcPortno := NoPort } } }

/-- The request is lost when the call asks for a port that does not exist. -/
theorem not_getRequest_takesNothing : ¬ ∀ (_ : Builtins) (d d' : SegmentData) (src dst : xport)
    (flags : UInt32) (mem : Option (xptr × UInt64)),
    (∀ port, d.reqs.getPort src = some port →
      (port.queue .free).Repr (port.queue .free).elems ∧ Noneidx ∉ (port.queue .free).elems) →
    Noneidx ∉ d.reqs.requestH.list → XobjectH.InSpace mem →
    getRequest src dst flags mem ⟨d, ∅⟩ = some (none, ⟨d', ∅⟩) → d.reqs.TakesNothing d'.reqs src := by
  intro hall
  let _ : Builtins := ⟨0⟩
  have hmade : (madeSeg 1 1024).getPort 0 = some madePort := madeSeg_getPort (by decide)
  have hport : usedSegment.reqs.getPort 0 = some madePort := hmade
  have hqueue : (madePort.queue .free).Repr [] := (madePort_holding .free).repr
  have hmadelist : (madeSeg 1 1024).requestH.list = [4096] := madeSeg_list
  have hlist : usedSegment.reqs.requestH.list = [4096] := hmadelist
  have hfree : ∀ port, usedSegment.reqs.getPort 0 = some port →
      (port.queue .free).Repr (port.queue .free).elems ∧ Noneidx ∉ (port.queue .free).elems := by
    intro port h
    obtain rfl := Option.some.inj (hport.symm.trans h)
    rw [hqueue.elems_eq]
    exact ⟨hqueue, List.not_mem_nil⟩
  have hnone : Noneidx ∉ usedSegment.reqs.requestH.list := by
    rw [hlist]
    decide
  have hmem : XobjectH.InSpace none := fun _ h => by cases h
  obtain ⟨d', hcall⟩ := getRequest_invalid usedSegment 0 5 0 none (by decide)
  have htakes := hall ⟨0⟩ usedSegment d' 0 5 0 none hfree hnone hmem hcall
  have hhome := (Xseg.takesNothing_iff_undoHome (fun port hp => (hfree port hp).1) hnone hmem
    (getRequest_fails hfree hnone hmem hcall)).mp htakes _ hport (by decide)
  rw [if_neg (not_not_intro (hqueue.count_eq_zero.mpr rfl))] at hhome
  rcases hhome with hlocal | hhome
  · exact hlocal (by decide)
  · have hobj : usedSegment.reqs.requestH.getObj (0 &&& X_ALLOC) none =
        usedSegment.reqs.requestH.popObj := by
      rw [XobjectH.getObj, hlist]
    have halloc : (usedSegment.reqs.getAlloc 0 madePort 0 none).1 = some 4096 := by
      rw [Xseg.getAlloc, if_pos (by decide), hobj, XobjectH.popObj_cons hlist]
    exact absurd (hhome 4096 halloc).1 (by decide)

end SegM

end Libxseg
