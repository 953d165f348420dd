import Mathlib.Algebra.Order.Group.Multiset
import Libxseg.XsegLocksReleased
import Libxseg.XsegSteps

/-!
# Moving requests in bulk: xseg_alloc_requests and xseg_free_requests

Both loops take the next request in the condition that also tests the counter, so when the
counter ends the loop, one more request has been taken already. It is then neither in the free
queue nor in the list of the handler. `fillFree_moves` and `drainFree_moves` say what a loop
moves and when it loses that request; the heap's answers to the handler are any.
-/

namespace Libxseg

set_option autoImplicit false

namespace XobjectH
variable {h : XobjectH}

/-- How many of the next `tries` requests for an object are answered, if the heap answers the
`i`-th one with `mems i`. -/
def obtainable (h : XobjectH) (mems : Nat → Option (xptr × UInt64)) : Nat → Nat → Nat
  | 0, _ => 0
  | tries + 1, i =>
    match h.getObj X_ALLOC (mems i) with
    | (none, _) => 0
    | (some _, h) => obtainable h mems tries (i + 1) + 1

theorem obtainable_none (h : XobjectH) (tries i : Nat) :
    h.obtainable (fun _ => none) tries i = min tries h.list.length := by
  induction tries generalizing h i with
  | zero => simp [obtainable]
  | succ tries ih =>
    rw [obtainable, getObj]
    cases hl : h.list with
    | nil =>
      rw [show X_ALLOC &&& X_ALLOC = X_ALLOC from rfl]
      dsimp only [allocObj]
      rw [if_neg (by decide), List.length_nil, Nat.min_zero]
    | cons x list =>
      rw [popObj_cons hl]
      dsimp only
      rw [ih]
      dsimp only
      rw [List.length_cons]
      omega

def InSpace (mem : Option (xptr × UInt64)) : Prop :=
  ∀ c, mem = some c → c.1.toNat + c.2.toNat < 2 ^ 64

theorem allocObj_list {h' : XobjectH} {mem : Option (xptr × UInt64)} (hmem : InSpace mem)
    (halloc : h.allocObj mem = some h') :
    ∃ x l, Noneidx ∉ x :: l ∧ h'.list = x :: l ++ h.list ∧ h'.objects = x :: l ++ h.objects := by
  obtain ⟨c, x, l, hc, hobjs, -, -, hlist, hobjects⟩ := XobjectH.allocObj_inv halloc
  refine ⟨x, l, fun hnone => ?_, hlist, hobjects⟩
  exact XobjectH.ne_noneidx (h := h) (hmem c hc) (hobjs ▸ hnone) rfl

/-- An object is drawn from the list, to which a new chunk may have come before. -/
theorem getObj_draws (flags : UInt32) {mem : Option (xptr × UInt64)} (hne : Noneidx ∉ h.list)
    (hmem : InSpace mem) : h.getObj flags mem = (none, h) ∨
      ∃ x fresh h', h.getObj flags mem = (some x, h') ∧ x ≠ Noneidx ∧ Noneidx ∉ h'.list ∧
        x :: h'.list = fresh ++ h.list ∧ h'.objects = fresh ++ h.objects := by
  unfold getObj
  cases hl : h.list with
  | cons x list =>
    rw [hl] at hne
    exact .inr ⟨x, [], _, popObj_cons hl, fun hx => hne (by simp [hx]),
      fun hmem => hne (List.mem_cons_of_mem _ hmem), rfl, rfl⟩
  | nil =>
    dsimp only
    by_cases hflag : flags &&& X_ALLOC = 0
    · exact .inl (if_pos hflag)
    rw [if_neg hflag]
    cases halloc : h.allocObj mem with
    | none => exact .inl rfl
    | some h' =>
      obtain ⟨x, l, hnew, hlist, hobjs⟩ := allocObj_list hmem halloc
      rw [hl, List.append_nil] at hlist
      refine .inr ⟨x, x :: l, _, popObj_cons hlist, fun hx => hnew (by simp [hx]),
        fun hmem => hnew (List.mem_cons_of_mem _ hmem), (List.append_nil _).symm, hobjs⟩

end XobjectH

namespace Xseg
open XobjectH
variable {s s' : Xseg} {portno : xport} {port : Port} {l : List xptr}

/-- Every request that was in the free queue of `p` or in the list of the handler, or is new, is in
one of the two. -/
def Keeps (s s' : Xseg) (p : xport) : Prop :=
  ∃ fresh, s'.requestH.objects = fresh ++ s.requestH.objects ∧
    s'.bag p .free + ↑s'.requestH.list = s.bag p .free + ↑s.requestH.list + ↑fresh

/-- Exactly `k` requests have come into the free queue of `p`, and none is lost. -/
structure Fills (s s' : Xseg) (p : xport) (k : Nat) : Prop where
  moved : ∃ xs : List xptr, xs.length = k ∧ s'.bag p .free = s.bag p .free + ↑xs
  kept : Keeps s s' p

/-- Exactly `k` requests have left the free queue of `p`, and none is lost. -/
structure Drains (s s' : Xseg) (p : xport) (k : Nat) : Prop where
  moved : ∃ xs : List xptr, xs.length = k ∧ s.bag p .free = s'.bag p .free + ↑xs
  kept : Keeps s s' p

structure FreeIs (s : Xseg) (p : xport) (port : Port) (l : List xptr) : Prop where
  getPort_eq : s.getPort p = some port
  queue : (port.queue .free).Repr l
  sized : (port.queue .free).size.toNat < 2 ^ 31

theorem FreeIs.bag (h : FreeIs s portno port l) : s.bag portno .free = ↑l := by
  rw [bag_eq h.getPort_eq, h.queue.elems_eq]

theorem FreeIs.length_le (h : FreeIs s portno port l) :
    l.length ≤ (port.queue .free).size.toNat := by
  have hfits := h.queue.fits
  rwa [window_of_lt h.sized] at hfits

theorem FreeIs.setQueue (h : FreeIs s portno port l) {q : Xq} {l' : List xptr} (hq : q.Repr l')
    (hsize : q.size = (port.queue .free).size) :
    FreeIs (s.setPort portno (port.setQueue .free q)) portno (port.setQueue .free q) l' where
  getPort_eq := by rw [getPort_setPort h.getPort_eq, if_pos rfl]
  queue := by simpa [Port.setQueue] using hq
  sized := by simpa [Port.setQueue, hsize] using h.sized

/-- The requests `xs` have come into the queue behind `l`, and `lost` is nowhere. -/
structure Filled (s s' : Xseg) (p : xport) (l xs : List xptr) (lost : Multiset xptr) : Prop where
  queue : ∃ port, FreeIs s' p port (l ++ xs)
  objects : ∃ fresh, s'.requestH.objects = fresh ++ s.requestH.objects ∧
    (↑xs + ↑s'.requestH.list + lost : Multiset xptr) = ↑s.requestH.list + ↑fresh

theorem Filled.nothing (h : FreeIs s portno port l) : Filled s s portno l [] 0 where
  queue := ⟨port, by simpa using h⟩
  objects := ⟨[], rfl, by simp⟩

section Draw
variable {x : xptr} {fresh : List xptr} {h' : XobjectH}

theorem coe_draw (hlist : x :: h'.list = fresh ++ s.requestH.list) :
    (x ::ₘ ↑h'.list : Multiset xptr) = ↑s.requestH.list + ↑fresh := by
  rw [Multiset.cons_coe, hlist, ← Multiset.coe_add, Multiset.add_comm]

theorem Filled.lost (h : FreeIs s portno port l) (hlist : x :: h'.list = fresh ++ s.requestH.list)
    (hobjs : h'.objects = fresh ++ s.requestH.objects) :
    Filled s { s with requestH := h' } portno l [] {x} where
  queue := ⟨port, by simpa using ⟨h.getPort_eq, h.queue, h.sized⟩⟩
  objects := ⟨fresh, hobjs, by
    rw [← coe_draw hlist, Multiset.coe_nil, Multiset.zero_add, Multiset.add_comm,
      Multiset.singleton_add]⟩

theorem Filled.putBack {s₁ : Xseg} (h : FreeIs s₁ portno port l) (hs₁ : s₁.requestH = h')
    (hlist : x :: h'.list = fresh ++ s.requestH.list)
    (hobjs : h'.objects = fresh ++ s.requestH.objects) :
    Filled s (s₁.putObj x) portno l [] 0 where
  queue := ⟨port, by simpa using ⟨h.getPort_eq, h.queue, h.sized⟩⟩
  objects := ⟨fresh, (congrArg XobjectH.objects hs₁).trans hobjs, by
    have hput : (s₁.putObj x).requestH.list = x :: h'.list := by
      rw [← hs₁]
      rfl
    rw [hput, ← coe_draw hlist, Multiset.coe_nil, Multiset.zero_add, Multiset.add_zero,
      Multiset.cons_coe]⟩

theorem Filled.cons {s₁ : Xseg} {xs : List xptr} {lost : Multiset xptr}
    (h : Filled s₁ s' portno (l ++ [x]) xs lost) (hs₁ : s₁.requestH = h')
    (hlist : x :: h'.list = fresh ++ s.requestH.list)
    (hobjs : h'.objects = fresh ++ s.requestH.objects) : Filled s s' portno l (x :: xs) lost where
  queue := by
    obtain ⟨port, hfree⟩ := h.queue
    rw [List.append_assoc, List.singleton_append] at hfree
    exact ⟨port, hfree⟩
  objects := by
    obtain ⟨new, hnew, hall⟩ := h.objects
    rw [hs₁] at hnew hall
    refine ⟨new ++ fresh, by rw [hnew, hobjs, List.append_assoc], ?_⟩
    have hdraw := coe_draw hlist
    rw [← Multiset.cons_coe, Multiset.cons_add, Multiset.cons_add, hall, ← Multiset.cons_add, hdraw,
      ← Multiset.coe_add, Multiset.add_assoc, Multiset.add_comm (fresh : Multiset xptr)]

end Draw

/-- The requests that the loop puts into the queue, and when the one in hand is lost. -/
theorem fillFree_moves {mems : Nat → Option (xptr × UInt64)} (hmems : ∀ i, InSpace (mems i))
    (left : Nat) {i : Nat} (h : FreeIs s portno port l) (hne : Noneidx ∉ s.requestH.list) :
    ∃ s' xs lost, s.fillFree portno port mems left i = (i + xs.length, s') ∧
      Filled s s' portno l xs lost ∧
      xs.length = min left (min ((port.queue .free).size.toNat - l.length)
        (s.requestH.obtainable mems (left + 1) i)) ∧
      (lost = 0 ↔ s.requestH.obtainable mems (left + 1) i ≤ left ∨
        (port.queue .free).size.toNat - l.length < left) := by
  induction left generalizing s port l i with
  | zero =>
    rw [fillFree, obtainable]
    rcases getObj_draws X_ALLOC hne (hmems i) with hnone | ⟨x, fresh, h', hsome, -, -, hlist, hobjs⟩
    · rw [hnone]
      exact ⟨_, [], 0, rfl, .nothing h, by simp, by simp⟩
    · rw [hsome]
      exact ⟨_, [], {x}, rfl, .lost h hlist hobjs, by simp, by simp⟩
  | succ left ih =>
    rw [fillFree, obtainable]
    rcases getObj_draws X_ALLOC hne (hmems i) with
      hnone | ⟨x, fresh, h', hsome, hx, hne', hlist, hobjs⟩
    · rw [hnone]
      exact ⟨_, [], 0, rfl, .nothing h, by simp, by simp⟩
    · rw [hsome]
      dsimp only
      have hdrawn : FreeIs { s with requestH := h' } portno port l :=
        ⟨h.getPort_eq, h.queue, h.sized⟩
      rcases Nat.lt_or_ge l.length (port.queue .free).size.toNat with hroom | hfull
      · obtain ⟨q, happ, hq, hsize⟩ := h.queue.appendTail (by rwa [window_of_lt h.sized]) x
        have hpushed := hdrawn.setQueue hq hsize
        obtain ⟨s', xs, lost, hloop, hfilled, hlength, hlost⟩ :=
          ih (i := i + 1) hpushed (by exact hne')
        have hcap : ((port.setQueue .free q).queue .free).size = (port.queue .free).size := by
          simpa [Port.setQueue] using hsize
        have hreq : (({ s with requestH := h' } : Xseg).setPort portno
          (port.setQueue .free q)).requestH = h' := rfl
        rw [hcap, hreq, List.length_append, List.length_singleton] at hlength hlost
        rw [happ]
        dsimp only
        rw [if_neg hx, hloop]
        refine ⟨s', x :: xs, lost, ?_, hfilled.cons hreq hlist hobjs, ?_, ?_⟩
        · rw [List.length_cons, Nat.add_assoc, Nat.add_comm 1]
        · rw [List.length_cons]
          omega
        · rw [hlost]
          omega
      · have happ := h.queue.appendTail_full (Nat.le_antisymm h.length_le hfull) x
        have hsame := hdrawn.setQueue h.queue rfl
        rw [happ]
        dsimp only
        rw [if_pos rfl]
        exact ⟨_, [], 0, rfl, .putBack hsame rfl hlist hobjs, by simp; omega, by simp; omega⟩

/-- The requests `xs` have left the queue, in which `rest` is still, and `lost` is nowhere. -/
structure Drained (s s' : Xseg) (p : xport) (xs rest : List xptr) (lost : Multiset xptr) : Prop where
  queue : ∃ port, FreeIs s' p port rest
  same_objects : s'.requestH.objects = s.requestH.objects
  list : (↑s'.requestH.list : Multiset xptr) = ↑s.requestH.list + ↑xs

/-- The requests that the loop takes out of the queue, and when the one in hand is lost. -/
theorem drainFree_moves (left : Nat) {i : Nat} (h : FreeIs s portno port l) (hne : Noneidx ∉ l) :
    ∃ s' xs rest lost, s.drainFree portno port left i = (i + xs.length, s') ∧
      Drained s s' portno xs rest lost ∧ (↑l : Multiset xptr) = ↑rest + ↑xs + lost ∧
      xs.length = min left l.length ∧ (lost = 0 ↔ l.length ≤ left) := by
  induction left generalizing s port l i with
  | zero =>
    unfold drainFree
    cases l with
    | nil =>
      have hsame := h.setQueue h.queue rfl
      rw [h.queue.popHead_nil]
      dsimp only
      rw [if_pos rfl]
      exact ⟨_, [], [], 0, rfl, ⟨⟨_, hsame⟩, rfl, by simp [setPort]⟩, by simp, by simp, by simp⟩
    | cons x l =>
      obtain ⟨q, hpop, hq, hsize⟩ := h.queue.popHead
      have hx : x ≠ Noneidx := fun hx => hne (by simp [hx])
      rw [hpop]
      dsimp only
      rw [if_neg hx]
      refine ⟨_, [], l, {x}, rfl, ⟨⟨_, h.setQueue hq hsize⟩, rfl, by simp [setPort]⟩, ?_, by simp,
        by simp⟩
      rw [Multiset.coe_nil, Multiset.add_zero, Multiset.add_comm, Multiset.singleton_add,
        Multiset.cons_coe]
  | succ left ih =>
    unfold drainFree
    cases l with
    | nil =>
      have hsame := h.setQueue h.queue rfl
      rw [h.queue.popHead_nil]
      dsimp only
      rw [if_pos rfl]
      exact ⟨_, [], [], 0, rfl, ⟨⟨_, hsame⟩, rfl, by simp [setPort]⟩, by simp, by simp, by simp⟩
    | cons x l =>
      obtain ⟨q, hpop, hq, hsize⟩ := h.queue.popHead
      have hx : x ≠ Noneidx := fun hx => hne (by simp [hx])
      have hpopped := h.setQueue hq hsize
      have hput : FreeIs ((s.setPort portno (port.setQueue .free q)).putObj x) portno
          (port.setQueue .free q) l := ⟨hpopped.getPort_eq, hpopped.queue, hpopped.sized⟩
      obtain ⟨s', xs, rest, lost, hloop, hdrained, hl, hlength, hlost⟩ :=
        ih (i := i + 1) hput fun hmem => hne (List.mem_cons_of_mem _ hmem)
      rw [hpop]
      dsimp only
      rw [if_neg hx, hloop]
      refine ⟨s', x :: xs, rest, lost, ?_, ⟨hdrained.queue, hdrained.same_objects, ?_⟩, ?_, ?_, ?_⟩
      · rw [List.length_cons, Nat.add_assoc, Nat.add_comm 1]
      · rw [hdrained.list]
        change ((x :: s.requestH.list : List xptr) : Multiset xptr) + _ = _
        rw [← Multiset.cons_coe, ← Multiset.cons_coe, Multiset.cons_add, Multiset.add_cons]
      · rw [← Multiset.cons_coe, hl, ← Multiset.cons_coe, Multiset.add_cons, Multiset.cons_add]
      · rw [List.length_cons, List.length_cons]
        omega
      · rw [hlost, List.length_cons]
        omega

theorem Filled.fills_iff (hfree : FreeIs s portno port l) {xs : List xptr} {lost : Multiset xptr}
    (h : Filled s s' portno l xs lost) : Fills s s' portno xs.length ↔ lost = 0 := by
  obtain ⟨port', hfree'⟩ := h.queue
  obtain ⟨fresh, hobjs, hall⟩ := h.objects
  have hbag : s'.bag portno .free = s.bag portno .free + ↑xs := by
    rw [hfree'.bag, hfree.bag, Multiset.coe_add]
  constructor
  · rintro ⟨-, fresh', hobjs', hkept⟩
    obtain rfl : fresh' = fresh := List.append_cancel_right (hobjs'.symm.trans hobjs)
    rw [hbag, Multiset.add_assoc, Multiset.add_assoc, ← hall] at hkept
    exact add_eq_left.mp (add_left_cancel hkept).symm
  · rintro rfl
    refine ⟨⟨xs, rfl, hbag⟩, fresh, hobjs, ?_⟩
    rw [hbag, Multiset.add_assoc, Multiset.add_assoc, ← hall, Multiset.add_zero]

theorem Drained.settleFreed {xs rest : List xptr} {lost : Multiset xptr}
    (h : Drained s s' portno xs rest lost) (port : Port) (i : Nat) :
    Drained s (s'.settleFreed portno (SegM.portAt s' portno port) i) portno xs rest lost where
  queue := by
    obtain ⟨port', hfree⟩ := h.queue
    rw [SegM.portAt_eq hfree.getPort_eq]
    refine ⟨{ port' with allocReqs := port'.allocReqs - UInt64.ofNat i }, ?_, hfree.queue,
      hfree.sized⟩
    rw [Xseg.settleFreed, getPort_setPort hfree.getPort_eq, if_pos rfl]
  same_objects := h.same_objects
  list := h.list

theorem Drained.drains_iff (hfree : FreeIs s portno port l) {xs rest : List xptr}
    {lost : Multiset xptr} (h : Drained s s' portno xs rest lost)
    (hl : (↑l : Multiset xptr) = ↑rest + ↑xs + lost) :
    Drains s s' portno xs.length ↔ lost = 0 := by
  obtain ⟨port', hfree'⟩ := h.queue
  have hbag : s.bag portno .free = s'.bag portno .free + ↑xs + lost := by
    rw [hfree.bag, hfree'.bag, hl]
  constructor
  · rintro ⟨⟨ys, hlength, hmoved⟩, -⟩
    have hcard := congrArg Multiset.card (hbag.symm.trans hmoved)
    simp only [Multiset.card_add, Multiset.coe_card, hlength] at hcard
    exact Multiset.card_eq_zero.mp (by omega)
  · rintro rfl
    rw [Multiset.add_zero] at hbag
    refine ⟨⟨xs, rfl, hbag⟩, [], h.same_objects, ?_⟩
    rw [h.list, hbag, Multiset.coe_nil, Multiset.add_zero, Multiset.add_assoc,
      Multiset.add_comm (xs : Multiset xptr)]

end Xseg

namespace SegM
open LockM
variable {d : SegmentData} {portno : xport} {port : Port} {l : List xptr}

theorem onReqs_eq {α : Type} {f : Xseg → α × Xseg} {a : α} {s' : Xseg} (h : f d.reqs = (a, s')) :
    onReqs f d = (a, { d with reqs := s' }) := by
  rw [onReqs, h]

def freeRoom (port : Port) : Nat :=
  (port.queue .free).size.toNat - (port.queue .free).elems.length

/-- What `xseg_alloc_requests` is to move: as many requests as are asked for, as the free queue has
room for and as the handler gives. -/
def movedIn (d : SegmentData) (port : Port) (nr : UInt32) (mems : Nat → Option (xptr × UInt64)) :
    Nat :=
  min nr.toNat (min (freeRoom port) (d.reqs.requestH.obtainable mems (nr.toNat + 1) 0))

def movedOut (port : Port) (nr : Int) : Nat := min nr.toNat (port.queue .free).elems.length

section Calls
variable (hport : d.reqs.getPort portno = some port)
  (hqueue : (port.queue .free).Repr (port.queue .free).elems)
  (hsized : (port.queue .free).size.toNat < 2 ^ 31)
include hport hqueue hsized

theorem allocRequests_moves {mems : Nat → Option (xptr × UInt64)} (nr : UInt32)
    (hlist : Noneidx ∉ d.reqs.requestH.list) (hmems : ∀ i, XobjectH.InSpace (mems i)) :
    ∃ ret d', allocRequests portno nr mems ⟨d, ∅⟩ = some (ret, d') ∧
      (d.reqs.Fills d'.data.reqs portno (movedIn d port nr mems) ↔
        d.reqs.requestH.obtainable mems (nr.toNat + 1) 0 ≤ nr.toNat ∨
          freeRoom port < nr.toNat) := by
  have hfree : d.reqs.FreeIs portno port (port.queue .free).elems := ⟨hport, hqueue, hsized⟩
  obtain ⟨s', xs, lost, hloop, hfilled, hlength, hlost⟩ :=
    Xseg.fillFree_moves hmems nr.toNat (i := 0) hfree hlist
  have hrun : allocRequests portno nr mems ⟨d, ∅⟩ =
      some (if 0 + xs.length = 0 then -1 else ↑(0 + xs.length), ⟨{ d with reqs := s' }, ∅⟩) := by
    unfold allocRequests
    rw [run_bind rfl]
    dsimp only
    rw [hport]
    dsimp only
    rw [run_bind (run_critical _ _ _), onReqs_eq hloop]
    rfl
  refine ⟨_, _, hrun, ?_⟩
  rw [movedIn, freeRoom, ← hlength, ← hlost]
  exact hfilled.fills_iff hfree

theorem freeRequests_moves (nr : Int) (helems : Noneidx ∉ (port.queue .free).elems) :
    ∃ ret d', freeRequests portno nr ⟨d, ∅⟩ = some (ret, d') ∧
      (d.reqs.Drains d'.data.reqs portno (movedOut port nr) ↔
        (port.queue .free).elems.length ≤ nr.toNat) := by
  have hfree : d.reqs.FreeIs portno port (port.queue .free).elems := ⟨hport, hqueue, hsized⟩
  obtain ⟨s', xs, rest, lost, hloop, hdrained, hl, hlength, hlost⟩ :=
    Xseg.drainFree_moves nr.toNat (i := 0) hfree helems
  rw [Nat.zero_add] at hloop
  rw [movedOut, ← hlength, ← hlost]
  unfold freeRequests
  rw [run_bind rfl]
  dsimp only
  rw [hport]
  dsimp only
  rw [run_bind (run_acquire _ d), run_bind rfl]
  dsimp only
  rw [onReqs_eq hloop]
  by_cases hzero : xs.length = 0
  · rw [if_pos hzero]
    exact ⟨_, _, rfl, hdrained.drains_iff hfree hl⟩
  · rw [if_neg hzero, run_bind (run_release _ _), run_bind (run_critical _ _ _)]
    exact ⟨_, _, rfl, (hdrained.settleFreed port _).drains_iff hfree hl⟩

/-- Each call moves what it is to move and keeps every request if and only if it is not the
counter that ends its loop. -/
theorem moves_iff {mems : Nat → Option (xptr × UInt64)} (nr : UInt32) (nr' : Int)
    (helems : Noneidx ∉ (port.queue .free).elems) (hlist : Noneidx ∉ d.reqs.requestH.list)
    (hmems : ∀ i, XobjectH.InSpace (mems i)) :
    (∃ ret d', allocRequests portno nr mems ⟨d, ∅⟩ = some (ret, d') ∧
      (d.reqs.Fills d'.data.reqs portno (movedIn d port nr mems) ↔
        d.reqs.requestH.obtainable mems (nr.toNat + 1) 0 ≤ nr.toNat ∨ freeRoom port < nr.toNat)) ∧
    ∃ ret d', freeRequests portno nr' ⟨d, ∅⟩ = some (ret, d') ∧
      (d.reqs.Drains d'.data.reqs portno (movedOut port nr') ↔
        (port.queue .free).elems.length ≤ nr'.toNat) :=
  ⟨allocRequests_moves hport hqueue hsized nr hlist hmems,
    freeRequests_moves hport hqueue hsized nr' helems⟩

end Calls

def threeRequests [Builtins] : SegmentData := { newSegment with reqs := madeSeg 1 2048 }

section New
variable [Builtins]

theorem threeRequests_list : threeRequests.reqs.requestH.list = [4096, 4608, 5120] := by
  have h3 : carve 512 2048 4096 1536 = [] := by
    rw [carve]
    exact if_neg (by decide)
  have h0 : carve 512 2048 4096 0 = [4096, 4608, 5120] := by
    rw [carve, if_pos (by decide), carve, if_pos (by decide), carve, if_pos (by decide), h3]
    rfl
  exact h0

theorem threeRequests_port : threeRequests.reqs.getPort 0 = some madePort :=
  madeSeg_getPort (by decide)

theorem threeRequests_queue : (madePort.queue .free).elems = [] ∧
    (madePort.queue .free).size = 256 := by
  obtain ⟨hrepr, hsize⟩ := madePort_holding .free
  exact ⟨hrepr.elems_eq, hsize⟩

end New

/-- A port asks for more requests than there are. -/
theorem moves_iff_three : ∃ _ : Builtins, ∃ ret d',
    allocRequests 0 4 (fun _ => none) ⟨threeRequests, ∅⟩ = some (ret, d') ∧
      threeRequests.reqs.Fills d'.data.reqs 0 3 := by
  let _ : Builtins := ⟨0⟩
  obtain ⟨helems, hsize⟩ := threeRequests_queue
  have hlist := threeRequests_list
  obtain ⟨⟨ret, d', hcall, hfills⟩, -⟩ := moves_iff threeRequests_port
    (by rw [helems]; exact (madePort_holding .free).repr) (by rw [hsize]; decide) 4 0
    (by rw [helems]; exact List.not_mem_nil) (by rw [hlist]; decide)
    (show ∀ i, XobjectH.InSpace ((fun _ => none : Nat → Option (xptr × UInt64)) i) from
      fun _ _ h => by cases h)
  have hmoved : movedIn threeRequests madePort 4 (fun _ => none) = 3 := by
    rw [movedIn, freeRoom, XobjectH.obtainable_none, hlist, helems, hsize]
    rfl
  rw [hmoved, XobjectH.obtainable_none, hlist] at hfills
  exact ⟨⟨0⟩, ret, d', hcall, hfills.mpr (.inl (by decide))⟩

/-- Of three requests a port asks for one. -/
theorem not_moves : ¬ ∀ (_ : Builtins) (d : SegmentData) (portno : xport) (port : Port) (nr : UInt32)
    (nr' : Int) (mems : Nat → Option (xptr × UInt64)), d.reqs.getPort portno = some port →
    (port.queue .free).Repr (port.queue .free).elems → (port.queue .free).size.toNat < 2 ^ 31 →
    Noneidx ∉ (port.queue .free).elems → Noneidx ∉ d.reqs.requestH.list →
    (∀ i, XobjectH.InSpace (mems i)) →
    (∃ ret d', allocRequests portno nr mems ⟨d, ∅⟩ = some (ret, d') ∧
      d.reqs.Fills d'.data.reqs portno (movedIn d port nr mems)) ∧
    ∃ ret d', freeRequests portno nr' ⟨d, ∅⟩ = some (ret, d') ∧
      d.reqs.Drains d'.data.reqs portno (movedOut port nr') := by
  intro hall
  let _ : Builtins := ⟨0⟩
  obtain ⟨helems, hsize⟩ := threeRequests_queue
  have hlist := threeRequests_list
  have hrepr : (madePort.queue .free).Repr (madePort.queue .free).elems := by
    rw [helems]
    exact (madePort_holding .free).repr
  have hsized : (madePort.queue .free).size.toNat < 2 ^ 31 := by
    rw [hsize]
    decide
  have hnone : Noneidx ∉ threeRequests.reqs.requestH.list := by
    rw [hlist]
    decide
  have hmems (i : Nat) : XobjectH.InSpace ((fun _ => none : Nat → Option (xptr × UInt64)) i) :=
    fun _ h => by cases h
  obtain ⟨⟨ret, d', hcall, hfills⟩, -⟩ := hall ⟨0⟩ threeRequests 0 _ 1 0 _ threeRequests_port hrepr
    hsized (by rw [helems]; exact List.not_mem_nil) hnone hmems
  obtain ⟨ret', d'', hcall', hiff⟩ := allocRequests_moves threeRequests_port hrepr hsized 1 hnone hmems
  obtain ⟨rfl, rfl⟩ := Prod.mk.inj (Option.some.inj (hcall.symm.trans hcall'))
  have hcond := hiff.mp hfills
  rw [XobjectH.obtainable_none, hlist, freeRoom, helems, hsize] at hcond
  exact absurd hcond (by decide)

end SegM

end Libxseg
