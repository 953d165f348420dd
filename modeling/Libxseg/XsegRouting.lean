import Mathlib.Algebra.Order.BigOperators.Group.Finset
import Mathlib.Order.Bounds.Basic
import Libxseg.XsegLocksReleased

/-!
# Where a submit goes

The first loop of `xseg_submit` follows `path_next`, and the destination where there is no
next port. It stops at the first port that has any flags, because `!` binds tighter than
`&`. A circle of ports without flags never lets it go.
-/

namespace Libxseg

set_option autoImplicit false

open Xseg

/-- A point whose numbers all lie in a set with fewer of them comes back. -/
theorem exists_iterate_eq {α β : Type} (f : α → α) {number : α → β}
    (hnumber : Function.Injective number) (S : Finset β) (x : α) {n : Nat} (hcard : S.card < n)
    (hmem : ∀ k < n, number (f^[k] x) ∈ S) : ∃ i j, i < j ∧ j < n ∧ f^[i] x = f^[j] x := by
  have hlt : S.card < (Finset.range n).card := by
    rwa [Finset.card_range]
  obtain ⟨i, hi, j, hj, hne, heq⟩ := Finset.exists_ne_map_eq_of_card_lt_of_maps_to hlt
    (fun k hk => hmem k (Finset.mem_range.mp hk))
  rw [Finset.mem_range] at hi hj
  rcases Nat.lt_or_gt_of_ne hne with hij | hji
  · exact ⟨i, j, hij, hj, hnumber heq⟩
  · exact ⟨j, i, hji, hi, hnumber heq.symm⟩

/-- What holds on the way until a point comes back holds for ever. -/
theorem forall_iterate_of_period {α : Type} {f : α → α} {P : α → Prop} {x : α} {i n : Nat}
    (hn : 0 < n) (hback : f^[i + n] x = f^[i] x) (h : ∀ k < i + n, P (f^[k] x)) (k : Nat) :
    P (f^[k] x) := by
  induction k using Nat.strong_induction_on with
  | _ k ih =>
    rcases Nat.lt_or_ge k (i + n) with hk | hk
    · exact h k hk
    · obtain ⟨m, rfl⟩ := Nat.exists_eq_add_of_le' hk
      have heq : f^[m + (i + n)] x = f^[m + i] x := by
        rw [Function.iterate_add_apply, hback, ← Function.iterate_add_apply]
      rw [heq]
      exact ih (m + i) (by omega)

namespace Xq
variable {q : Xq} {l : List xqindex} {x y : xqindex}

/-- The append would write where the head of 2^31 elements lies, and another element than that. -/
def Overwrites (q : Xq) (x : xqindex) : Prop :=
  q.count = 0x80000000 ∧ q.slot q.tail = q.slot (q.head - 1) ∧ q.peekHead ≠ x

instance (q : Xq) (x : xqindex) : Decidable (q.Overwrites x) :=
  inferInstanceAs (Decidable (_ ∧ _ ∧ _))

/-- A queue of the wrong size takes a request also when it already holds 2^31 of them. -/
theorem Repr.appendTail_over (h : q.Repr (y :: l)) (hlen : (y :: l).length = 2 ^ 31)
    (hsize : 2 ^ 31 < q.size.toNat) (x : xqindex) :
    ∃ q', q.appendTail x = (x, q') ∧
      q'.elems = (if q.slot q.tail = q.slot (q.head - 1) then x else y) :: (l ++ [x]) := by
  have hcount := h.count
  have hroom : ¬ ¬ q.count + 1 ≤ q.size := by
    rw [Classical.not_not, UInt64.le_iff_toNat_le, UInt64.toNat_add, h.count, UInt64.toNat_one]
    omega
  have htail : q.tail - 1 + 1 = q.tail := by grind
  have hhead := h.head_eq
  refine ⟨_, if_neg hroom, ?_⟩
  rw [htail]
  have hnew : (({ q with tail := q.tail - 1 } : Xq).put q.tail x).count.toNat = l.length + 2 := by
    have hc : (({ q with tail := q.tail - 1 } : Xq).put q.tail x).count = q.count + 1 := by
      simp only [Xq.count, put_head, put_tail]
      grind
    rw [hc, UInt64.toNat_add, h.count, UInt64.toNat_one]
    rw [List.length_cons] at hlen ⊢
    omega
  have hget (c : xqindex) : (({ q with tail := q.tail - 1 } : Xq).put q.tail x).get c =
      if q.slot q.tail = q.slot c then x else q.get c := by
    by_cases hslot : q.slot q.tail = q.slot c
    · rw [if_pos hslot]
      exact (congrArg (Function.update q.queue (q.slot q.tail) x) hslot.symm).trans
        (Function.update_self ..)
    · rw [if_neg hslot]
      exact get_put_other x (Ne.symm hslot)
  rw [Xq.elems, hnew]
  apply List.ext_getElem?
  intro i
  rw [List.getElem?_map]
  rcases i with _ | i
  · have hfirst : q.head - 1 - UInt64.ofNat 0 = q.head - 1 := UInt64.sub_zero _
    have hy : q.get (q.head - 1) = y := by
      rw [← hfirst]
      exact h.elems rfl
    rw [List.getElem?_range (by omega), Option.map_some, put_head, hfirst, hget, hy]
    rfl
  rw [List.getElem?_cons_succ]
  rcases Nat.lt_trichotomy i l.length with hil | rfl | hil
  · -- less than 2^31 counters lie between this element and the new one
    have hfar : q.head - 1 - UInt64.ofNat (i + 1) = q.tail + UInt64.ofNat (l.length - i) := by
      have hsplit : UInt64.ofNat (y :: l).length =
          UInt64.ofNat (i + 1) + UInt64.ofNat (l.length - i) := by
        rw [← UInt64.ofNat_add, List.length_cons]
        congr 1
        omega
      rw [hhead, hsplit]
      grind
    have hnear : l.length - i < window q.size := by
      rw [List.length_cons] at hlen
      unfold window
      omega
    have hslot := slot_ne_of_near h.snapped q.tail (Nat.sub_pos_of_lt hil) hnear
    rw [List.getElem?_range (by omega), Option.map_some, put_head, hget,
      if_neg (by rw [hfar]; exact Ne.symm hslot), List.getElem?_append_left hil,
      List.getElem?_eq_getElem hil]
    exact congrArg some (h.elems (List.getElem?_eq_getElem (l := y :: l) (by simpa using hil)))
  · have hlast : q.head - 1 - UInt64.ofNat (l.length + 1) = q.tail := by
      rw [hhead, List.length_cons]
      grind
    rw [List.getElem?_range (by omega), Option.map_some, put_head, hlast, hget, if_pos rfl,
      List.getElem?_concat_length]
  · rw [List.getElem?_eq_none (by rw [List.length_range]; omega), Option.map_none,
      List.getElem?_eq_none (by rw [List.length_append, List.length_singleton]; omega)]

theorem overwrites_iff (h : q.Repr (y :: l)) :
    q.Overwrites x ↔ (y :: l).length = 2 ^ 31 ∧ q.slot q.tail = q.slot (q.head - 1) ∧ y ≠ x := by
  have hfull : (0x80000000 : xqindex).toNat = 2 ^ 31 := by decide
  unfold Overwrites
  rw [h.peekHead, ← UInt64.toNat_inj, h.count, hfull]

theorem not_overwrites (h : q.Repr l) (hlt : l.length < 2 ^ 31) : ¬ q.Overwrites x := by
  rintro ⟨hcount, -⟩
  have hlen := h.count
  rw [hcount] at hlen
  exact absurd hlen (Nat.ne_of_gt hlt)

theorem Repr.size_of_length (h : q.Repr l) (hlen : l.length = 2 ^ 31) : 2 ^ 31 < q.size.toNat := by
  have hfits := h.fits
  unfold window at hfits
  rcases h.snapped with hzero | ⟨k, hk, hsize⟩
  · rw [hzero, hlen] at hfits
    exact absurd hfits (by decide)
  · by_cases hk31 : k < 31
    · rw [hsize, snapOf_toNat hk31] at hfits
      have hpow : 2 ^ k < 2 ^ 31 := Nat.pow_lt_pow_right (by decide) hk31
      omega
    · rw [hsize, snapOf, if_neg hk31]
      decide

end Xq

namespace Xseg

theorem appendGrowing_of_appended [Builtins] {q q' : Xq} {x : xptr} (hx : x ≠ Noneidx)
    (happ : q.appendTail x = (x, q')) (flags : UInt32) (chunk : QueueChunk) :
    appendGrowing q x flags chunk = (x, q') := by
  unfold appendGrowing
  rw [happ]
  exact if_neg fun h => hx h.2

/-- What was in the queue is in it after a successful append too, with the new request, unless
an element has been written over. -/
theorem appendGrowing_gains [Builtins] {q q' : Xq} {l : List xptr} {x serial : xptr}
    {flags : UInt32} {chunk : QueueChunk} (h : q.Repr l) (hx : x ≠ Noneidx)
    (happ : appendGrowing q x flags chunk = (serial, q')) (hserial : serial ≠ Noneidx) :
    (↑q'.elems : Multiset xptr) = x ::ₘ ↑l ↔ ¬ q.Overwrites x := by
  have hfits := h.fits
  rcases Nat.lt_or_ge l.length (2 ^ 31) with hlt | hge
  · refine iff_of_true ?_ (Xq.not_overwrites h hlt)
    by_cases hroom : l.length < window q.size
    · obtain ⟨q₁, hq₁, hrepr, -⟩ := h.appendTail hroom x
      rw [appendGrowing_of_appended hx hq₁] at happ
      obtain ⟨-, rfl⟩ := Prod.mk.inj happ
      rw [hrepr.elems_eq, ← Multiset.coe_add, Multiset.coe_singleton, Multiset.add_comm,
        Multiset.singleton_add]
    · have hsize : q.size.toNat < 2 ^ 31 := by
        unfold window at hroom
        omega
      obtain ⟨serial', q₁, elems, hq₁, hrepr, hcases⟩ := appendGrowing_spec flags h hsize hx chunk
      obtain ⟨rfl, rfl⟩ := Prod.mk.inj (happ.symm.trans hq₁)
      rw [hrepr.elems_eq]
      exact (hcases.resolve_right fun hnone => hserial hnone.1).2
  · have hlen : l.length = 2 ^ 31 := by
      have := Xq.window_le q.size
      omega
    cases l with
    | nil => exact absurd hlen (by decide)
    | cons y l =>
      obtain ⟨q₁, hq₁, helems⟩ := h.appendTail_over hlen (h.size_of_length hlen) x
      rw [appendGrowing_of_appended hx hq₁] at happ
      obtain ⟨-, rfl⟩ := Prod.mk.inj happ
      have hbag (z : xptr) : (↑(z :: (l ++ [x])) : Multiset xptr) = x ::ₘ z ::ₘ ↑l := by
        rw [← Multiset.cons_coe, ← Multiset.coe_add, Multiset.coe_singleton, Multiset.add_comm,
          Multiset.singleton_add, Multiset.cons_swap]
      rw [helems, hbag, ← Multiset.cons_coe, Multiset.cons_inj_right, Multiset.cons_inj_left,
        Xq.overwrites_iff h, and_iff_right hlen]
      by_cases hslot : q.slot q.tail = q.slot (q.head - 1)
      · rw [if_pos hslot, and_iff_right hslot, not_not, eq_comm]
      · rw [if_neg hslot]
        exact iff_of_true rfl fun hover => hslot hover.1

end Xseg

namespace Xseg
variable {s s' : Xseg} {dst cur p : xport} {port : Port} {x : xptr}

def setPathNext (s : Xseg) (portno next : xport) : Int × Xseg :=
  if ¬ s.validatePort portno then (-1, s)
  else if ¬ s.validatePort next then (-1, s)
  else (0, { s with pathNext := Function.update s.pathNext portno next })

/-- The table `path_next` is that of a new segment after calls of `xseg_set_path_next`. -/
inductive Routed : Xseg → Prop
  | new {s : Xseg} (h : ∀ portno, s.pathNext portno = NoPort) : Routed s
  | set {s : Xseg} (h : Routed s) (portno next : xport) : Routed (s.setPathNext portno next).2

/-- The loop goes on at `next`: it is not the destination, and a port without flags follows. -/
def Passes (s : Xseg) (dst next : xport) : Prop :=
  next ≠ dst ∧ ∃ port, s.getPort (s.follow dst next) = some port ∧ port.flags = 0

/-- The chain from `cur` comes back to a port, and the loop goes on all the way to there. -/
def Loops (s : Xseg) (dst cur : xport) : Prop :=
  ∃ i n, 0 < n ∧ (s.follow dst)^[i + n] cur = (s.follow dst)^[i] cur ∧
    ∀ k < i + n, s.Passes dst ((s.follow dst)^[k] cur)

theorem not_endsAt {next : xport} : ¬ s.EndsAt dst next ↔ s.Passes dst next := by
  unfold EndsAt Passes
  rw [not_or, not_forall]
  refine and_congr_right fun _ => exists_congr fun port => ?_
  rw [Classical.not_imp, not_not]

theorem Passes.mem_ports {n : Nat} (hcur : s.validatePort cur)
    (h : ∀ k < n, s.Passes dst ((s.follow dst)^[k] cur)) {k : Nat} (hk : k < n) :
    ((s.follow dst)^[k] cur).toNat ∈ (Finset.range s.nrPorts.toNat).erase dst.toNat := by
  rw [Finset.mem_erase, Finset.mem_range]
  refine ⟨fun heq => (h k hk).1 (UInt32.toNat_inj.mp heq), UInt32.lt_iff_toNat_lt.mp ?_⟩
  cases k with
  | zero => exact hcur
  | succ k =>
    obtain ⟨port, hport, -⟩ := (h k (by omega)).2
    rw [Function.iterate_succ_apply']
    exact getPort_lt hport

/-- As many turns as there are ports are enough, if any number is. -/
theorem discover_iff_not_loops (hcur : s.validatePort cur) (hdst : s.validatePort dst) :
    s.discover dst s.nrPorts.toNat cur ≠ none ↔ ¬ s.Loops dst cur := by
  rw [SegM.discover_ne_none]
  constructor
  · rintro ⟨k, -, hend⟩ ⟨i, n, hn, hback, hpass⟩
    exact not_endsAt.mpr (forall_iterate_of_period hn hback hpass k) hend
  · intro hloops
    by_contra hend
    have hpass : ∀ k < s.nrPorts.toNat, s.Passes dst ((s.follow dst)^[k] cur) := by
      intro k hk
      exact not_endsAt.mp fun h => hend ⟨k, hk, h⟩
    have hlt : dst.toNat < s.nrPorts.toNat := UInt32.lt_iff_toNat_lt.mp hdst
    have hcard : ((Finset.range s.nrPorts.toNat).erase dst.toNat).card < s.nrPorts.toNat := by
      rw [Finset.card_erase_of_mem (Finset.mem_range.mpr hlt), Finset.card_range]
      omega
    obtain ⟨i, j, hij, hj, heq⟩ := exists_iterate_eq (s.follow dst)
      (fun _ _ h => UInt32.toNat_inj.mp h) _ cur hcard fun k hk => Passes.mem_ports hcur hpass hk
    obtain ⟨n, rfl⟩ := Nat.exists_eq_add_of_le hij.le
    exact hloops ⟨i, n, by omega, heq.symm, fun k hk => hpass k (hk.trans hj)⟩

theorem submit_ne_none [Builtins] (hcur : s.validatePort (s.requests x).transitPortno)
    (hdst : s.validatePort (s.requests x).effectiveDstPortno) (portno : xport) (flags : UInt32)
    (chunk : QueueChunk) (turns : Nat) :
    s.submit x portno flags chunk turns ≠ none ↔
      s.discover (s.requests x).effectiveDstPortno turns (s.requests x).transitPortno ≠ none := by
  unfold submit
  dsimp only
  rw [if_neg (not_not_intro hcur), if_neg (not_not_intro hdst)]
  rcases s.discover (s.requests x).effectiveDstPortno turns
    (s.requests x).transitPortno with _ | _ | found
  · exact iff_of_false (not_not_intro rfl) (not_not_intro rfl)
  · exact iff_of_true nofun nofun
  · exact iff_of_true nofun nofun

/-- The hop loop of a submit between valid ports ends within `nr_ports` turns, each with at most
one hop, if and only if the chain of ports does not come back to where it was. -/
theorem submit_ends_iff [Builtins] (hcur : s.validatePort (s.requests x).transitPortno)
    (hdst : s.validatePort (s.requests x).effectiveDstPortno) (portno : xport) (flags : UInt32)
    (chunk : QueueChunk) :
    s.submit x portno flags chunk s.nrPorts.toNat ≠ none ↔
      ¬ s.Loops (s.requests x).effectiveDstPortno (s.requests x).transitPortno :=
  (submit_ne_none hcur hdst portno flags chunk _).trans (discover_iff_not_loops hcur hdst)

/-- A new segment with four ports whose flags are all `flags`; every request is at port 0 and
goes to port 2. -/
def sentSeg [Builtins] (flags : UInt32) : Xseg :=
  { madeSeg 4 1024 with
    ports := fun _ => some { madePort with flags := flags }
    requests := fun _ => emptyPath { blankRequest with effectiveDstPortno := 2 } }

/-- Between ports that accept a submit ends. -/
theorem submit_ends_accepting : ∃ _ : Builtins,
    (sentSeg 3).submit 4096 0 0 none (sentSeg 3).nrPorts.toNat ≠ none := by
  let _ : Builtins := ⟨0⟩
  refine ⟨⟨0⟩, (submit_ends_iff (s := sentSeg 3) ?_ ?_ 0 0 none).mpr ?_⟩
  · exact show (0 : xport) < 4 by decide
  · exact show (2 : xport) < 4 by decide
  · rintro ⟨i, n, hn, -, hpass⟩
    obtain ⟨-, port, hport, hflags⟩ := hpass 0 (by omega)
    have hto : (sentSeg 3).getPort 2 = some { madePort with flags := 3 } := rfl
    obtain rfl := Option.some.inj (hto.symm.trans hport)
    exact absurd hflags (by decide)

/-- Ports 0 and 1 have no flags and are each other's next port. -/
theorem not_submit_ends : ¬ ∀ (_ : Builtins) (s : Xseg) (x : xptr) (portno : xport)
    (flags : UInt32) (chunk : QueueChunk), s.Routed →
    s.validatePort (s.requests x).transitPortno →
    s.validatePort (s.requests x).effectiveDstPortno →
    s.submit x portno flags chunk s.nrPorts.toNat ≠ none := by
  intro h
  let _ : Builtins := ⟨0⟩
  let s : Xseg := { sentSeg 0 with
    pathNext := Function.update (Function.update (fun _ => NoPort) 0 1) 1 0 }
  have hrouted : s.Routed := .set (.set (.new (s := sentSeg 0) fun _ => rfl) 0 1) 1 0
  have hcur : s.validatePort 0 := show (0 : xport) < 4 by decide
  have hdst : s.validatePort 2 := show (2 : xport) < 4 by decide
  have hends := (submit_ne_none hcur hdst 0 0 none _).mp
    (h ⟨0⟩ s 4096 0 0 none hrouted hcur hdst)
  refine (discover_iff_not_loops hcur hdst).mp hends ⟨0, 2, by decide, rfl, fun k hk => ?_⟩
  have hk : k = 0 ∨ k = 1 := by omega
  rcases hk with rfl | rfl
  · exact ⟨by decide, { madePort with flags := 0 }, rfl, rfl⟩
  · exact ⟨by decide, { madePort with flags := 0 }, rfl, rfl⟩

def hop (s : Xseg) (dst cur : xport) (k : Nat) : xport := (s.follow dst)^[k + 1] cur

def Accepts (s : Xseg) (p : xport) : Prop :=
  ∃ port, s.getPort p = some port ∧ port.flags &&& CAN_ACCEPT ≠ 0

def Flagged (s : Xseg) (p : xport) : Prop := ∃ port, s.getPort p = some port ∧ port.flags ≠ 0

def FirstWilling (s : Xseg) (dst cur p : xport) : Prop :=
  ∃ k, IsLeast {k | s.Accepts (s.hop dst cur k)} k ∧ s.hop dst cur k = p

def FlaggedAccepts (s : Xseg) (dst cur : xport) : Prop :=
  ∀ k, IsLeast {k | s.Flagged (s.hop dst cur k)} k → s.Accepts (s.hop dst cur k)

/-- Appending `x` to the request queue of the first port with any flag writes over nothing. -/
def FlaggedHasPlace (s : Xseg) (x : xptr) (dst cur : xport) : Prop :=
  ∀ k, IsLeast {k | s.Flagged (s.hop dst cur k)} k → ∀ port,
    s.getPort (s.hop dst cur k) = some port → ¬ (port.queue .request).Overwrites x

/-- The request queue of `p` has gained `x`, and no queue has changed otherwise. -/
structure Gains (s s' : Xseg) (x : xptr) (p : xport) : Prop where
  into : s'.bag p .request = x ::ₘ s.bag p .request
  rest : ∀ p' kind, (p', kind) ≠ (p, .request) → s'.bag p' kind = s.bag p' kind

theorem Accepts.flagged (h : s.Accepts p) : s.Flagged p := by
  obtain ⟨port, hport, haccept⟩ := h
  refine ⟨port, hport, fun hzero => haccept ?_⟩
  rw [hzero]
  rfl

theorem discover_ne_dst {turns : Nat} (h : s.discover dst (turns + 1) cur = some (some (p, port))) :
    cur ≠ dst := by
  rintro rfl
  rw [discover, if_pos rfl] at h
  cases h

theorem discover_takes (hne : cur ≠ dst) (hport : s.getPort (s.follow dst cur) = some port)
    (hflags : port.flags ≠ 0) (turns : Nat) :
    s.discover dst (turns + 1) cur = some (some (s.follow dst cur, port)) := by
  rw [SegM.discover_port hne hport]
  exact if_neg fun haccept => hflags ((SegM.cNot_accept port.flags).mp haccept)

theorem discover_stops {turns : Nat} (hend : s.EndsAt dst cur)
    (h : s.discover dst (turns + 1) cur = some (some (p, port))) :
    s.follow dst cur = p ∧ s.getPort p = some port := by
  have hne := discover_ne_dst h
  cases hport : s.getPort (s.follow dst cur) with
  | none =>
    rw [SegM.discover_missing hne hport] at h
    cases h
  | some port' =>
    rw [discover_takes hne hport (hend.resolve_left hne port' hport)] at h
    obtain ⟨rfl, rfl⟩ := Prod.mk.inj (Option.some.inj (Option.some.inj h))
    exact ⟨rfl, hport⟩

/-- The loop stops at the first port of the chain that has any flag. -/
theorem discover_found {turns : Nat} (h : s.discover dst turns cur = some (some (p, port))) :
    ∃ k, IsLeast {k | s.Flagged (s.hop dst cur k)} k ∧ s.hop dst cur k = p := by
  induction turns generalizing cur with
  | zero => cases h
  | succ turns ih =>
    by_cases hend : s.EndsAt dst cur
    · have hne := discover_ne_dst h
      obtain ⟨rfl, hport⟩ := discover_stops hend h
      refine ⟨0, ⟨?_, fun _ _ => Nat.zero_le _⟩, rfl⟩
      exact ⟨port, hport, hend.resolve_left hne port hport⟩
    · rw [SegM.discover_of_not_endsAt hend] at h
      obtain ⟨k, hleast, hp⟩ := ih h
      refine ⟨k + 1, ⟨hleast.1, fun j hj => ?_⟩, hp⟩
      cases j with
      | zero =>
        obtain ⟨-, port', hport', hflags⟩ := not_endsAt.mp hend
        obtain ⟨port'', hport'', hne⟩ := hj
        obtain rfl := Option.some.inj (hport'.symm.trans hport'')
        exact absurd hflags hne
      | succ j => exact Nat.succ_le_succ (hleast.2 hj)

theorem firstWilling_iff {turns : Nat} (h : s.discover dst turns cur = some (some (p, port))) :
    s.FirstWilling dst cur p ↔ s.FlaggedAccepts dst cur := by
  obtain ⟨k, hleast, hp⟩ := discover_found h
  constructor
  · rintro ⟨j, hwilling, hj⟩ i hi
    obtain rfl := hi.unique hleast
    rw [hp, ← hj]
    exact hwilling.1
  · intro hflagged
    exact ⟨k, ⟨hflagged k hleast, fun j hj => hleast.2 hj.flagged⟩, hp⟩

theorem hasPlace_iff {turns : Nat} (h : s.discover dst turns cur = some (some (p, port))) :
    s.FlaggedHasPlace x dst cur ↔ ¬ (port.queue .request).Overwrites x := by
  have hport := discover_spec h
  obtain ⟨k, hleast, rfl⟩ := discover_found h
  constructor
  · exact fun hplace => hplace k hleast port hport
  · intro hplace i hi port' hport'
    obtain rfl := hi.unique hleast
    obtain rfl := Option.some.inj (hport.symm.trans hport')
    exact hplace

/-- A submit does nothing, or it pushes the transit port to the path and appends the request at
the port that the loop stops at; the path is popped again when the append fails. -/
theorem submit_cases [Builtins] {r portno : xport} {flags : UInt32} {chunk : QueueChunk}
    {turns : Nat} (hsub : s.submit x portno flags chunk turns = some (r, s')) :
    (r = NoPort ∧ s' = s) ∨
      ∃ p port pushed path serial q, s.discover (s.requests x).effectiveDstPortno turns
          (s.requests x).transitPortno = some (some (p, port)) ∧
        (s.requests x).path.appendHead (s.requests x).transitPortno.toUInt64 = (pushed, path) ∧
        pushed ≠ Noneidx ∧ appendGrowing (port.queue .request) x flags chunk = (serial, q) ∧
        (r, s') = if serial = Noneidx then (NoPort, ((s.setPath x path).setPort p
            (port.setQueue .request q)).setPath x path.popHead.2)
          else (p, (s.setPath x path).setPort p (port.setQueue .request q)) := by
  unfold submit at hsub
  dsimp only at hsub
  split at hsub
  · obtain ⟨rfl, rfl⟩ := Prod.mk.inj (Option.some.inj hsub)
    exact .inl ⟨rfl, rfl⟩
  split at hsub
  · obtain ⟨rfl, rfl⟩ := Prod.mk.inj (Option.some.inj hsub)
    exact .inl ⟨rfl, rfl⟩
  split at hsub
  · cases hsub
  · obtain ⟨rfl, rfl⟩ := Prod.mk.inj (Option.some.inj hsub)
    exact .inl ⟨rfl, rfl⟩
  rename_i p port hfound
  have hdeliver := Option.some.inj hsub
  unfold deliver appendQueue at hdeliver
  dsimp only at hdeliver
  split at hdeliver
  · obtain ⟨rfl, rfl⟩ := Prod.mk.inj hdeliver
    exact .inl ⟨rfl, rfl⟩
  rename_i hpushed
  exact .inr ⟨p, port, _, _, _, _, hfound, rfl, hpushed, rfl, hdeliver.symm⟩

theorem submit_found [Builtins] {portno : xport} {flags : UInt32} {chunk : QueueChunk}
    {turns : Nat} (hsub : s.submit x portno flags chunk turns = some (p, s')) (hp : p ≠ NoPort) :
    ∃ port path serial q, s.discover (s.requests x).effectiveDstPortno turns
        (s.requests x).transitPortno = some (some (p, port)) ∧
      appendGrowing (port.queue .request) x flags chunk = (serial, q) ∧ serial ≠ Noneidx ∧
      s' = (s.setPath x path).setPort p (port.setQueue .request q) := by
  rcases submit_cases hsub with ⟨hnone, -⟩ | ⟨p', port, _, path, serial, q, hfound, -, -, happ, hr⟩
  · exact absurd hnone hp
  by_cases hserial : serial = Noneidx
  · rw [if_pos hserial] at hr
    exact absurd (Prod.mk.inj hr).1 hp
  · rw [if_neg hserial] at hr
    obtain ⟨rfl, rfl⟩ := Prod.mk.inj hr
    exact ⟨port, path, serial, q, hfound, happ, hserial, rfl⟩

theorem gains_iff {q : Xq} (hport : s.getPort p = some port) (path : Xq) :
    Gains s ((s.setPath x path).setPort p (port.setQueue .request q)) x p ↔
      (↑q.elems : Multiset xptr) = x ::ₘ ↑(port.queue .request).elems := by
  have hport' : (s.setPath x path).getPort p = some port := hport
  have hch := changes_setPort hport' (port.setQueue .request q)
  have hbag := bag_eq hch.port .request
  rw [Port.queue_setQueue] at hbag
  constructor
  · intro h
    rw [← hbag, h.into, bag_eq hport]
  · intro hq
    refine ⟨?_, fun p' kind hne => ?_⟩
    · rw [hbag, hq, bag_eq hport]
    · by_cases hp : p' = p
      · obtain rfl := hp
        have hkind : kind ≠ .request := fun h => hne (by rw [h])
        rw [bag_eq hch.port, Port.queue_setQueue_of_ne _ hkind, bag_eq hport]
      · unfold bag
        rw [hch.others hp]
        rfl

/-- A submit that returns a port has reached the first port that accepts, and only its request
queue has gained the request, if and only if the first port with any flag accepts and has a
place for it. -/
theorem submit_reachesWilling_iff [Builtins] {portno : xport} {flags : UInt32}
    {chunk : QueueChunk} {turns : Nat} (hs : s.Wf) (hx : x ≠ Noneidx)
    (hsub : s.submit x portno flags chunk turns = some (p, s')) (hp : p ≠ NoPort) :
    s.FirstWilling (s.requests x).effectiveDstPortno (s.requests x).transitPortno p ∧
        s.Gains s' x p ↔
      s.FlaggedAccepts (s.requests x).effectiveDstPortno (s.requests x).transitPortno ∧
        s.FlaggedHasPlace x (s.requests x).effectiveDstPortno (s.requests x).transitPortno := by
  obtain ⟨port, path, serial, q, hfound, happ, hserial, rfl⟩ := submit_found hsub hp
  have hport := discover_spec hfound
  rw [firstWilling_iff hfound, gains_iff hport, hasPlace_iff hfound,
    appendGrowing_gains (hs.queues hport _) hx happ hserial]

theorem sentSeg_submits [Builtins] (flags : UInt32) (hflags : flags ≠ 0) :
    ∃ s', (sentSeg flags).submit 4096 0 0 none 1 = some (2, s') := by
  have hport : (sentSeg flags).getPort 2 = some { madePort with flags := flags } := rfl
  have htracks : Tracks ((sentSeg flags).requests 4096) [] 0 := ⟨PathIs.emptyPath _, rfl⟩
  obtain ⟨s', -, hsub, -⟩ := submit_reaches (show (4096 : xptr) ≠ Noneidx by decide) htracks rfl
    (show (0 : xport) < 4 by decide) (show (0 : xport) ≠ 2 by decide) rfl hport hflags
    (madePort_holding .request) (by decide) 0 0
  exact ⟨s', hsub⟩

theorem sentSeg_wf [Builtins] (flags : UInt32) : (sentSeg flags).Wf where
  queues := by
    intro p port hport kind
    have hp : p < 4 := getPort_lt hport
    have hat : (sentSeg flags).getPort p = some { madePort with flags := flags } := if_pos hp
    obtain rfl := Option.some.inj (hat.symm.trans hport)
    have hrepr : (madePort.queue kind).Repr [] := (madePort_holding kind).repr
    exact hrepr.elems_eq.symm ▸ hrepr
  handler := show (madeSeg 4 1024).requestH.Wf from madeSeg_wf (by decide)

/-- Port 2 accepts, and its request queue is empty. -/
theorem submit_reachesWilling_accepting : ∃ (_ : Builtins) (s' : Xseg),
    (sentSeg 3).submit 4096 0 0 none 1 = some (2, s') ∧
      (sentSeg 3).FirstWilling 2 0 2 ∧ (sentSeg 3).Gains s' 4096 2 := by
  let _ : Builtins := ⟨0⟩
  obtain ⟨s', hsub⟩ := sentSeg_submits 3 (by decide)
  refine ⟨⟨0⟩, s', hsub, (submit_reachesWilling_iff (sentSeg_wf 3) (by decide) hsub
    (by decide)).mpr ⟨?_, ?_⟩⟩
  · rintro k ⟨⟨port, hport, -⟩, -⟩
    have hat : (sentSeg 3).getPort ((sentSeg 3).hop 2 0 k) = some { madePort with flags := 3 } :=
      if_pos (getPort_lt hport)
    exact ⟨_, hat, show (3 : UInt32) &&& CAN_ACCEPT ≠ 0 by decide⟩
  · intro k _ port hport
    have hat : (sentSeg 3).getPort ((sentSeg 3).hop 2 0 k) = some { madePort with flags := 3 } :=
      if_pos (getPort_lt hport)
    obtain rfl := Option.some.inj (hat.symm.trans hport)
    exact Xq.not_overwrites (madePort_holding .request).repr (by decide)

/-- The flags of port 2 have CAN_RECEIVE only. -/
theorem not_submit_reachesWilling : ¬ ∀ (_ : Builtins) (s s' : Xseg) (x : xptr) (p portno : xport)
    (flags : UInt32) (chunk : QueueChunk) (turns : Nat), s.Wf → x ≠ Noneidx →
    s.submit x portno flags chunk turns = some (p, s') → p ≠ NoPort →
    s.FirstWilling (s.requests x).effectiveDstPortno (s.requests x).transitPortno p ∧
      s.Gains s' x p := by
  intro h
  let _ : Builtins := ⟨0⟩
  obtain ⟨s', hsub⟩ := sentSeg_submits CAN_RECEIVE (by decide)
  obtain ⟨⟨k, hleast, -⟩, -⟩ := h ⟨0⟩ _ s' 4096 2 0 0 none 1 (sentSeg_wf CAN_RECEIVE) (by decide)
    hsub (by decide)
  obtain ⟨port, hport, haccept⟩ := hleast.1
  have hat : (sentSeg CAN_RECEIVE).getPort ((sentSeg CAN_RECEIVE).hop 2 0 k) =
      some { madePort with flags := CAN_RECEIVE } := if_pos (getPort_lt hport)
  obtain rfl := Option.some.inj (hat.symm.trans hport)
  exact haccept (show CAN_RECEIVE &&& CAN_ACCEPT = 0 by decide)

end Xseg

end Libxseg
