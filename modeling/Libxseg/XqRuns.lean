import Mathlib.Data.List.Basic
import Libxseg.Transition
import Libxseg.XqDeque

/-!
# Whole runs of an xq against a bounded deque

The deque is the purpose of the module: a sequence of at most `n` elements with
two ends. A queue set up by `initEmpty` for a power of two `n` follows it through
every run exactly when `n ≤ 2^30`; the size field is wrong from 2^31 on.
-/

namespace Libxseg

set_option autoImplicit false

inductive XqCall where
  | appendHead (xqi : xqindex)
  | appendTail (xqi : xqindex)
  | popHead
  | popTail
  | peekHead
  | peekTail
  | count
  | check (idx : xqindex)
  deriving DecidableEq, Repr

def XqCall.Admissible : XqCall → Prop
  | .appendHead x => x ≠ Noneidx
  | .appendTail x => x ≠ Noneidx
  | _ => True

theorem admissible_zero : (XqCall.appendHead 0).Admissible := by
  simp [XqCall.Admissible, Noneidx]

def Xq.call (q : Xq) : XqCall → xqindex × Xq
  | .appendHead x => q.appendHead x
  | .appendTail x => q.appendTail x
  | .popHead => q.popHead
  | .popTail => q.popTail
  | .peekHead => (q.peekHead, q)
  | .peekTail => (q.peekTail, q)
  | .count => (q.count, q)
  | .check idx => (q.check idx, q)

def Xq.Step (q : Xq) (a : XqCall × xqindex) (q' : Xq) : Prop := q.call a.1 = (a.2, q')

def dequeCall (n : Nat) (l : List xqindex) : XqCall → xqindex × List xqindex
  | .appendHead x => if l.length < n then (x, x :: l) else (Noneidx, l)
  | .appendTail x => if l.length < n then (x, l ++ [x]) else (Noneidx, l)
  | .popHead => (l.head?.getD Noneidx, l.tail)
  | .popTail => (l.getLast?.getD Noneidx, l.dropLast)
  | .peekHead => (l.head?.getD Noneidx, l)
  | .peekTail => (l.getLast?.getD Noneidx, l)
  | .count => (UInt64.ofNat l.length, l)
  | .check idx => (if idx ∈ l then 1 else 0, l)

def DequeStep (n : Nat) (l : List xqindex) (a : XqCall × xqindex) (l' : List xqindex) : Prop :=
  dequeCall n l a.1 = (a.2, l')

/-- Every run of the queue is a run of the deque with the same results. No state of the deque
holds `Noneidx`, so a pop or a peek that returns it found the queue empty. -/
def BehavesAsDeque (q : Xq) (n : Nat) : Prop :=
  ∀ as q', Run (Guarded Xq.Step fun _ a => a.1.Admissible) q as q' →
    ∃ l, Run (DequeStep n) [] as l ∧ l.length ≤ n ∧ Noneidx ∉ l

namespace Xq
variable {q : Xq} {l : List xqindex}

theorem Repr.call (h : Repr q l) (hw : window q.size = q.size.toNat) (hnone : Noneidx ∉ l)
    {c : XqCall} (hc : c.Admissible) :
    ∃ r q' l', q.call c = (r, q') ∧ dequeCall q.size.toNat l c = (r, l') ∧
      Repr q' l' ∧ q'.size = q.size ∧ Noneidx ∉ l' := by
  have hfits := h.fits
  cases c with
  | appendHead x =>
    by_cases hl : l.length < q.size.toNat
    · obtain ⟨q', hq, hr, hs⟩ := h.appendHead (by omega) x
      exact ⟨x, q', x :: l, hq, if_pos hl, hr, hs, by simpa using ⟨Ne.symm hc, hnone⟩⟩
    · exact ⟨Noneidx, q, l, h.appendHead_full (by omega) x, if_neg hl, h, rfl, hnone⟩
  | appendTail x =>
    by_cases hl : l.length < q.size.toNat
    · obtain ⟨q', hq, hr, hs⟩ := h.appendTail (by omega) x
      exact ⟨x, q', l ++ [x], hq, if_pos hl, hr, hs, by simpa using ⟨hnone, Ne.symm hc⟩⟩
    · exact ⟨Noneidx, q, l, h.appendTail_full (by omega) x, if_neg hl, h, rfl, hnone⟩
  | popHead =>
    cases l with
    | nil => exact ⟨Noneidx, q, [], h.popHead_nil, rfl, h, rfl, hnone⟩
    | cons x l =>
      obtain ⟨q', hq, hr, hs⟩ := h.popHead
      exact ⟨x, q', l, hq, rfl, hr, hs, fun hm => hnone (List.mem_cons_of_mem x hm)⟩
  | popTail =>
    rcases List.eq_nil_or_concat' l with rfl | ⟨l, x, rfl⟩
    · exact ⟨Noneidx, q, [], h.popTail_nil, rfl, h, rfl, hnone⟩
    · obtain ⟨q', hq, hr, hs⟩ := h.popTail
      exact ⟨x, q', l, hq, by simp [dequeCall], hr, hs, fun hm => hnone (by simp [hm])⟩
  | peekHead =>
    cases l with
    | nil => exact ⟨Noneidx, q, [], by rw [Xq.call, h.peekHead_nil], rfl, h, rfl, hnone⟩
    | cons x l => exact ⟨x, q, x :: l, by rw [Xq.call, h.peekHead], rfl, h, rfl, hnone⟩
  | peekTail =>
    rcases List.eq_nil_or_concat' l with rfl | ⟨l, x, rfl⟩
    · exact ⟨Noneidx, q, [], by rw [Xq.call, h.peekTail_nil], rfl, h, rfl, hnone⟩
    · exact ⟨x, q, l ++ [x], by rw [Xq.call, h.peekTail], by simp [dequeCall], h, rfl, hnone⟩
  | count => exact ⟨q.count, q, l, rfl, by rw [dequeCall, h.count_eq], h, rfl, hnone⟩
  | check idx => exact ⟨_, q, l, by rw [Xq.call, h.check], rfl, h, rfl, hnone⟩

theorem initEmpty_deque [Builtins] {k : Nat} (hk : k ≤ 30) {n : xqindex} (hn : n.toNat = 2 ^ k)
    (mem : xqindex → xqindex) : BehavesAsDeque (initEmpty n mem) n.toNat := by
  have hsize : snap n = n := snap_two_pow (by omega) hn
  have hpow : 2 ^ k ≤ 2 ^ 31 := Nat.pow_le_pow_right (by decide) (by omega)
  have hw : window n = n.toNat := by rw [window, hn]; omega
  intro as q' hrun
  obtain ⟨l, hl, hr, hs, hnone⟩ := hrun.simulate (T := DequeStep n.toNat)
    (R := fun q l => Repr q l ∧ q.size = n ∧ Noneidx ∉ l)
    (by
      rintro q ⟨c, r⟩ q' l ⟨hr, hs, hnone⟩ ⟨hc, hstep⟩
      obtain ⟨r', q'', l', hq, hd, hr', hs', hnone'⟩ := hr.call (by rw [hs, hw]) hnone hc
      rw [Xq.Step, hq, Prod.mk.injEq] at hstep
      obtain ⟨rfl, rfl⟩ := hstep
      exact ⟨l', by rw [DequeStep, ← hs, hd], hr', hs'.trans hs, hnone'⟩)
    ⟨repr_initEmpty n mem, by rw [initEmpty, hsize], by simp⟩
  exact ⟨l, hl, by rw [← hw, ← hs]; exact hr.fits, hnone⟩

/-- Appends to an empty queue succeed for as long as the count stays below the size field,
whatever the mask does to the slots. -/
theorem run_appendHead (q : Xq) (hq : q.count = 0) {m : Nat} (hm : m ≤ q.size.toNat) :
    ∃ q', Run (Guarded Xq.Step fun _ a => a.1.Admissible) q
        (List.replicate m (.appendHead 0, 0)) q' ∧
      q'.count.toNat = m ∧ q'.size = q.size := by
  induction m with
  | zero => exact ⟨q, .refl q, by simp [hq], rfl⟩
  | succ m ih =>
    obtain ⟨q', hrun, hc, hs⟩ := ih (by omega)
    have hlt := q.size.toNat_lt
    have hfull : ¬ q'.count ≥ q'.size := by
      rw [ge_iff_le, UInt64.le_iff_toNat_le, hc, hs]; omega
    refine ⟨{ q' with head := q'.head + 1 }.put q'.head 0, ?_, ?_, hs⟩
    · rw [List.replicate_succ']
      exact hrun.snoc ⟨admissible_zero, if_neg hfull⟩
    · have : ({ q' with head := q'.head + 1 }.put q'.head 0).count = q'.count + 1 := by
        simp only [Xq.count, put_head, put_tail]; grind
      rw [this, UInt64.toNat_add, hc, UInt64.toNat_one]
      omega

theorem deque_replicate (n m : Nat) {l : List xqindex}
    (h : Run (DequeStep n) [] (List.replicate m (.appendHead 0, 0)) l) : l.length = m ∧ m ≤ n := by
  induction m generalizing l with
  | zero => simp [h.nil_inv]
  | succ m ih =>
    rw [List.replicate_succ'] at h
    obtain ⟨l', hr, hs⟩ := h.snoc_inv
    obtain ⟨hl, _⟩ := ih hr
    simp only [DequeStep, dequeCall] at hs
    split at hs
    · obtain rfl := (Prod.mk.inj hs).2
      exact ⟨by simp [hl], by omega⟩
    · exact absurd (Prod.mk.inj hs).1 (by decide)

/-- A queue whose size field is not `n` refuses an append too early or too late. -/
theorem not_deque_of_size_ne (q : Xq) (hq : q.count = 0) {n : Nat} (hne : q.size.toNat ≠ n) :
    ¬ BehavesAsDeque q n := by
  intro h
  rcases Nat.lt_or_gt_of_ne hne with hlt | hgt
  · obtain ⟨q', hrun, hc, hs⟩ := run_appendHead q hq (Nat.le_refl _)
    have hfull : q'.count ≥ q'.size := by
      rw [ge_iff_le, UInt64.le_iff_toNat_le, hc, hs]
    have hstep : q'.Step (.appendHead 0, Noneidx) q' := if_pos hfull
    obtain ⟨l, hl, _, _⟩ := h _ q' (hrun.snoc ⟨admissible_zero, hstep⟩)
    obtain ⟨l', hr, hstep⟩ := hl.snoc_inv
    obtain ⟨hlen, _⟩ := deque_replicate n _ hr
    simp only [DequeStep, dequeCall, hlen, if_pos hlt] at hstep
    exact absurd (Prod.mk.inj hstep).1 (by decide)
  · obtain ⟨q', hrun, _, _⟩ := run_appendHead q hq (m := n + 1) hgt
    obtain ⟨l, hl, _, _⟩ := h _ q' hrun
    have := (deque_replicate n _ hl).2
    omega

theorem snap_ne_of_large [Builtins] {k : Nat} (hk : 30 < k) {n : xqindex} (hn : n.toNat = 2 ^ k) :
    (snap n).toNat ≠ n.toNat := by
  have hlt := n.toNat_lt
  have h0 : n ≠ 0 := by
    rintro rfl
    exact absurd hn (Nat.two_pow_pos k).ne
  obtain ⟨l, hl, hs⟩ := snap_eq_snapOf h0
  rw [hs, hn]
  by_cases hl31 : l < 31
  · rw [snapOf_toNat hl31]
    exact (Nat.pow_lt_pow_right (by decide) (by omega)).ne
  · have hk64 : k < 64 := (Nat.pow_lt_pow_iff_right (by decide)).mp (hn ▸ hlt)
    have hle : 2 ^ k ≤ 2 ^ 63 := Nat.pow_le_pow_right (by decide) (by omega)
    have : (snapOf l).toNat = 0xFFFFFFFF80000000 := by simp [snapOf, hl31]
    omega

/-- For the powers of two that fit the size field's type, the queue is the bounded deque its
header promises exactly up to 2^30 elements. -/
theorem initEmpty_deque_iff [Builtins] {k : Nat} {n : xqindex} (hn : n.toNat = 2 ^ k)
    (mem : xqindex → xqindex) :
    BehavesAsDeque (initEmpty n mem) n.toNat ↔ n.toNat ≤ 2 ^ 30 := by
  constructor
  · intro h
    by_contra hgt
    have hk : 30 < k := by
      by_contra hk
      have : 2 ^ k ≤ 2 ^ 30 := Nat.pow_le_pow_right (by decide) (by omega)
      omega
    exact not_deque_of_size_ne _ (by simp [initEmpty, Xq.count]) (snap_ne_of_large hk hn) h
  · intro h
    have hk : k ≤ 30 := (Nat.pow_le_pow_iff_right (by decide)).mp (hn ▸ h)
    exact initEmpty_deque hk hn mem

theorem initEmpty_deque_iff_four :
    (4 : xqindex).toNat = 2 ^ 2 ∧
      (BehavesAsDeque (@initEmpty ⟨0⟩ 4 fun _ => 0) 4 ↔ 4 ≤ 2 ^ 30) :=
  ⟨rfl, @initEmpty_deque_iff ⟨0⟩ 2 4 rfl fun _ => 0⟩

/-- At 2^31, a size the documentation allows, the queue never refuses an element. -/
theorem initEmpty_not_deque_two_pow_31 :
    ¬ BehavesAsDeque (@initEmpty ⟨0⟩ 0x80000000 fun _ => 0) 0x80000000 :=
  not_deque_of_size_ne _ (by simp [initEmpty, Xq.count])
    (@snap_ne_of_large ⟨0⟩ 31 (by decide) 0x80000000 rfl)

end Xq

end Libxseg
