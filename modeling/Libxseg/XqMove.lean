import Mathlib.Logic.Function.Iterate
import Libxseg.XqDeque

/-!
# Moving elements between queues

`xq_head_to_tail` moves both counters first and then copies a block, from the far end of it to
the near one. Single moves copy the same elements to the same slots in the other order, and the
slots are different ones.
-/

namespace Libxseg

set_option autoImplicit false

/-- Writes of equal values to equal places can be done in any order. -/
theorem foldl_update_perm {α : Type} {f : α → xqindex} {g : α → xqindex} {l l' : List α}
    (hperm : l.Perm l') (hsame : ∀ x ∈ l, ∀ y ∈ l, f x = f y → g x = g y)
    (mem : xqindex → xqindex) :
    l.foldl (fun mem x => Function.update mem (f x) (g x)) mem =
      l'.foldl (fun mem x => Function.update mem (f x) (g x)) mem := by
  apply hperm.foldl_eq'
  intro x hx y hy mem
  by_cases heq : f x = f y
  · rw [heq, Function.update_idem, Function.update_idem, hsame x hx y hy heq]
  · exact Function.update_comm heq (g x) (g y) mem

namespace Xq
variable {headq tailq : Xq} {lh lt : List xqindex} {nr : xqindex} {n : Nat}

def popHeadIdx (q : Xq) (nr : xqindex) : xqindex × Xq :=
  let head := q.head - nr
  (head, { q with head := head })

def appendTailIdx (q : Xq) (nr : xqindex) : xqindex × Xq :=
  let tail := q.tail - nr
  (tail + 1, { q with tail := tail })

def moveCopy (headq : Xq) (head tail : xqindex) (tailq : Xq) (i : Nat) : Xq :=
  tailq.put (tail + UInt64.ofNat i) (headq.get (head + UInt64.ofNat i))

def headToTail (headq tailq : Xq) (nr : xqindex) : Int × Xq × Xq :=
  if headq.count < nr ∨ tailq.count + nr > tailq.size then (-1, headq, tailq)
  else
    let (head, headq) := headq.popHeadIdx nr
    let (tail, tailq) := tailq.appendTailIdx nr
    (0, headq, (List.range nr.toNat).foldl (moveCopy headq head tail) tailq)

/-- `pop_head` from the first queue and `append_tail` to the second. -/
def moveOne (qs : Xq × Xq) : Xq × Xq :=
  let (xqi, headq) := qs.1.popHead
  (headq, (qs.2.appendTail xqi).2)

def movedQueue (headq tailq : Xq) (n : Nat) : xqindex → xqindex :=
  (List.range n).foldl (fun queue i => Function.update queue
    (tailq.slot (tailq.tail - UInt64.ofNat i)) (headq.get (headq.head - 1 - UInt64.ofNat i)))
    tailq.queue

def moved (headq tailq : Xq) (n : Nat) : Xq × Xq :=
  ({ headq with head := headq.head - UInt64.ofNat n },
    { tailq with tail := tailq.tail - UInt64.ofNat n, queue := movedQueue headq tailq n })

theorem movedQueue_succ (headq tailq : Xq) (n : Nat) :
    movedQueue headq tailq (n + 1) = Function.update (movedQueue headq tailq n)
      (tailq.slot (tailq.tail - UInt64.ofNat n))
      (headq.get (headq.head - 1 - UInt64.ofNat n)) := by
  rw [movedQueue, List.range_succ, List.foldl_append]
  rfl

theorem moveOne_eq (hne : headq.count ≠ 0) (hfits : tailq.count + 1 ≤ tailq.size) :
    moveOne (headq, tailq) =
      ({ headq with head := headq.head - 1 },
        { tailq with
          tail := tailq.tail - 1
          queue := Function.update tailq.queue (tailq.slot tailq.tail)
            (headq.get (headq.head - 1)) }) := by
  have htail : tailq.tail - 1 + 1 = tailq.tail := by grind
  simp only [moveOne, popHead, if_neg hne, appendTail, if_neg (not_not_intro hfits), htail]
  rfl

theorem moveOne_moved (hh : Repr headq lh) (ht : Repr tailq lt) (hn : n < lh.length)
    (hroom : lt.length + n < tailq.size.toNat) :
    moveOne (moved headq tailq n) = moved headq tailq (n + 1) := by
  have hlen := hh.length_lt
  have hsize := tailq.size.toNat_lt
  have hn64 : (UInt64.ofNat n).toNat = n := UInt64.toNat_ofNat_of_lt' (show n < 2 ^ 64 by omega)
  have hhcount : (moved headq tailq n).1.count = headq.count - UInt64.ofNat n := by
    simp only [moved, Xq.count]
    grind
  have htcount : (moved headq tailq n).2.count = tailq.count + UInt64.ofNat n := by
    simp only [moved, Xq.count]
    grind
  have hne : (moved headq tailq n).1.count ≠ 0 := by
    intro hzero
    rw [hhcount] at hzero
    have heq : headq.count = UInt64.ofNat n := by grind
    have hcount := hh.count
    rw [heq, hn64] at hcount
    omega
  have hfits : (moved headq tailq n).2.count + 1 ≤ (moved headq tailq n).2.size := by
    change _ ≤ tailq.size
    rw [htcount, UInt64.le_iff_toNat_le, UInt64.toNat_add, UInt64.toNat_add, ht.count, hn64,
      UInt64.toNat_one]
    omega
  have hhead : headq.head - UInt64.ofNat n - 1 = headq.head - UInt64.ofNat (n + 1) := by
    rw [UInt64.ofNat_add]
    grind
  have hsource : headq.head - UInt64.ofNat n - 1 = headq.head - 1 - UInt64.ofNat n := by grind
  have htail : tailq.tail - UInt64.ofNat n - 1 = tailq.tail - UInt64.ofNat (n + 1) := by
    rw [UInt64.ofNat_add]
    grind
  rw [show moved headq tailq n = ((moved headq tailq n).1, (moved headq tailq n).2) from rfl,
    moveOne_eq hne hfits]
  simp only [moved, movedQueue_succ, ← hhead, ← htail, ← hsource]
  rfl

/-- Single moves, as long as there is something to move and room for it. -/
theorem moveOne_iterate (hh : Repr headq lh) (ht : Repr tailq lt) (hn : n ≤ lh.length)
    (hroom : lt.length + n ≤ tailq.size.toNat) :
    moveOne^[n] (headq, tailq) = moved headq tailq n := by
  induction n with
  | zero => simp [moved, movedQueue]
  | succ n ih =>
    rw [Function.iterate_succ_apply', ih (by omega) (by omega)]
    exact moveOne_moved hh ht (by omega) (by omega)

theorem foldl_moveCopy (headq : Xq) (head tail : xqindex) (l : List Nat) (q : Xq) :
    l.foldl (moveCopy headq head tail) q =
      { q with
        queue := l.foldl (fun queue i => Function.update queue
          (q.slot (tail + UInt64.ofNat i)) (headq.get (head + UInt64.ofNat i))) q.queue } := by
  induction l generalizing q with
  | nil => rfl
  | cons i l ih =>
    rw [List.foldl_cons, ih, List.foldl_cons]
    rfl

theorem sub_ofNat_eq (c : xqindex) {i j : Nat} (h : i ≤ j) :
    c - UInt64.ofNat i = c - UInt64.ofNat j + UInt64.ofNat (j - i) := by
  have hj : UInt64.ofNat j = UInt64.ofNat i + UInt64.ofNat (j - i) := by
    rw [← UInt64.ofNat_add]
    congr 1
    omega
  rw [hj]
  grind

theorem slot_sub_inj {q : Xq} (hs : Snapped q.size) (c : xqindex) {i j : Nat}
    (hi : i < window q.size) (hj : j < window q.size)
    (h : q.slot (c - UInt64.ofNat i) = q.slot (c - UInt64.ofNat j)) : i = j := by
  rcases Nat.lt_trichotomy i j with hlt | heq | hgt
  · rw [sub_ofNat_eq c hlt.le] at h
    exact absurd h (slot_ne_of_near hs _ (by omega) (by omega))
  · exact heq
  · rw [sub_ofNat_eq c hgt.le] at h
    exact absurd h.symm (slot_ne_of_near hs _ (by omega) (by omega))

/-- The block holds the elements of the single moves, the last one first. -/
theorem foldl_block (headq : Xq) (hs : Snapped tailq.size) (hn : n ≤ window tailq.size) :
    (List.range n).foldl (fun queue i => Function.update queue
        (tailq.slot (tailq.tail - UInt64.ofNat n + 1 + UInt64.ofNat i))
        (headq.get (headq.head - UInt64.ofNat n + UInt64.ofNat i))) tailq.queue =
      movedQueue headq tailq n := by
  have hperm := foldl_update_perm (List.reverse_perm (List.range n))
    (f := fun i => tailq.slot (tailq.tail - UInt64.ofNat i))
    (g := fun i => headq.get (headq.head - 1 - UInt64.ofNat i)) (by
      intro i hi j hj heq
      have hi := List.mem_range.mp (List.mem_reverse.mp hi)
      have hj := List.mem_range.mp (List.mem_reverse.mp hj)
      rw [slot_sub_inj hs tailq.tail (by omega) (by omega) heq]) tailq.queue
  rw [movedQueue, ← hperm, reverse_range_eq, List.foldl_map]
  apply List.foldl_ext
  intro queue i hi
  have hi := List.mem_range.mp hi
  have hcounter := ofNat_from_end hi
  have htail : tailq.tail - UInt64.ofNat n + 1 + UInt64.ofNat i =
      tailq.tail - UInt64.ofNat (n - 1 - i) := by
    rw [hcounter]
    grind
  have hhead : headq.head - UInt64.ofNat n + UInt64.ofNat i =
      headq.head - 1 - UInt64.ofNat (n - 1 - i) := by
    rw [hcounter]
    grind
  rw [htail, hhead]

/-- The test of `xq_head_to_tail`; the sum does not wrap around when the first part passes. -/
theorem headToTail_room (hh : Repr headq lh) (ht : Repr tailq lt) :
    ¬ (headq.count < nr ∨ tailq.count + nr > tailq.size) ↔
      nr.toNat ≤ lh.length ∧ lt.length + nr.toNat ≤ tailq.size.toNat := by
  have hhlen := hh.length_lt
  have htlen := ht.length_lt
  rw [not_or, UInt64.not_lt, UInt64.le_iff_toNat_le, hh.count, gt_iff_lt, UInt64.not_lt,
    UInt64.le_iff_toNat_le, UInt64.toNat_add, ht.count]
  omega

theorem headToTail_moved (hh : Repr headq lh) (ht : Repr tailq lt) (hnr : nr.toNat ≤ lh.length)
    (hroom : lt.length + nr.toNat ≤ tailq.size.toNat) :
    headToTail headq tailq nr = (0, moved headq tailq nr.toNat) := by
  have hwindow : nr.toNat ≤ window tailq.size := by
    have hfits := hh.fits
    have hmax := window_le headq.size
    exact Nat.le_min.mpr ⟨by omega, by omega⟩
  have hblock := foldl_block headq ht.snapped hwindow
  rw [UInt64.ofNat_toNat] at hblock
  rw [headToTail, if_neg ((headToTail_room hh ht).mpr ⟨hnr, hroom⟩)]
  simp only [popHeadIdx, appendTailIdx, foldl_moveCopy, moved, UInt64.ofNat_toNat, ← hblock]
  rfl

/-- One move takes the head end of the first queue behind the tail end of the second. -/
theorem repr_moveOne {x : xqindex} (hh : Repr headq (x :: lh)) (ht : Repr tailq lt)
    (hroom : lt.length < window tailq.size) :
    Repr (moveOne (headq, tailq)).1 lh ∧ Repr (moveOne (headq, tailq)).2 (lt ++ [x]) ∧
      (moveOne (headq, tailq)).2.size = tailq.size := by
  obtain ⟨headq', hpop, hh', -⟩ := hh.popHead
  obtain ⟨tailq', happend, ht', hsize⟩ := ht.appendTail hroom x
  simp only [moveOne, hpop, happend]
  exact ⟨hh', ht', hsize⟩

theorem repr_moves (hh : Repr headq lh) (ht : Repr tailq lt) (hn : n ≤ lh.length)
    (hroom : lt.length + n ≤ window tailq.size) :
    Repr (moveOne^[n] (headq, tailq)).1 (lh.drop n) ∧
      Repr (moveOne^[n] (headq, tailq)).2 (lt ++ lh.take n) := by
  induction n generalizing headq tailq lh lt with
  | zero => simpa using ⟨hh, ht⟩
  | succ n ih =>
    cases lh with
    | nil => exact absurd hn (Nat.not_succ_le_zero n)
    | cons x lh =>
      obtain ⟨hh', ht', hsize⟩ := repr_moveOne hh ht (by omega)
      have hroom' : (lt ++ [x]).length + n ≤ window (moveOne (headq, tailq)).2.size := by
        rw [hsize, List.length_append, List.length_singleton]
        omega
      have hnext := ih hh' ht' (Nat.le_of_succ_le_succ hn) hroom'
      rw [Function.iterate_succ_apply, List.drop_succ_cons, List.take_succ_cons]
      simpa [List.append_assoc] using hnext

/-- The bulk move is the single moves, all of them or none. -/
theorem headToTail_eq (hh : Repr headq lh) (ht : Repr tailq lt) (nr : xqindex) :
    if nr.toNat ≤ lh.length ∧ lt.length + nr.toNat ≤ tailq.size.toNat then
      headToTail headq tailq nr = (0, moveOne^[nr.toNat] (headq, tailq)) ∧
        (lt.length + nr.toNat ≤ window tailq.size →
          Repr (headToTail headq tailq nr).2.1 (lh.drop nr.toNat) ∧
            Repr (headToTail headq tailq nr).2.2 (lt ++ lh.take nr.toNat))
    else headToTail headq tailq nr = (-1, headq, tailq) := by
  split
  · rename_i hroom
    have hmoved : headToTail headq tailq nr = (0, moveOne^[nr.toNat] (headq, tailq)) := by
      rw [headToTail_moved hh ht hroom.1 hroom.2, moveOne_iterate hh ht hroom.1 hroom.2]
    refine ⟨hmoved, fun hwindow => ?_⟩
    rw [hmoved]
    exact repr_moves hh ht hroom.1 hwindow
  · rename_i hroom
    rw [← headToTail_room hh ht, Classical.not_not] at hroom
    rw [headToTail, if_pos hroom]

/-- Two elements go to an empty queue of four; three are not there. -/
theorem headToTail_eq_pair : ∃ (_ : Builtins) (headq tailq : Xq),
    Repr headq [1, 2] ∧ Repr tailq [] ∧
      headToTail headq tailq 2 = (0, moveOne^[2] (headq, tailq)) ∧
      headToTail headq tailq 3 = (-1, headq, tailq) := by
  let _ : Builtins := ⟨0⟩
  obtain ⟨headq, hh, -⟩ := repr_pair fun _ => 0
  have ht := repr_initEmpty 4 fun _ => 0
  have hsize : (initEmpty 4 fun _ => 0).size = 4 := snap_two_pow (k := 2) (n := 4) (by decide) rfl
  have htwo := headToTail_eq hh ht 2
  have hthree := headToTail_eq hh ht 3
  rw [if_pos ⟨by decide, by rw [hsize]; decide⟩] at htwo
  rw [if_neg (by simp)] at hthree
  exact ⟨⟨0⟩, headq, _, hh, ht, htwo.1, hthree⟩

end Xq

end Libxseg
