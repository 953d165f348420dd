import Libxseg.XqDeque

/-!
# The queue of works that doubles

`__xworkq_enqueue` and `__xwaitq_enqueue` append to an xq and, when it is full, move its
elements into a new one of twice the size first. Up to 2^31 elements find their place; the
size field is an honest power of two only up to 2^30.
-/

namespace Libxseg

set_option autoImplicit false

namespace Xq

/-- The append with its one retry. `array` is the fresh memory of the new queue, `none` when
one of the two allocations fails. -/
def appendDoubling [Builtins] (q : Xq) (xqi : xqindex) (array : Option (xqindex → xqindex)) :
    xqindex × Xq :=
  match q.appendTail xqi with
  | (r, q') =>
    if r = Noneidx then
      match array with
      | none => (Noneidx, q')
      | some mem =>
        match q'.resize (initEmpty (q'.size * 2) mem) with
        | (nr, newq) => if nr = Noneidx then (Noneidx, q') else newq.appendTail xqi
    else (r, q')

def Doubled (q : Xq) : Prop := ∃ k, 3 ≤ k ∧ k ≤ 31 ∧ q.size = snapOf k

variable {q : Xq} {l : List xqindex} {x : xqindex}

theorem doubled_initEmpty [Builtins] (mem : xqindex → xqindex) : Doubled (initEmpty 8 mem) := by
  refine ⟨3, Nat.le_refl _, by decide, ?_⟩
  exact snap_eq_of_two_pow (n := 8) (k := 3) rfl (by decide)

theorem get_put_eq (q : Xq) (i j x : xqindex) :
    (q.put i x).get j = if q.slot j = q.slot i then x else q.get j := by
  rw [get, put]
  exact Function.update_apply _ _ _ _

@[simp] theorem appendTail_head (q : Xq) (x : xqindex) : (q.appendTail x).2.head = q.head := by
  unfold appendTail
  split <;> rfl

@[simp] theorem resizeCopy_head (q : Xq) (head tail : xqindex) (newq : Xq) (i : Nat) :
    (q.resizeCopy head tail newq i).head = newq.head := rfl

theorem resize_head (q newq : Xq) : (q.resize newq).2.head = newq.head := by
  have hcopy (head tail : xqindex) (is : List Nat) (s : Xq) :
      (is.foldl (q.resizeCopy head tail) s).head = s.head := by
    induction is generalizing s with
    | nil => rfl
    | cons i is ih => rw [List.foldl_cons, ih, resizeCopy_head]
  simp only [resize]
  split
  · rfl
  · exact hcopy _ _ _ _

theorem Repr.appendDoubling_room [Builtins] (h : Repr q l) (hroom : l.length < window q.size)
    (hx : x ≠ Noneidx) (array : Option (xqindex → xqindex)) :
    ∃ q', q.appendDoubling x array = (x, q') ∧ Repr q' (l ++ [x]) ∧ q'.size = q.size ∧
      q'.head = q.head := by
  obtain ⟨q', hq, hr, hs⟩ := h.appendTail hroom x
  refine ⟨q', ?_, hr, hs, ?_⟩
  · rw [Xq.appendDoubling, hq]
    simp only [if_neg hx]
  · simpa [hq] using appendTail_head q x

/-- With memory for the new queue the append succeeds, and what was there stays there. -/
theorem Repr.appendDoubling [Builtins] (h : Repr q l) (hd : Doubled q) (hl : l.length < 2 ^ 31)
    (hx : x ≠ Noneidx) (mem : xqindex → xqindex) :
    ∃ q' l', q.appendDoubling x (some mem) = (x, q') ∧ Repr q' l' ∧ l'.Perm (x :: l) ∧
      Doubled q' ∧ (q'.head = q.head ∨ q'.head = 1) := by
  obtain ⟨k, hk3, hk, hsize⟩ := hd
  have hfits := h.fits
  have hw : window q.size = 2 ^ k := by rw [hsize, window_snapOf hk]
  by_cases hroom : l.length < 2 ^ k
  · obtain ⟨q', hq, hr, hs, hhead⟩ := h.appendDoubling_room (hw ▸ hroom) hx (some mem)
    exact ⟨q', l ++ [x], hq, hr, List.perm_append_singleton x l, ⟨k, hk3, hk, hs ▸ hsize⟩,
      .inl hhead⟩
  · have hk31 : k < 31 := by
      refine Nat.lt_of_le_of_ne hk ?_
      rintro rfl
      exact hroom hl
    have hfull : l.length = q.size.toNat := by
      rw [hsize, snapOf_toNat hk31]
      omega
    have htwice : (q.size * 2).toNat = 2 ^ (k + 1) := by
      have : 2 ^ k ≤ 2 ^ 30 := Nat.pow_le_pow_right (by decide) (by omega)
      rw [hsize, UInt64.toNat_mul, snapOf_toNat hk31, show (2 : UInt64).toNat = 2 from rfl]
      omega
    have hnew : (initEmpty (q.size * 2) mem).size = snapOf (k + 1) :=
      snap_eq_of_two_pow htwice hk31
    have hwnew : window (initEmpty (q.size * 2) mem).size = 2 ^ (k + 1) := by
      rw [hnew, window_snapOf hk31]
    have hpow : 2 ^ k < 2 ^ (k + 1) := Nat.pow_lt_pow_right (by decide) (by omega)
    obtain ⟨q₁, hq₁, hr₁, hs₁⟩ := h.resize (repr_initEmpty (q.size * 2) mem) (by omega)
    obtain ⟨q₂, hq₂, hr₂, hs₂⟩ := hr₁.appendTail (by rw [hs₁, List.length_reverse]; omega) x
    have hnr : q.count ≠ Noneidx := by
      intro he
      have := h.count
      rw [he] at this
      have : Noneidx.toNat = 2 ^ 64 - 1 := by decide
      omega
    refine ⟨q₂, l.reverse ++ [x], ?_, hr₂, ?_, ⟨k + 1, by omega, hk31, ?_⟩, .inr ?_⟩
    · rw [Xq.appendDoubling, h.appendTail_full hfull]
      simp only [if_pos, hq₁, if_neg hnr, hq₂]
    · exact (List.perm_append_singleton x _).trans ((List.reverse_perm l).cons x)
    · rw [hs₂, hs₁, hnew]
    · have h1 : q₁.head = (initEmpty (q.size * 2) mem).head := by
        have := resize_head q (initEmpty (q.size * 2) mem)
        rwa [hq₁] at this
      have h2 : q₂.head = q₁.head := by simpa [hq₂] using appendTail_head q₁ x
      exact h2.trans h1

/-- Whatever malloc does, the queue keeps its elements, and the result says if the new one is
among them. -/
theorem Repr.appendDoubling_any [Builtins] (h : Repr q l) (hd : Doubled q)
    (hl : l.length < 2 ^ 31) (hx : x ≠ Noneidx) (array : Option (xqindex → xqindex)) :
    ∃ r q' l', q.appendDoubling x array = (r, q') ∧ Repr q' l' ∧ Doubled q' ∧
      ((r = x ∧ l'.Perm (x :: l)) ∨ (r = Noneidx ∧ l' = l)) := by
  cases array with
  | some mem =>
    obtain ⟨q', l', hq, hr, hperm, hd', -⟩ := h.appendDoubling hd hl hx mem
    exact ⟨x, q', l', hq, hr, hd', Or.inl ⟨rfl, hperm⟩⟩
  | none =>
    obtain ⟨k, hk3, hk, hsize⟩ := hd
    by_cases hroom : l.length < window q.size
    · obtain ⟨q', hq, hr, hs, -⟩ := h.appendDoubling_room hroom hx none
      exact ⟨x, q', _, hq, hr, ⟨k, hk3, hk, hs ▸ hsize⟩,
        Or.inl ⟨rfl, List.perm_append_singleton x l⟩⟩
    · rw [hsize, window_snapOf hk] at hroom
      have hk31 : k < 31 := by
        refine Nat.lt_of_le_of_ne hk ?_
        rintro rfl
        exact hroom hl
      have hfits := h.fits
      rw [hsize, window_snapOf hk] at hfits
      have hfull : l.length = q.size.toNat := by
        rw [hsize, snapOf_toNat hk31]
        omega
      refine ⟨Noneidx, q, l, ?_, h, ⟨k, hk3, hk, hsize⟩, Or.inr ⟨rfl, rfl⟩⟩
      rw [Xq.appendDoubling, h.appendTail_full hfull]
      simp only [if_pos]

end Xq

end Libxseg
