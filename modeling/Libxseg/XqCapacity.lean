import Libxseg.TwoPowers
import Libxseg.XqPrefilled

/-!
# The capacity of a queue

A queue takes the greatest power of two that is not above the size that was asked for, as long
as the shift of an `int` can make it. From 2^31 on the capacity is one that is much too small or,
with the sign extended, one of almost 2^64, whose mask leads out of the array.
-/

namespace Libxseg

set_option autoImplicit false

namespace Xq

/-- The capacity is the size rounded down, and every counter is in an array of that size. -/
structure RoundsDown (size : xqindex) (q : Xq) : Prop where
  capacity : IsGreatest (twoPowersTo size.toNat) q.size.toNat
  inside : ∀ index, (q.slot index).toNat < size.toNat

variable [Builtins] {size : xqindex} {q : Xq}

theorem roundsDown_of_lt (hsize : q.size = snap size) (hpos : 1 ≤ size.toNat)
    (hlt : size.toNat < 2 ^ 31) : q.RoundsDown size := by
  have hne : size.toNat ≠ 0 := Nat.one_le_iff_ne_zero.mp hpos
  have hlog : size.toNat.log2 < 31 := (Nat.log2_lt hne).mpr hlt
  have hsnap : q.size.toNat = 2 ^ size.toNat.log2 := by
    rw [hsize, snap_log (fun h => hne (congrArg UInt64.toNat h)) (by omega), snapOf_toNat hlog]
  refine ⟨hsnap ▸ isGreatest_log2 hne, fun index => ?_⟩
  rw [slot, and_pred_two_pow index hsnap]
  exact Nat.lt_of_lt_of_le (Nat.mod_lt _ (Nat.two_pow_pos _)) (Nat.log2_self_le hne)

theorem not_roundsDown (hsize : q.size = snap size) (hlow : 2 ^ 31 ≤ size.toNat)
    (hhigh : size.toNat ≤ 2 ^ 32) : ¬ q.RoundsDown size := by
  intro h
  have hne : size ≠ 0 := by
    rintro rfl
    cases hlow
  have hgreatest := h.capacity.2 ⟨mem_twoPowers 31, hlow⟩
  have hle := h.capacity.1.2
  obtain ⟨l, hl, hsnap⟩ := snap_eq_snapOf hne
  rw [hsize, hsnap] at hgreatest hle
  rcases Nat.lt_or_eq_of_le (Nat.le_of_lt_succ hl) with hlt | rfl
  · have hpow : 2 ^ l < 2 ^ 31 := Nat.pow_lt_pow_right (by decide) hlt
    rw [snapOf_toNat hlt] at hgreatest
    omega
  · have hlarge : (snapOf 31).toNat = 0xFFFFFFFF80000000 := rfl
    omega

theorem roundsDown_snap_iff (hsize : q.size = snap size) (hpos : 1 ≤ size.toNat)
    (hhigh : size.toNat ≤ 2 ^ 32) : q.RoundsDown size ↔ size.toNat < 2 ^ 31 :=
  ⟨fun h => Nat.lt_of_not_le fun hlow => not_roundsDown hsize hlow hhigh h,
    roundsDown_of_lt hsize hpos⟩

/-- The initialisers round down as they should exactly below 2^31. -/
theorem roundsDown_iff (hpos : 1 ≤ size.toNat) (hhigh : size.toNat ≤ 2 ^ 32) (count : xqindex)
    (mapfn mem : xqindex → xqindex) :
    ((initEmpty size mem).RoundsDown size ↔ size.toNat < 2 ^ 31) ∧
      ((initMap size count mapfn mem).RoundsDown size ↔ size.toNat < 2 ^ 31) ∧
      ((initSeq size count mem).RoundsDown size ↔ size.toNat < 2 ^ 31) :=
  ⟨roundsDown_snap_iff rfl hpos hhigh, roundsDown_snap_iff rfl hpos hhigh,
    roundsDown_snap_iff rfl hpos hhigh⟩

omit [Builtins] in
/-- A size of three is rounded down to two. -/
theorem roundsDown_iff_three : ∃ _ : Builtins,
    (initEmpty 3 fun _ => 0).RoundsDown 3 ↔ (3 : xqindex).toNat < 2 ^ 31 :=
  ⟨⟨0⟩, (@roundsDown_iff ⟨0⟩ 3 (by decide) (by decide) 0 id fun _ => 0).1⟩

omit [Builtins] in
/-- A queue of 2^31 elements. -/
theorem not_roundsDown_initEmpty : ¬ ∀ [Builtins] (size : xqindex) (mem : xqindex → xqindex),
    1 ≤ size.toNat → size.toNat ≤ 2 ^ 32 → (initEmpty size mem).RoundsDown size := by
  intro hall
  let _ : Builtins := ⟨0⟩
  have hrounds := hall 0x80000000 (fun _ => 0) (by decide) (by decide)
  exact not_roundsDown rfl (by decide) (by decide) hrounds

end Xq

end Libxseg
