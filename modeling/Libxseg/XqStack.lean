import Libxseg.XqDeque

/-!
# A queue that is used as a stack

As long as values are appended and popped at the head only, the counters from 1 up to the head
are those that were written, whatever the rest of the array held before. What holds of every
value that is appended then holds of every value that is popped.
-/

namespace Libxseg

set_option autoImplicit false

namespace Xq

variable {q : Xq} {l : List xqindex} {good : xqindex → Prop} {x : xqindex}

/-- A queue that is used at its head only, and that holds nothing but good values. -/
structure Stacked (good : xqindex → Prop) (q : Xq) : Prop where
  tail : q.tail = 0
  size : q.size ≠ Noneidx
  low : 1 ≤ q.head.toNat
  high : q.head.toNat ≤ q.size.toNat + 1
  elems : ∀ c : xqindex, 1 ≤ c.toNat → c.toNat < q.head.toNat → good (q.get c)

theorem Stacked.size_lt (h : Stacked good q) : q.size.toNat + 1 < 2 ^ 64 := by
  have hlt := q.size.toNat_lt
  have hne : q.size.toNat ≠ 2 ^ 64 - 1 := fun heq => h.size (UInt64.toNat_inj.mp heq)
  omega

theorem Stacked.count (h : Stacked good q) : q.count.toNat = q.head.toNat - 1 := by
  have hlt := q.head.toNat_lt
  have hlow := h.low
  rw [Xq.count, h.tail, UInt64.sub_zero, UInt64.toNat_sub, UInt64.toNat_one]
  omega

theorem Repr.stacked (h : Repr q l) (htail : q.tail = 0) (hgood : ∀ x ∈ l, good x) :
    Stacked good q := by
  have hlen := h.length_lt
  have hfits := h.fits
  have hle := window_le_size q.size
  have hhead : q.head.toNat = l.length + 1 := by
    rw [h.head_eq, htail, UInt64.zero_add, UInt64.toNat_add, UInt64.toNat_one,
      UInt64.toNat_ofNat_of_lt' (show l.length < 2 ^ 64 by omega)]
    omega
  refine ⟨htail, h.snapped.ne_noneidx, by omega, by omega, fun c hone hlt => ?_⟩
  have hi : l.length - c.toNat < l.length := by omega
  have hget := h.elems (List.getElem?_eq_getElem hi)
  have hc : q.head - 1 - UInt64.ofNat (l.length - c.toNat) = c := by
    apply UInt64.toNat_inj.mp
    rw [UInt64.toNat_sub, UInt64.toNat_sub, UInt64.toNat_one, hhead,
      UInt64.toNat_ofNat_of_lt' (show l.length - c.toNat < 2 ^ 64 by omega)]
    omega
  rw [← hc, hget]
  exact hgood _ (List.getElem_mem hi)

theorem Stacked.popHead (h : Stacked good q) :
    (q.popHead.1 ≠ Noneidx → good q.popHead.1) ∧ Stacked good q.popHead.2 := by
  unfold Xq.popHead
  split
  · exact ⟨fun hne => absurd rfl hne, h⟩
  · rename_i hne
    have hcount := h.count
    have hpos : q.count.toNat ≠ 0 := fun heq => hne (UInt64.toNat_inj.mp heq)
    have hhead := q.head.toNat_lt
    have hpred : (q.head - 1).toNat = q.head.toNat - 1 := by
      rw [UInt64.toNat_sub, UInt64.toNat_one]
      omega
    refine ⟨fun _ => h.elems _ (by omega) (by omega), h.tail, h.size, ?_, ?_, ?_⟩
    · show 1 ≤ (q.head - 1).toNat
      omega
    · show (q.head - 1).toNat ≤ q.size.toNat + 1
      have hhigh := h.high
      omega
    · intro c hone hlt
      change c.toNat < (q.head - 1).toNat at hlt
      exact h.elems c hone (by omega)

theorem Stacked.appendHead (h : Stacked good q) (hx : good x) : Stacked good (q.appendHead x).2 := by
  unfold Xq.appendHead
  split
  · exact h
  · rename_i hroom
    have hcount := h.count
    have hsize := h.size_lt
    rw [ge_iff_le, UInt64.le_iff_toNat_le, Nat.not_le] at hroom
    have hsucc : (q.head + 1).toNat = q.head.toNat + 1 := by
      rw [UInt64.toNat_add, UInt64.toNat_one]
      omega
    refine ⟨h.tail, h.size, ?_, ?_, fun c hone hlt => ?_⟩
    · show 1 ≤ (q.head + 1).toNat
      omega
    · show (q.head + 1).toNat ≤ q.size.toNat + 1
      omega
    · change c.toNat < (q.head + 1).toNat at hlt
      show good (Function.update q.queue (q.slot q.head) x (q.slot c))
      by_cases hslot : q.slot c = q.slot q.head
      · rw [hslot, Function.update_self]
        exact hx
      · rw [Function.update_of_ne hslot]
        refine h.elems c hone (Nat.lt_of_le_of_ne (by omega) fun heq => hslot ?_)
        rw [UInt64.toNat_inj.mp heq]

end Xq

end Libxseg
