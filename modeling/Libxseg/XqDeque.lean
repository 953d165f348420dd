import Mathlib.Data.List.Nodup
import Libxseg.XqSlots

/-!
# xq as a double-ended sequence

`Repr q l` reads the live elements of a queue off its counters, head end first.
Each operation has one lemma that says what it returns and what the new queue
represents; positions and counters do not appear in their statements.
-/

namespace Libxseg

set_option autoImplicit false

theorem reverse_range_eq (n : Nat) :
    (List.range n).reverse = (List.range n).map fun i => n - 1 - i := by
  rw [List.range_eq_range', List.reverse_range', List.range_eq_range', Nat.zero_add]

theorem ofNat_from_end {n i : Nat} (hi : i < n) :
    UInt64.ofNat n = UInt64.ofNat (n - 1 - i) + UInt64.ofNat i + 1 := by
  change _ = _ + _ + UInt64.ofNat 1
  rw [← UInt64.ofNat_add, ← UInt64.ofNat_add]
  congr 1
  omega

namespace Xq

structure Repr (q : Xq) (l : List xqindex) : Prop where
  snapped : Snapped q.size
  count : q.count.toNat = l.length
  fits : l.length ≤ window q.size
  elems : ∀ {i x}, l[i]? = some x → q.get (q.head - 1 - UInt64.ofNat i) = x

def elems (q : Xq) : List xqindex :=
  (List.range q.count.toNat).map fun i => q.get (q.head - 1 - UInt64.ofNat i)

variable {q newq : Xq} {l : List xqindex} {x : xqindex}

@[simp] theorem put_head (q : Xq) (i x : xqindex) : (q.put i x).head = q.head := rfl
@[simp] theorem put_tail (q : Xq) (i x : xqindex) : (q.put i x).tail = q.tail := rfl
@[simp] theorem put_size (q : Xq) (i x : xqindex) : (q.put i x).size = q.size := rfl

theorem get_put_same (q : Xq) (i x : xqindex) : (q.put i x).get i = x := by
  simp [get, put, slot]

theorem get_put_other {q : Xq} {i j : xqindex} (x : xqindex) (h : q.slot j ≠ q.slot i) :
    (q.put i x).get j = q.get j := by
  simp only [get, put, slot] at h ⊢
  exact Function.update_of_ne h _ _

theorem window_le (size : xqindex) : window size ≤ 2 ^ 31 := Nat.min_le_right _ _

theorem window_le_size (size : xqindex) : window size ≤ size.toNat := Nat.min_le_left _ _

theorem repr_initEmpty [Builtins] (size : xqindex) (mem : xqindex → xqindex) :
    Repr (initEmpty size mem) [] where
  snapped := snapped_snap size
  count := by simp [initEmpty, Xq.count]
  fits := Nat.zero_le _
  elems := by simp

theorem snap_eq_of_two_pow [Builtins] {k : Nat} {n : xqindex} (hn : n.toNat = 2 ^ k) (hk : k ≤ 31) :
    snap n = snapOf k := by
  have hlt : n.toNat < 2 ^ 32 := hn ▸ Nat.pow_lt_pow_right (by decide) (by omega)
  have h0 : n ≠ 0 := by
    rintro rfl
    exact absurd hn (Nat.two_pow_pos k).ne
  rw [snap_log h0 hlt, hn, Nat.log2_two_pow]

/-- The mask of a queue keeps as many bits of a 32-bit counter as its size has. -/
theorem slot_snapOf {l : Nat} {c : xqindex} (hl : l ≤ 31) (hc : c.toNat < 2 ^ 32) :
    (c &&& (snapOf l - 1)).toNat = c.toNat % 2 ^ l := by
  rcases Nat.lt_or_eq_of_le hl with hl | rfl
  · exact and_pred_two_pow c (snapOf_toNat hl)
  · have hM : (snapOf 31 - 1).toNat = 0xFFFFFFFF7FFFFFFF := by decide
    rw [UInt64.toNat_and, hM]
    have := and_mask_bits c.toNat
    omega

/-- The counters up to a power of two fall into all slots, the last one into slot 0. -/
theorem slot_of_le [Builtins] {k : Nat} {n c : xqindex} (hn : n.toNat = 2 ^ k) (hk : k ≤ 31)
    (hc : c.toNat ≤ 2 ^ k) : (c &&& (snap n - 1)).toNat = c.toNat % 2 ^ k := by
  have hpow : 2 ^ k ≤ 2 ^ 31 := Nat.pow_le_pow_right (by decide) hk
  rw [snap_eq_of_two_pow hn hk]
  exact slot_snapOf hk (by omega)

/-- All indexes below a power of two, in the order in which they come from the head. -/
def seq (n : Nat) : List xqindex := (List.range n).map fun i => UInt64.ofNat ((n - i) % n)

theorem seq_toNat {n i : Nat} (hn : n ≤ 2 ^ 32) (hi : i < n) :
    (UInt64.ofNat ((n - i) % n)).toNat = (n - i) % n := by
  have := Nat.mod_lt (n - i) (Nat.zero_lt_of_lt hi)
  exact UInt64.toNat_ofNat_of_lt' (show (n - i) % n < 2 ^ 64 by omega)

theorem mem_seq {n : Nat} (hn : n ≤ 2 ^ 32) : x ∈ seq n ↔ x.toNat < n := by
  rw [seq, List.mem_map]
  constructor
  · rintro ⟨i, hi, rfl⟩
    have hi := List.mem_range.mp hi
    rw [seq_toNat hn hi]
    exact Nat.mod_lt _ (by omega)
  · intro hx
    refine ⟨if x.toNat = 0 then 0 else n - x.toNat, ?_, ?_⟩
    · rw [List.mem_range]
      split <;> omega
    · apply UInt64.toNat_inj.mp
      rw [seq_toNat hn (by split <;> omega)]
      split
      · rename_i h0
        rw [h0, Nat.sub_zero, Nat.mod_self]
      · rw [Nat.sub_sub_self (Nat.le_of_lt hx), Nat.mod_eq_of_lt hx]

theorem nodup_seq {n : Nat} (hn : n ≤ 2 ^ 32) : (seq n).Nodup := by
  apply List.Nodup.map_on _ List.nodup_range
  intro i hi j hj heq
  have hi := List.mem_range.mp hi
  have hj := List.mem_range.mp hj
  have heq := congrArg UInt64.toNat heq
  rw [seq_toNat hn hi, seq_toNat hn hj] at heq
  have hmod {m : Nat} (hm : m < n) : (n - m) % n = if m = 0 then 0 else n - m := by
    split
    · rename_i h0
      rw [h0, Nat.sub_zero, Nat.mod_self]
    · exact Nat.mod_eq_of_lt (by omega)
  rw [hmod hi, hmod hj] at heq
  split at heq <;> split at heq <;> omega

theorem repr_initSeq_zero [Builtins] (mem : xqindex → xqindex) : Repr (initSeq 0 0 mem) (seq 0) where
  snapped := snapped_snap 0
  count := by simp [initSeq, initMap, snap, Xq.count, seq]
  fits := Nat.zero_le _
  elems := by simp [seq]

theorem repr_initSeq [Builtins] {k : Nat} {n : xqindex} (hn : n.toNat = 2 ^ k) (hk : k ≤ 31)
    (mem : xqindex → xqindex) : Repr (initSeq n n mem) (seq n.toNat) := by
  have hpow : 2 ^ k ≤ 2 ^ 31 := Nat.pow_le_pow_right (by decide) hk
  have hle : n ≤ snap n := by
    rw [UInt64.le_iff_toNat_le, snap_eq_of_two_pow hn hk, hn]
    rcases Nat.lt_or_eq_of_le hk with hk | rfl
    · rw [snapOf_toNat hk]
    · decide
  have hq : initSeq n n mem = ⟨n + 1, 0, snap n, fun i => if i < n then i else mem i⟩ := by
    rw [initSeq, initMap, if_neg (UInt64.not_lt.mpr hle)]
    rfl
  rw [hq]
  have hcount : (n + 1 - 0 - 1 : xqindex) = n := by grind
  refine ⟨snapped_snap n, ?_, ?_, ?_⟩
  · rw [Xq.count, hcount, seq, List.length_map, List.length_range]
  · rw [seq, List.length_map, List.length_range, window, hn]
    rw [UInt64.le_iff_toNat_le, hn] at hle
    exact Nat.le_min.mpr ⟨hle, hpow⟩
  · intro i x hx
    rw [seq, List.getElem?_map, Option.map_eq_some_iff] at hx
    obtain ⟨j, hj, rfl⟩ := hx
    obtain ⟨hi, rfl⟩ := List.getElem?_eq_some_iff.mp hj
    rw [List.length_range] at hi
    rw [List.getElem_range]
    have hi64 : (UInt64.ofNat i).toNat = i := UInt64.toNat_ofNat_of_lt' (show i < 2 ^ 64 by omega)
    have hc : (n + 1 - 1 - UInt64.ofNat i : xqindex).toNat = n.toNat - i := by
      rw [show n + 1 - 1 - UInt64.ofNat i = n - UInt64.ofNat i by grind,
        UInt64.toNat_sub_of_le _ _ (by rw [UInt64.le_iff_toNat_le, hi64]; omega), hi64]
    have hslot := slot_of_le hn hk (c := n + 1 - 1 - UInt64.ofNat i) (by rw [hc, hn]; omega)
    rw [hc, ← hn] at hslot
    have hlt := Nat.mod_lt (n.toNat - i) (Nat.zero_lt_of_lt hi)
    rw [get, slot]
    dsimp only
    rw [if_pos (by rw [UInt64.lt_iff_toNat_lt, hslot]; exact hlt)]
    apply UInt64.toNat_inj.mp
    rw [hslot, seq_toNat (by omega) hi]

namespace Repr

theorem length_lt (h : Repr q l) : l.length < 2 ^ 32 := by
  have := h.fits
  have := window_le q.size
  omega

theorem elems_eq (h : Repr q l) : q.elems = l := by
  apply List.ext_getElem?
  intro i
  rw [Xq.elems, h.count, List.getElem?_map]
  by_cases hi : i < l.length
  · simp only [List.getElem?_range hi, Option.map_some]
    rw [h.elems (List.getElem?_eq_getElem hi), List.getElem?_eq_getElem hi]
  · have hi := Nat.le_of_not_lt hi
    rw [List.getElem?_eq_none hi, List.getElem?_eq_none (by simpa using hi), Option.map_none]

theorem count_eq (h : Repr q l) : q.count = UInt64.ofNat l.length := by
  apply UInt64.toNat_inj.mp
  have := h.length_lt
  rw [h.count, UInt64.toNat_ofNat_of_lt' (show l.length < 2 ^ 64 by omega)]

theorem count_eq_zero (h : Repr q l) : q.count = 0 ↔ l = [] := by
  rw [← UInt64.toNat_inj, h.count]
  simp

theorem head_eq (h : Repr q l) : q.head = q.tail + 1 + UInt64.ofNat l.length := by
  have hc := h.count_eq
  unfold Xq.count at hc
  grind

theorem not_full (h : Repr q l) (hlt : l.length < window q.size) : ¬ q.count ≥ q.size := by
  have := window_le_size q.size
  rw [ge_iff_le, UInt64.le_iff_toNat_le, h.count]
  omega

/-- A write at a counter the live elements do not use leaves all of them alone. -/
theorem get_put (h : Repr q l) {c : xqindex} (x : xqindex)
    (hfar : ∀ i < l.length, ∃ d, 0 < d ∧ d < window q.size ∧
      (c = q.head - 1 - UInt64.ofNat i + UInt64.ofNat d ∨
        q.head - 1 - UInt64.ofNat i = c + UInt64.ofNat d))
    {i : Nat} {y : xqindex} (hi : l[i]? = some y) :
    (q.put c x).get (q.head - 1 - UInt64.ofNat i) = y := by
  obtain ⟨d, h0, hd, hc⟩ := hfar i (List.getElem?_eq_some_iff.mp hi).1
  rw [get_put_other, h.elems hi]
  rcases hc with rfl | hc
  · exact (slot_ne_of_near h.snapped _ h0 hd).symm
  · rw [hc]
    exact slot_ne_of_near h.snapped _ h0 hd

theorem appendHead (h : Repr q l) (hlt : l.length < window q.size) (x : xqindex) :
    ∃ q', q.appendHead x = (x, q') ∧ Repr q' (x :: l) ∧ q'.size = q.size := by
  refine ⟨_, if_neg (h.not_full hlt), ?_, rfl⟩
  constructor
  · exact h.snapped
  · have hc : ({ q with head := q.head + 1 } : Xq).count = q.count + 1 := by
      simp only [Xq.count]; grind
    have := h.count
    have := h.length_lt
    change ({ q with head := q.head + 1 } : Xq).count.toNat = _
    rw [hc, UInt64.toNat_add, h.count, UInt64.toNat_one, List.length_cons]
    omega
  · exact hlt
  · intro i y hi
    rcases i with _ | i
    · obtain rfl : x = y := by simpa using hi
      have : q.head + 1 - 1 - UInt64.ofNat 0 = q.head := by grind
      change (Xq.put _ _ _).get (q.head + 1 - 1 - UInt64.ofNat 0) = x
      rw [this, get_put_same]
    · have hhead : q.head + 1 - 1 - UInt64.ofNat (i + 1) = q.head - 1 - UInt64.ofNat i := by
        rw [UInt64.ofNat_add]; grind
      change (Xq.put q _ _).get (q.head + 1 - 1 - UInt64.ofNat (i + 1)) = y
      rw [hhead]
      refine h.get_put x (fun j hj => ⟨j + 1, by omega, by omega, Or.inl ?_⟩) (by simpa using hi)
      rw [UInt64.ofNat_add]
      grind

theorem appendHead_full (h : Repr q l) (hfull : l.length = q.size.toNat) (x : xqindex) :
    q.appendHead x = (Noneidx, q) := by
  apply if_pos
  rw [ge_iff_le, UInt64.le_iff_toNat_le, h.count, hfull]

theorem appendTail (h : Repr q l) (hlt : l.length < window q.size) (x : xqindex) :
    ∃ q', q.appendTail x = (x, q') ∧ Repr q' (l ++ [x]) ∧ q'.size = q.size := by
  have hroom : ¬ ¬ q.count + 1 ≤ q.size := by
    have := window_le_size q.size
    have := h.length_lt
    rw [Classical.not_not, UInt64.le_iff_toNat_le, UInt64.toNat_add, h.count, UInt64.toNat_one]
    omega
  have htail : q.tail - 1 + 1 = q.tail := by grind
  have hhead := h.head_eq
  refine ⟨_, if_neg hroom, ?_, rfl⟩
  rw [htail]
  constructor
  · exact h.snapped
  · have hc : ({ q with tail := q.tail - 1 } : Xq).count = q.count + 1 := by
      simp only [Xq.count]; grind
    have := h.count
    have := h.length_lt
    change ({ q with tail := q.tail - 1 } : Xq).count.toNat = _
    rw [hc, UInt64.toNat_add, h.count, UInt64.toNat_one, List.length_append]
    simp only [List.length_singleton]
    omega
  · rw [List.length_append, List.length_singleton]
    exact hlt
  · intro i y hi
    change (Xq.put q _ _).get (q.head - 1 - UInt64.ofNat i) = y
    rcases Nat.lt_trichotomy i l.length with hil | rfl | hil
    · rw [List.getElem?_append_left hil] at hi
      refine h.get_put x (fun j hj => ⟨l.length - j, by omega, by omega, Or.inr ?_⟩) hi
      have hj' : UInt64.ofNat l.length = UInt64.ofNat j + UInt64.ofNat (l.length - j) := by
        rw [← UInt64.ofNat_add]; congr 1; omega
      rw [hhead, hj']
      grind
    · obtain rfl : x = y := by simpa using hi
      have : q.head - 1 - UInt64.ofNat l.length = q.tail := by rw [hhead]; grind
      rw [this, get_put_same]
    · rw [List.getElem?_eq_none (by simp; omega)] at hi
      exact absurd hi (by simp)

theorem appendTail_full (h : Repr q l) (hfull : l.length = q.size.toNat) (x : xqindex) :
    q.appendTail x = (Noneidx, q) := by
  apply if_pos
  have := h.length_lt
  rw [UInt64.le_iff_toNat_le, UInt64.toNat_add, h.count, UInt64.toNat_one]
  omega

theorem popHead (h : Repr q (x :: l)) :
    ∃ q', q.popHead = (x, q') ∧ Repr q' l ∧ q'.size = q.size := by
  have hne : q.count ≠ 0 := by simp [h.count_eq_zero]
  have hx : q.get (q.head - 1) = x := by simpa using h.elems (i := 0) (x := x) (by simp)
  refine ⟨{ q with head := q.head - 1 }, by rw [Xq.popHead, if_neg hne, hx], ?_, rfl⟩
  constructor
  · exact h.snapped
  · have hc : ({ q with head := q.head - 1 } : Xq).count = q.count - 1 := by
      simp only [Xq.count]; grind
    have hl := h.count
    rw [List.length_cons] at hl
    rw [hc, UInt64.toNat_sub_of_le _ _ (by rw [UInt64.le_iff_toNat_le]; simp; omega), hl]
    simp
  · have := h.fits
    rw [List.length_cons] at this
    exact Nat.le_of_succ_le this
  · intro i y hi
    have := h.elems (i := i + 1) (x := y) (by simpa using hi)
    rw [UInt64.ofNat_add] at this
    change q.get (q.head - 1 - 1 - UInt64.ofNat i) = y
    rw [← this]
    congr 1
    grind

theorem popHead_nil (h : Repr q []) : q.popHead = (Noneidx, q) :=
  if_pos (h.count_eq_zero.mpr rfl)

theorem peekHead (h : Repr q (x :: l)) : q.peekHead = x := by
  have hne : q.count ≠ 0 := by simp [h.count_eq_zero]
  rw [Xq.peekHead, if_neg hne]
  simpa using h.elems (i := 0) (x := x) (by simp)

theorem peekHead_nil (h : Repr q []) : q.peekHead = Noneidx :=
  if_pos (h.count_eq_zero.mpr rfl)

theorem get_last (h : Repr q (l ++ [x])) : q.get (q.tail + 1) = x := by
  have hx := h.elems (i := l.length) (x := x) (by simp)
  rw [← hx, h.head_eq, List.length_append, UInt64.ofNat_add]
  congr 1
  change _ = q.tail + 1 + (UInt64.ofNat l.length + 1) - 1 - UInt64.ofNat l.length
  grind

theorem popTail (h : Repr q (l ++ [x])) :
    ∃ q', q.popTail = (x, q') ∧ Repr q' l ∧ q'.size = q.size := by
  have hne : q.count ≠ 0 := by simp [h.count_eq_zero]
  refine ⟨{ q with tail := q.tail + 1 }, by rw [Xq.popTail, if_neg hne, h.get_last], ?_, rfl⟩
  constructor
  · exact h.snapped
  · have hc : ({ q with tail := q.tail + 1 } : Xq).count = q.count - 1 := by
      simp only [Xq.count]; grind
    have hl := h.count
    rw [List.length_append, List.length_singleton] at hl
    rw [hc, UInt64.toNat_sub_of_le _ _ (by rw [UInt64.le_iff_toNat_le]; simp; omega), hl]
    simp
  · have := h.fits
    rw [List.length_append] at this
    exact Nat.le_trans (Nat.le_add_right _ _) this
  · intro i y hi
    have hlt := (List.getElem?_eq_some_iff.mp hi).1
    exact h.elems (by rw [List.getElem?_append_left hlt]; exact hi)

theorem popTail_nil (h : Repr q []) : q.popTail = (Noneidx, q) :=
  if_pos (h.count_eq_zero.mpr rfl)

theorem peekTail (h : Repr q (l ++ [x])) : q.peekTail = x := by
  have hne : q.count ≠ 0 := by simp [h.count_eq_zero]
  rw [Xq.peekTail, if_neg hne, h.get_last]

theorem peekTail_nil (h : Repr q []) : q.peekTail = Noneidx :=
  if_pos (h.count_eq_zero.mpr rfl)

theorem checkFrom (h : Repr q l) (idx : xqindex) {n : Nat} (hn : n ≤ l.length) :
    q.checkFrom idx (q.head - UInt64.ofNat n) = if idx ∈ l.take n then 1 else 0 := by
  induction n with
  | zero =>
    have : q.head - UInt64.ofNat 0 = q.head := by grind
    rw [this, Xq.checkFrom, if_pos rfl]
    simp
  | succ n ih =>
    have hlen := h.length_lt
    have hne : q.head - UInt64.ofNat (n + 1) ≠ q.head := by
      intro he
      have h0 : UInt64.ofNat (n + 1) = 0 := by grind
      have := congrArg UInt64.toNat h0
      rw [UInt64.toNat_ofNat_of_lt' (show n + 1 < 2 ^ 64 by omega)] at this
      simp at this
    have hget : q.get (q.head - UInt64.ofNat (n + 1)) = l[n] := by
      rw [← h.elems (i := n) (List.getElem?_eq_getElem hn), UInt64.ofNat_add]
      congr 1
      grind
    have hstep : q.head - UInt64.ofNat (n + 1) + 1 = q.head - UInt64.ofNat n := by
      rw [UInt64.ofNat_add]; grind
    have hmem : idx ∈ l.take (n + 1) ↔ l[n] = idx ∨ idx ∈ l.take n := by
      rw [List.take_add_one, List.getElem?_eq_getElem hn, List.mem_append, or_comm]
      simp only [Option.toList_some, List.mem_singleton, eq_comm]
    rw [Xq.checkFrom, if_neg hne, hget, hstep, ih (by omega)]
    by_cases hx : l[n] = idx
    · rw [if_pos hx, if_pos (hmem.mpr (Or.inl hx))]
    · rw [if_neg hx]
      simp only [hmem, hx, false_or]

theorem check (h : Repr q l) (idx : xqindex) : q.check idx = if idx ∈ l then 1 else 0 := by
  have hstart : q.tail + 1 = q.head - UInt64.ofNat l.length := by rw [h.head_eq]; grind
  rw [Xq.check, hstart, h.checkFrom idx (Nat.le_refl _), List.take_length]

end Repr

section Resize

theorem foldl_resizeCopy_size (q : Xq) (head tail : xqindex) (is : List Nat) (newq : Xq) :
    (is.foldl (q.resizeCopy head tail) newq).size = newq.size := by
  induction is generalizing newq with
  | nil => rfl
  | cons i is ih =>
    rw [List.foldl_cons, ih]
    rfl

/-- What the copy loop has done after `n` turns: counter `tail - i` of the new queue holds what
counter `head + i` of the old one holds, and everything else about it is as before. -/
theorem resizeCopy_foldl (q : Xq) (head tail : xqindex) {s : Xq} (hs : Snapped s.size)
    {n : Nat} (hn : n ≤ window s.size) :
    ∃ newq, (List.range n).foldl (resizeCopy q head tail) s = newq ∧
      newq.head = s.head ∧ newq.tail = s.tail ∧ newq.size = s.size ∧
      ∀ i < n, newq.get (tail - UInt64.ofNat i) = q.get (head + UInt64.ofNat i) := by
  induction n with
  | zero => exact ⟨s, rfl, rfl, rfl, rfl, by simp⟩
  | succ n ih =>
    obtain ⟨mid, hmid, hh, ht, hsz, hget⟩ := ih (by omega)
    refine ⟨resizeCopy q head tail mid n, by rw [List.range_succ, List.foldl_append, hmid]; rfl,
      hh, ht, hsz, fun i hi => ?_⟩
    rcases Nat.lt_succ_iff_lt_or_eq.mp hi with hi | rfl
    · rw [resizeCopy, get_put_other, hget i hi]
      have hi' : UInt64.ofNat n = UInt64.ofNat i + UInt64.ofNat (n - i) := by
        rw [← UInt64.ofNat_add]; congr 1; omega
      have hnear : tail - UInt64.ofNat i = tail - UInt64.ofNat n + UInt64.ofNat (n - i) := by
        rw [hi']; grind
      rw [hnear, slot, slot, hsz]
      exact slot_ne_of_near hs _ (by omega) (by omega)
    · rw [resizeCopy, get_put_same]

theorem resize_full (h : Repr q l) (hfull : newq.size.toNat < l.length) :
    q.resize newq = (Noneidx, newq) := by
  apply if_pos
  rw [gt_iff_lt, UInt64.lt_iff_toNat_lt, h.count]
  exact hfull

/-- A copy into an empty queue keeps the elements and turns their order round: the first one
copied is the one nearest the old tail, and it lands at the new head end. -/
theorem Repr.resize (h : Repr q l) (hnew : Repr newq []) (hfit : l.length ≤ window newq.size) :
    ∃ q', q.resize newq = (q.count, q') ∧ Repr q' l.reverse ∧ q'.size = newq.size := by
  have hroom : ¬ q.count > newq.size := by
    have := window_le_size newq.size
    rw [gt_iff_lt, UInt64.lt_iff_toNat_lt, h.count]
    omega
  have htail : newq.tail - q.count + 1 + q.count - 1 = newq.tail := by grind
  have hhead : newq.head = newq.tail + 1 := by
    have := hnew.head_eq
    simpa using this
  obtain ⟨q', hq', hh, ht, hsz, hget⟩ :=
    resizeCopy_foldl q (q.head - q.count) newq.tail
      (s := { newq with tail := newq.tail - q.count }) hnew.snapped hfit
  refine ⟨q', ?_, ?_, hsz⟩
  · rw [Xq.resize, if_neg hroom]
    simp only [htail, h.count, hq']
  constructor
  · exact hsz ▸ hnew.snapped
  · have hc : q'.count = q.count := by
      rw [Xq.count, hh, ht]
      grind
    rw [hc, h.count, List.length_reverse]
  · rw [hsz, List.length_reverse]
    exact hfit
  · intro i y hi
    have hlt : i < l.length := by simpa using (List.getElem?_eq_some_iff.mp hi).1
    rw [List.getElem?_reverse hlt] at hi
    have hcounter : q'.head - 1 - UInt64.ofNat i = newq.tail - UInt64.ofNat i := by
      rw [hh, hhead]; grind
    rw [hcounter, hget i hlt, ← h.elems hi, h.count_eq]
    congr 1
    rw [ofNat_from_end hlt]
    grind

theorem Repr.resize_room (h : Repr q l) (hnew : Repr newq []) (hroom : l.length ≤ newq.size.toNat) :
    ∃ q', q.resize newq = (q.count, q') ∧ q.count ≠ Noneidx ∧ Repr q' l.reverse ∧
      q'.size = newq.size := by
  have hmax := Nat.le_trans h.fits (window_le _)
  obtain ⟨q', hresize, hrepr, hsize⟩ := Repr.resize h hnew (Nat.le_min.mpr ⟨hroom, hmax⟩)
  refine ⟨q', hresize, fun hcount => ?_, hrepr, hsize⟩
  have hlen := h.count
  have hnone : Noneidx.toNat = 2 ^ 64 - 1 := by decide
  rw [hcount] at hlen
  omega

/-- What a caller that puts a queue in the place of another one relies on. -/
def KeepsOrder (q newq : Xq) : Prop :=
  if q.count ≤ newq.size then ∃ q', q.resize newq = (q.count, q') ∧ Repr q' q.elems
  else q.resize newq = (Noneidx, newq)

/-- The copy has the elements in their order only if that is the same from both ends. -/
theorem resize_keepsOrder_iff (h : Repr q l) (hnew : Repr newq []) :
    KeepsOrder q newq ↔ (q.count ≤ newq.size → l.reverse = l) := by
  unfold KeepsOrder
  by_cases hfit : q.count ≤ newq.size
  · have hle := UInt64.le_iff_toNat_le.mp hfit
    rw [h.count] at hle
    obtain ⟨q', hresize, -, hrepr, -⟩ := h.resize_room hnew hle
    rw [if_pos hfit, h.elems_eq]
    constructor
    · intro hkeeps _
      obtain ⟨q'', hresize', hrepr'⟩ := hkeeps
      rw [hresize] at hresize'
      cases hresize'
      exact hrepr.elems_eq.symm.trans hrepr'.elems_eq
    · intro hpal
      refine ⟨q', hresize, ?_⟩
      rw [← hpal hfit]
      exact hrepr
  · have hfull : newq.size.toNat < l.length := by
      rw [UInt64.le_iff_toNat_le, h.count, Nat.not_le] at hfit
      exact hfit
    rw [if_neg hfit]
    exact iff_of_true (resize_full h hfull) (absurd · hfit)

/-- Two works that were appended as `xworkq_enqueue` does it, the first one first. -/
theorem repr_pair [Builtins] (mem : xqindex → xqindex) :
    ∃ q, Repr q [1, 2] ∧ q.count ≤ (initEmpty 4 mem).size := by
  have hsize : (initEmpty 4 mem).size = snapOf 2 :=
    snap_eq_of_two_pow (k := 2) (n := 4) rfl (by decide)
  have hw : window (initEmpty 4 mem).size = 4 := by
    rw [hsize]
    rfl
  obtain ⟨q, -, hq, hs⟩ := (repr_initEmpty 4 mem).appendTail (by rw [hw]; decide) 1
  obtain ⟨q', -, hq', -⟩ := hq.appendTail (by rw [hs, hw]; decide) 2
  refine ⟨q', hq', ?_⟩
  rw [hsize, hq'.count_eq]
  decide

theorem resize_keepsOrder_pair : ∃ (_ : Builtins) (q newq : Xq),
    Repr q [1, 2] ∧ Repr newq [] ∧
      (KeepsOrder q newq ↔ (q.count ≤ newq.size → [1, 2].reverse = ([1, 2] : List xqindex))) := by
  let _ : Builtins := ⟨0⟩
  obtain ⟨q, hq, -⟩ := repr_pair fun _ => 0
  have hnew := repr_initEmpty 4 fun _ => 0
  exact ⟨⟨0⟩, q, _, hq, hnew, resize_keepsOrder_iff hq hnew⟩

theorem not_resize_keepsOrder : ¬ ∀ (q newq : Xq) (l : List xqindex), Repr q l → Repr newq [] →
    KeepsOrder q newq := by
  intro hall
  let _ : Builtins := ⟨0⟩
  obtain ⟨q, hq, hfit⟩ := repr_pair fun _ => 0
  have hnew := repr_initEmpty 4 fun _ => 0
  obtain ⟨q', hresize, hrepr, -⟩ := hq.resize hnew (by decide)
  have hkeeps := hall q _ _ hq hnew
  rw [KeepsOrder, if_pos hfit, hresize, hq.elems_eq] at hkeeps
  obtain ⟨q'', heq, hrepr'⟩ := hkeeps
  cases heq
  have hboth := hrepr.elems_eq.symm.trans hrepr'.elems_eq
  revert hboth
  decide

end Resize

end Xq

end Libxseg
