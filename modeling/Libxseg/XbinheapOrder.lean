import Libxseg.HeapOrder
import Libxseg.Xbinheap

/-!
# Sifting keeps the nodes and restores the order

Every sift is a chain of `swapNodes`. A swap moves nodes and handles together,
so whatever a handle designates stays the same; `Rearranged` says this once for
all of them. The order is that of `HeapOrder`, on ranks that are small for
the keys the heap prefers.
-/

namespace Libxseg

set_option autoImplicit false

namespace Xbinheap
variable {h h' h'' : Xbinheap} {n i a b : Nat}

structure Perm (h : Xbinheap) : Prop where
  index_lt : ∀ hd, hd < h.size → h.indexes hd < h.size
  handle_lt : ∀ p, p < h.size → (h.nodes p).h < h.size
  handle_index : ∀ hd, hd < h.size → (h.nodes (h.indexes hd)).h = hd
  index_handle : ∀ p, p < h.size → h.indexes (h.nodes p).h = p

/-- `h'` has the nodes of `h` under the same handles, and those on the first `n` positions
are still there. -/
structure Rearranged (n : Nat) (h h' : Xbinheap) : Prop where
  size : h'.size = h.size
  count : h'.count = h.count
  flags : h'.flags = h.flags
  perm : h'.Perm
  node : ∀ hd, hd < h.size → h'.nodes (h'.indexes hd) = h.nodes (h.indexes hd)
  near : ∀ hd, hd < h.size → (h'.indexes hd < n ↔ h.indexes hd < n)

theorem Rearranged.refl (n : Nat) (hp : h.Perm) : Rearranged n h h :=
  ⟨rfl, rfl, rfl, hp, fun _ _ => rfl, fun _ _ => Iff.rfl⟩

theorem Rearranged.trans (h1 : Rearranged n h h') (h2 : Rearranged n h' h'') :
    Rearranged n h h'' where
  size := h2.size.trans h1.size
  count := h2.count.trans h1.count
  flags := h2.flags.trans h1.flags
  perm := h2.perm
  node hd hhd := (h2.node hd (h1.size ▸ hhd)).trans (h1.node hd hhd)
  near hd hhd := (h2.near hd (h1.size ▸ hhd)).trans (h1.near hd hhd)

@[simp] theorem swapNodes_size (h : Xbinheap) (a b : Nat) : (h.swapNodes a b).size = h.size := rfl
@[simp] theorem swapNodes_count (h : Xbinheap) (a b : Nat) :
    (h.swapNodes a b).count = h.count := rfl
@[simp] theorem swapNodes_flags (h : Xbinheap) (a b : Nat) :
    (h.swapNodes a b).flags = h.flags := rfl
@[simp] theorem swapNodes_isMaxHeap (h : Xbinheap) (a b : Nat) :
    (h.swapNodes a b).isMaxHeap = h.isMaxHeap := rfl

theorem swapNodes_nodes (h : Xbinheap) (a b p : Nat) :
    (h.swapNodes a b).nodes p = h.nodes (Equiv.swap a b p) := by
  simp only [swapNodes, Function.update_apply, Equiv.swap_apply_def]
  grind

theorem swapNodes_indexes (hp : h.Perm) (ha : a < h.size) (hb : b < h.size) {hd : Nat}
    (hhd : hd < h.size) : (h.swapNodes a b).indexes hd = Equiv.swap a b (h.indexes hd) := by
  have hia := hp.index_handle a ha
  have hib := hp.index_handle b hb
  have hhi := hp.handle_index hd hhd
  simp only [swapNodes, Function.update_apply, Equiv.swap_apply_def, hia, hib]
  grind

theorem swap_lt {m : Nat} (ha : a < m) (hb : b < m) {p : Nat} :
    Equiv.swap a b p < m ↔ p < m := by
  rw [Equiv.swap_apply_def]
  grind

theorem swapNodes_rearranged (hp : h.Perm) (ha : a < n) (hb : b < n) (hn : n ≤ h.size) :
    Rearranged n h (h.swapNodes a b) := by
  have hidx {hd : Nat} (hhd : hd < h.size) := swapNodes_indexes hp (a := a) (b := b)
    (by omega) (by omega) hhd
  have hlt {p : Nat} : Equiv.swap a b p < h.size ↔ p < h.size := swap_lt (by omega) (by omega)
  have hnode {hd : Nat} (hhd : hd < h.size) :
      (h.swapNodes a b).nodes ((h.swapNodes a b).indexes hd) = h.nodes (h.indexes hd) := by
    rw [hidx hhd, swapNodes_nodes, Equiv.swap_apply_self]
  refine ⟨rfl, rfl, rfl, ⟨?_, ?_, ?_, ?_⟩, fun hd => hnode, ?_⟩
  · intro hd hhd
    rw [hidx hhd]
    exact hlt.mpr (hp.index_lt hd hhd)
  · intro p hpl
    rw [swapNodes_nodes]
    exact hp.handle_lt _ (hlt.mpr hpl)
  · intro hd hhd
    rw [hnode hhd]
    exact hp.handle_index hd hhd
  · intro p hpl
    rw [swapNodes_nodes, hidx (hp.handle_lt _ (hlt.mpr hpl)), hp.index_handle _ (hlt.mpr hpl),
      Equiv.swap_apply_self]
  · intro hd hhd
    rw [hidx hhd]
    exact swap_lt ha hb

def rankOf (h : Xbinheap) (key : xbinheapidx) : Nat :=
  if h.isMaxHeap then 2 ^ 64 - 1 - key.toNat else key.toNat

def rank (h : Xbinheap) (p : Nat) : Nat := h.rankOf (h.nodes p).key

theorem rankOf_le {k1 k2 : xbinheapidx} :
    h.rankOf k1 ≤ h.rankOf k2 ↔ if h.isMaxHeap then k2 ≤ k1 else k1 ≤ k2 := by
  have h1 := k1.toNat_lt
  have h2 := k2.toNat_lt
  simp only [rankOf]
  split
  · rw [UInt64.le_iff_toNat_le]
    omega
  · rw [UInt64.le_iff_toNat_le]

theorem rankOf_lt {k1 k2 : xbinheapidx} :
    h.rankOf k1 < h.rankOf k2 ↔ if h.isMaxHeap then k2 < k1 else k1 < k2 := by
  have h1 := k1.toNat_lt
  have h2 := k2.toNat_lt
  simp only [rankOf]
  split
  · rw [UInt64.lt_iff_toNat_lt]
    omega
  · rw [UInt64.lt_iff_toNat_lt]

theorem outOfOrder_iff {p : Nat} : h.outOfOrder i p = true ↔ h.rank i < h.rank p := by
  rw [rank, rank, rankOf_lt, outOfOrder]
  split <;> simp

theorem swapNodes_rank (h : Xbinheap) (a b : Nat) :
    (h.swapNodes a b).rank = exchange h.rank a b := by
  funext p
  rw [rank, swapNodes_nodes]
  rfl

/-- `largest` is a child that ranks best among the position and its children, or the position
itself. -/
theorem largest_spec (h : Xbinheap) (i : Nat) :
    (h.largest i = i ∨ (0 < h.largest i ∧ h.largest i < h.count ∧ parent (h.largest i) = i ∧
        h.rank (h.largest i) < h.rank i)) ∧
      ∀ j, 0 < j → j < h.count → parent j = i → h.rank (h.largest i) ≤ h.rank j := by
  have hlargest : h.largest i =
      if 2 * i + 1 + 1 < h.count ∧ h.rank (2 * i + 1 + 1) <
          h.rank (if 2 * i + 1 < h.count ∧ h.rank (2 * i + 1) < h.rank i then 2 * i + 1 else i)
      then 2 * i + 1 + 1
      else if 2 * i + 1 < h.count ∧ h.rank (2 * i + 1) < h.rank i then 2 * i + 1 else i := by
    simp only [largest, rank, rankOf_lt, gt_iff_lt]
    split <;> rfl
  have hchild {j : Nat} (hj : 0 < j) := parent_eq_iff (i := i) hj
  rw [hlargest]
  constructor
  · split_ifs with h1 h2 h2
    · exact .inr ⟨by omega, h2.1, (hchild (by omega)).mpr (.inr rfl), by omega⟩
    · exact .inr ⟨by omega, h1.1, (hchild (by omega)).mpr (.inl rfl), h1.2⟩
    · exact .inr ⟨by omega, h2.1, (hchild (by omega)).mpr (.inr rfl), h2.2⟩
    · exact .inl rfl
  · intro j hj hjn hji
    rcases (hchild hj).mp hji with rfl | rfl
    · split_ifs <;> omega
    · split_ifs <;> omega

theorem heapifyUp_rearranged (h : Xbinheap) (i : Nat) (hp : h.Perm) (hi : i < n)
    (hn : n ≤ h.size) : Rearranged n h (h.heapifyUp i) := by
  induction h, i using heapifyUp.induct with
  | case1 h =>
    rw [heapifyUp, if_pos rfl]
    exact .refl n hp
  | case2 h i hi0 parent hout ih =>
    rw [heapifyUp, if_neg hi0, if_pos hout]
    have hlt : parent < i := parent_lt (by omega)
    have hs := swapNodes_rearranged hp hi (by omega : parent < n) hn
    exact hs.trans (ih hs.perm (by omega) hn)
  | case3 h i hi0 parent hout =>
    rw [heapifyUp, if_neg hi0, if_neg hout]
    exact .refl n hp

theorem heapifyUp_ordered (h : Xbinheap) (i : Nat) (ho : UpOrder h.rank n i) (hi : i < n) :
    HeapOrdered (h.heapifyUp i).rank n := by
  induction h, i using heapifyUp.induct with
  | case1 h =>
    rw [heapifyUp, if_pos rfl]
    exact ho.ordered fun h0 => absurd h0 (by omega)
  | case2 h i hi0 parent hout ih =>
    rw [heapifyUp, if_neg hi0, if_pos hout]
    have hlt : parent < i := parent_lt (by omega)
    apply ih _ (by omega)
    rw [swapNodes_rank]
    exact ho.exchange (by omega) hi (outOfOrder_iff.mp hout)
  | case3 h i hi0 parent hout =>
    rw [heapifyUp, if_neg hi0, if_neg hout]
    refine ho.ordered fun _ => ?_
    rw [outOfOrder_iff] at hout
    exact Nat.le_of_not_lt hout

theorem heapifyDown_rearranged (h : Xbinheap) (i : Nat) (hp : h.Perm)
    (hn : h.count ≤ h.size) : Rearranged h.count h (h.heapifyDown i) := by
  induction h, i using heapifyDown.induct with
  | case1 h i largest hne ih =>
    rw [heapifyDown, if_pos hne]
    obtain ⟨hcase, -⟩ := h.largest_spec i
    rcases hcase with heq | ⟨hpos, hlt, hpar, _⟩
    · exact absurd heq hne
    · have hi := parent_lt hpos
      rw [hpar] at hi
      have hs := swapNodes_rearranged hp (by omega : i < h.count) hlt hn
      exact hs.trans (ih hs.perm hn)
  | case2 h i largest heq =>
    rw [heapifyDown, if_neg heq]
    exact .refl _ hp

theorem heapifyDown_ordered (h : Xbinheap) (i : Nat) (ho : DownOrder h.rank h.count i) :
    HeapOrdered (h.heapifyDown i).rank h.count := by
  induction h, i using heapifyDown.induct with
  | case1 h i largest hne ih =>
    rw [heapifyDown, if_pos hne]
    obtain ⟨hcase, hbest⟩ := h.largest_spec i
    rcases hcase with heq | ⟨hpos, hlt, hpar, hrank⟩
    · exact absurd heq hne
    · apply ih
      rw [swapNodes_rank]
      exact ho.exchange hpos hlt hpar hbest hrank
  | case2 h i largest heq =>
    rw [heapifyDown, if_neg heq]
    obtain ⟨-, hbest⟩ := h.largest_spec i
    have heq : h.largest i = i := Decidable.not_not.mp heq
    rw [heq] at hbest
    exact ho.ordered hbest

end Xbinheap

end Libxseg
