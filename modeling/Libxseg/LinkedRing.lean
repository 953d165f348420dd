import Mathlib.Data.List.Cycle
import Mathlib.Data.List.Nodup

/-!
# Doubly linked rings

Nodes are linked by a successor and a predecessor function. `Ring` says that the nodes of
a list form one cycle of these links, in the order of the list. A node can be put before
the first one or taken out by changing the links of its two neighbours, and the list may
start at any of its nodes. `Threaded` is a singly linked list in the same successors.
-/

namespace Libxseg

set_option autoImplicit false

universe u
variable {α : Type u} {next prev next' prev' : α → α} {l m : List α} {x y h : α}

def Link (next prev : α → α) (x y : α) : Prop := next x = y ∧ prev y = x

structure Ring (next prev : α → α) (l : List α) : Prop where
  nodup : l.Nodup
  chain : (l : Cycle α).Chain (Link next prev)

/-- Only the last node may change its successor, and only the first one its predecessor. -/
theorem isChain_link_congr (hn : l.Nodup) (hl : l.IsChain (Link next prev))
    (hnext : ∀ x ∈ l, l.getLast? ≠ some x → next' x = next x)
    (hprev : ∀ x ∈ l, l.head? ≠ some x → prev' x = prev x) : l.IsChain (Link next' prev') := by
  rw [List.isChain_iff_getElem] at hl ⊢
  intro i hi
  obtain ⟨hni, hpi⟩ := hl i hi
  constructor
  · rw [hnext _ (List.getElem_mem _), hni]
    rw [List.getLast?_eq_getElem?]
    intro hlast
    obtain ⟨hlt, heq⟩ := List.getElem?_eq_some_iff.mp hlast
    have hidx := (hn.getElem_inj_iff).mp heq
    omega
  · rw [hprev _ (List.getElem_mem _), hpi]
    rw [List.head?_eq_getElem?]
    intro hfirst
    obtain ⟨hlt, heq⟩ := List.getElem?_eq_some_iff.mp hfirst
    have hidx := (hn.getElem_inj_iff).mp heq
    omega

namespace Ring

theorem nil : Ring next prev [] := ⟨List.nodup_nil, Cycle.Chain.nil _⟩

/-- A ring is its inner links and the link from the last node to the first. -/
theorem iff_cons : Ring next prev (h :: l) ↔ (h :: l).Nodup ∧
    Link next prev ((h :: l).getLast (List.cons_ne_nil h l)) h ∧
    (h :: l).IsChain (Link next prev) := by
  constructor
  · rintro ⟨hn, hc⟩
    rw [Cycle.chain_ne_nil _ (List.cons_ne_nil h l), List.isChain_cons_cons] at hc
    exact ⟨hn, hc⟩
  · rintro ⟨hn, hc⟩
    refine ⟨hn, ?_⟩
    rw [Cycle.chain_ne_nil _ (List.cons_ne_nil h l), List.isChain_cons_cons]
    exact hc

theorem rotated (hr : Ring next prev l) (hlm : l ~r m) : Ring next prev m := by
  refine ⟨hlm.nodup_iff.mp hr.nodup, ?_⟩
  rw [← Cycle.coe_eq_coe.mpr hlm]
  exact hr.chain

theorem congr (hr : Ring next prev l) (hnext : ∀ x ∈ l, next' x = next x)
    (hprev : ∀ x ∈ l, prev' x = prev x) : Ring next' prev' l := by
  cases l with
  | nil => exact nil
  | cons h l =>
    obtain ⟨hn, ⟨hlast, hfirst⟩, hc⟩ := iff_cons.mp hr
    refine iff_cons.mpr ⟨hn, ⟨?_, ?_⟩, isChain_link_congr hn hc ?_ ?_⟩
    · rw [hnext _ (List.getLast_mem _), hlast]
    · rw [hprev _ List.mem_cons_self, hfirst]
    · exact fun x hx _ => hnext x hx
    · exact fun x hx _ => hprev x hx

theorem single (hnext : next x = x) (hprev : prev x = x) : Ring next prev [x] :=
  iff_cons.mpr ⟨List.nodup_singleton x, ⟨hnext, hprev⟩, List.isChain_singleton x⟩

theorem next_head (hr : Ring next prev (x :: y :: l)) : next x = y := by
  obtain ⟨-, -, hc⟩ := iff_cons.mp hr
  exact (List.isChain_cons_cons.mp hc).1.1

theorem next_single (hr : Ring next prev [x]) : next x = x := (iff_cons.mp hr).2.1.1

theorem prev_head (hr : Ring next prev (h :: l)) :
    prev h = (h :: l).getLast (List.cons_ne_nil h l) := (iff_cons.mp hr).2.1.2

/-- The neighbours of a node are in the ring, and they are others unless it is alone. -/
theorem mem (hr : Ring next prev l) (hx : x ∈ l) : next x ∈ l ∧ prev x ∈ l := by
  obtain ⟨a, b, rfl⟩ := List.append_of_mem hx
  have hrot : a ++ x :: b ~r x :: (b ++ a) := List.isRotated_append
  have hr := hr.rotated hrot
  rw [hrot.mem_iff, hrot.mem_iff]
  refine ⟨?_, ?_⟩
  · cases hba : b ++ a with
    | nil =>
      rw [hba] at hr
      rw [hr.next_single]
      exact List.mem_cons_self
    | cons y m =>
      rw [hba] at hr
      rw [hr.next_head]
      exact List.mem_cons_of_mem _ List.mem_cons_self
  · rw [hr.prev_head]
    exact List.getLast_mem _

theorem insert (hr : Ring next prev (h :: l)) (hx : x ∉ h :: l) (hnext : next' x = h)
    (hprev : prev' x = prev h) (hlast : next' (prev h) = x) (hfirst : prev' h = x)
    (hnext' : ∀ y ∈ h :: l, y ≠ prev h → next' y = next y)
    (hprev' : ∀ y ∈ h :: l, y ≠ h → prev' y = prev y) : Ring next' prev' (h :: l ++ [x]) := by
  have hlast' := hr.prev_head
  obtain ⟨hn, -, hc⟩ := iff_cons.mp hr
  have hn' : (h :: l ++ [x]).Nodup := by
    rw [← List.concat_eq_append]
    exact hn.concat hx
  rw [List.cons_append] at hn' ⊢
  refine iff_cons.mpr ⟨hn', ?_, ?_⟩
  · have hend : (h :: (l ++ [x])).getLast (List.cons_ne_nil _ _) = x :=
      List.getLast_append_singleton (l := h :: l)
    rw [hend]
    exact ⟨hnext, hfirst⟩
  · refine List.isChain_append.mpr ⟨isChain_link_congr hn hc ?_ ?_, List.isChain_singleton x, ?_⟩
    · intro y hy hne
      apply hnext' y hy
      rintro rfl
      rw [hlast'] at hne
      exact hne (List.getLast?_eq_some_getLast _)
    · intro y hy hne
      apply hprev' y hy
      rintro rfl
      exact hne rfl
    · intro y hy z hz
      obtain rfl : x = z := Option.some.inj hz
      rw [List.getLast?_eq_some_getLast (List.cons_ne_nil h l), ← hlast'] at hy
      obtain rfl : prev h = y := Option.some.inj hy
      exact ⟨hlast, hprev⟩

theorem remove (hr : Ring next prev (x :: h :: l)) (hnext : next' (prev x) = next x)
    (hprev : prev' (next x) = prev x) (hnext' : ∀ y ∈ h :: l, y ≠ prev x → next' y = next y)
    (hprev' : ∀ y ∈ h :: l, y ≠ next x → prev' y = prev y) : Ring next' prev' (h :: l) := by
  have hfirst := hr.next_head
  have hlast : prev x = (h :: l).getLast (List.cons_ne_nil h l) := hr.prev_head
  obtain ⟨hn, -, hc⟩ := iff_cons.mp hr
  have hn := (List.nodup_cons.mp hn).2
  refine iff_cons.mpr ⟨hn, ?_, isChain_link_congr hn (List.isChain_cons_cons.mp hc).2 ?_ ?_⟩
  · rw [← hlast]
    exact ⟨hnext.trans hfirst, hfirst ▸ hprev⟩
  · intro y hy hne
    apply hnext' y hy
    rintro rfl
    rw [hlast] at hne
    exact hne (List.getLast?_eq_some_getLast _)
  · intro y hy hne
    apply hprev' y hy
    rintro rfl
    rw [hfirst] at hne
    exact hne rfl

end Ring

def Threaded (next : α → α) (stop : α) : α → List α → Prop
  | first, [] => first = stop
  | first, x :: l => first = x ∧ x ≠ stop ∧ Threaded next stop (next x) l

theorem Threaded.congr {stop first : α} (ht : Threaded next stop first l)
    (hnext : ∀ x ∈ l, next' x = next x) : Threaded next' stop first l := by
  induction l generalizing first with
  | nil => exact ht
  | cons x l ih =>
    obtain ⟨hfirst, hne, ht⟩ := ht
    refine ⟨hfirst, hne, ?_⟩
    rw [hnext x List.mem_cons_self]
    exact ih ht fun y hy => hnext y (List.mem_cons_of_mem x hy)

end Libxseg
