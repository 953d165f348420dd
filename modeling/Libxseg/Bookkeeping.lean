import Mathlib.Algebra.Order.BigOperators.Group.Finset

/-!
# Things drawn on account

A store hands out things on account of its clients and takes them back. Every client has
a counter of the things that are out on its account. A worker that gives things back owes
the counter their number until it has subtracted it. The books balance when each counter
is the number of things that are out and of the subtractions that are due.
-/

namespace Libxseg

set_option autoImplicit false

universe u v w

variable {X : Type u} {P : Type v} {ι : Type w}

structure Books (X : Type u) (P : Type v) (ι : Type w) where
  drawn : Finset X
  account : X → P
  count : P → Nat
  due : ι → P → Nat

namespace Books
variable {b b' : Books X P ι}

def Follows (b b' : Books X P ι) : Prop := ∀ x ∈ b.drawn, b'.account x = b.account x

section Out
variable [DecidableEq P]

def out (b : Books X P ι) (p : P) : Finset X := b.drawn.filter fun x => b.account x = p

theorem mem_out {x : X} {p : P} : x ∈ b.out p ↔ x ∈ b.drawn ∧ b.account x = p := by
  simp [out]

theorem out_eq (hacc : Follows b b') (hdrawn : b'.drawn = b.drawn) (p : P) :
    b'.out p = b.out p := by
  ext x
  rw [mem_out, mem_out, hdrawn]
  constructor
  · rintro ⟨hx, rfl⟩
    exact ⟨hx, (hacc x hx).symm⟩
  · rintro ⟨hx, rfl⟩
    exact ⟨hx, hacc x hx⟩

variable [DecidableEq X]

theorem card_out_draw {x : X} {p : P} (hacc : Follows b b') (hx : x ∉ b.drawn)
    (hdrawn : b'.drawn = insert x b.drawn) (hp : b'.account x = p) (q : P) :
    (b'.out q).card = if q = p then (b.out p).card + 1 else (b.out q).card := by
  have hmem : ∀ y, y ∈ b'.out q ↔ y = x ∧ q = p ∨ y ∈ b.out q := by
    intro y
    rw [mem_out, mem_out, hdrawn, Finset.mem_insert]
    rcases eq_or_ne y x with rfl | hy
    · simp [hx, hp, eq_comm]
    · simp only [hy, false_or, false_and]
      exact and_congr_right fun hyd => by rw [hacc y hyd]
  split
  · rename_i hq
    subst hq
    have hins : b'.out q = insert x (b.out q) := by
      ext y
      rw [hmem, Finset.mem_insert]
      simp
    have hxo : x ∉ b.out q := fun h => hx (mem_out.mp h).1
    rw [hins, Finset.card_insert_of_notMem hxo]
  · rename_i hq
    have hsame : b'.out q = b.out q := by
      ext y
      rw [hmem]
      simp [hq]
    rw [hsame]

theorem out_giveBack {p : P} {xs : Finset X} (hacc : Follows b b') (hxs : xs ⊆ b.out p)
    (hdrawn : b'.drawn = b.drawn \ xs) (q : P) :
    b'.out q = if q = p then b.out p \ xs else b.out q := by
  ext x
  rw [mem_out, hdrawn, Finset.mem_sdiff]
  split
  · rename_i hq
    subst hq
    rw [Finset.mem_sdiff, mem_out]
    constructor
    · rintro ⟨⟨hx, hn⟩, hq⟩
      exact ⟨⟨hx, (hacc x hx).symm.trans hq⟩, hn⟩
    · rintro ⟨⟨hx, hq⟩, hn⟩
      exact ⟨⟨hx, hn⟩, (hacc x hx).trans hq⟩
  · rename_i hq
    rw [mem_out]
    constructor
    · rintro ⟨⟨hx, -⟩, hq'⟩
      exact ⟨hx, (hacc x hx).symm.trans hq'⟩
    · rintro ⟨hx, hq'⟩
      refine ⟨⟨hx, fun hn => hq ?_⟩, (hacc x hx).trans hq'⟩
      exact hq'.symm.trans (mem_out.mp (hxs hn)).2

end Out

section Due
variable [Fintype ι]

def pending (b : Books X P ι) (p : P) : Nat := ∑ i, b.due i p

theorem due_le_pending (b : Books X P ι) (i : ι) (p : P) : b.due i p ≤ b.pending p :=
  Finset.single_le_sum (f := fun i => b.due i p) (fun _ _ => Nat.zero_le _) (Finset.mem_univ i)

theorem pending_update [DecidableEq P] [DecidableEq ι] {i : ι} {p : P} {n : Nat}
    (hdue : b'.due = Function.update b.due i (Function.update (b.due i) p n)) (q : P) :
    b'.pending q + (if q = p then b.due i p else 0) = b.pending q + if q = p then n else 0 := by
  have hother : ∀ j ∈ Finset.univ.erase i, b'.due j q = b.due j q := by
    intro j hj
    rw [hdue, Function.update_of_ne (Finset.ne_of_mem_erase hj)]
  have hown : b'.due i q = if q = p then n else b.due i q := by
    rw [hdue, Function.update_self, Function.update_apply]
  rw [pending, pending, ← Finset.add_sum_erase _ _ (Finset.mem_univ i),
    ← Finset.add_sum_erase Finset.univ (fun j => b.due j q) (Finset.mem_univ i),
    Finset.sum_congr rfl hother, hown]
  split
  · rename_i hq
    subst hq
    omega
  · rfl

end Due

variable [DecidableEq P] [Fintype ι]

def Balanced (b : Books X P ι) : Prop := ∀ p, b.count p = (b.out p).card + b.pending p

theorem Balanced.due_le_count (h : b.Balanced) (i : ι) (p : P) : b.due i p ≤ b.count p := by
  have hle := b.due_le_pending i p
  rw [h p]
  omega

variable [DecidableEq X] [DecidableEq ι]

omit [Fintype ι] in
inductive Entry (b b' : Books X P ι) : Prop
  | same :
      Follows b b' → b'.drawn = b.drawn → b'.count = b.count → b'.due = b.due → Entry b b'
  | draw (x : X) (p : P) :
      Follows b b' → x ∉ b.drawn → b'.drawn = insert x b.drawn → b'.account x = p →
      b'.count = Function.update b.count p (b.count p + 1) → b'.due = b.due → Entry b b'
  | giveBack (i : ι) (p : P) (xs : Finset X) :
      Follows b b' → xs ⊆ b.out p → b'.drawn = b.drawn \ xs → b'.count = b.count →
      b'.due = Function.update b.due i (Function.update (b.due i) p (b.due i p + xs.card)) →
      Entry b b'
  | settle (i : ι) (p : P) (n : Nat) :
      Follows b b' → n ≤ b.due i p → b'.drawn = b.drawn →
      b'.count = Function.update b.count p (b.count p - n) →
      b'.due = Function.update b.due i (Function.update (b.due i) p (b.due i p - n)) → Entry b b'

theorem Balanced.entry (h : b.Balanced) (he : Entry b b') : b'.Balanced := by
  intro q
  have hq := h q
  cases he with
  | same hacc hdrawn hcount hdue =>
    rw [hcount, out_eq hacc hdrawn, pending, hdue]
    exact hq
  | draw x p hacc hx hdrawn hp hcount hdue =>
    have hpend : b'.pending q = b.pending q := by rw [pending, pending, hdue]
    rw [hcount, card_out_draw hacc hx hdrawn hp, hpend, Function.update_apply]
    split
    · rename_i hqp
      subst hqp
      omega
    · exact hq
  | giveBack i p xs hacc hxs hdrawn hcount hdue =>
    have hpend := pending_update hdue q
    have hsub := Finset.card_sdiff_add_card_eq_card hxs
    rw [hcount, out_giveBack hacc hxs hdrawn]
    split at hpend
    · rename_i hqp
      subst hqp
      rw [if_pos rfl]
      omega
    · rename_i hqp
      rw [if_neg hqp]
      omega
  | settle i p n hacc hn hdrawn hcount hdue =>
    have hpend := pending_update hdue q
    rw [hcount, out_eq hacc hdrawn, Function.update_apply]
    split at hpend
    · rename_i hqp
      subst hqp
      have hle := h.due_le_count i q
      rw [if_pos rfl]
      omega
    · rename_i hqp
      rw [if_neg hqp]
      omega

end Books

end Libxseg
