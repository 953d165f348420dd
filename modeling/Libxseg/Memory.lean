import Mathlib.Algebra.Group.Int.Defs
import Mathlib.Algebra.Group.Nat.Defs
import Mathlib.Logic.Function.Basic

/-!
# A byte memory with little-endian words

Addresses are natural numbers. A load sees exactly the bytes of its range
(`loadBytes_congr`), a store changes exactly those (`storeBytes_outside`), and a
load of what was stored gives it back.
-/

namespace Libxseg

set_option autoImplicit false

abbrev Memory := Nat → UInt8

namespace Memory

def loadBytes (m : Memory) (a : Nat) : Nat → Nat
  | 0 => 0
  | n + 1 => (m a).toNat + 256 * loadBytes m (a + 1) n

def storeBytes (m : Memory) (a : Nat) : Nat → Nat → Memory
  | 0, _ => m
  | n + 1, v => Function.update (storeBytes m (a + 1) n (v / 256)) a (.ofNat v)

def load64 (m : Memory) (a : Nat) : Nat := m.loadBytes a 8

def store64 (m : Memory) (a v : Nat) : Memory := m.storeBytes a 8 v

variable {m m' : Memory} {a b n v x : Nat}

theorem loadBytes_congr (h : ∀ x, a ≤ x → x < a + n → m' x = m x) :
    m'.loadBytes a n = m.loadBytes a n := by
  induction n generalizing a with
  | zero => rfl
  | succ n ih =>
    rw [loadBytes, loadBytes, h a (by omega) (by omega),
      ih fun x hx hxn => h x (by omega) (by omega)]

theorem loadBytes_lt (m : Memory) (a n : Nat) : m.loadBytes a n < 256 ^ n := by
  induction n generalizing a with
  | zero => exact Nat.one_pos
  | succ n ih =>
    have hbyte := (m a).toNat_lt
    have := ih (a + 1)
    rw [loadBytes, Nat.pow_succ]
    omega

theorem storeBytes_outside (h : x < a ∨ a + n ≤ x) : m.storeBytes a n v x = m x := by
  induction n generalizing a v with
  | zero => rfl
  | succ n ih =>
    rw [storeBytes, Function.update_of_ne (by omega), ih (by omega)]

theorem loadBytes_storeBytes_same (hv : v < 256 ^ n) :
    (m.storeBytes a n v).loadBytes a n = v := by
  induction n generalizing a v with
  | zero =>
    rw [Nat.pow_zero] at hv
    rw [loadBytes]
    omega
  | succ n ih =>
    have hrest : ((m.storeBytes (a + 1) n (v / 256)).loadBytes (a + 1) n) = v / 256 := by
      apply ih
      rw [Nat.pow_succ] at hv
      omega
    have hframe : (m.storeBytes a (n + 1) v).loadBytes (a + 1) n =
        (m.storeBytes (a + 1) n (v / 256)).loadBytes (a + 1) n := by
      refine loadBytes_congr fun x hx _ => ?_
      rw [storeBytes, Function.update_of_ne (by omega)]
    rw [loadBytes, hframe, hrest, storeBytes, Function.update_self, UInt8.toNat_ofNat']
    omega

theorem load64_congr (h : ∀ x, a ≤ x → x < a + 8 → m' x = m x) : m'.load64 a = m.load64 a :=
  loadBytes_congr h

theorem load64_lt (m : Memory) (a : Nat) : m.load64 a < 2 ^ 64 := m.loadBytes_lt a 8

theorem store64_outside (h : x < a ∨ a + 8 ≤ x) : m.store64 a v x = m x := storeBytes_outside h

theorem load64_store64_same (hv : v < 2 ^ 64) : (m.store64 a v).load64 a = v :=
  loadBytes_storeBytes_same hv

theorem load64_store64_other (h : b + 8 ≤ a ∨ a + 8 ≤ b) :
    (m.store64 a v).load64 b = m.load64 b :=
  load64_congr fun _ _ _ => store64_outside (by omega)

/-- The list of the addresses of its nodes, read from a head word on: a word is the distance of
a node from `base`, 0 ends the list, and each node's first word is the next one. -/
def Linked (m : Memory) (base : Nat) : Nat → List Nat → Prop
  | word, [] => word = 0
  | word, p :: l => word ≠ 0 ∧ base + word = p ∧ Linked m base (m.load64 p) l

theorem Linked.congr {base word : Nat} {l : List Nat} (h : Linked m base word l)
    (hm : ∀ p ∈ l, m'.load64 p = m.load64 p) : Linked m' base word l := by
  induction l generalizing word with
  | nil => exact h
  | cons p l ih =>
    obtain ⟨hne, hp, hl⟩ := h
    refine ⟨hne, hp, ?_⟩
    rw [hm p (by simp)]
    exact ih hl fun q hq => hm q (by simp [hq])

theorem Linked.unique {base word : Nat} {l l' : List Nat} (h : Linked m base word l)
    (h' : Linked m base word l') : l = l' := by
  induction l generalizing word l' with
  | nil =>
    cases l' with
    | nil => rfl
    | cons q l' => exact absurd h h'.1
  | cons p l ih =>
    cases l' with
    | nil => exact absurd h' h.1
    | cons q l' =>
      obtain ⟨-, hp, hl⟩ := h
      obtain ⟨-, hq, hl'⟩ := h'
      obtain rfl := hp.symm.trans hq
      rw [ih hl hl']

end Memory

end Libxseg
