import Mathlib.Data.List.Basic

/-!
# Lower-case hexadecimal digits

The digits of a byte string, two for a byte, and the digits of a number in a field of a
fixed width. A digit has its value back, so different byte strings have different digits.
-/

namespace Libxseg

set_option autoImplicit false

namespace Hex

def digit (n : Nat) : UInt8 := if n < 10 then .ofNat (48 + n) else .ofNat (87 + n)

def value (c : UInt8) : Nat := if c < 58 then c.toNat - 48 else c.toNat - 87

theorem value_digit : ∀ n < 16, value (digit n) = n := by decide

theorem digit_ne_zero : ∀ n < 16, digit n ≠ 0 := by decide

def byteDigits (b : UInt8) : List UInt8 := [digit (b.toNat / 16), digit (b.toNat % 16)]

def ofBytes (bytes : List UInt8) : List UInt8 := bytes.flatMap byteDigits

theorem high_lt (b : UInt8) : b.toNat / 16 < 16 := by
  have hlt := b.toNat_lt
  omega

theorem low_lt (b : UInt8) : b.toNat % 16 < 16 := Nat.mod_lt _ (by decide)

theorem byteDigits_inj {a b : UInt8} (h : byteDigits a = byteDigits b) : a = b := by
  obtain ⟨hhigh, htail⟩ := List.cons.inj h
  obtain ⟨hlow, -⟩ := List.cons.inj htail
  have hquot := congrArg value hhigh
  have hrest := congrArg value hlow
  rw [value_digit _ (high_lt a), value_digit _ (high_lt b)] at hquot
  rw [value_digit _ (low_lt a), value_digit _ (low_lt b)] at hrest
  apply UInt8.toNat_inj.mp
  omega

@[simp] theorem length_ofBytes (bytes : List UInt8) :
    (ofBytes bytes).length = 2 * bytes.length := by
  induction bytes with
  | nil => rfl
  | cons b bytes ih =>
    rw [ofBytes, List.flatMap_cons, List.length_append, ← ofBytes, ih, List.length_cons]
    simp only [byteDigits, List.length_cons, List.length_nil]
    omega

theorem ofBytes_inj {as bs : List UInt8} (h : ofBytes as = ofBytes bs) : as = bs := by
  induction as generalizing bs with
  | nil =>
    cases bs with
    | nil => rfl
    | cons b bs => exact absurd h (List.cons_ne_nil _ _).symm
  | cons a as ih =>
    cases bs with
    | nil => exact absurd h (List.cons_ne_nil _ _)
    | cons b bs =>
      have happ : byteDigits a ++ ofBytes as = byteDigits b ++ ofBytes bs := h
      obtain ⟨hhead, htail⟩ := List.append_inj happ rfl
      rw [byteDigits_inj hhead, ih htail]

theorem ne_zero_of_mem_ofBytes {bytes : List UInt8} {c : UInt8} (hc : c ∈ ofBytes bytes) :
    c ≠ 0 := by
  obtain ⟨b, -, hb⟩ := List.mem_flatMap.mp hc
  rcases List.mem_pair.mp hb with rfl | rfl
  · exact digit_ne_zero _ (high_lt b)
  · exact digit_ne_zero _ (low_lt b)

def fixed : Nat → Nat → List UInt8
  | 0, _ => []
  | width + 1, n => fixed width (n / 16) ++ [digit (n % 16)]

@[simp] theorem length_fixed (width n : Nat) : (fixed width n).length = width := by
  induction width generalizing n with
  | zero => rfl
  | succ width ih => rw [fixed, List.length_append, ih, List.length_singleton]

end Hex

end Libxseg
