import Mathlib.Tactic.Ring
import Libxseg.Xheap

/-!
# Size classes of an xheap

A request is rounded up, header included, to a multiple of a unit that depends on
its size. The index of a chunk is computed from the rounded size, and computing it
again from the size that the header stores gives the same index, also where
rounding has carried the size into the next range.
-/

namespace Libxseg

set_option autoImplicit false

def roundUp (x unit : Nat) : Nat := ((x - 1) / unit + 1) * unit

section RoundUp
variable {x unit k : Nat}

theorem le_roundUp (hx : 0 < x) (hu : 0 < unit) : x ≤ roundUp x unit := by
  have hlt := Nat.lt_mul_div_succ (x - 1) hu
  rw [roundUp, Nat.mul_comm]
  omega

theorem roundUp_lt (hx : 0 < x) : roundUp x unit < x + unit := by
  have hle := Nat.div_mul_le_self (x - 1) unit
  rw [roundUp, Nat.add_mul]
  omega

theorem dvd_roundUp (x unit : Nat) : unit ∣ roundUp x unit := ⟨_, Nat.mul_comm _ _⟩

theorem roundUp_eq (hlo : (k - 1) * unit < x) (hhi : x ≤ k * unit) (hk : 0 < k) :
    roundUp x unit = k * unit := by
  obtain ⟨k, rfl⟩ := Nat.exists_eq_succ_of_ne_zero hk.ne'
  rw [Nat.succ_sub_one] at hlo
  have hdiv : (x - 1) / unit = k := by
    apply Nat.div_eq_of_lt_le
    · omega
    · rw [Nat.succ_mul] at hhi ⊢
      omega
  rw [roundUp, hdiv]

theorem roundUp_of_dvd (hd : unit ∣ x) (hx : 0 < x) (hu : 0 < unit) : roundUp x unit = x := by
  obtain ⟨k, rfl⟩ := hd
  have hk : 0 < k := Nat.pos_of_mul_pos_left hx
  rw [Nat.mul_comm] at hx ⊢
  refine roundUp_eq ?_ (Nat.le_refl _) hk
  exact Nat.mul_lt_mul_of_pos_right (by omega) hu

/-- With the header, the requests just above eight units take nine, and so does what is left of
nine units without it. -/
theorem roundUp_above (hunit : 24 < unit) (hlow : 8 * unit ≤ x) (hhigh : x + 24 ≤ 9 * unit) :
    roundUp (x + 24) unit = 9 * unit ∧ x / unit = 8 ∧ (9 * unit - 24) / unit = 8 :=
  ⟨roundUp_eq (by omega) hhigh (by decide), Nat.div_eq_of_lt_le (by omega) (by omega),
    Nat.div_eq_of_lt_le (by omega) (by omega)⟩

end RoundUp

namespace Xheap
variable (heap : Xheap) (bytes : Nat)

def page : Nat := 2 ^ heap.alignment_unit

theorem page_pos : 0 < heap.page := Nat.two_pow_pos _

theorem align_eq (x shift : Nat) : align x shift = roundUp x (2 ^ shift) := by
  rw [align, Nat.shiftRight_eq_div_pow, Nat.shiftLeft_eq, roundUp]

def unit : Nat :=
  if bytes < 32 * heap.page then heap.page
  else if bytes < 1024 * heap.page then 4 * heap.page
  else 128 * heap.page

theorem pow_add_page (k : Nat) : 2 ^ (heap.alignment_unit + k) = 2 ^ k * heap.page := by
  rw [Nat.pow_add, Nat.mul_comm, page]

theorem pow_small : 2 ^ (heap.alignment_unit + SMALL_LIMIT) = 32 * heap.page :=
  heap.pow_add_page 5

theorem pow_medium : 2 ^ (heap.alignment_unit + MEDIUM_LIMIT) = 1024 * heap.page :=
  heap.pow_add_page 10

theorem pow_medium_unit : 2 ^ (heap.alignment_unit + MEDIUM_AL_UNIT) = 4 * heap.page :=
  heap.pow_add_page 2

theorem pow_large_unit : 2 ^ (heap.alignment_unit + LARGE_AL_UNIT) = 128 * heap.page :=
  heap.pow_add_page 7

theorem getAllocBytes_eq : heap.getAllocBytes bytes = roundUp (bytes + 24) (heap.unit bytes) := by
  simp only [getAllocBytes, unit, align_eq, Nat.one_shiftLeft, pow_small, pow_medium,
    pow_medium_unit, pow_large_unit]
  split_ifs <;> rfl

theorem classOf_eq : heap.classOf bytes =
    if bytes < 32 * heap.page then bytes / heap.page
    else if bytes < 1024 * heap.page then 24 + bytes / (4 * heap.page)
    else 1016 + bytes / (128 * heap.page) := by
  simp only [classOf, Nat.one_shiftLeft, Nat.shiftRight_eq_div_pow, pow_small, pow_medium,
    pow_medium_unit, pow_large_unit]
  rfl

theorem unit_pos : 0 < heap.unit bytes := by
  have := heap.page_pos
  rw [unit]
  split_ifs <;> omega

theorem page_dvd_unit : heap.page ∣ heap.unit bytes := by
  rw [unit]
  split_ifs
  · exact Nat.dvd_refl _
  · exact Nat.dvd_mul_left _ _
  · exact Nat.dvd_mul_left _ _

theorem page_dvd_getAllocBytes : heap.page ∣ heap.getAllocBytes bytes := by
  rw [getAllocBytes_eq]
  exact (heap.page_dvd_unit bytes).trans (dvd_roundUp _ _)

theorem le_getAllocBytes : bytes + 24 ≤ heap.getAllocBytes bytes := by
  rw [getAllocBytes_eq]
  exact le_roundUp (by omega) (heap.unit_pos bytes)

theorem getAllocBytes_lt_unit : heap.getAllocBytes bytes < bytes + 24 + heap.unit bytes := by
  rw [getAllocBytes_eq]
  exact roundUp_lt (by omega)

theorem getAllocBytes_units {k : Nat} (hk : heap.unit bytes = k) :
    ∃ n, heap.getAllocBytes bytes = n * k ∧ bytes + 24 ≤ n * k ∧ n * k < bytes + 24 + k := by
  obtain ⟨n, hn⟩ := dvd_roundUp (bytes + 24) (heap.unit bytes)
  rw [← getAllocBytes_eq, hk, Nat.mul_comm] at hn
  refine ⟨n, hn, ?_, ?_⟩
  · rw [← hn]
    exact heap.le_getAllocBytes bytes
  · rw [← hn, ← hk]
    exact heap.getAllocBytes_lt_unit bytes

theorem getAllocBytes_le : heap.getAllocBytes bytes < bytes + 24 + 128 * heap.page := by
  have hlt := heap.getAllocBytes_lt_unit bytes
  have hunit : heap.unit bytes ≤ 128 * heap.page := by
    rw [unit]
    split_ifs <;> omega
  omega

theorem page_le_getAllocBytes : heap.page ≤ heap.getAllocBytes bytes :=
  Nat.le_of_dvd (by have := heap.le_getAllocBytes bytes; omega) (heap.page_dvd_getAllocBytes bytes)

/-- A size that stays in the range of its request is not rounded further. -/
theorem getAllocBytes_again_of_unit_eq {size : Nat} (hsize : size + 24 = heap.getAllocBytes bytes)
    (hunit : heap.unit size = heap.unit bytes) :
    heap.getAllocBytes size = heap.getAllocBytes bytes := by
  have hd : heap.unit bytes ∣ heap.getAllocBytes bytes := by
    rw [getAllocBytes_eq]
    exact dvd_roundUp _ _
  rw [getAllocBytes_eq, hunit, hsize]
  exact roundUp_of_dvd hd (by omega) (heap.unit_pos bytes)

/-- Just above the small sizes: the request was small and its chunk is not. -/
theorem classOf_above_small (hpage : 32 ≤ heap.page) {size : Nat}
    (hsize : size + 24 = 33 * heap.page) :
    heap.classOf (heap.getAllocBytes size - 24) = heap.classOf size := by
  have hunit : heap.unit size = 4 * heap.page := by
    rw [unit, if_neg (by omega), if_pos (by omega)]
  obtain ⟨hround, hdiv, hdiv'⟩ := roundUp_above (show 24 < 4 * heap.page by omega)
    (show 8 * (4 * heap.page) ≤ size by omega) (by omega)
  rw [getAllocBytes_eq, hunit, hround, classOf_eq, classOf_eq, if_neg (by omega),
    if_pos (by omega), if_neg (by omega), if_pos (by omega), hdiv, hdiv']

theorem classOf_above_medium (hpage : 32 ≤ heap.page) {size : Nat}
    (hsize : size + 24 = 1028 * heap.page) :
    heap.classOf (heap.getAllocBytes size - 24) = heap.classOf size := by
  have hunit : heap.unit size = 128 * heap.page := by
    rw [unit, if_neg (by omega), if_neg (by omega)]
  obtain ⟨hround, hdiv, hdiv'⟩ := roundUp_above (show 24 < 128 * heap.page by omega)
    (show 8 * (128 * heap.page) ≤ size by omega) (by omega)
  rw [getAllocBytes_eq, hunit, hround, classOf_eq, classOf_eq, if_neg (by omega),
    if_neg (by omega), if_neg (by omega), if_neg (by omega), hdiv, hdiv']

theorem eq_mul_of_dvd {unit x k : Nat} (hd : unit ∣ x) (hlo : (k - 1) * unit < x)
    (hhi : x < (k + 1) * unit) : x = k * unit := by
  obtain ⟨j, rfl⟩ := hd
  rw [Nat.mul_comm unit j] at hlo hhi ⊢
  have h1 := Nat.lt_of_mul_lt_mul_right hlo
  have h2 := Nat.lt_of_mul_lt_mul_right hhi
  rw [show j = k by omega]

/-- The index computed from a chunk's size is the index of the request. -/
theorem classOf_again (hpage : 32 ≤ heap.page) {size : Nat}
    (hsize : size + 24 = heap.getAllocBytes bytes) :
    heap.classOf (heap.getAllocBytes size - 24) = heap.classOf size := by
  have hle := heap.le_getAllocBytes bytes
  have hlt : size + 24 < bytes + 24 + heap.unit bytes := by
    rw [hsize, getAllocBytes_eq]
    exact roundUp_lt (by omega)
  have hdvd : heap.unit bytes ∣ size + 24 := by
    rw [hsize, getAllocBytes_eq]
    exact dvd_roundUp _ _
  by_cases hunit : heap.unit size = heap.unit bytes
  · rw [heap.getAllocBytes_again_of_unit_eq bytes hsize hunit, ← hsize, Nat.add_sub_cancel]
  · rcases Nat.lt_or_ge bytes (32 * heap.page) with hb | hb
    · have hub : heap.unit bytes = heap.page := if_pos hb
      have hs : ¬ size < 32 * heap.page := fun hs => hunit ((if_pos hs).trans hub.symm)
      rw [hub] at hdvd hlt
      exact heap.classOf_above_small hpage (eq_mul_of_dvd hdvd (by omega) (by omega))
    · rcases Nat.lt_or_ge bytes (1024 * heap.page) with hb' | hb'
      · have hub : heap.unit bytes = 4 * heap.page := by
          rw [unit, if_neg (by omega), if_pos hb']
        have hs : ¬ size < 1024 * heap.page := fun hs => by
          refine hunit (Eq.trans ?_ hub.symm)
          rw [unit, if_neg (by omega), if_pos hs]
        rw [hub] at hdvd hlt
        have hsize' := eq_mul_of_dvd (k := 257) hdvd (by omega) (by omega)
        exact heap.classOf_above_medium hpage (by omega)
      · refine absurd ?_ hunit
        rw [unit, unit, if_neg (by omega), if_neg (by omega), if_neg (by omega),
          if_neg (by omega)]

theorem getIndex_again (hpage : 32 ≤ heap.page) {size : Nat}
    (hsize : size + 24 = heap.getAllocBytes bytes) :
    heap.getIndex size = heap.getIndex bytes := by
  have hclass : heap.classOf (heap.getAllocBytes size - sizeofHeader) =
      heap.classOf (heap.getAllocBytes bytes - sizeofHeader) := by
    rw [← hsize]
    exact heap.classOf_again bytes hpage hsize
  unfold getIndex
  rw [hclass]

end Xheap

end Libxseg
