import Libxseg.XheapInit

/-!
# Rounding wastes little, and keeps the order of sizes

The unit that a request is rounded to is at most an eighth of the request, and the units divide
each other, so a larger request never gets a smaller chunk or an earlier index. The index is the
number that `__get_index` computes; what it returns is that number cut to an `int`, which is the
same as long as the number is below 2^31 (`getIndex64_mono_iff`).
-/

namespace Libxseg

set_option autoImplicit false

theorem roundUp_mono {x y unit unit' : Nat} (hx : 0 < x) (hxy : x ≤ y) (hd : unit ∣ unit')
    (hu : 0 < unit') : roundUp x unit ≤ roundUp y unit' :=
  Xheap.roundUp_le_of_dvd hx (hxy.trans (le_roundUp (hx.trans_le hxy) hu))
    (hd.trans (dvd_roundUp y unit'))

namespace Xheap
variable {heap : Xheap} {bytes bytes' x y : Nat}

/-- The index of a request in unbounded arithmetic; `__get_index` returns it as an `int`. -/
def classIndex (heap : Xheap) (bytes : Nat) : Nat := heap.classOf (heap.chunkSize64 bytes)

theorem getIndex64_classIndex (heap : Xheap) (bytes : Nat) :
    heap.getIndex64 bytes = Int.bmod (heap.classIndex bytes) (2 ^ 32) := rfl

theorem unit_dvd_unit (heap : Xheap) (h : x ≤ y) : heap.unit x ∣ heap.unit y := by
  have hsmall : heap.page ∣ 4 * heap.page := Nat.dvd_mul_left _ _
  have hlarge : 4 * heap.page ∣ 128 * heap.page := Nat.mul_dvd_mul_right (by decide) _
  unfold unit
  by_cases hx : x < 32 * heap.page
  · rw [if_pos hx]
    split_ifs
    · exact Nat.dvd_refl _
    · exact hsmall
    · exact hsmall.trans hlarge
  · rw [if_neg hx, if_neg (show ¬ y < 32 * heap.page by omega)]
    by_cases hx' : x < 1024 * heap.page
    · rw [if_pos hx']
      split_ifs
      · exact Nat.dvd_refl _
      · exact hlarge
    · rw [if_neg hx', if_neg (show ¬ y < 1024 * heap.page by omega)]

theorem getAllocBytes_mono (heap : Xheap) (h : x ≤ y) :
    heap.getAllocBytes x ≤ heap.getAllocBytes y := by
  rw [getAllocBytes_eq, getAllocBytes_eq]
  exact roundUp_mono (Nat.succ_pos _) (Nat.add_le_add_right h 24) (heap.unit_dvd_unit h)
    (heap.unit_pos y)

theorem classOf_mono (heap : Xheap) (h : x ≤ y) : heap.classOf x ≤ heap.classOf y := by
  have hpage := heap.page_pos
  have hsmall (hx : x < 32 * heap.page) : x / heap.page < 32 :=
    Nat.div_lt_of_lt_mul (by omega)
  have hmedium (hx : x < 1024 * heap.page) : x / (4 * heap.page) < 256 :=
    Nat.div_lt_of_lt_mul (by omega)
  have hmedium' (hy : 32 * heap.page ≤ y) : 8 ≤ y / (4 * heap.page) :=
    (Nat.le_div_iff_mul_le (by omega)).mpr (by omega)
  have hlarge' (hy : 1024 * heap.page ≤ y) : 8 ≤ y / (128 * heap.page) :=
    (Nat.le_div_iff_mul_le (by omega)).mpr (by omega)
  rw [classOf_eq, classOf_eq]
  split_ifs with hx hy hy' hx' hy hy' hy hy'
  · exact Nat.div_le_div_right h
  · have := hsmall hx
    have := hmedium' (Nat.le_of_not_lt hy)
    omega
  · have := hsmall hx
    omega
  · omega
  · exact Nat.add_le_add_left (Nat.div_le_div_right h) 24
  · have := hmedium hx'
    have := hlarge' (Nat.le_of_not_lt hy')
    omega
  · omega
  · omega
  · exact Nat.add_le_add_left (Nat.div_le_div_right h) 1016

/-- The unit of a request that is not small is at most an eighth of it. -/
theorem unit_le_eighth (h : 32 * heap.page ≤ bytes) : 8 * heap.unit bytes ≤ bytes := by
  unfold unit
  split_ifs with hsmall hmedium
  · omega
  · omega
  · omega

theorem chunkSize_waste (h : 32 * heap.page ≤ bytes) :
    bytes ≤ heap.getAllocBytes bytes - 24 ∧
      8 * (heap.getAllocBytes bytes - 24 - bytes) < bytes := by
  have hpage := heap.page_pos
  have hunit := unit_le_eighth h
  have hlow := heap.le_getAllocBytes bytes
  have hhigh := heap.getAllocBytes_lt_unit bytes
  omega

theorem getAllocBytes64_word (hunit : heap.alignment_unit ≤ 20) (hb : bytes ≤ 2 ^ 62) :
    heap.getAllocBytes64 bytes = heap.getAllocBytes bytes :=
  getAllocBytes64_eq (getAllocBytes_lt hunit (by omega))

theorem chunkSize64_of_le (hunit : heap.alignment_unit ≤ 20) (hb : bytes ≤ 2 ^ 62) :
    heap.chunkSize64 bytes = heap.getAllocBytes bytes - 24 :=
  chunkSize64_word hunit (by omega)

theorem classIndex_mono (hunit : heap.alignment_unit ≤ 20) (h : bytes ≤ bytes')
    (hb : bytes' ≤ 2 ^ 62) : heap.classIndex bytes ≤ heap.classIndex bytes' := by
  unfold classIndex
  rw [chunkSize64_of_le hunit (h.trans hb), chunkSize64_of_le hunit hb]
  exact heap.classOf_mono (Nat.sub_le_sub_right (heap.getAllocBytes_mono h) 24)

theorem getIndex64_eq_classIndex (h : heap.classIndex bytes < 2 ^ 31) :
    heap.getIndex64 bytes = heap.classIndex bytes := getIndex64_of_lt h

def firstCut (heap : Xheap) : Nat := (2 ^ 31 - 1016) * (128 * heap.page) - 23

theorem classIndex_lt_iff (hlow : 5 ≤ heap.alignment_unit) (hhigh : heap.alignment_unit ≤ 20)
    (hb : bytes ≤ 2 ^ 62) : heap.classIndex bytes < 2 ^ 31 ↔ bytes < heap.firstCut := by
  have hpage : 32 ≤ heap.page := Nat.pow_le_pow_right (show 0 < 2 by decide) hlow
  have hround := heap.getAllocBytes_le bytes
  unfold classIndex firstCut
  rw [chunkSize64_of_le hhigh hb]
  rcases Nat.lt_or_ge bytes (1024 * heap.page) with hsmall | hlarge
  · exact iff_of_true (classOf_lt (by omega)) (by omega)
  · rw [classOf_large hpage hlarge]
    have hdiv : (bytes + 23) / (128 * heap.page) < 2 ^ 31 - 1016 ↔
        bytes + 23 < (2 ^ 31 - 1016) * (128 * heap.page) := Nat.div_lt_iff_lt_mul (by omega)
    omega

/-- What `__get_index` returns keeps the order of the requests up to the first that is cut. -/
theorem getIndex64_mono_iff (hlow : 5 ≤ heap.alignment_unit) (hhigh : heap.alignment_unit ≤ 20)
    (hb : x ≤ 2 ^ 62) :
    (∀ bytes bytes', bytes ≤ bytes' → bytes' ≤ x →
      heap.getIndex64 bytes ≤ heap.getIndex64 bytes') ↔ x < heap.firstCut := by
  have hpage : 32 ≤ heap.page := Nat.pow_le_pow_right (show 0 < 2 by decide) hlow
  constructor
  · intro hmono
    by_contra hcut
    have hfirst : heap.getIndex64 heap.firstCut = Int.bmod (2 ^ 31 : Nat) (2 ^ 32) := by
      have hsum : heap.firstCut + 23 = (2 ^ 31 - 1016) * (128 * heap.page) := by
        unfold firstCut
        omega
      rw [getIndex64_large hhigh hpage (by omega) (by omega), hsum,
        Nat.mul_div_cancel _ (by omega)]
      rfl
    have hzero : 0 ≤ heap.getIndex64 0 := by
      rw [getIndex64_small hhigh (by omega)]
      exact Int.natCast_nonneg _
    have hle := hmono 0 heap.firstCut (Nat.zero_le _) (Nat.le_of_not_lt hcut)
    rw [hfirst] at hle
    exact absurd (hzero.trans hle) (by decide)
  · intro hx bytes bytes' hle hle'
    have hindex := classIndex_mono hhigh hle (hle'.trans hb)
    have hfits : heap.classIndex bytes' < 2 ^ 31 :=
      (classIndex_lt_iff hlow hhigh (hle'.trans hb)).mpr (hle'.trans_lt hx)
    rw [getIndex64_eq_classIndex hfits, getIndex64_eq_classIndex (hindex.trans_lt hfits)]
    exact Int.ofNat_le.mpr hindex

/-- A request that is not small wastes less than an eighth of itself, and larger requests have
chunks and indexes that are not smaller. -/
theorem rounding_bounded (hhigh : heap.alignment_unit ≤ 20) :
    (∀ bytes, 2 ^ (heap.alignment_unit + 5) ≤ bytes → bytes ≤ 2 ^ 62 →
      bytes ≤ heap.chunkSize64 bytes ∧ 8 * (heap.chunkSize64 bytes - bytes) < bytes) ∧
    ∀ bytes bytes', bytes ≤ bytes' → bytes' ≤ 2 ^ 62 →
      heap.getAllocBytes64 bytes ≤ heap.getAllocBytes64 bytes' ∧
        heap.classIndex bytes ≤ heap.classIndex bytes' ∧
        (heap.classIndex bytes' < 2 ^ 31 → heap.getIndex64 bytes = heap.classIndex bytes ∧
          heap.getIndex64 bytes' = heap.classIndex bytes') := by
  constructor
  · intro bytes hlarge hb
    rw [chunkSize64_of_le hhigh hb]
    exact chunkSize_waste (heap.pow_add_page 5 ▸ hlarge)
  · intro bytes bytes' hle hb
    have hindex := classIndex_mono hhigh hle hb
    refine ⟨?_, hindex, fun hfits => ⟨?_, getIndex64_eq_classIndex hfits⟩⟩
    · rw [getAllocBytes64_word hhigh (hle.trans hb), getAllocBytes64_word hhigh hb]
      exact heap.getAllocBytes_mono hle
    · exact getIndex64_eq_classIndex (hindex.trans_lt hfits)

open XheapSession in
/-- The first request that is not small, and the one before it. -/
theorem rounding_bounded_first :
    (1024 ≤ (smallHeap 456).chunkSize64 1024 ∧
        8 * ((smallHeap 456).chunkSize64 1024 - 1024) < 1024) ∧
      (smallHeap 456).getAllocBytes64 1023 ≤ (smallHeap 456).getAllocBytes64 1024 ∧
      (smallHeap 456).classIndex 1023 ≤ (smallHeap 456).classIndex 1024 := by
  have h := @rounding_bounded (smallHeap 456) (by decide)
  have horder := h.2 1023 1024 (by decide) (by decide)
  exact ⟨h.1 1024 (by decide) (by decide), horder.1, horder.2.1⟩

end Xheap

end Libxseg
