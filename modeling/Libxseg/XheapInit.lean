import Mathlib.Data.Int.ModEq
import Libxseg.XheapAnySize

/-!
# xheap_init for any size

The arguments of `xheap_init` are words, and its sums and differences wrap around. Its last
test compares the start of the unused part with `size - heap_page`, which is a large number
when the block is smaller than a page. The index of the size, which says how many list heads
are cleared, is cut to an `int` and can come out as 0 for a block of some terabytes.
-/

namespace Libxseg

set_option autoImplicit false

/-- What is passed to `xheap_init`: words, and a block that ends inside the address space. -/
structure GivenBlock (size alignment_unit mem : Nat) : Prop where
  unit_le : alignment_unit ≤ 20
  size_lt : size < 2 ^ 64
  mem_lt : mem < 2 ^ 64
  fits : mem + size ≤ 2 ^ 64

namespace Xheap

/-- `while (cur < bound) cur += heap_page` on words. There is no result after as many turns as
there are words, when the loop has no end. -/
def growTo64 (heap_page bound : Nat) : Nat → Nat → Option Nat
  | 0, _ => none
  | fuel + 1, cur =>
    if cur < bound then growTo64 heap_page bound fuel ((cur + heap_page) % 2 ^ 64) else some cur

/-- `sizeof(xptr *) * r`, for the number `r` of list heads. -/
def indexBytes (heap : Xheap) : Nat := (8 * heap.getIndex64 heap.size % 2 ^ 64).toNat

/-- `xheap_init` -/
def init64 (m : Memory) (self size alignment_unit mem : Nat) : Option (Int × Memory × Xheap) :=
  let al_mem := align64 mem alignment_unit
  let diff := sub64 al_mem mem
  let heap_page := 1 <<< alignment_unit
  let heap : Xheap := { alignment_unit, size, cur := diff, mem, self }
  let r := heap.getIndex64 size
  if heap_page < sizeofHeader then some (-1, m, heap)
  else
    let cur := if diff < sizeofHeader then (diff + heap_page) % 2 ^ 64 else diff
    (growTo64 heap_page heap.indexBytes (2 ^ 64) (sub64 cur sizeofHeader)).map fun cur =>
      let heap := { heap with cur := cur }
      let m := (List.range r.toNat).foldl (fun m i => m.store64 (heap.freeList i) 0) m
      if cur ≥ sub64 size heap_page then (-1, m, heap) else (0, m, heap)

/-- The array of list heads lies below the unused part and inside the block, what is unused
starts so that chunks are aligned and has more than a page, and a request whose chunk is one
page gets it. -/
structure Usable (m : Memory) (heap : Xheap) : Prop where
  index_cur : heap.indexBytes ≤ heap.cur
  index_size : heap.indexBytes ≤ heap.size
  aligned : heap.page ∣ heap.mem + heap.cur + sizeofHeader
  room : heap.cur + heap.page < heap.size
  first : ∀ bytes, bytes + sizeofHeader ≤ heap.page → (allocate64 m heap bytes).1 ≠ 0

section Words
variable {x y unit shift : Nat}

theorem roundUp_le_of_dvd (hx : 0 < x) (hle : x ≤ y) (hd : unit ∣ y) : roundUp x unit ≤ y := by
  obtain ⟨k, rfl⟩ := hd
  have hlt : (x - 1) / unit < k := by
    apply Nat.div_lt_of_lt_mul
    omega
  calc roundUp x unit = ((x - 1) / unit + 1) * unit := rfl
    _ ≤ k * unit := Nat.mul_le_mul_right unit hlt
    _ = unit * k := Nat.mul_comm k unit

theorem align64_word (shift : Nat) (hx : 0 < x) (hle : x ≤ 2 ^ 64) :
    align64 (x % 2 ^ 64) shift = roundUp x (2 ^ shift) % 2 ^ 64 := by
  have hsub : sub64 (x % 2 ^ 64) 1 = x - 1 := by
    unfold sub64
    omega
  rw [align64, hsub, Nat.shiftRight_eq_div_pow, Nat.shiftLeft_eq, roundUp]

theorem sub64_word (hy : y ≤ x) (hpos : 0 < y) (hle : x ≤ 2 ^ 64) :
    sub64 (x % 2 ^ 64) y = x - y := by
  unfold sub64
  omega

theorem gap_eq {mem : Nat} (hmem0 : 0 < mem) (hmem : mem < 2 ^ 64) (hshift : shift ≤ 64) :
    sub64 (align64 mem shift) mem = align mem shift - mem := by
  have hle := roundUp_le_of_dvd hmem0 hmem.le (Nat.pow_dvd_pow 2 hshift)
  have hge := le_roundUp hmem0 (Nat.two_pow_pos shift)
  have hal := align64_word shift hmem0 hmem.le
  rw [Nat.mod_eq_of_lt hmem] at hal
  rw [hal, align_eq]
  exact sub64_word hge hmem0 hle

theorem gap_spec {mem : Nat} (hmem : mem < 2 ^ 64) (hshift : shift ≤ 64) :
    sub64 (align64 mem shift) mem < 2 ^ shift ∧
      2 ^ shift ∣ mem + sub64 (align64 mem shift) mem := by
  have hpos : 0 < 2 ^ shift := Nat.two_pow_pos shift
  cases Nat.eq_zero_or_pos mem with
  | inl hzero =>
    have hdvd : 2 ^ shift ∣ 2 ^ 64 := Nat.pow_dvd_pow 2 hshift
    have hal : align64 0 shift = 0 := by
      have hword := align64_word shift (Nat.two_pow_pos 64) (Nat.le_refl (2 ^ 64))
      rwa [Nat.mod_self, roundUp_of_dvd hdvd (Nat.two_pow_pos 64) hpos, Nat.mod_self] at hword
    rw [hzero, hal]
    exact ⟨hpos, Nat.dvd_zero _⟩
  | inr hmem0 =>
    have hge := le_roundUp hmem0 hpos
    have hlt : roundUp mem (2 ^ shift) < mem + 2 ^ shift := roundUp_lt hmem0
    rw [gap_eq hmem0 hmem hshift, align_eq, Nat.add_sub_cancel' hge]
    exact ⟨by omega, dvd_roundUp _ _⟩

end Words

section Loop
variable {heap_page bound fuel cur cur' : Nat}

theorem growTo64_spec (hd : heap_page ∣ 2 ^ 64) (hcur : cur < 2 ^ 64)
    (h : growTo64 heap_page bound fuel cur = some cur') :
    bound ≤ cur' ∧ cur' ≡ cur [MOD heap_page] := by
  induction fuel generalizing cur with
  | zero => cases h
  | succ fuel ih =>
    rw [growTo64] at h
    by_cases hlt : cur < bound
    · rw [if_pos hlt] at h
      obtain ⟨hle, hmod⟩ := ih (Nat.mod_lt _ (Nat.two_pow_pos 64)) h
      have hword : (cur + heap_page) % 2 ^ 64 ≡ cur + heap_page [MOD heap_page] :=
        (Nat.mod_modEq _ _).of_dvd hd
      have hpage : cur + heap_page ≡ cur [MOD heap_page] := Nat.add_mod_right cur heap_page
      exact ⟨hle, hmod.trans (hword.trans hpage)⟩
    · rw [if_neg hlt] at h
      obtain rfl := Option.some.inj h
      exact ⟨Nat.le_of_not_lt hlt, .rfl⟩

/-- Far from the last word the loop ends, at its start or less than a page behind its bound. -/
theorem growTo64_ends (fuel : Nat) (hpos : 0 < heap_page) (hle : bound + heap_page ≤ 2 ^ 64)
    (hfuel : bound ≤ cur + fuel) :
    ∃ cur', growTo64 heap_page bound (fuel + 1) cur = some cur' ∧
      (cur' = cur ∨ cur' < bound + heap_page) := by
  induction fuel generalizing cur with
  | zero => exact ⟨cur, if_neg (Nat.not_lt_of_le hfuel), .inl rfl⟩
  | succ fuel ih =>
    rw [growTo64]
    by_cases hlt : cur < bound
    · rw [if_pos hlt, Nat.mod_eq_of_lt (by omega)]
      have hfuel' : bound ≤ cur + heap_page + fuel := by omega
      obtain ⟨cur', hgrow, hnear⟩ := ih hfuel'
      exact ⟨cur', hgrow, .inr (by omega)⟩
    · rw [if_neg hlt]
      exact ⟨cur, rfl, .inl rfl⟩

end Loop

section Index
variable {heap : Xheap} {size x : Nat}

theorem unit_dvd_word (hunit : heap.alignment_unit ≤ 20) (size : Nat) :
    heap.unit size ∣ 2 ^ 64 := by
  have hpow (k : Nat) (hk : k ≤ 7) : 2 ^ k * heap.page ∣ 2 ^ 64 := by
    rw [← pow_add_page]
    exact Nat.pow_dvd_pow 2 (by omega)
  unfold unit
  split_ifs
  · exact Nat.one_mul heap.page ▸ hpow 0 (by decide)
  · exact hpow 2 (by decide)
  · exact hpow 7 (by decide)

/-- What a size is rounded to, when the header can be added to it. -/
theorem chunkSize64_word (hunit : heap.alignment_unit ≤ 20) (hsize : size + 24 ≤ 2 ^ 64) :
    heap.chunkSize64 size = heap.getAllocBytes size - 24 := by
  have hpos : 0 < size + 24 := by omega
  have hle := roundUp_le_of_dvd hpos hsize (unit_dvd_word hunit size)
  have hge := le_roundUp hpos (heap.unit_pos size)
  have halloc : heap.getAllocBytes64 size = roundUp (size + 24) (heap.unit size) % 2 ^ 64 := by
    simp only [getAllocBytes64, sizeofHeader, Nat.one_shiftLeft, align64_word _ hpos hsize, unit,
      pow_small, pow_medium, pow_medium_unit, pow_large_unit]
    split_ifs <;> rfl
  rw [getAllocBytes_eq, chunkSize64, halloc]
  exact sub64_word (by simp only [sizeofHeader]; omega) (by decide) hle

theorem getIndex64_of_lt (h : heap.classOf (heap.chunkSize64 size) < 2 ^ 31) :
    heap.getIndex64 size = heap.classOf (heap.chunkSize64 size) := by
  unfold getIndex64
  rw [← chunkSize64]
  exact Int.bmod_eq_of_le (by omega) (by omega)

theorem classOf_pos (h : heap.page ≤ x) : 0 < heap.classOf x := by
  rw [classOf_eq]
  split_ifs
  · exact Nat.div_pos h heap.page_pos
  · exact Nat.add_pos_left (by decide) _
  · exact Nat.add_pos_left (by decide) _

theorem classOf_lt (h : x < 1152 * heap.page) : heap.classOf x < 2 ^ 31 := by
  have hpage := heap.page_pos
  have hlarge : x / (128 * heap.page) < 9 := Nat.div_lt_of_lt_mul (by omega)
  rw [classOf_eq]
  split_ifs with hsmall hmedium
  · have : x / heap.page < 32 := Nat.div_lt_of_lt_mul (by omega)
    omega
  · have : x / (4 * heap.page) < 256 := Nat.div_lt_of_lt_mul (by omega)
    omega
  · omega

/-- A block of fewer than 1024 pages has the index of its rounded size. -/
theorem getIndex64_small (hunit : heap.alignment_unit ≤ 20) (hsize : size < 1024 * heap.page) :
    heap.getIndex64 size = heap.classOf (heap.getAllocBytes size - 24) := by
  have hpage : heap.page ≤ 2 ^ 20 := Nat.pow_le_pow_right (by decide) hunit
  have hword : heap.chunkSize64 size = heap.getAllocBytes size - 24 :=
    chunkSize64_word hunit (by omega)
  have hlt := heap.getAllocBytes_le size
  rw [← hword]
  apply getIndex64_of_lt
  rw [hword]
  exact classOf_lt (by omega)

theorem classOf_large (hpage : 32 ≤ heap.page) (hsize : 1024 * heap.page ≤ size) :
    heap.classOf (heap.getAllocBytes size - 24) = 1016 + (size + 23) / (128 * heap.page) := by
  have hle := heap.le_getAllocBytes size
  have hunits : heap.unit size = 128 * heap.page := by
    unfold unit
    rw [if_neg (by omega), if_neg (by omega)]
  have halloc : heap.getAllocBytes size =
      ((size + 23) / (128 * heap.page) + 1) * (128 * heap.page) := by
    rw [getAllocBytes_eq, hunits]
    rfl
  have hdiv : (heap.getAllocBytes size - 24) / (128 * heap.page) =
      (size + 23) / (128 * heap.page) := by
    rw [halloc]
    generalize (size + 23) / (128 * heap.page) = k
    have hmul : (k + 1) * (128 * heap.page) = k * (128 * heap.page) + 128 * heap.page :=
      Nat.succ_mul k (128 * heap.page)
    apply Nat.div_eq_of_lt_le
    · rw [hmul]
      omega
    · rw [hmul]
      omega
  rw [classOf_eq, if_neg (by omega), if_neg (by omega), hdiv]

theorem getIndex64_large (hunit : heap.alignment_unit ≤ 20) (hpage : 32 ≤ heap.page)
    (hsize : 1024 * heap.page ≤ size) (hword : size + 24 ≤ 2 ^ 64) :
    heap.getIndex64 size =
      Int.bmod (1016 + (size + 23) / (128 * heap.page) : Nat) (2 ^ 32) := by
  unfold getIndex64
  rw [← chunkSize64, chunkSize64_word hunit hword, classOf_large hpage hsize]

/-- With the header the last sizes of all wrap around, to one rounded unit. -/
theorem getIndex64_last (hunit : heap.alignment_unit ≤ 20) (hpage : 32 ≤ heap.page)
    (hsize : size < 2 ^ 64) (hword : 2 ^ 64 < size + 24) : heap.getIndex64 size = 55 := by
  have hpage' : heap.page ≤ 2 ^ 20 := Nat.pow_le_pow_right (by decide) hunit
  have htotal : (size + 24) % 2 ^ 64 = size + 24 - 2 ^ 64 := by omega
  have hround : roundUp (size + 24 - 2 ^ 64) (128 * heap.page) = 1 * (128 * heap.page) :=
    roundUp_eq (by omega) (by omega) (by decide)
  have halloc : heap.getAllocBytes64 size = 128 * heap.page % 2 ^ 64 := by
    have hal := align64_word (x := size + 24 - 2 ^ 64) (heap.alignment_unit + LARGE_AL_UNIT)
      (by omega) (by omega)
    rw [pow_large_unit, hround, Nat.one_mul, Nat.mod_eq_of_lt (by omega)] at hal
    simp only [getAllocBytes64, sizeofHeader, Nat.one_shiftLeft, htotal, pow_small, pow_medium]
    rw [if_neg (by omega), if_neg (by omega), hal]
  have hchunk : heap.chunkSize64 size = 128 * heap.page - 24 := by
    rw [chunkSize64, halloc]
    exact sub64_word (by simp only [sizeofHeader]; omega) (by decide) (by omega)
  have hdiv : (128 * heap.page - 24) / (4 * heap.page) = 31 :=
    Nat.div_eq_of_lt_le (by omega) (by omega)
  have hclass : heap.classOf (heap.chunkSize64 size) = 55 := by
    rw [hchunk, classOf_eq, if_neg (by omega), if_pos (by omega), hdiv]
  have hlt : heap.classOf (heap.chunkSize64 size) < 2 ^ 31 := by rw [hclass]; decide
  rw [getIndex64_of_lt hlt, hclass]
  rfl

/-- The number of the largest units in a size, of which there are a multiple of 2^32 in all. -/
theorem getIndex64_cases (hunit : heap.alignment_unit ≤ 20) (hpage : 32 ≤ heap.page)
    (hle : heap.page ≤ size) (hsize : size < 2 ^ 64) :
    ∃ k t, (size + 23) / (128 * heap.page) = k ∧ 2 ^ 64 = 2 ^ 32 * t * (128 * heap.page) ∧
      (0 < heap.getIndex64 size ∧ k < 9 ∨
        heap.getIndex64 size = Int.bmod (1016 + k : Nat) (2 ^ 32) ∧ k < 2 ^ 32 * t ∨
        heap.getIndex64 size = 55 ∧ k = 2 ^ 32 * t) := by
  have hpage' : heap.page ≤ 2 ^ 20 := Nat.pow_le_pow_right (by decide) hunit
  have hwords : 2 ^ 64 = 2 ^ 32 * 2 ^ (25 - heap.alignment_unit) * (128 * heap.page) := by
    rw [page, show (128 : Nat) = 2 ^ 7 from rfl, ← Nat.pow_add, ← Nat.pow_add, ← Nat.pow_add]
    congr 1
    omega
  refine ⟨_, 2 ^ (25 - heap.alignment_unit), rfl, hwords, ?_⟩
  generalize 2 ^ 32 * 2 ^ (25 - heap.alignment_unit) = units at hwords
  by_cases hword : size + 24 ≤ 2 ^ 64
  · by_cases hsmall : size < 1024 * heap.page
    · have hge := heap.le_getAllocBytes size
      have hrounded : heap.page ≤ heap.getAllocBytes size - 24 := by omega
      have hpos := classOf_pos hrounded
      rw [getIndex64_small hunit hsmall]
      exact .inl ⟨Int.natCast_pos.mpr hpos, Nat.div_lt_of_lt_mul (by omega)⟩
    · refine .inr (.inl ⟨getIndex64_large hunit hpage (Nat.le_of_not_lt hsmall) hword, ?_⟩)
      apply Nat.div_lt_of_lt_mul
      rw [Nat.mul_comm, ← hwords]
      omega
  · refine .inr (.inr ⟨getIndex64_last hunit hpage hsize (Nat.lt_of_not_le hword), ?_⟩)
    apply Nat.div_eq_of_lt_le
    · rw [← hwords]
      omega
    · rw [Nat.add_one_mul, ← hwords]
      omega

theorem getIndex64_eq_zero_iff (hunit : heap.alignment_unit ≤ 20) (hpage : 32 ≤ heap.page)
    (hle : heap.page ≤ size) (hsize : size < 2 ^ 64) :
    heap.getIndex64 size = 0 ↔ (size + 23) / (128 * heap.page) % 2 ^ 32 = 2 ^ 32 - 1016 := by
  obtain ⟨k, t, hk, -, hcases⟩ := getIndex64_cases hunit hpage hle hsize
  rw [hk]
  rcases hcases with ⟨hpos, hlt⟩ | ⟨hcut, -⟩ | ⟨hlast, hall⟩
  · omega
  · rw [hcut, ← Int.dvd_iff_bmod_eq_zero]
    omega
  · omega

/-- A size with a negative index leaves more room up to 2^64 than the array would take. -/
theorem le_of_getIndex64_neg (hunit : heap.alignment_unit ≤ 20) (hpage : 32 ≤ heap.page)
    (hle : heap.page ≤ size) (hsize : size < 2 ^ 64) (hneg : heap.getIndex64 size < 0) :
    (size : Int) ≤ 2 ^ 64 + 8 * heap.getIndex64 size := by
  obtain ⟨n, hn⟩ := Int.eq_ofNat_of_zero_le (Int.neg_nonneg_of_nonpos hneg.le)
  obtain ⟨k, t, hk, hwords, hcases⟩ := getIndex64_cases hunit hpage hle hsize
  rcases hcases with ⟨hpos, -⟩ | ⟨hcut, hlt⟩ | ⟨hlast, -⟩
  · exact absurd hpos (by omega)
  · have hlow := Int.le_bmod (x := (1016 + k : Nat)) (m := 2 ^ 32) (by decide)
    have hsplit := Int.bmod_add_bdiv (1016 + k : Nat) (2 ^ 32)
    rw [← hcut] at hlow hsplit
    generalize Int.bdiv _ _ = j at hsplit
    have hunits : k + 1 + n ≤ 2 ^ 32 * t := by omega
    have hmul := Nat.mul_le_mul_right (128 * heap.page) hunits
    rw [Nat.add_mul, ← hwords] at hmul
    have hwide : n * 8 ≤ n * (128 * heap.page) := Nat.mul_le_mul_left n (by omega)
    have hnext := Nat.lt_mul_div_succ (size + 23) (b := 128 * heap.page) (by omega)
    rw [hk, Nat.mul_comm] at hnext
    omega
  · omega

end Index

section Init
variable {m0 m : Memory} {heap : Xheap} {self size alignment_unit mem : Nat}

theorem getIndex64_cur (heap : Xheap) (cur bytes : Nat) :
    getIndex64 { heap with cur := cur } bytes = heap.getIndex64 bytes := by
  unfold getIndex64 getAllocBytes64 classOf
  rfl

theorem indexBytes_cur (heap : Xheap) (cur : Nat) :
    indexBytes { heap with cur := cur } = heap.indexBytes := by
  unfold indexBytes
  rw [getIndex64_cur]

def cleared (m : Memory) (heap : Xheap) : Memory :=
  (List.range (heap.getIndex64 heap.size).toNat).foldl
    (fun m (i : Nat) => m.store64 (heap.freeList i) 0) m

theorem start_eq {gap heap_page : Nat} (hpage : 32 ≤ heap_page) (hpage' : heap_page ≤ 2 ^ 20)
    (hgap : gap < heap_page) :
    sub64 (if gap < sizeofHeader then (gap + heap_page) % 2 ^ 64 else gap) sizeofHeader =
      (if gap < sizeofHeader then gap + heap_page else gap) - sizeofHeader := by
  unfold sizeofHeader
  by_cases hnear : gap < 24
  · rw [if_pos hnear, if_pos hnear]
    exact sub64_word (by omega) (by decide) (by omega)
  · rw [if_neg hnear, if_neg hnear]
    exact sub64_eq (by omega) (by omega)

/-- Where the loop starts: room for a header in front of an aligned address. -/
theorem start_spec {gap heap_page : Nat} (hpage : 32 ≤ heap_page) (hpage' : heap_page ≤ 2 ^ 20)
    (hgap : gap < heap_page) (hd : heap_page ∣ mem + gap) :
    ∃ cur, sub64 (if gap < sizeofHeader then (gap + heap_page) % 2 ^ 64 else gap) sizeofHeader =
        cur ∧ cur < 2 * heap_page ∧ heap_page ∣ mem + cur + sizeofHeader := by
  refine ⟨_, start_eq hpage hpage' hgap, ?_⟩
  unfold sizeofHeader
  by_cases hnear : gap < 24
  · rw [if_pos hnear]
    refine ⟨by omega, ?_⟩
    rw [Nat.add_assoc, Nat.sub_add_cancel (by omega), ← Nat.add_assoc]
    exact Nat.dvd_add_self_right.mpr hd
  · rw [if_neg hnear]
    refine ⟨by omega, ?_⟩
    rwa [Nat.add_assoc, Nat.sub_add_cancel (by omega)]

theorem init64_eq (m : Memory) (hpage : 32 ≤ heap.page) {start : Nat}
    (hstart : sub64 (if sub64 (align64 heap.mem heap.alignment_unit) heap.mem < sizeofHeader then
        (sub64 (align64 heap.mem heap.alignment_unit) heap.mem + heap.page) % 2 ^ 64
      else sub64 (align64 heap.mem heap.alignment_unit) heap.mem) sizeofHeader = start) :
    init64 m heap.self heap.size heap.alignment_unit heap.mem =
      (growTo64 heap.page heap.indexBytes (2 ^ 64) start).map fun cur =>
        (if cur ≥ sub64 heap.size heap.page then -1 else 0,
          cleared m { heap with cur := cur }, { heap with cur := cur }) := by
  rw [page] at hpage hstart ⊢
  simp only [init64, Nat.one_shiftLeft, hstart]
  rw [if_neg (by simp only [sizeofHeader]; omega)]
  generalize sub64 (align64 heap.mem heap.alignment_unit) heap.mem = gap
  rw [indexBytes_cur heap gap, getIndex64_cur heap gap]
  apply Option.map_congr
  intro cur _
  unfold cleared
  rw [getIndex64_cur heap cur]
  by_cases hroom : cur ≥ sub64 heap.size (2 ^ heap.alignment_unit)
  · rw [if_pos hroom, if_pos hroom]
  · rw [if_neg hroom, if_neg hroom]

theorem init64_unit_lt (hunit : alignment_unit < 5) :
    init64 m0 self size alignment_unit mem ≠ some (0, m, heap) := by
  have hpow : 2 ^ alignment_unit ≤ 2 ^ 4 := Nat.pow_le_pow_right (by decide) (by omega)
  intro h
  simp only [init64, Nat.one_shiftLeft, sizeofHeader] at h
  rw [if_pos (by omega)] at h
  exact absurd (Prod.mk.inj (Option.some.inj h)).1 (by decide)

/-- A call that returns has come behind the array and kept the alignment. -/
theorem init64_returns {heap' : Xheap} (hb : GivenBlock heap.size heap.alignment_unit heap.mem)
    (hunit : 5 ≤ heap.alignment_unit)
    (h : init64 m0 heap.self heap.size heap.alignment_unit heap.mem = some (0, m, heap')) :
    ∃ cur, heap' = { heap with cur := cur } ∧ m = cleared m0 { heap with cur := cur } ∧
      heap.indexBytes ≤ cur ∧ heap.page ∣ heap.mem + cur + sizeofHeader ∧
      cur < sub64 heap.size heap.page := by
  have hpage : 2 ^ 5 ≤ heap.page := Nat.pow_le_pow_right (by decide) hunit
  have hpage' : heap.page ≤ 2 ^ 20 := Nat.pow_le_pow_right (by decide) hb.unit_le
  have hdvd : heap.page ∣ 2 ^ 64 := Nat.pow_dvd_pow 2 (by have := hb.unit_le; omega)
  obtain ⟨hgap, hd⟩ := gap_spec hb.mem_lt (hb.unit_le.trans (by decide))
  obtain ⟨start, hstart, hlt, haligned⟩ := start_spec hpage hpage' hgap hd
  rw [init64_eq m0 hpage hstart] at h
  obtain ⟨cur, hgrow, hcur⟩ := Option.map_eq_some_iff.mp h
  obtain ⟨hbound, hmod⟩ := growTo64_spec hdvd (by omega) hgrow
  obtain ⟨hret, hstate⟩ := Prod.mk.inj hcur
  obtain ⟨hm, hheap⟩ := Prod.mk.inj hstate
  have hroom : ¬ cur ≥ sub64 heap.size heap.page := by
    intro hlarge
    rw [if_pos hlarge] at hret
    exact absurd hret (by decide)
  have hsame : heap.mem + cur + sizeofHeader ≡ heap.mem + start + sizeofHeader [MOD heap.page] :=
    (hmod.add_left heap.mem).add_right sizeofHeader
  exact ⟨cur, hheap.symm, hm.symm, hbound, (hsame.dvd_iff (Nat.dvd_refl _)).mpr haligned,
    Nat.lt_of_not_le hroom⟩

/-- With at most one list head the loop ends near the start of the block. -/
theorem init64_near (m : Memory) (hb : GivenBlock heap.size heap.alignment_unit heap.mem)
    (hunit : 5 ≤ heap.alignment_unit) (hindex : heap.indexBytes ≤ 8)
    (hroom : 3 * heap.page ≤ sub64 heap.size heap.page) :
    ∃ cur, cur < 3 * heap.page ∧
      init64 m heap.self heap.size heap.alignment_unit heap.mem =
        some (0, cleared m { heap with cur := cur }, { heap with cur := cur }) := by
  have hpage : 2 ^ 5 ≤ heap.page := Nat.pow_le_pow_right (by decide) hunit
  have hpage' : heap.page ≤ 2 ^ 20 := Nat.pow_le_pow_right (by decide) hb.unit_le
  obtain ⟨hgap, hd⟩ := gap_spec hb.mem_lt (hb.unit_le.trans (by decide))
  obtain ⟨start, hstart, hlt, -⟩ := start_spec hpage hpage' hgap hd
  have hpos : 0 < heap.page := by omega
  have hfirst : heap.indexBytes + heap.page ≤ 2 ^ 64 := by omega
  have hfuel : heap.indexBytes ≤ start + (2 ^ 64 - 1) := by omega
  obtain ⟨cur, hgrow, hnear⟩ := growTo64_ends (2 ^ 64 - 1) hpos hfirst hfuel
  have hlow : cur < 3 * heap.page := by omega
  refine ⟨cur, hlow, ?_⟩
  rw [init64_eq m hpage hstart]
  apply Option.map_eq_some_iff.mpr
  exact ⟨cur, hgrow, by rw [if_neg (by omega)]⟩

end Init

section Usable
variable {m0 m : Memory} {heap : Xheap} {self size alignment_unit mem bytes : Nat}

/-- The index is not negative, or the array is larger than what is left behind the block. -/
theorem indexBytes_cases (heap : Xheap) :
    0 ≤ heap.getIndex64 heap.size ∧ heap.indexBytes = 8 * (heap.getIndex64 heap.size).toNat ∨
      heap.getIndex64 heap.size < 0 ∧
        (heap.indexBytes : Int) = 2 ^ 64 + 8 * heap.getIndex64 heap.size := by
  unfold indexBytes getIndex64
  generalize ((heap.classOf _ : Nat) : Int) = x
  have hlt := Int.bmod_lt (x := x) (m := 2 ^ 32) (by decide)
  have hge := Int.le_bmod (x := x) (m := 2 ^ 32) (by decide)
  omega

theorem getAllocBytes_page (hpage : 32 ≤ heap.page) (hle : bytes + 24 ≤ heap.page) :
    heap.getAllocBytes bytes = heap.page := by
  have hunits : heap.unit bytes = heap.page := if_pos (by omega)
  rw [getAllocBytes_eq, hunits, roundUp_eq (k := 1) (by omega) (by omega) (by decide),
    Nat.one_mul]

theorem getIndex64_page (hpage : 32 ≤ heap.page) (hpage' : heap.page ≤ 2 ^ 20)
    (hle : bytes + 24 ≤ heap.page) : heap.getIndex64 bytes = 0 := by
  have hclass : heap.classOf (heap.page - 24) = 0 := by
    rw [classOf_eq, if_pos (by omega)]
    exact Nat.div_eq_of_lt (by omega)
  have hunit : heap.alignment_unit ≤ 20 := (Nat.pow_le_pow_iff_right (by decide)).mp hpage'
  have hfew : bytes < 1024 * heap.page := by omega
  have hsmall := getIndex64_small hunit hfew
  rw [getAllocBytes_page hpage hle, hclass] at hsmall
  exact hsmall

/-- With an empty first list and a page of room, a request of up to a page is served. -/
theorem allocate64_page (hpage : 32 ≤ heap.page) (hpage' : heap.page ≤ 2 ^ 20)
    (hmem : heap.mem < 2 ^ 64) (hsize : heap.size < 2 ^ 64) (hhead : m.load64 heap.mem = 0)
    (hroom : heap.cur + heap.page < heap.size) (hle : bytes + 24 ≤ heap.page) :
    (allocate64 m heap bytes).1 ≠ 0 := by
  have halloc := getAllocBytes_page hpage hle
  have hword : heap.getAllocBytes64 bytes = heap.page :=
    (getAllocBytes64_eq (by omega)).trans halloc
  have hcell : heap.freeList 0 = heap.mem := freeList_natCast (r := 0) (by omega)
  apply allocate64_ne_zero.mpr
  refine .inl ⟨?_, ?_, ?_⟩
  · rw [getIndex64_page hpage hpage' hle, hcell]
    exact hhead
  · rw [hword, Nat.mod_eq_of_lt (by omega)]
    exact hroom.le
  · rw [chunkSize64, hword, sub64_eq (by omega) (by simp only [sizeofHeader]; omega), sizeofHeader]
    omega

/-- What `xheap_init` accepts is usable if it is at least a page and its index is not cut to 0. -/
theorem usable_of_init64 (heap : Xheap) {heap' : Xheap}
    (hb : GivenBlock heap.size heap.alignment_unit heap.mem) (hunit : 5 ≤ heap.alignment_unit)
    (hle : heap.page ≤ heap.size)
    (hcut : (heap.size + 23) / (128 * heap.page) % 2 ^ 32 ≠ 2 ^ 32 - 1016)
    (h : init64 m0 heap.self heap.size heap.alignment_unit heap.mem = some (0, m, heap')) :
    Usable m heap' := by
  have hpage : 2 ^ 5 ≤ heap.page := Nat.pow_le_pow_right (by decide) hunit
  have hpage' : heap.page ≤ 2 ^ 20 := Nat.pow_le_pow_right (by decide) hb.unit_le
  have hsize := hb.size_lt
  have hfits := hb.fits
  obtain ⟨cur, rfl, hm, hbound, haligned, hroom⟩ := init64_returns hb hunit h
  rw [sub64_eq hsize hle] at hroom
  -- the loop has not come behind the array of a negative index
  have hindex : 0 ≤ heap.getIndex64 heap.size ∧
      heap.indexBytes = 8 * (heap.getIndex64 heap.size).toNat := by
    apply (indexBytes_cases heap).resolve_right
    intro ⟨hneg, hbytes⟩
    have := le_of_getIndex64_neg hb.unit_le hpage hle hsize hneg
    omega
  have hpos : heap.getIndex64 heap.size ≠ 0 := fun hzero =>
    hcut ((getIndex64_eq_zero_iff hb.unit_le hpage hle hsize).mp hzero)
  have hhead : m.load64 heap.mem = 0 := by
    rw [hm]
    unfold cleared
    rw [getIndex64_cur heap cur]
    apply XheapSession.clear_cells { heap with cur := cur } m0 _ _ 0 _
    · change heap.mem + 8 * (heap.getIndex64 heap.size).toNat ≤ 2 ^ 64
      omega
    · change 0 < (heap.getIndex64 heap.size).toNat
      omega
  have hlt : cur + heap.page < heap.size := by omega
  have hserves (bytes : Nat) (hle : bytes + 24 ≤ heap.page) :
      (allocate64 m { heap with cur := cur } bytes).1 ≠ 0 :=
    allocate64_page hpage hpage' hb.mem_lt hsize hhead hlt hle
  have hfit : heap.indexBytes ≤ heap.size := by omega
  refine ⟨?_, ?_, haligned, hlt, hserves⟩
  · rw [indexBytes_cur heap cur]
    exact hbound
  · rw [indexBytes_cur heap cur]
    exact hfit

theorem exists_init64_short (heap : Xheap) (m : Memory)
    (hb : GivenBlock heap.size heap.alignment_unit heap.mem)
    (hunit : 5 ≤ heap.alignment_unit) (hshort : heap.size < heap.page) :
    ∃ cur m', init64 m heap.self heap.size heap.alignment_unit heap.mem =
      some (0, m', { heap with cur := cur }) := by
  have hpage : 2 ^ 5 ≤ heap.page := Nat.pow_le_pow_right (by decide) hunit
  have hpage' : heap.page ≤ 2 ^ 20 := Nat.pow_le_pow_right (by decide) hb.unit_le
  have hunits : heap.unit heap.size = heap.page := if_pos (by omega)
  have hround : heap.getAllocBytes heap.size < 2 * heap.page + 24 := by
    have hlt : roundUp (heap.size + 24) heap.page < heap.size + 24 + heap.page :=
      roundUp_lt (by omega)
    rw [getAllocBytes_eq, hunits]
    omega
  have hclass : heap.classOf (heap.getAllocBytes heap.size - 24) < 2 := by
    rw [classOf_eq, if_pos (by omega)]
    exact Nat.div_lt_of_lt_mul (by omega)
  have hindex : heap.getIndex64 heap.size = heap.classOf (heap.getAllocBytes heap.size - 24) :=
    getIndex64_small hb.unit_le (by omega)
  have hbytes : heap.indexBytes ≤ 8 := by
    unfold indexBytes
    omega
  have hwrap : 3 * heap.page ≤ sub64 heap.size heap.page := by
    unfold sub64
    omega
  obtain ⟨cur, -, hinit⟩ := init64_near m hb hunit hbytes hwrap
  exact ⟨cur, _, hinit⟩

theorem exists_init64_uncleared (heap : Xheap) (m : Memory)
    (hb : GivenBlock heap.size heap.alignment_unit heap.mem) (hunit : 5 ≤ heap.alignment_unit)
    (hle : heap.page ≤ heap.size)
    (hcut : (heap.size + 23) / (128 * heap.page) % 2 ^ 32 = 2 ^ 32 - 1016) :
    ∃ cur, cur < 3 * heap.page ∧ init64 m heap.self heap.size heap.alignment_unit heap.mem =
      some (0, m, { heap with cur := cur }) := by
  have hpage : 2 ^ 5 ≤ heap.page := Nat.pow_le_pow_right (by decide) hunit
  have hindex : heap.getIndex64 heap.size = 0 :=
    (getIndex64_eq_zero_iff hb.unit_le hpage hle hb.size_lt).mpr hcut
  have hbytes : heap.indexBytes = 0 := by
    unfold indexBytes
    rw [hindex]
    rfl
  have hlarge : 4 * heap.page ≤ heap.size := by
    by_contra hsmall
    have hdiv : (heap.size + 23) / (128 * heap.page) = 0 := Nat.div_eq_of_lt (by omega)
    rw [hdiv] at hcut
    exact absurd hcut (by decide)
  have hroom : 3 * heap.page ≤ sub64 heap.size heap.page := by
    rw [sub64_eq hb.size_lt hle]
    omega
  obtain ⟨cur, hcur, hinit⟩ := init64_near m hb hunit (by omega) hroom
  have hsame : cleared m { heap with cur := cur } = m := by
    unfold cleared
    rw [getIndex64_cur heap cur, hindex]
    rfl
  rw [hsame] at hinit
  exact ⟨cur, hcur, hinit⟩

/-- A first list head that was not cleared can stop every request of its class. -/
theorem allocate64_uncleared (heap : Xheap) (hpage : 32 ≤ heap.page) (hpage' : heap.page ≤ 2 ^ 20)
    (hmem : heap.mem < 2 ^ 64) (hbad : heap.cur < m.load64 heap.mem)
    (hle : bytes + 24 ≤ heap.page) : (allocate64 m heap bytes).1 = 0 := by
  have hcell : heap.freeList (heap.getIndex64 bytes) = heap.mem := by
    rw [getIndex64_page hpage hpage' hle]
    exact freeList_natCast (r := 0) (by omega)
  have hchunk : allocateChunk64 m heap bytes = (0, m, heap) := by
    apply allocateChunk64_bad
    · rw [hcell]
      omega
    · rw [hcell]
      exact hbad
  rw [allocate64_null hchunk]

theorem load64_full (a : Nat) : Memory.load64 (fun _ => 0xFF) a = 2 ^ 64 - 1 := by
  simp [Memory.load64, Memory.loadBytes]

theorem page_le_of_usable (heap : Xheap)
    (hb : GivenBlock heap.size heap.alignment_unit heap.mem) (hunit : 5 ≤ heap.alignment_unit)
    (huse : ∀ m0 m heap', init64 m0 heap.self heap.size heap.alignment_unit heap.mem =
      some (0, m, heap') → Usable m heap') : heap.page ≤ heap.size := by
  by_contra hshort
  obtain ⟨cur, m, hinit⟩ :=
    exists_init64_short heap (fun _ => 0) hb hunit (Nat.lt_of_not_le hshort)
  have hroom : cur + heap.page < heap.size := (huse _ _ _ hinit).room
  omega

/-- A memory full of ones shows whether the first list head is cleared. -/
theorem not_cut_of_usable (heap : Xheap)
    (hb : GivenBlock heap.size heap.alignment_unit heap.mem) (hunit : 5 ≤ heap.alignment_unit)
    (huse : ∀ m0 m heap', init64 m0 heap.self heap.size heap.alignment_unit heap.mem =
      some (0, m, heap') → Usable m heap') :
    (heap.size + 23) / (128 * heap.page) % 2 ^ 32 ≠ 2 ^ 32 - 1016 := by
  intro hcut
  have hpage : 2 ^ 5 ≤ heap.page := Nat.pow_le_pow_right (by decide) hunit
  have hpage' : heap.page ≤ 2 ^ 20 := Nat.pow_le_pow_right (by decide) hb.unit_le
  have hle := page_le_of_usable heap hb hunit huse
  obtain ⟨cur, hcur, hinit⟩ := exists_init64_uncleared heap (fun _ => 0xFF) hb hunit hle hcut
  have hbad : cur < Memory.load64 (fun _ => 0xFF) heap.mem := by
    rw [load64_full]
    omega
  have hheader : 0 + 24 ≤ heap.page := by omega
  apply (huse _ _ _ hinit).first 0 hheader
  exact allocate64_uncleared { heap with cur := cur } hpage hpage' hb.mem_lt hbad hheader

end Usable

/-- Whatever the memory has been, `xheap_init` accepts only usable heaps exactly when no header
fits a page, or the block has a page and an index that is not cut to 0. -/
theorem init64_usable_iff (self : Nat) {size alignment_unit mem : Nat}
    (hb : GivenBlock size alignment_unit mem) :
    (∀ m0 m heap, init64 m0 self size alignment_unit mem = some (0, m, heap) → Usable m heap) ↔
      alignment_unit < 5 ∨ 2 ^ alignment_unit ≤ size ∧
        (size + 23) / (128 * 2 ^ alignment_unit) % 2 ^ 32 ≠ 2 ^ 32 - 1016 := by
  by_cases hunit : alignment_unit < 5
  · constructor
    · intro _
      exact .inl hunit
    · intro _ m0 m heap h
      exact absurd h (init64_unit_lt hunit)
  · have hunit' : 5 ≤ alignment_unit := Nat.le_of_not_lt hunit
    constructor
    · intro huse
      exact .inr ⟨page_le_of_usable ⟨alignment_unit, size, 0, mem, self⟩ hb hunit' huse,
        not_cut_of_usable ⟨alignment_unit, size, 0, mem, self⟩ hb hunit' huse⟩
    · intro hcond m0 m heap h
      obtain ⟨hle, hcut⟩ := hcond.resolve_left hunit
      exact usable_of_init64 ⟨alignment_unit, size, 0, mem, self⟩ hb hunit' hle hcut h

/-- A block of 4096 bytes is accepted and usable. -/
theorem init64_usable_iff_small : ∃ m, init64 (fun _ => 0) 8 4096 5 4096 =
    some (0, m, XheapSession.smallHeap 456) ∧ Usable m (XheapSession.smallHeap 456) := by
  have hcall : (init64 (fun _ => 0) 8 4096 5 4096).map (fun r => (r.1, r.2.2)) =
      some (0, XheapSession.smallHeap 456) := by decide +kernel
  obtain ⟨r, hinit, hr⟩ := Option.map_eq_some_iff.mp hcall
  obtain ⟨status, m, heap⟩ := r
  obtain ⟨rfl, rfl⟩ := Prod.mk.inj hr
  have hb : GivenBlock 4096 5 4096 := ⟨by decide, by decide, by decide, by decide⟩
  exact ⟨m, hinit, (init64_usable_iff 8 hb).mpr (by decide) _ m _ hinit⟩

/-- A block of 8 bytes is accepted, with pages of 32 bytes. -/
theorem not_init64_usable : ¬ ∀ (m0 m : Memory) (heap : Xheap) (self size alignment_unit mem : Nat),
    GivenBlock size alignment_unit mem →
      init64 m0 self size alignment_unit mem = some (0, m, heap) → Usable m heap := by
  intro huse
  have hb : GivenBlock 8 5 4096 := ⟨by decide, by decide, by decide, by decide⟩
  obtain ⟨cur, m, hinit⟩ := exists_init64_short ⟨5, 8, 0, 4096, 8⟩ (fun _ => 0) hb
    (by decide) (by decide)
  have hroom : cur + 32 < 8 := (huse _ m _ 8 8 5 4096 hb hinit).room
  omega

end Xheap

end Libxseg
