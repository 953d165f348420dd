import Libxseg.XheapInit
import Libxseg.XsegSpec

/-!
# The size of a segment: calculate_segment_size and initialize_segment

One function says how much memory is asked for, the other how large the segment says it is
and where its heap begins. Sizes are 64-bit words, but twice the size of a page is taken in
32 bits, and only the first function rounds up to pages.

Of the objects that `initialize_segment` makes on the heap only the outcome is here.
-/

namespace Libxseg

set_option autoImplicit false

def XSEG_MIN_PAGE_SIZE : UInt32 := 4096

/-- `sizeof(struct xheap)`: the unit, the size, `cur`, the lock of two words and the pointer. -/
def sizeofXheap : UInt64 := 48

/-- The macro `__align` for a 64-bit size. -/
def alignSize (size : UInt64) (page_shift : UInt32) : UInt64 :=
  .ofNat (Xheap.align64 size.toNat page_shift.toNat)

def calculateSegmentSize (config : XsegConfig) : UInt64 :=
  let page_shift := config.page_shift
  if page_shift < 9 then 0
  else
    let page_size : UInt32 := 1 <<< page_shift
    -- the product is an `uint32_t`
    let size := (2 * page_size).toUInt64 + config.heap_size
    alignSize size page_shift

structure XsegHeader where
  segment_size : UInt64
  segment : UInt64
  heap : xptr
  heap_mem : UInt64

/-- What is called: `xheap_init` with the size, the unit and the block, and all that is made on
the heap after it. -/
structure InitAnswers where
  xheapInit : UInt64 → UInt32 → UInt64 → Int
  objects : Int

def initializeSegment (ans : InitAnswers) (xseg : UInt64) (hdr : XsegHeader) (cfg : XsegConfig) :
    Int × XsegHeader :=
  let page_shift := cfg.page_shift
  let page_size : UInt32 := 1 <<< page_shift
  let size := page_size.toUInt64
  if xseg = 0 then (-1, hdr)
  else if page_size < XSEG_MIN_PAGE_SIZE then (-1, hdr)
  else
    let hdr := { hdr with segment_size := (2 * page_size).toUInt64 + cfg.heap_size, segment := xseg }
    let hdr := { hdr with heap := xseg + size - xseg }
    let size := size + sizeofXheap
    let size := alignSize size page_shift
    let hdr := { hdr with heap_mem := xseg + size }
    let r := ans.xheapInit cfg.heap_size page_shift hdr.heap_mem
    if r < 0 then (-1, hdr) else (ans.objects, hdr)

structure InSync (cfg : XsegConfig) (hdr : XsegHeader) : Prop where
  size_eq : hdr.segment_size = calculateSegmentSize cfg
  heap_inside : ∀ x < cfg.heap_size.toNat,
    (hdr.heap_mem - hdr.segment).toNat + x < (calculateSegmentSize cfg).toNat

section Sync
variable {cfg : XsegConfig} {ans : InitAnswers} {xseg : UInt64} {hdr hdr' : XsegHeader}

def sumSize (cfg : XsegConfig) : Nat :=
  (2 * 2 ^ cfg.page_shift.toNat % 2 ^ 32 + cfg.heap_size.toNat) % 2 ^ 64

theorem pageSize_toNat {shift : UInt32} (hshift : shift.toNat ≤ 31) :
    ((1 : UInt32) <<< shift).toNat = 2 ^ shift.toNat := by
  have hpow : 2 ^ shift.toNat ≤ 2 ^ 31 := Nat.pow_le_pow_right (by decide) hshift
  have hmod : shift.toNat % 32 = shift.toNat := Nat.mod_eq_of_lt (by omega)
  have hone : (1 : UInt32).toNat = 1 := rfl
  rw [UInt32.toNat_shiftLeft, hmod, hone, Nat.one_shiftLeft, Nat.mod_eq_of_lt (by omega)]

theorem sum_toNat (hshift : cfg.page_shift.toNat ≤ 31) :
    ((2 * ((1 : UInt32) <<< cfg.page_shift)).toUInt64 + cfg.heap_size).toNat = sumSize cfg := by
  rw [UInt64.toNat_add, UInt32.toNat_toUInt64, UInt32.toNat_mul, pageSize_toNat hshift]
  rfl

theorem alignSize_toNat {size : UInt64} {shift : UInt32} (hsize : 0 < size.toNat) :
    (alignSize size shift).toNat = roundUp size.toNat (2 ^ shift.toNat) % 2 ^ 64 := by
  have hword := Xheap.align64_word shift.toNat hsize size.toNat_lt.le
  rw [Nat.mod_eq_of_lt size.toNat_lt] at hword
  rw [alignSize, hword]
  exact UInt64.toNat_ofNat_of_lt' (Nat.mod_lt _ (by decide))

theorem alignSize_zero {shift : UInt32} (hshift : shift.toNat ≤ 64) : alignSize 0 shift = 0 := by
  have hword := Xheap.align64_word shift.toNat (Nat.two_pow_pos 64) (Nat.le_refl (2 ^ 64))
  rw [Nat.mod_self, roundUp_of_dvd (Nat.pow_dvd_pow 2 hshift) (Nat.two_pow_pos 64)
    (Nat.two_pow_pos _), Nat.mod_self] at hword
  exact congrArg UInt64.ofNat hword

theorem calculateSegmentSize_spec (hlow : 9 ≤ cfg.page_shift.toNat)
    (hhigh : cfg.page_shift.toNat ≤ 31) (hcalc : calculateSegmentSize cfg ≠ 0) :
    0 < sumSize cfg ∧
      (calculateSegmentSize cfg).toNat = roundUp (sumSize cfg) (2 ^ cfg.page_shift.toNat) := by
  have hshift : ¬ cfg.page_shift < 9 := by
    rw [UInt32.lt_iff_toNat_lt]
    exact Nat.not_lt_of_le hlow
  rw [calculateSegmentSize, if_neg hshift] at hcalc ⊢
  dsimp only at hcalc ⊢
  have hsum := sum_toNat hhigh
  generalize (2 * ((1 : UInt32) <<< cfg.page_shift)).toUInt64 + cfg.heap_size = sum at *
  have hpos : 0 < sumSize cfg := by
    apply Nat.pos_of_ne_zero
    intro hzero
    obtain rfl : sum = 0 := UInt64.toNat_inj.mp (hsum.trans hzero)
    exact hcalc (alignSize_zero (hhigh.trans (by decide)))
  refine ⟨hpos, ?_⟩
  have hlt : sumSize cfg ≤ 2 ^ 64 := hsum ▸ sum.toNat_lt.le
  have hle := Xheap.roundUp_le_of_dvd hpos hlt (Nat.pow_dvd_pow 2 (hhigh.trans (by decide)))
  have halign : (alignSize sum cfg.page_shift).toNat =
      roundUp sum.toNat (2 ^ cfg.page_shift.toNat) % 2 ^ 64 := alignSize_toNat (hsum ▸ hpos)
  rw [hsum] at halign
  rw [halign]
  rcases hle.eq_or_lt with heq | hlt
  · rw [heq, Nat.mod_self] at halign
    exact absurd (UInt64.toNat_inj.mp halign) hcalc
  · exact Nat.mod_eq_of_lt hlt

theorem initializeSegment_spec (hlow : 12 ≤ cfg.page_shift.toNat)
    (hhigh : cfg.page_shift.toNat ≤ 31)
    (hinit : initializeSegment ans xseg hdr cfg = (0, hdr')) :
    hdr'.segment_size.toNat = sumSize cfg ∧
      (hdr'.heap_mem - hdr'.segment).toNat = 2 * 2 ^ cfg.page_shift.toNat := by
  unfold initializeSegment at hinit
  dsimp only at hinit
  have hfailed {h : XsegHeader} : ((-1 : Int), h) ≠ (0, hdr') :=
    fun heq => absurd (Prod.mk.inj heq).1 (by decide)
  by_cases hnull : xseg = 0
  · rw [if_pos hnull] at hinit
    exact absurd hinit hfailed
  rw [if_neg hnull] at hinit
  split at hinit
  · exact absurd hinit hfailed
  split at hinit
  · exact absurd hinit hfailed
  obtain ⟨-, rfl⟩ := Prod.mk.inj hinit
  refine ⟨sum_toNat hhigh, ?_⟩
  have hpage : 2 ^ 12 ≤ 2 ^ cfg.page_shift.toNat := Nat.pow_le_pow_right (by decide) hlow
  have hpage' : 2 ^ cfg.page_shift.toNat ≤ 2 ^ 31 := Nat.pow_le_pow_right (by decide) hhigh
  have hsize : (((1 : UInt32) <<< cfg.page_shift).toUInt64 + sizeofXheap).toNat =
      2 ^ cfg.page_shift.toNat + 48 := by
    have hheap : sizeofXheap.toNat = 48 := rfl
    rw [UInt64.toNat_add, UInt32.toNat_toUInt64, pageSize_toNat hhigh, hheap]
    omega
  have hround : roundUp (2 ^ cfg.page_shift.toNat + 48) (2 ^ cfg.page_shift.toNat) =
      2 * 2 ^ cfg.page_shift.toNat := roundUp_eq (by omega) (by omega) (by decide)
  dsimp only
  rw [UInt64.add_comm, UInt64.add_sub_cancel, alignSize_toNat (by omega), hsize, hround]
  omega

theorem size_eq_iff (hhigh : cfg.page_shift.toNat ≤ 31) (hpos : 0 < sumSize cfg) :
    sumSize cfg = roundUp (sumSize cfg) (2 ^ cfg.page_shift.toNat) ↔
      2 ^ cfg.page_shift.toNat ∣ cfg.heap_size.toNat := by
  have hwords : 2 ^ cfg.page_shift.toNat ∣ 2 ^ 64 :=
    Nat.pow_dvd_pow 2 (hhigh.trans (by decide))
  have hpages : 2 ^ cfg.page_shift.toNat ∣ 2 * 2 ^ cfg.page_shift.toNat % 2 ^ 32 :=
    (Nat.dvd_mod_iff (Nat.pow_dvd_pow 2 (hhigh.trans (by decide)))).mpr (Nat.dvd_mul_left ..)
  have hsum : 2 ^ cfg.page_shift.toNat ∣ sumSize cfg ↔
      2 ^ cfg.page_shift.toNat ∣ cfg.heap_size.toNat := by
    rw [sumSize, Nat.dvd_mod_iff hwords]
    exact (Nat.dvd_add_iff_right hpages).symm
  rw [← hsum]
  constructor
  · intro heq
    rw [heq]
    exact dvd_roundUp _ _
  · exact fun hdvd => (roundUp_of_dvd hdvd hpos (Nat.two_pow_pos _)).symm

theorem heap_inside_iff (hhigh : cfg.page_shift.toNat ≤ 31) (hpos : 0 < sumSize cfg) :
    (∀ x < cfg.heap_size.toNat, 2 * 2 ^ cfg.page_shift.toNat + x <
      roundUp (sumSize cfg) (2 ^ cfg.page_shift.toNat)) ↔
      cfg.page_shift.toNat < 31 ∧
        2 * 2 ^ cfg.page_shift.toNat + cfg.heap_size.toNat < 2 ^ 64 := by
  have hheap := cfg.heap_size.toNat_lt
  have hge := le_roundUp hpos (Nat.two_pow_pos cfg.page_shift.toNat)
  have hlt : roundUp (sumSize cfg) (2 ^ cfg.page_shift.toNat) <
      sumSize cfg + 2 ^ cfg.page_shift.toNat := roundUp_lt hpos
  rcases hhigh.lt_or_eq with hshift | hshift
  · have hpage : 2 ^ cfg.page_shift.toNat ≤ 2 ^ 30 :=
      Nat.pow_le_pow_right (by decide) (Nat.le_of_lt_succ hshift)
    have hsum : sumSize cfg = (2 * 2 ^ cfg.page_shift.toNat + cfg.heap_size.toNat) % 2 ^ 64 := by
      rw [sumSize, Nat.mod_eq_of_lt (by omega : 2 * 2 ^ cfg.page_shift.toNat < 2 ^ 32)]
    constructor
    · intro hinside
      refine ⟨hshift, ?_⟩
      by_contra hwrap
      -- the sum has wrapped around and is in the first two pages
      have hend := Xheap.roundUp_le_of_dvd hpos
        (by omega : sumSize cfg ≤ 2 * 2 ^ cfg.page_shift.toNat) (Nat.dvd_mul_left ..)
      have hfirst := hinside 0 (by omega)
      omega
    · rintro ⟨-, hfits⟩ x hx
      rw [Nat.mod_eq_of_lt hfits] at hsum
      omega
  · have hsum : sumSize cfg = cfg.heap_size.toNat := by
      rw [sumSize, hshift]
      omega
    rw [hshift] at hge hlt ⊢
    constructor
    · intro hinside
      have hlast := hinside (cfg.heap_size.toNat - 1) (by omega)
      omega
    · exact fun h => absurd h.1 (Nat.lt_irrefl 31)

theorem inSync_iff (hlow : 12 ≤ cfg.page_shift.toNat) (hhigh : cfg.page_shift.toNat ≤ 31)
    (hcalc : calculateSegmentSize cfg ≠ 0)
    (hinit : initializeSegment ans xseg hdr cfg = (0, hdr')) :
    InSync cfg hdr' ↔ 2 ^ cfg.page_shift.toNat ∣ cfg.heap_size.toNat ∧
      cfg.page_shift.toNat < 31 ∧
      2 * 2 ^ cfg.page_shift.toNat + cfg.heap_size.toNat < 2 ^ 64 := by
  obtain ⟨hpos, hsize⟩ := calculateSegmentSize_spec (by omega) hhigh hcalc
  obtain ⟨hrecorded, hheap⟩ := initializeSegment_spec hlow hhigh hinit
  rw [← size_eq_iff hhigh hpos, ← heap_inside_iff hhigh hpos, ← hsize, ← hrecorded,
    UInt64.toNat_inj, ← hheap]
  exact ⟨fun h => ⟨h.size_eq, h.heap_inside⟩, fun h => ⟨h.1, h.2⟩⟩

end Sync

section Sample

def heapAnswers : InitAnswers where
  xheapInit size unit mem :=
    ((Xheap.init64 (fun _ => 0) (mem.toNat - 4096) size.toNat unit.toNat mem.toNat).map
      Prod.fst).getD (-1)
  objects := 0

def sampleConfig (heap_size : UInt64) : XsegConfig := ⟨heap_size, 512, 256, 12, [], []⟩

theorem inSync_iff_sample : ∃ hdr',
    initializeSegment heapAnswers 0x10000000 ⟨0, 0, 0, 0⟩ (sampleConfig 0x1000000) = (0, hdr') ∧
      (InSync (sampleConfig 0x1000000) hdr' ↔ 2 ^ 12 ∣ (0x1000000 : UInt64).toNat ∧
        12 < 31 ∧ 2 * 2 ^ 12 + (0x1000000 : UInt64).toNat < 2 ^ 64) := by
  have hinit : (initializeSegment heapAnswers 0x10000000 ⟨0, 0, 0, 0⟩
      (sampleConfig 0x1000000)).1 = 0 := by decide +kernel
  have hcalc : calculateSegmentSize (sampleConfig 0x1000000) ≠ 0 := by decide
  exact ⟨_, Prod.ext hinit rfl, inSync_iff (by decide) (by decide) hcalc (Prod.ext hinit rfl)⟩

/-- A heap of one byte more than 16 MiB. -/
theorem not_inSync : ¬ ∀ (ans : InitAnswers) (xseg : UInt64) (hdr hdr' : XsegHeader)
    (cfg : XsegConfig), 12 ≤ cfg.page_shift.toNat → cfg.page_shift.toNat ≤ 31 →
    calculateSegmentSize cfg ≠ 0 → initializeSegment ans xseg hdr cfg = (0, hdr') →
    InSync cfg hdr' := by
  intro hall
  have hinit : (initializeSegment heapAnswers 0x10000000 ⟨0, 0, 0, 0⟩
      (sampleConfig 0x1000001)).1 = 0 := by decide +kernel
  have hsync := hall heapAnswers 0x10000000 ⟨0, 0, 0, 0⟩ _ (sampleConfig 0x1000001) (by decide)
    (by decide) (by decide) (Prod.ext hinit rfl)
  exact absurd hsync.size_eq (by decide)

end Sample

end Libxseg
