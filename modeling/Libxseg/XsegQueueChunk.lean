import Libxseg.XqDoubling
import Libxseg.XsegBuffer

/-!
# The chunk for a queue

A queue is made in a chunk that the heap gave for a number of elements. The heap rounds up, so
the queue has room for them, and for less than twice as many.
-/

namespace Libxseg

set_option autoImplicit false

namespace Xheap
variable {m : Memory} {heap : Xheap} {bytes : Nat}

/-- The queue in a chunk for `n` elements has room for them even in the lower 32 bits of its
size. -/
theorem le_slots {n shift : Nat} (hn : n ≤ 2 ^ 31) :
    n ≤ (sub64 (align64 (72 + 8 * n) shift) 24 - 48) / 8 % 2 ^ 32 := by
  have hone : sub64 (72 + 8 * n) 1 = 71 + 8 * n := by
    unfold sub64
    omega
  unfold align64
  rw [hone, Nat.shiftRight_eq_div_pow, Nat.shiftLeft_eq]
  rcases Nat.lt_or_ge shift 35 with hlt | hge
  · have hle : (71 + 8 * n) / 2 ^ shift * 2 ^ shift ≤ 71 + 8 * n := Nat.div_mul_le_self _ _
    have hgt : 71 + 8 * n < (71 + 8 * n) / 2 ^ shift * 2 ^ shift + 2 ^ shift :=
      Nat.lt_div_mul_add (Nat.two_pow_pos shift)
    have hdvd : 2 ^ shift ∣ 2 ^ 35 := Nat.pow_dvd_pow 2 (Nat.le_of_lt hlt)
    have hquot : (71 + 8 * n) / 2 ^ shift < 2 ^ 35 / 2 ^ shift :=
      Nat.div_lt_div_of_lt_of_dvd hdvd (by omega)
    have htop : (71 + 8 * n) / 2 ^ shift * 2 ^ shift + 2 ^ shift ≤ 2 ^ 35 := by
      rw [← Nat.add_one_mul]
      exact Nat.le_trans (Nat.mul_le_mul_right _ hquot) (Nat.div_mul_le_self _ _)
    rw [Nat.add_one_mul]
    generalize (71 + 8 * n) / 2 ^ shift * 2 ^ shift + 2 ^ shift = a at hgt htop
    unfold sub64
    omega
  · -- the whole request is below the alignment
    have hpow : 2 ^ 35 ≤ 2 ^ shift := Nat.pow_le_pow_right (by decide) hge
    have hsmall : (71 + 8 * n) / 2 ^ shift = 0 := Nat.div_eq_of_lt (by omega)
    have hslots : 2 ^ shift % 2 ^ 64 % 2 ^ 35 = 0 := by
      rw [Nat.mod_mod_of_dvd _ (by decide), ← Nat.sub_add_cancel hge, Nat.pow_add, Nat.mul_mod_left]
    rw [hsmall, Nat.zero_add, Nat.one_mul]
    generalize 2 ^ shift % 2 ^ 64 = a at hslots
    unfold sub64
    omega

theorem le_chunkSize64_slots {n : Nat} (heap : Xheap) (hn : n ≤ 2 ^ 31) :
    n ≤ (heap.chunkSize64 (48 + 8 * n) - 48) / 8 % 2 ^ 32 := by
  have htotal : (48 + 8 * n + sizeofHeader) % 2 ^ 64 = 72 + 8 * n := by
    unfold sizeofHeader
    omega
  unfold chunkSize64 getAllocBytes64
  rw [htotal]
  dsimp only
  split
  · exact le_slots hn
  · split <;> exact le_slots hn

end Xheap

/-- The shift of `__snap` counts the zeros of the lower 32 bits only. -/
theorem snap_low [Builtins] {size : xqindex} (h : size.toUInt32 ≠ 0) :
    snap size = snapOf size.toUInt32.toNat.log2 := by
  have hsize : size ≠ 0 := by
    rintro rfl
    exact h rfl
  have hpos : size.toUInt32.toNat ≠ 0 := fun hzero => h (UInt32.toNat_inj.mp hzero)
  have hlog : size.toUInt32.toNat.log2 < 32 := (Nat.log2_lt hpos).mpr size.toUInt32.toNat_lt
  rw [snap, if_neg hsize, shift_one, builtinClz, if_neg h]
  congr 1
  generalize size.toUInt32.toNat.log2 = l at hlog
  revert l
  decide

namespace Xseg
open Xheap

/-- `chunk` is an answer of `xheap_allocate` to a call of `__alloc_queue` for `nr` requests. -/
def FromHeap (chunk : QueueChunk) (nr : UInt64) : Prop :=
  ∀ c, chunk = some c → ∃ (m : Memory) (heap : Xheap),
    (heap.allocate64 m (48 + nr * 8).toNat).1 ≠ 0 ∧ c.1.toNat =
      getChunkSize (heap.allocate64 m (48 + nr * 8).toNat).2.1 (heap.allocate64 m (48 + nr * 8).toNat).1

/-- The queue that `__alloc_queue` makes has room for more than half of the requests. -/
theorem FromHeap.room [Builtins] {chunk : QueueChunk} {nr : UInt64} {newq : Xq}
    (h : FromHeap chunk nr) (hnew : allocQueue chunk = some newq) (hpos : 0 < nr.toNat)
    (hnr : nr.toNat ≤ 2 ^ 31) : nr.toNat < 2 * window newq.size := by
  obtain ⟨c, hc, rfl⟩ := Option.map_eq_some_iff.mp hnew
  obtain ⟨m, heap, halloc, hsize⟩ := h c hc
  have hbytes : (48 + nr * 8).toNat = 48 + 8 * nr.toNat := by
    rw [UInt64.toNat_add, UInt64.toNat_mul]
    simp only [UInt64.reduceToNat]
    omega
  rw [hbytes] at halloc hsize
  have hge := le_getChunkSize_allocate64 halloc
  have hslots := heap.le_chunkSize64_slots hnr
  rw [← getChunkSize_allocate64 halloc, ← hsize] at hslots
  rw [← hsize] at hge
  have hfour : (48 : UInt64).toNat = 48 := rfl
  have hlow : ((c.1 - 48) / 8).toUInt32.toNat = (c.1.toNat - 48) / 8 % 2 ^ 32 := by
    rw [UInt64.toNat_toUInt32, UInt64.toNat_div, UInt64.toNat_sub_of_le _ _
      (UInt64.le_iff_toNat_le.mpr (by omega))]
    rfl
  rw [← hlow] at hslots
  have hne : ((c.1 - 48) / 8).toUInt32 ≠ 0 := by
    intro hzero
    rw [hzero] at hslots
    exact absurd hpos (Nat.not_lt.mpr hslots)
  have hlog : ((c.1 - 48) / 8).toUInt32.toNat.log2 ≤ 31 := by
    have hpos : ((c.1 - 48) / 8).toUInt32.toNat ≠ 0 := by omega
    exact Nat.le_of_lt_succ ((Nat.log2_lt hpos).mpr (UInt32.toNat_lt _))
  have hsnap : (Xq.initEmpty ((c.1 - 48) / 8) c.2).size = snap ((c.1 - 48) / 8) := rfl
  rw [hsnap, snap_low hne, window_snapOf hlog, ← Nat.pow_succ']
  exact Nat.lt_of_le_of_lt hslots Nat.lt_log2_self

/-- The chunk is an answer of the heap for a queue of twice the size of the one that `xseg_submit`
appends to. -/
def DoubledChunk (s : Xseg) (x : xptr) (turns : Nat) (chunk : QueueChunk) : Prop :=
  ∀ p port, s.discover (s.requests x).effectiveDstPortno turns (s.requests x).transitPortno =
    some (some (p, port)) → FromHeap chunk ((port.queue .request).size * 2)

def DoubledReply (s : Xseg) (x : xptr) (chunk : QueueChunk) : Prop :=
  ∀ p port path, s.respondTo (s.requests x).path = (some (p, port), path) →
    FromHeap chunk ((port.queue .reply).size * 2)

/-- `xseg_forward` has put a new destination into the request. -/
def redirect (s : Xseg) (x : xptr) (newDst : xport) : Xseg :=
  s.setRequest x { s.requests x with effectiveDstPortno := newDst }

theorem FromHeap.none (nr : UInt64) : FromHeap none nr := fun _ h => by cases h

theorem DoubledChunk.none (s : Xseg) (x : xptr) (turns : Nat) : s.DoubledChunk x turns none :=
  fun _ _ _ => FromHeap.none _

theorem DoubledReply.none (s : Xseg) (x : xptr) : s.DoubledReply x none :=
  fun _ _ _ _ => FromHeap.none _

theorem load64_zero (a : Nat) : Memory.load64 (fun _ => 0) a = 0 := by
  simp [Memory.load64, Memory.loadBytes]

def wideHeap : Xheap := ⟨12, 0x1000000000, 0, 0x1000, 0⟩

theorem wideHeap_chunk : ∀ k < 31, 8 ≤ k →
    wideHeap.getAllocBytes64 (48 + 8 * 2 ^ (k + 1)) ≤ wideHeap.size ∧
      48 + 8 * 2 ^ (k + 1) ≤ wideHeap.chunkSize64 (48 + 8 * 2 ^ (k + 1)) ∧
      wideHeap.chunkSize64 (48 + 8 * 2 ^ (k + 1)) < 2 ^ 64 ∧
      ((wideHeap.chunkSize64 (48 + 8 * 2 ^ (k + 1)) - 48) / 8).log2 = k + 1 := by
  decide +kernel

/-- The heap has a chunk for a queue of twice the size `2 ^ k`, and the queue made in it has that
size. -/
theorem exists_doubled [Builtins] {k : Nat} (hk : k < 31) (hk8 : 8 ≤ k) :
    ∃ c, FromHeap (some c) (snapOf k * 2) ∧
      (Xq.initEmpty ((c.1 - 48) / 8) c.2).size = snapOf (k + 1) := by
  obtain ⟨hroom, hge, hlt, hlog⟩ := wideHeap_chunk k hk hk8
  obtain ⟨n, hn⟩ : ∃ n, n = wideHeap.chunkSize64 (48 + 8 * 2 ^ (k + 1)) := ⟨_, rfl⟩
  rw [← hn] at hge hlt hlog
  have hpos : (n - 48) / 8 ≠ 0 := by
    intro h0
    rw [h0] at hlog
    simp at hlog
  have hbytes : (48 + snapOf k * 2 * 8).toNat = 48 + 8 * 2 ^ (k + 1) := by
    have hpow : 2 ^ k ≤ 2 ^ 30 := Nat.pow_le_pow_right (by decide) (by omega)
    rw [UInt64.toNat_add, UInt64.toNat_mul, UInt64.toNat_mul, snapOf_toNat hk]
    simp only [UInt64.reduceToNat]
    omega
  have hslots : ((UInt64.ofNat n - 48) / 8).toNat = (n - 48) / 8 := by
    have h48 : (48 : UInt64).toNat = 48 := rfl
    have h8 : (8 : UInt64).toNat = 8 := rfl
    have hnat : (UInt64.ofNat n).toNat = n := UInt64.toNat_ofNat_of_lt' hlt
    rw [UInt64.toNat_div, UInt64.toNat_sub_of_le _ _ (UInt64.le_iff_toNat_le.mpr (by omega)), hnat,
      h48, h8]
  have hsmall : (n - 48) / 8 < 2 ^ 32 := by
    have hpow : (n - 48) / 8 < 2 ^ (k + 2) := by
      rw [← Nat.log2_lt hpos, hlog]
      omega
    exact hpow.trans_le (Nat.pow_le_pow_right (by decide) (by omega))
  refine ⟨(UInt64.ofNat n, fun _ => 0), ?_, ?_⟩
  · rintro c hc
    obtain rfl := Option.some.inj hc
    have halloc : (wideHeap.allocate64 (fun _ => 0) (48 + snapOf k * 2 * 8).toNat).1 ≠ 0 := by
      rw [hbytes, allocate64_ne_zero]
      refine .inl ⟨load64_zero _, ?_, hn ▸ hge⟩
      have hcur : wideHeap.cur = 0 := rfl
      have hsize : wideHeap.size = 0x1000000000 := rfl
      rw [hcur, Nat.zero_add, Nat.mod_eq_of_lt (by omega)]
      exact hroom
    refine ⟨fun _ => 0, wideHeap, halloc, ?_⟩
    rw [getChunkSize_allocate64 halloc, hbytes, ← hn, UInt64.toNat_ofNat_of_lt' hlt]
  · have hne : (UInt64.ofNat n - 48) / 8 ≠ 0 := by
      intro h0
      rw [h0] at hslots
      exact hpos hslots.symm
    have hsnap : (Xq.initEmpty ((UInt64.ofNat n - 48) / 8) fun _ => 0).size =
        snap ((UInt64.ofNat n - 48) / 8) := rfl
    rw [hsnap, snap_log hne (hslots ▸ hsmall), hslots, hlog]

end Xseg

end Libxseg
