import Mathlib.Data.Set.Basic
import Mathlib.Data.Set.Lattice
import Mathlib.Order.CompletePartialOrder
import Libxseg.XsegBuffer

/-!
# The layout of a request buffer

The data of a request starts at the start of its buffer, the target ends at its end. Addresses
are words, and a region is the set of the addresses whose distance from its start is below its
length, so that a region may run over the end of the address space.
-/

namespace Libxseg

set_option autoImplicit false

def region (start len : UInt64) : Set UInt64 := {a | a - start < len}

section Region
variable {start len part a : UInt64}

theorem mem_region : a ∈ region start len ↔ (a - start).toNat < len.toNat :=
  Iff.trans Iff.rfl UInt64.lt_iff_toNat_lt

theorem add_mem_region (d : UInt64) : start + d ∈ region start len ↔ d.toNat < len.toNat := by
  rw [mem_region, UInt64.add_comm, UInt64.add_sub_cancel]

theorem region_subset_left : region start part ⊆ region start len ↔ part.toNat ≤ len.toNat := by
  constructor
  · intro h
    by_contra hlt
    have hlast := h ((add_mem_region len).mpr (Nat.lt_of_not_le hlt))
    exact absurd ((add_mem_region len).mp hlast) (Nat.lt_irrefl _)
  · intro hle a ha
    exact mem_region.mpr (Nat.lt_of_lt_of_le (mem_region.mp ha) hle)

theorem toNat_start_right (hle : part.toNat ≤ len.toNat) :
    (start + len - part - start).toNat = len.toNat - part.toNat := by
  have hstart := start.toNat_lt
  have hlen := len.toNat_lt
  simp only [UInt64.toNat_sub, UInt64.toNat_add]
  omega

theorem mem_region_right (hle : part.toNat ≤ len.toNat) :
    a ∈ region (start + len - part) part ↔
      len.toNat - part.toNat ≤ (a - start).toNat ∧ (a - start).toNat < len.toNat := by
  have hlen := len.toNat_lt
  have hd := (a - start).toNat_lt
  have hstart := start.toNat_lt
  have haddr := a.toNat_lt
  rw [mem_region]
  simp only [UInt64.toNat_sub, UInt64.toNat_add] at hd ⊢
  omega

/-- Two parts of a region, one at each of its ends, lie in it and apart exactly if there is room
for both. The second part is shorter than half the address space. -/
theorem parts_iff (start len front : UInt64) {back : UInt64} (hback : back.toNat < 2 ^ 63) :
    (region start front ⊆ region start len ∧ region (start + len - back) back ⊆ region start len ∧
        Disjoint (region start front) (region (start + len - back) back)) ↔
      front.toNat + back.toNat ≤ len.toNat := by
  constructor
  · rintro ⟨hfront, hinside, hdisjoint⟩
    have hfront := region_subset_left.mp hfront
    by_cases hzero : back.toNat = 0
    · omega
    · -- the first address of the second part
      have hfirst : start + len - back ∈ region (start + len - back) back := by
        rw [mem_region, UInt64.sub_self]
        exact Nat.pos_of_ne_zero hzero
      have hle : back.toNat ≤ len.toNat := by
        have hstart := start.toNat_lt
        have hin := mem_region.mp (hinside hfirst)
        simp only [UInt64.toNat_sub, UInt64.toNat_add] at hin
        omega
      have hout : start + len - back ∉ region start front :=
        fun hin => Set.disjoint_left.mp hdisjoint hin hfirst
      rw [mem_region, toNat_start_right hle] at hout
      omega
  · intro hroom
    have hle : back.toNat ≤ len.toNat := by omega
    refine ⟨region_subset_left.mpr (by omega), fun a ha => ?_,
      Set.disjoint_left.mpr fun a ha ha' => ?_⟩
    · exact mem_region.mpr ((mem_region_right hle).mp ha).2
    · have hfront := mem_region.mp ha
      have hback := ((mem_region_right hle).mp ha').1
      omega

end Region

namespace Payload
open Xheap

/-- `buffer` points to a chunk that was handed out, and `bufferlen` is its size; or there is no
buffer yet. -/
def Backed (segment : UInt64) (s : XheapSession) (req : Payload) : Prop :=
  (req.buffer = 0 ∧ req.bufferlen = 0) ∨
    ∃ buf, s.Live buf ∧ req.buffer = UInt64.ofNat buf - segment ∧
      req.bufferlen.toNat = getChunkSize s.memory buf

structure LaidOut (segment : UInt64) (s : XheapSession) (req : Payload) : Prop where
  data_inside : region req.data req.datalen ⊆ region req.buffer req.bufferlen
  target_inside : region req.target req.targetlen.toUInt64 ⊆ region req.buffer req.bufferlen
  apart : Disjoint (region req.data req.datalen) (region req.target req.targetlen.toUInt64)
  backed : req.Backed segment s

structure Placed (req : Payload) (targetlen : UInt32) (datalen : UInt64) : Prop where
  data_eq : req.data = req.buffer
  target_eq : req.target = req.buffer + req.bufferlen - targetlen.toUInt64
  datalen_eq : req.datalen = datalen
  targetlen_eq : req.targetlen = targetlen
  /-- the test of the length, in 64-bit arithmetic -/
  fits : (targetlen.toUInt64 + datalen).toNat ≤ req.bufferlen.toNat

variable {segment : UInt64} {s s' : XheapSession} {req req' : Payload} {targetlen : UInt32}
  {datalen : UInt64}

/-- A buffer that passed the test is laid out well exactly if the sum did not wrap around. -/
theorem Placed.laidOut_iff_sum (h : req.Placed targetlen datalen) (hb : req.Backed segment s) :
    LaidOut segment s req ↔ targetlen.toNat + datalen.toNat < 2 ^ 64 := by
  have hshort := targetlen.toNat_lt
  have hlen := req.bufferlen.toNat_lt
  have hword : targetlen.toUInt64.toNat = targetlen.toNat := UInt32.toNat_toUInt64 _
  have hback : targetlen.toUInt64.toNat < 2 ^ 63 := by omega
  have hparts := parts_iff req.buffer req.bufferlen datalen hback
  have hfits := h.fits
  rw [UInt64.toNat_add, hword] at hfits
  rw [hword] at hparts
  constructor
  · rintro ⟨hdata, htarget, hapart, -⟩
    rw [h.data_eq, h.datalen_eq] at hdata
    rw [h.target_eq, h.targetlen_eq] at htarget
    rw [h.data_eq, h.datalen_eq, h.target_eq, h.targetlen_eq] at hapart
    have := hparts.mp ⟨hdata, htarget, hapart⟩
    omega
  · intro hsum
    obtain ⟨hdata, htarget, hapart⟩ := hparts.mpr (by omega)
    refine ⟨?_, ?_, ?_, hb⟩
    · rw [h.data_eq, h.datalen_eq]
      exact hdata
    · rw [h.target_eq, h.targetlen_eq]
      exact htarget
    · rw [h.data_eq, h.datalen_eq, h.target_eq, h.targetlen_eq]
      exact hapart

theorem prepRequest_placed (h : prepRequest segment s req targetlen datalen = some (0, s', req')) :
    req'.Placed targetlen datalen ∧ req'.Backed segment s' := by
  have hlarge (h : (allocate64 s.memory s.heap (targetlen.toUInt64 + datalen).toNat).1 ≠ 0) :=
    le_getChunkSize_allocate64 h
  unfold prepRequest at h
  dsimp only at h
  rw [allocBuffer_eq, Option.map_some] at h
  generalize allocate64 s.memory s.heap (targetlen.toUInt64 + datalen).toNat = r at hlarge h
  have h := Option.some.inj h
  by_cases hbuf : r.1 = 0
  · rw [if_pos hbuf] at h
    have hret : (-1 : Int) = 0 := congrArg Prod.fst h
    exact absurd hret (by decide)
  · rw [if_neg hbuf] at h
    obtain ⟨-, h⟩ := Prod.mk.inj h
    obtain ⟨rfl, rfl⟩ := Prod.mk.inj h
    have hchunk := XheapSession.handOut_chunk s (targetlen.toUInt64 + datalen).toNat r.2.1 r.2.2 hbuf
    have hword : (UInt64.ofNat (getChunkSize r.2.1 r.1)).toNat = getChunkSize r.2.1 r.1 :=
      UInt64.toNat_ofNat_of_lt' (Memory.load64_lt _ _)
    rw [hchunk]
    refine ⟨⟨rfl, rfl, rfl, rfl, ?_⟩, .inr ⟨r.1, ⟨_, List.mem_cons_self, rfl⟩, rfl, hword⟩⟩
    dsimp only
    rw [hword]
    exact hlarge hbuf

theorem resizeRequest_placed (hb : req.Backed segment s)
    (h : resizeRequest segment s req targetlen datalen = some (0, s', req')) :
    req'.Placed targetlen datalen ∧ req'.Backed segment s' := by
  unfold resizeRequest at h
  split at h
  · rename_i hfits
    have h := Option.some.inj h
    obtain ⟨-, h⟩ := Prod.mk.inj h
    obtain ⟨rfl, rfl⟩ := Prod.mk.inj h
    refine ⟨⟨rfl, rfl, rfl, rfl, ?_⟩, hb⟩
    rw [UInt64.add_comm]
    exact UInt64.le_iff_toNat_le.mp hfits
  · obtain ⟨s₁, -, hprep⟩ := Option.bind_eq_some_iff.mp h
    exact prepRequest_placed hprep

/-- Whenever a call succeeds, the buffer is laid out well exactly if the sum of the lengths is
below 2^64. -/
theorem laidOut_iff (hb : req.Backed segment s) :
    (∀ s' req', prepRequest segment s req targetlen datalen = some (0, s', req') →
      (LaidOut segment s' req' ↔ targetlen.toNat + datalen.toNat < 2 ^ 64)) ∧
    ∀ s' req', resizeRequest segment s req targetlen datalen = some (0, s', req') →
      (LaidOut segment s' req' ↔ targetlen.toNat + datalen.toNat < 2 ^ 64) := by
  constructor
  · intro s' req' h
    obtain ⟨hplaced, hbacked⟩ := prepRequest_placed h
    exact hplaced.laidOut_iff_sum hbacked
  · intro s' req' h
    obtain ⟨hplaced, hbacked⟩ := resizeRequest_placed hb h
    exact hplaced.laidOut_iff_sum hbacked

theorem smallRequest_backed : smallRequest.Backed 0 smallSession := by
  have hlive : smallSession.live = [(4576, 40)] := by decide +kernel
  have hsize : smallRequest.bufferlen.toNat = getChunkSize smallSession.memory 4576 := by
    decide +kernel
  exact .inr ⟨4576, ⟨(4576, 40), by rw [hlive]; exact List.mem_cons_self, rfl⟩, rfl, hsize⟩

/-- Lengths that fit the buffer of a request. -/
theorem laidOut_small : ∃ s' req', resizeRequest 0 smallSession smallRequest 8 24 =
    some (0, s', req') ∧ LaidOut 0 s' req' := by
  have hcall : resizeRequest 0 smallSession smallRequest 8 24 = some (0, smallSession,
      { smallRequest with data := 4576, target := 4608, datalen := 24, targetlen := 8 }) :=
    if_pos (by decide)
  exact ⟨_, _, hcall, ((laidOut_iff smallRequest_backed).2 _ _ hcall).mpr (by decide)⟩

/-- A sum of 2^64 passes the test. -/
theorem not_laidOut : ¬ ∀ (segment : UInt64) (s : XheapSession) (req : Payload)
    (targetlen : UInt32) (datalen : UInt64), req.Backed segment s →
    (∀ s' req', prepRequest segment s req targetlen datalen = some (0, s', req') →
      LaidOut segment s' req') ∧
    ∀ s' req', resizeRequest segment s req targetlen datalen = some (0, s', req') →
      LaidOut segment s' req' := by
  intro hall
  have hcall : resizeRequest 0 smallSession smallRequest 1 0xffffffffffffffff =
      some (0, smallSession, { smallRequest with
        data := 4576
        target := 4615
        datalen := 0xffffffffffffffff
        targetlen := 1 }) :=
    if_pos (by decide)
  obtain ⟨hplaced, hbacked⟩ := resizeRequest_placed smallRequest_backed hcall
  have hsum := (hplaced.laidOut_iff_sum hbacked).mp
    ((hall 0 smallSession smallRequest 1 _ smallRequest_backed).2 _ _ hcall)
  exact absurd hsum (by decide)

end Payload

end Libxseg
