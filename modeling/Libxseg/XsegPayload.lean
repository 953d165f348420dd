import Libxseg.XsegLayout
import Libxseg.XheapContents

/-!
# The buffers of all requests in one heap

Every request of a segment has its buffer in the one heap of the segment, and peers fill the
data and the target of the requests they hold. A buffer goes to nobody else until it is given
back, so what a peer writes into its own request shows in no other one.
-/

namespace Libxseg

set_option autoImplicit false

namespace Payload
open Xheap XheapSession

def Has (segment : UInt64) (req : Payload) (p : Nat) : Prop :=
  req.buffer ≠ 0 ∧ req.bufferAddr segment = p

/-- The buffer of a request that is held, if it has one, is a live chunk whose size is recorded
and which is laid out for lengths that do not wrap around. -/
structure Owned (segment : UInt64) (s : XheapSession) (req : Payload) : Prop where
  none : req.buffer = 0 → req.bufferlen = 0
  live : ∀ p, req.Has segment p → s.Live p ∧ req.bufferlen.toNat = getChunkSize s.memory p
  placed : req.buffer ≠ 0 → ∃ targetlen datalen, req.Placed targetlen datalen ∧
    targetlen.toNat + datalen.toNat < 2 ^ 64

/-- One call for a request: it touches no chunk but its buffer, and a buffer that it gets was
nobody's. -/
structure Renews (segment : UInt64) (s s' : XheapSession) (req req' : Payload) : Prop where
  changes : s.Changes s' (req.Has segment)
  owned : req'.Owned segment s'
  fresh : ∀ p, s.Live p → ¬ req.Has segment p → ¬ req'.Has segment p

variable {segment : UInt64} {s s' : XheapSession} {L : Nat → List Nat} {req req' : Payload}
  {targetlen : UInt32} {datalen : UInt64} {p : Nat} {a : UInt64}

theorem bufferAddr_of_chunk (hp : p < 2 ^ 64) (h : req.buffer = UInt64.ofNat p - segment) :
    req.bufferAddr segment = p := by
  rw [bufferAddr, h, UInt64.add_comm, UInt64.sub_add_cancel]
  exact UInt64.toNat_ofNat_of_lt' hp

theorem buffer_eq_sub (h : req.bufferAddr segment = p) :
    req.buffer = UInt64.ofNat p - segment := by
  rw [← h, bufferAddr, UInt64.ofNat_toNat, UInt64.add_comm, UInt64.add_sub_cancel]

theorem Has.region_addr (h : req.Has segment p) (hfit : p + req.bufferlen.toNat ≤ 2 ^ 64)
    (ha : a ∈ region req.buffer req.bufferlen) :
    p ≤ (segment + a).toNat ∧ (segment + a).toNat < p + req.bufferlen.toNat := by
  have hin := mem_region.mp ha
  have haddr : segment + a = (segment + req.buffer) + (a - req.buffer) := by
    rw [UInt64.add_assoc, UInt64.add_comm req.buffer, UInt64.sub_add_cancel]
  have hp : (segment + req.buffer).toNat = p := h.2
  rw [haddr, UInt64.toNat_add, hp, Nat.mod_eq_of_lt (by omega)]
  omega

theorem Owned.fit (h : req.Owned segment s) (hi : Inv L s) (hp : req.Has segment p) :
    p + req.bufferlen.toNat ≤ 2 ^ 64 := by
  obtain ⟨hlive, hsize⟩ := h.live p hp
  have hhi := (hi.shape.chunk p (hlive.mem_chunks hi)).hi
  have hcur := hi.shape.cur_le
  have hfits := hi.shape.block.fits
  omega

theorem Owned.backed (h : req.Owned segment s) : req.Backed segment s := by
  by_cases hbuffer : req.buffer = 0
  · exact .inl ⟨hbuffer, h.none hbuffer⟩
  · obtain ⟨hlive, hsize⟩ := h.live _ ⟨hbuffer, rfl⟩
    exact .inr ⟨_, hlive, buffer_eq_sub rfl, hsize⟩

theorem Owned.laidOut (h : req.Owned segment s) (hbuffer : req.buffer ≠ 0) :
    req.LaidOut segment s := by
  obtain ⟨targetlen, datalen, hplaced, hsum⟩ := h.placed hbuffer
  exact (hplaced.laidOut_iff_sum h.backed).mpr hsum

theorem not_has (h : req.buffer = 0) (p : Nat) : ¬ req.Has segment p := fun hp => hp.1 h

theorem owned_empty (h : req.buffer = 0) (hlen : req.bufferlen = 0) : req.Owned segment s :=
  ⟨fun _ => hlen, fun p hp => absurd hp (not_has h p), fun hne => absurd h hne⟩

theorem Owned.congr (h : req.Owned segment s) (hsame : SameBuffer req req')
    (hlive : ∀ p, req.Has segment p →
      s'.Live p ∧ getChunkSize s'.memory p = getChunkSize s.memory p) :
    req'.Owned segment s' := by
  obtain ⟨hbuffer, hbufferlen, hdata, htarget, hdatalen, htargetlen⟩ := hsame
  refine ⟨fun h0 => ?_, fun p hp => ?_, fun hne => ?_⟩
  · rw [hbufferlen]
    exact h.none (hbuffer ▸ h0)
  · rw [Has, bufferAddr, hbuffer] at hp
    obtain ⟨hp', hsize⟩ := hlive p hp
    exact ⟨hp', by rw [hbufferlen, hsize]; exact (h.live p hp).2⟩
  · obtain ⟨targetlen, datalen, hplaced, hsum⟩ := h.placed (hbuffer ▸ hne)
    refine ⟨targetlen, datalen, ⟨?_, ?_, ?_, ?_, ?_⟩, hsum⟩
    · rw [hdata, hbuffer]
      exact hplaced.data_eq
    · rw [htarget, hbuffer, hbufferlen]
      exact hplaced.target_eq
    · exact hdatalen.trans hplaced.datalen_eq
    · exact htargetlen.trans hplaced.targetlen_eq
    · rw [hbufferlen]
      exact hplaced.fits

theorem Renews.trans {s₁ : XheapSession} {req₁ : Payload} (hi : Inv L s)
    (h : Renews segment s s₁ req req₁) (h' : Renews segment s₁ s' req₁ req') :
    Renews segment s s' req req' :=
  ⟨h.changes.trans hi h'.changes h.fresh, h'.owned, fun p hp hout =>
    h'.fresh p (h.changes.live p hp hout).1 (h.fresh p hp hout)⟩

theorem release_renews (hi : Inv L s) (hunit : s.heap.alignment_unit ≤ 20)
    (h : req.Owned segment s) :
    ∃ s', req.release segment s = some s' ∧
      ∀ req' : Payload, req'.buffer = 0 → req'.bufferlen = 0 → Renews segment s s' req req' := by
  have hempty (s' : XheapSession) (hchanges : s.Changes s' (req.Has segment)) (req' : Payload)
      (h0 : req'.buffer = 0) (hlen : req'.bufferlen = 0) : Renews segment s s' req req' :=
    ⟨hchanges, owned_empty h0 hlen, fun p _ _ => not_has h0 p⟩
  by_cases hbuffer : req.buffer = 0
  · exact ⟨s, if_neg (not_not_intro hbuffer), hempty s (.refl hi _)⟩
  · obtain ⟨hlive, -⟩ := h.live _ ⟨hbuffer, rfl⟩
    obtain ⟨m, hfree, hchanges⟩ := free64_live hi hunit hlive
    have hne : req.bufferAddr segment ≠ 0 := by
      have := (hi.shape.chunk _ (hlive.mem_chunks hi)).lo
      omega
    refine ⟨_, ?_, hempty _ (hchanges.mono fun p hp => ⟨hbuffer, hp.symm⟩)⟩
    rw [release, if_pos hbuffer, XheapSession.freeBuffer, if_neg hne, hfree, Option.map_some]

theorem prepRequest_null {m : Memory} {heap : Xheap}
    (hcall : allocate64 s.memory s.heap (targetlen.toUInt64 + datalen).toNat = (0, m, heap)) :
    prepRequest segment s req targetlen datalen =
      some (-1, s.handOut (targetlen.toUInt64 + datalen).toNat 0 m heap,
        { req with buffer := 0, bufferlen := 0 }) := by
  unfold prepRequest
  dsimp only
  rw [allocBuffer_eq, hcall, Option.map_some]
  exact congrArg some (if_pos rfl)

theorem prepRequest_given (segment : UInt64) (req : Payload) {m : Memory} {heap : Xheap} {buf : Nat}
    (hbuf : buf ≠ 0)
    (hcall : allocate64 s.memory s.heap (targetlen.toUInt64 + datalen).toNat = (buf, m, heap)) :
    ∃ req', prepRequest segment s req targetlen datalen =
        some (0, s.handOut (targetlen.toUInt64 + datalen).toNat buf m heap, req') ∧
      req'.buffer = UInt64.ofNat buf - segment ∧
      req'.bufferlen = UInt64.ofNat (getChunkSize m buf) := by
  unfold prepRequest
  dsimp only
  rw [allocBuffer_eq, hcall, Option.map_some, if_neg hbuf]
  exact ⟨_, rfl, rfl, rfl⟩

theorem prepRequest_renews (req : Payload) (hi : Inv L s) (hunit : s.heap.alignment_unit ≤ 20)
    (hbase : segment.toNat ≤ s.heap.mem) (hsum : targetlen.toNat + datalen.toNat < 2 ^ 64)
    (htame : s.Tame (targetlen.toUInt64 + datalen).toNat) :
    ∃ ret s' req', prepRequest segment s req targetlen datalen = some (ret, s', req') ∧
      Renews segment s s' req req' := by
  rcases hcall : allocate64 s.memory s.heap (targetlen.toUInt64 + datalen).toNat with ⟨buf, m, heap⟩
  obtain ⟨hchanges, hnew⟩ := htame.changes hi hunit hcall
  have hchanges : s.Changes (s.handOut (targetlen.toUInt64 + datalen).toNat buf m heap)
      (req.Has segment) := hchanges.mono fun p hp => hp.elim
  by_cases hbuf : buf = 0
  · subst hbuf
    exact ⟨_, _, _, prepRequest_null hcall, hchanges, owned_empty rfl rfl,
      fun p _ _ => not_has rfl p⟩
  · obtain ⟨req', hprep, hbuffer, hbufferlen⟩ := prepRequest_given segment req hbuf hcall
    obtain ⟨hlive, hfresh⟩ := hnew hbuf
    obtain ⟨L', hi'⟩ := hchanges.inv
    obtain ⟨hplaced, -⟩ := prepRequest_placed hprep
    have hbase' := hchanges.base hbase
    have hchunk := hi'.shape.chunk buf (hlive.mem_chunks hi')
    have hfits := hi'.shape.block.fits
    have hcur := hi'.shape.cur_le
    have hlo := hchunk.lo
    have hhi := hchunk.hi
    have hsize := hchunk.size_ge hi'.shape.block
    have hword : buf < 2 ^ 64 := by
      omega
    have haddr := bufferAddr_of_chunk hword hbuffer
    refine ⟨_, _, _, hprep, hchanges, ⟨fun h0 => ?_, fun p hp => ?_, fun _ =>
      ⟨_, _, hplaced, hsum⟩⟩, fun p hp _ hp' => ?_⟩
    · -- the chunk lies above the segment
      have hsame : UInt64.ofNat buf = segment := by
        rw [← UInt64.sub_add_cancel (UInt64.ofNat buf) segment, ← hbuffer, h0, UInt64.zero_add]
      have hnat := congrArg UInt64.toNat hsame
      rw [UInt64.toNat_ofNat_of_lt' hword] at hnat
      omega
    · obtain rfl := haddr.symm.trans hp.2
      exact ⟨hlive, by rw [hbufferlen]; exact UInt64.toNat_ofNat_of_lt' (Memory.load64_lt _ _)⟩
    · obtain rfl := haddr.symm.trans hp'.2
      exact hfresh hp

/-- The request that `xseg_resize_request` makes of the heap. Nothing is asked for if the lengths
fit the buffer. -/
def ResizeTame (segment : UInt64) (s : XheapSession) (req : Payload) (targetlen : UInt32)
    (datalen : UInt64) : Prop :=
  ¬ datalen + targetlen.toUInt64 ≤ req.bufferlen → ∀ s₁, req.release segment s = some s₁ →
    s₁.Tame (targetlen.toUInt64 + datalen).toNat

theorem resizeRequest_renews (hi : Inv L s) (hunit : s.heap.alignment_unit ≤ 20)
    (hbase : segment.toNat ≤ s.heap.mem) (h : req.Owned segment s)
    (hsum : targetlen.toNat + datalen.toNat < 2 ^ 64)
    (htame : ResizeTame segment s req targetlen datalen) :
    ∃ ret s' req', resizeRequest segment s req targetlen datalen = some (ret, s', req') ∧
      Renews segment s s' req req' := by
  by_cases hfit : datalen + targetlen.toUInt64 ≤ req.bufferlen
  · -- the buffer stays, with other lengths
    refine ⟨_, _, _, if_pos hfit, .refl hi _, ⟨h.none, h.live, fun _ => ?_⟩, fun p _ hout => hout⟩
    refine ⟨targetlen, datalen, ⟨rfl, rfl, rfl, rfl, ?_⟩, hsum⟩
    rw [UInt64.add_comm]
    exact UInt64.le_iff_toNat_le.mp hfit
  · obtain ⟨s₁, hrelease, hempty⟩ := release_renews hi hunit h
    have hfirst := hempty { req with buffer := 0, bufferlen := 0 } rfl rfl
    obtain ⟨L₁, hi₁⟩ := hfirst.changes.inv
    obtain ⟨ret, s', req', hprep, hsecond⟩ := prepRequest_renews
      { req with buffer := 0, bufferlen := 0 } hi₁ (hfirst.changes.unit hunit)
      (hfirst.changes.base hbase) hsum (htame hfit s₁ hrelease)
    refine ⟨ret, s', req', ?_, hfirst.trans hi hsecond⟩
    rw [resizeRequest, if_neg hfit, hrelease, Option.bind_some]
    exact hprep

/-- The holder writes to its data, to its target, and to the other fields of the request. -/
theorem fill_renews (hi : Inv L s) (h : req.Owned segment s) (hsame : SameBuffer req req')
    {m : Memory} (hm : ∀ n, m n ≠ s.memory n → ∃ a, n = (segment + a).toNat ∧ req.buffer ≠ 0 ∧
      (a ∈ region req.data req.datalen ∨ a ∈ region req.target req.targetlen.toUInt64)) :
    Renews segment s { s with memory := m } req req' := by
  obtain ⟨hchanges, hsize⟩ := changes_write hi (req.Has segment) fun n hn => by
    obtain ⟨a, rfl, hbuffer, ha⟩ := hm n hn
    have hlaid := h.laidOut hbuffer
    have hin : a ∈ region req.buffer req.bufferlen :=
      ha.elim (fun hd => hlaid.data_inside hd) fun ht => hlaid.target_inside ht
    have hp : req.Has segment (req.bufferAddr segment) := ⟨hbuffer, rfl⟩
    obtain ⟨hlive, hlen⟩ := h.live _ hp
    exact ⟨_, hlive, hp, hlen ▸ hp.region_addr (h.fit hi hp) hin⟩
  refine ⟨hchanges, h.congr hsame fun p hp => ?_, fun p _ hout hp => hout ?_⟩
  · have hlive := (h.live p hp).1
    exact ⟨hlive, hsize p (hlive.mem_chunks hi)⟩
  · rw [Has, bufferAddr, hsame.1] at hp
    exact hp

end Payload

end Libxseg
