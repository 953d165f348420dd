import Libxseg.XsegSteps

/-!
# Queues that stay below 2^31 elements

The capacity of a queue changes only when it doubles, and then it is what the heap gave for it.
-/

namespace Libxseg

set_option autoImplicit false

namespace Xq

theorem appendTail_size (q : Xq) (xqi : xqindex) : (q.appendTail xqi).2.size = q.size := by
  unfold appendTail
  split
  · rfl
  · rfl

theorem appendHead_size (q : Xq) (xqi : xqindex) : (q.appendHead xqi).2.size = q.size := by
  unfold appendHead
  split
  · rfl
  · rfl

theorem resize_size (q newq : Xq) : (q.resize newq).2.size = newq.size := by
  unfold resize
  dsimp only
  split
  · rfl
  · exact foldl_resizeCopy_size ..

end Xq

namespace Xseg

def SmallChunk (chunk : QueueChunk) : Prop :=
  ∀ c, chunk = some c → 48 ≤ c.1.toNat ∧ c.1.toNat < 2 ^ 34

variable {s s' : Xseg} {x : xptr} {p portno r : xport} {port : Port} {flags : UInt32}
  {chunk : QueueChunk} {q newq : Xq}

theorem snap_lt [Builtins] {size : xqindex} (h : size.toNat < 2 ^ 31) :
    (snap size).toNat < 2 ^ 31 := by
  by_cases h0 : size = 0
  · rw [h0, snap, if_pos rfl]
    decide
  · have hpos : size.toNat ≠ 0 := fun he => h0 (UInt64.toNat_inj.mp (by simpa using he))
    have hlog : size.toNat.log2 < 31 := (Nat.log2_lt hpos).mpr h
    rw [snap_log h0 (by omega), snapOf_toNat hlog]
    exact Nat.pow_lt_pow_right (by decide) hlog

theorem SmallChunk.size_lt [Builtins] (h : SmallChunk chunk) (hnew : allocQueue chunk = some newq) :
    newq.size.toNat < 2 ^ 31 := by
  obtain ⟨c, hc, rfl⟩ := Option.map_eq_some_iff.mp hnew
  obtain ⟨hlo, hhi⟩ := h c hc
  apply snap_lt
  have h48 : (48 : UInt64).toNat = 48 := by decide
  have h8 : (8 : UInt64).toNat = 8 := by decide
  rw [UInt64.toNat_div, UInt64.toNat_sub, h48, h8]
  omega

theorem appendGrowing_size [Builtins] (hq : q.size.toNat < 2 ^ 31) (hchunk : SmallChunk chunk) :
    (appendGrowing q x flags chunk).2.size.toNat < 2 ^ 31 := by
  have happ : (q.appendTail x).2.size.toNat < 2 ^ 31 := by
    rw [Xq.appendTail_size]
    exact hq
  unfold appendGrowing
  dsimp only
  split
  · split
    · exact happ
    · rename_i newq hnew
      split
      · exact happ
      · rw [Xq.appendTail_size, Xq.resize_size]
        exact hchunk.size_lt hnew
  · exact happ

theorem Sized.respond [Builtins] (h : s.Sized) (hchunk : SmallChunk chunk) {l : List xport}
    (hl : PathIs (s.requests x).path l) (hres : s.respond x portno flags chunk = (r, s')) :
    s'.Sized := by
  obtain ⟨_, -, -, hstop⟩ := respondTo_spec (s := s) hl
  simp only [Xseg.respond] at hres
  split at hres
  · cases hres
    exact h
  · rename_i dst port path heq
    cases hres
    have hport := (hstop dst port (by rw [heq])).1
    exact @Sized.setQueue (s.setPath x path) dst port _ h hport .reply
      (appendGrowing_size (h hport .reply) hchunk)

theorem Sized.putFree [Builtins] {src : xport} {xqi : xqindex} (h : s.Sized)
    (hput : s.putFree x = some (src, xqi, s')) : s'.Sized := by
  simp only [Xseg.putFree] at hput
  split at hput
  · cases hput
  · rename_i port hport
    have hport' := (getPort_countRequest (s.setRequest x (emptied (s.requests x)))
      (emptied (s.requests x)).elapsed _).trans hport
    obtain ⟨rfl, -, rfl⟩ := hput
    have hsized : ((s.setRequest x (emptied (s.requests x))).countRequest
        (emptied (s.requests x)).elapsed).Sized := by
      intro p' port' hp'
      rw [getPort_countRequest] at hp'
      exact h hp'
    refine @Sized.setQueue _ _ port _ hsized hport' .free ?_
    rw [Xq.appendHead_size]
    exact h hport .free

end Xseg

end Libxseg
