import Libxseg.XheapAnySize
import Libxseg.XheapReuse

/-!
# What stands in the chunks of an xheap

The heap writes into its array of list heads, into the header of a chunk that it carves, and
into the first word of a chunk that it takes back. So a chunk keeps its header and its bytes
until it is freed, whatever else is allocated and freed.
-/

namespace Libxseg

set_option autoImplicit false

namespace XheapSession
open Xheap

def Keeps (s : XheapSession) (m : Memory) (p : Nat) : Prop :=
  ∀ x, p - sizeofHeader ≤ x → x < p + getChunkSize s.memory p → m x = s.memory x

variable {s s' : XheapSession} {L : Nat → List Nat} {m : Memory} {p : Nat}

theorem Keeps.size (h : s.Keeps m p) (hi : Inv L s) (hp : p ∈ s.chunks) :
    getChunkSize m p = getChunkSize s.memory p :=
  hi.size_congr hp fun x hx hx' => h x hx (by omega)

theorem keeps_cell (hi : Inv L s) {r : Nat} (hr : r < s.heap.nrLists) (word : Nat)
    (hp : p ∈ s.chunks) : s.Keeps (s.memory.store64 (s.heap.mem + 8 * r) word) p := by
  have hcell := hi.shape.cell_lt hr hp
  intro x hx _
  unfold sizeofHeader at hx
  exact Memory.store64_outside (by omega)

theorem keeps_carve (hi : Inv L s) (bytes : Nat) (hp : p ∈ s.chunks) :
    s.Keeps (Xheap.carve s.memory s.heap bytes) p := by
  have hhi := (hi.shape.chunk p hp).hi
  intro x _ hx
  exact carve_outside (by omega)

theorem keeps_push (hi : Inv L s) {r q : Nat} (hr : r < s.heap.nrLists) (hq : q ∈ s.chunks)
    (hp : p ∈ s.chunks) (hne : q ≠ p) :
    s.Keeps (addInFreeList s.memory s.heap (s.heap.mem + 8 * r) q) p := by
  have hcell := hi.shape.cell_lt hr hp
  have hsize := (hi.shape.chunk q hq).size_ge hi.shape.block
  have hapart := hi.shape.apart q hq p hp hne
  intro x hx hx'
  unfold sizeofHeader at hx
  rw [addInFreeList, Memory.store64_outside (by omega), Memory.store64_outside (by omega)]

theorem allocate_keeps (hi : Inv L s) {bytes ret : Nat} {heap : Xheap}
    (h0 : 0 ≤ s.heap.getIndex bytes) (hr : s.heap.getIndex bytes < s.heap.getIndex s.heap.size)
    (h : allocate s.memory s.heap bytes = (ret, m, heap)) (hp : p ∈ s.chunks) : s.Keeps m p := by
  obtain ⟨r, hrlt, -, hcell⟩ := freeList_eq hi.shape h0 hr
  have hm : m = (allocateChunk s.memory s.heap bytes).2.1 := by
    rw [← allocate_snd, h]
  by_cases hhead : s.memory.load64 (s.heap.mem + 8 * r) = 0
  · by_cases hfull : s.heap.cur + s.heap.getAllocBytes bytes > s.heap.size
    · rw [hm, allocateChunk_full hcell hhead hfull]
      exact fun _ _ _ => rfl
    · rw [hm, allocateChunk_carve hcell hhead hfull]
      exact keeps_carve hi _ hp
  · by_cases hbad : s.memory.load64 (s.heap.mem + 8 * r) > s.heap.cur
    · rw [hm, allocateChunk, hcell]
      simp only [if_neg hhead, if_pos hbad]
      exact fun _ _ _ => rfl
    · rw [hm, allocateChunk_pop hcell hhead rfl hbad]
      exact keeps_cell hi hrlt _ hp

/-- What a tame request leaves: a heap that differs in `cur`, and every chunk as it was. -/
theorem Tame.allocated {bytes : Nat} (h : s.Tame bytes) (hi : Inv L s)
    (hunit : s.heap.alignment_unit ≤ 20) {ret : Nat} {heap : Xheap}
    (hcall : allocate64 s.memory s.heap bytes = (ret, m, heap)) :
    (∃ L', Inv L' (s.handOut bytes ret m heap)) ∧ (∃ cur, heap = { s.heap with cur := cur }) ∧
      ∀ q ∈ s.chunks, s.Keeps m q := by
  rcases Nat.lt_or_ge s.heap.size bytes with hlarge | hle
  · rw [h.allocate64_null hlarge] at hcall
    cases hcall
    exact ⟨⟨L, hi⟩, ⟨s.heap.cur, rfl⟩, fun q _ _ _ _ => rfl⟩
  · obtain ⟨hindex, heq⟩ := h.allocate64_eq hi hunit hle
    obtain ⟨h0, hr⟩ := h.1
    rw [hindex] at h0 hr
    rw [heq] at hcall
    obtain ⟨hinv, hheap⟩ := inv_allocate hi h0 hr hcall
    exact ⟨hinv, hheap, fun q hq => allocate_keeps hi h0 hr hcall hq⟩

/-- What the owner of a chunk knows of a change of the heap: it is a heap again, and a live chunk
that was not touched is live and keeps its header and its bytes. -/
structure Changes (s s' : XheapSession) (touched : Nat → Prop) : Prop where
  inv : ∃ L, Inv L s'
  heap : ∃ cur, s'.heap = { s.heap with cur := cur }
  live : ∀ p, s.Live p → ¬ touched p → s'.Live p ∧ s.Keeps s'.memory p

theorem Live.mem_chunks (hp : s.Live p) (hi : Inv L s) : p ∈ s.chunks := by
  obtain ⟨c, hc, rfl⟩ := hp
  exact (hi.live c hc).1

theorem Changes.refl (hi : Inv L s) (touched : Nat → Prop) : s.Changes s touched :=
  ⟨⟨L, hi⟩, ⟨s.heap.cur, rfl⟩, fun _ hp _ => ⟨hp, fun _ _ _ => rfl⟩⟩

theorem Changes.trans {s₁ : XheapSession} {touched touched' : Nat → Prop} (hi : Inv L s)
    (h : s.Changes s₁ touched) (h' : s₁.Changes s' touched')
    (hout : ∀ p, s.Live p → ¬ touched p → ¬ touched' p) : s.Changes s' touched := by
  obtain ⟨cur, hheap⟩ := h.heap
  obtain ⟨cur', hheap'⟩ := h'.heap
  refine ⟨h'.inv, ⟨cur', by rw [hheap', hheap]⟩, fun p hp hpout => ?_⟩
  obtain ⟨hp₁, hkeeps⟩ := h.live p hp hpout
  obtain ⟨hp', hkeeps'⟩ := h'.live p hp₁ (hout p hp hpout)
  have hsize := hkeeps.size hi (hp.mem_chunks hi)
  refine ⟨hp', fun x hx hx' => ?_⟩
  rw [hkeeps' x hx (by rw [hsize]; exact hx'), hkeeps x hx hx']

theorem Changes.mono {touched touched' : Nat → Prop} (h : s.Changes s' touched)
    (hsub : ∀ p, touched p → touched' p) : s.Changes s' touched' :=
  ⟨h.inv, h.heap, fun p hp hout => h.live p hp fun ht => hout (hsub p ht)⟩

theorem Changes.unit {touched : Nat → Prop} (h : s.Changes s' touched)
    (hunit : s.heap.alignment_unit ≤ 20) : s'.heap.alignment_unit ≤ 20 := by
  obtain ⟨cur, hheap⟩ := h.heap
  rwa [hheap]

theorem Changes.base {touched : Nat → Prop} {base : Nat} (h : s.Changes s' touched)
    (hbase : base ≤ s.heap.mem) : base ≤ s'.heap.mem := by
  obtain ⟨cur, hheap⟩ := h.heap
  rwa [hheap]

/-- A tame request touches no chunk, and the chunk that it gives was nobody's. -/
theorem Tame.changes {bytes : Nat} (h : s.Tame bytes) (hi : Inv L s)
    (hunit : s.heap.alignment_unit ≤ 20) {ret : Nat} {heap : Xheap}
    (hcall : allocate64 s.memory s.heap bytes = (ret, m, heap)) :
    s.Changes (s.handOut bytes ret m heap) (fun _ => False) ∧
      (ret ≠ 0 → (s.handOut bytes ret m heap).Live ret ∧ ¬ s.Live ret) := by
  obtain ⟨⟨L', hi'⟩, hheap, hkeeps⟩ := h.allocated hi hunit hcall
  have hold (p : Nat) (hp : s.Live p) : (s.handOut bytes ret m heap).Live p := by
    obtain ⟨c, hc, rfl⟩ := hp
    refine ⟨c, ?_, rfl⟩
    unfold handOut
    dsimp only
    split
    · exact hc
    · exact List.mem_cons_of_mem _ hc
  refine ⟨⟨⟨L', hi'⟩, hheap, fun p hp _ => ⟨hold p hp, hkeeps p (hp.mem_chunks hi)⟩⟩,
    fun hret => ?_⟩
  rw [handOut_chunk s bytes m heap hret] at hi' ⊢
  refine ⟨⟨_, List.mem_cons_self, rfl⟩, ?_⟩
  rintro ⟨c, hc, hcp⟩
  exact (List.nodup_cons.mp hi'.live_nodup).1 (List.mem_map.mpr ⟨c, hc, hcp⟩)

/-- A write inside live chunks touches the chunks that it writes to. -/
theorem changes_write (hi : Inv L s) (touched : Nat → Prop)
    (hm : ∀ x, m x ≠ s.memory x → ∃ p, s.Live p ∧ touched p ∧ p ≤ x ∧
      x < p + getChunkSize s.memory p) :
    s.Changes { s with memory := m } touched ∧
      ∀ p ∈ s.chunks, getChunkSize m p = getChunkSize s.memory p := by
  have hinside (x : Nat) (hx : m x ≠ s.memory x) :
      ∃ c ∈ s.live, c.1 ≤ x ∧ x < c.1 + getChunkSize s.memory c.1 := by
    obtain ⟨p, ⟨c, hc, rfl⟩, -, hin⟩ := hm x hx
    exact ⟨c, hc, hin⟩
  refine ⟨⟨⟨L, hi.write hinside⟩, ⟨s.heap.cur, rfl⟩, fun p hp hout => ⟨hp, fun x hx hx' => ?_⟩⟩,
    fun p hp => hi.size_congr hp fun x hx hx' => hi.write_header hinside hp hx hx'⟩
  by_contra hne
  obtain ⟨q, hq, ht, hin, hin'⟩ := hm x hne
  have hqp : q ≠ p := fun h => hout (h ▸ ht)
  exact hi.shape.body_apart (hq.mem_chunks hi) (hp.mem_chunks hi) hqp hin hin' ⟨hx, hx'⟩

/-- A live chunk can be freed, and every other chunk stays as it is. -/
theorem free64_live (hi : Inv L s) (hunit : s.heap.alignment_unit ≤ 20) (hp : s.Live p) :
    ∃ m, free64 s.memory s.heap p = some m ∧
      s.Changes { s with memory := m, live := s.live.filter (·.1 ≠ p) } (· = p) := by
  obtain ⟨c, hc, rfl⟩ := hp
  obtain ⟨r, hr, -, -, hfree, hinv⟩ := free_list hi hc
  refine ⟨_, (free64_eq hi hunit hc).trans hfree, ⟨_, hinv⟩, ⟨s.heap.cur, rfl⟩, fun q hq hne => ?_⟩
  obtain ⟨d, hd, rfl⟩ := hq
  refine ⟨⟨d, List.mem_filter.mpr ⟨hd, decide_eq_true hne⟩, rfl⟩, ?_⟩
  exact keeps_push hi hr (hi.live c hc).1 (hi.live d hd).1 (Ne.symm hne)

end XheapSession

end Libxseg
