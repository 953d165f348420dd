import Libxseg.XheapRuns

/-!
# No chunk of an xheap is lost, except at the limits

A free list is chosen by the size of a chunk and searched by the size of a request. Two
requests with the same index need the same chunk size, except that the chunks of 33 and of 36
pages share one list, and so do those of 1028 and 1152 pages: the first of each pair serves
requests just below a limit, the second one requests from the limit on. A chunk that is popped
for a request on the other side of the limit is on no list any more and with no client.
-/

namespace Libxseg

set_option autoImplicit false

namespace Xheap
variable (heap : Xheap) (bytes : Nat)

/-- `__get_index` of a request before it is cut to an `int`. -/
def requestClass : Nat := heap.classOf (heap.getAllocBytes bytes - sizeofHeader)

def Straddles (size size' : Nat) : Prop :=
  (size = 33 * heap.page ∧ size' = 36 * heap.page) ∨
    (size = 36 * heap.page ∧ size' = 33 * heap.page) ∨
    (size = 1028 * heap.page ∧ size' = 1152 * heap.page) ∨
    (size = 1152 * heap.page ∧ size' = 1028 * heap.page)

instance (size size' : Nat) : Decidable (heap.Straddles size size') :=
  inferInstanceAs (Decidable (_ ∨ _))

inductive Sized : Nat → Nat → Prop
  | small {k : Nat} : k < 32 → Sized ((k + 1) * heap.page) k
  | belowMedium : Sized (33 * heap.page) 32
  | medium {k : Nat} : 32 ≤ k → k < 280 → Sized ((k - 23) * (4 * heap.page)) k
  | belowLarge : Sized (1028 * heap.page) 1024
  | large {k : Nat} : 1024 ≤ k → Sized ((k - 1015) * (128 * heap.page)) k

theorem sub_header_div {k unit : Nat} (hk : 0 < k) (hunit : 24 ≤ unit) :
    (k * unit - 24) / unit = k - 1 := by
  obtain ⟨j, rfl⟩ := Nat.exists_eq_succ_of_ne_zero hk.ne'
  rw [Nat.succ_sub_one]
  apply Nat.div_eq_of_lt_le
  · rw [Nat.succ_mul]
    omega
  · rw [Nat.succ_mul]
    omega

variable {heap bytes}

theorem sized_small (hpage : 32 ≤ heap.page) (hb : bytes < 32 * heap.page) :
    heap.Sized (heap.getAllocBytes bytes) (heap.requestClass bytes) := by
  have hunit : heap.unit bytes = heap.page := if_pos hb
  obtain ⟨k, hk, hle, hlt⟩ := heap.getAllocBytes_units bytes hunit
  have hk34 : k < 34 := Nat.lt_of_mul_lt_mul_right (a := heap.page) (by omega)
  have hk0 : 0 < k := by
    rcases Nat.eq_zero_or_pos k with rfl | h0
    · omega
    · exact h0
  rw [requestClass, sizeofHeader, classOf_eq, hk]
  by_cases hk33 : k = 33
  · subst hk33
    have hdiv : (33 * heap.page - 24) / (4 * heap.page) = 8 :=
      Nat.div_eq_of_lt_le (by omega) (by omega)
    rw [if_neg (by omega), if_pos (by omega), hdiv]
    exact .belowMedium
  · obtain ⟨j, rfl⟩ := Nat.exists_eq_succ_of_ne_zero hk0.ne'
    have hj : (j + 1) * heap.page ≤ 32 * heap.page := Nat.mul_le_mul_right _ (by omega)
    rw [if_pos (by rw [Nat.succ_eq_add_one]; omega), sub_header_div hk0 (by omega)]
    exact .small (by omega)

theorem sized_medium (hpage : 32 ≤ heap.page) (hlo : 32 * heap.page ≤ bytes)
    (hhi : bytes < 1024 * heap.page) :
    heap.Sized (heap.getAllocBytes bytes) (heap.requestClass bytes) := by
  have hunit : heap.unit bytes = 4 * heap.page := by
    rw [unit, if_neg (by omega), if_pos hhi]
  obtain ⟨k, hk, hle, hlt⟩ := heap.getAllocBytes_units bytes hunit
  have hk258 : k < 258 := Nat.lt_of_mul_lt_mul_right (a := 4 * heap.page) (by omega)
  have hk8 : 8 < k := Nat.lt_of_mul_lt_mul_right (a := 4 * heap.page) (by omega)
  rw [requestClass, sizeofHeader, classOf_eq, hk]
  by_cases hk257 : k = 257
  · subst hk257
    have hdiv : (1028 * heap.page - 24) / (128 * heap.page) = 8 :=
      Nat.div_eq_of_lt_le (by omega) (by omega)
    rw [show 257 * (4 * heap.page) = 1028 * heap.page by omega, if_neg (by omega),
      if_neg (by omega), hdiv]
    exact .belowLarge
  · have h9 : 9 * (4 * heap.page) ≤ k * (4 * heap.page) := Nat.mul_le_mul_right _ hk8
    have h256 : k * (4 * heap.page) ≤ 256 * (4 * heap.page) :=
      Nat.mul_le_mul_right _ (by omega)
    rw [if_neg (by omega), if_pos (by omega), sub_header_div (by omega) (by omega)]
    have hclass : k = 24 + (k - 1) - 23 := by omega
    conv => arg 2; rw [hclass]
    exact .medium (by omega) (by omega)

theorem sized_large (hpage : 32 ≤ heap.page) (hlo : 1024 * heap.page ≤ bytes) :
    heap.Sized (heap.getAllocBytes bytes) (heap.requestClass bytes) := by
  have hunit : heap.unit bytes = 128 * heap.page := by
    rw [unit, if_neg (by omega), if_neg (by omega)]
  obtain ⟨k, hk, hle, -⟩ := heap.getAllocBytes_units bytes hunit
  have hk8 : 8 < k := Nat.lt_of_mul_lt_mul_right (a := 128 * heap.page) (by omega)
  have h9 : 9 * (128 * heap.page) ≤ k * (128 * heap.page) := Nat.mul_le_mul_right _ hk8
  rw [requestClass, sizeofHeader, classOf_eq, hk, if_neg (by omega), if_neg (by omega),
    sub_header_div (by omega) (by omega)]
  have hclass : k = 1016 + (k - 1) - 1015 := by omega
  conv => arg 2; rw [hclass]
  exact .large (by omega)

theorem sized (hpage : 32 ≤ heap.page) (bytes : Nat) :
    heap.Sized (heap.getAllocBytes bytes) (heap.requestClass bytes) := by
  rcases Nat.lt_or_ge bytes (32 * heap.page) with h | h
  · exact sized_small hpage h
  · rcases Nat.lt_or_ge bytes (1024 * heap.page) with h' | h'
    · exact sized_medium hpage h h'
    · exact sized_large hpage h'

/-- Requests with one class need one chunk size, unless a limit lies between them. -/
theorem getAllocBytes_of_class_eq (hpage : 32 ≤ heap.page) {bytes bytes' : Nat}
    (h : heap.requestClass bytes = heap.requestClass bytes') :
    heap.getAllocBytes bytes = heap.getAllocBytes bytes' ∨
      heap.Straddles (heap.getAllocBytes bytes) (heap.getAllocBytes bytes') := by
  have h1 := sized hpage bytes
  have h2 := sized hpage bytes'
  rw [h] at h1
  generalize heap.getAllocBytes bytes = size at h1 ⊢
  generalize heap.getAllocBytes bytes' = size' at h2 ⊢
  generalize heap.requestClass bytes' = k at h1 h2
  cases h1 with
  | small hk =>
    cases h2 with
    | small => exact Or.inl rfl
    | belowMedium => omega
    | medium hlo _ => omega
    | belowLarge => omega
    | large hlo => omega
  | belowMedium =>
    cases h2 with
    | small hk => omega
    | belowMedium => exact Or.inl rfl
    | medium => exact Or.inr (Or.inl ⟨rfl, by omega⟩)
    | large hlo => omega
  | medium hlo hhi =>
    cases h2 with
    | small hk => omega
    | belowMedium => exact Or.inr (Or.inr (Or.inl ⟨by omega, rfl⟩))
    | medium => exact Or.inl rfl
    | belowLarge => omega
    | large => omega
  | belowLarge =>
    cases h2 with
    | small hk => omega
    | medium _ hhi => omega
    | belowLarge => exact Or.inl rfl
    | large => exact Or.inr (Or.inr (Or.inr (Or.inl ⟨rfl, by omega⟩)))
  | large hk =>
    cases h2 with
    | small hk' => omega
    | belowMedium => omega
    | medium _ hhi => omega
    | belowLarge => exact Or.inr (Or.inr (Or.inr (Or.inr ⟨by omega, rfl⟩)))
    | large => exact Or.inl rfl

theorem classOf_of_straddles (hpage : 32 ≤ heap.page) {size size' : Nat}
    (h : heap.Straddles size size') :
    heap.classOf (size - sizeofHeader) = heap.classOf (size' - sizeofHeader) := by
  have h33 : heap.classOf (33 * heap.page - 24) = 32 := by
    have hdiv : (33 * heap.page - 24) / (4 * heap.page) = 8 :=
      Nat.div_eq_of_lt_le (by omega) (by omega)
    rw [classOf_eq, if_neg (by omega), if_pos (by omega), hdiv]
  have h36 : heap.classOf (36 * heap.page - 24) = 32 := by
    have hdiv : (36 * heap.page - 24) / (4 * heap.page) = 8 :=
      Nat.div_eq_of_lt_le (by omega) (by omega)
    rw [classOf_eq, if_neg (by omega), if_pos (by omega), hdiv]
  have h1028 : heap.classOf (1028 * heap.page - 24) = 1024 := by
    have hdiv : (1028 * heap.page - 24) / (128 * heap.page) = 8 :=
      Nat.div_eq_of_lt_le (by omega) (by omega)
    rw [classOf_eq, if_neg (by omega), if_neg (by omega), hdiv]
  have h1152 : heap.classOf (1152 * heap.page - 24) = 1024 := by
    have hdiv : (1152 * heap.page - 24) / (128 * heap.page) = 8 :=
      Nat.div_eq_of_lt_le (by omega) (by omega)
    rw [classOf_eq, if_neg (by omega), if_neg (by omega), hdiv]
  rcases h with ⟨rfl, rfl⟩ | ⟨rfl, rfl⟩ | ⟨rfl, rfl⟩ | ⟨rfl, rfl⟩
  · exact h33.trans h36.symm
  · exact h36.trans h33.symm
  · exact h1028.trans h1152.symm
  · exact h1152.trans h1028.symm

theorem ne_of_straddles (hpage : 32 ≤ heap.page) {size size' : Nat}
    (h : heap.Straddles size size') : size ≠ size' := by
  unfold Straddles at h
  omega

def Untruncated (heap : Xheap) (bytes : Nat) : Prop := heap.requestClass bytes < 2 ^ 31

theorem getIndex_eq (h : heap.Untruncated bytes) : heap.getIndex bytes = heap.requestClass bytes := by
  have hlt : (heap.requestClass bytes : Int) < 2 ^ 31 := by exact_mod_cast h
  change Int.bmod (heap.requestClass bytes) (2 ^ 32) = _
  exact Int.bmod_eq_of_le (by omega) (by omega)

/-- Two requests whose index is what it should be share a list exactly if they need one chunk
size or lie on the two sides of a limit. -/
theorem getIndex_eq_iff (hpage : 32 ≤ heap.page) {bytes bytes' : Nat}
    (h : heap.Untruncated bytes) (h' : heap.Untruncated bytes') :
    heap.getIndex bytes = heap.getIndex bytes' ↔
      heap.getAllocBytes bytes = heap.getAllocBytes bytes' ∨
        heap.Straddles (heap.getAllocBytes bytes) (heap.getAllocBytes bytes') := by
  rw [getIndex_eq h, getIndex_eq h', Int.natCast_inj]
  constructor
  · exact getAllocBytes_of_class_eq hpage
  · rintro (heq | hs)
    · rw [requestClass, requestClass, heq]
    · exact classOf_of_straddles hpage hs

end Xheap

namespace XheapSession
open Xheap

def FreeOn (s : XheapSession) (r p : Nat) : Prop :=
  ∃ l, s.memory.Linked s.heap.mem (s.memory.load64 (s.heap.mem + 8 * r)) l ∧ l.Nodup ∧ p ∈ l

def Live (s : XheapSession) (p : Nat) : Prop := ∃ c ∈ s.live, c.1 = p

def Conserved (s : XheapSession) : Prop :=
  ∀ p ∈ s.chunks, (s.Live p ∧ ∀ r < s.heap.nrLists, ¬ s.FreeOn r p) ∨
    (¬ s.Live p ∧ ∃ r < s.heap.nrLists, s.FreeOn r p ∧
      ∀ r' < s.heap.nrLists, s.FreeOn r' p → r' = r)

/-- The class of a request fits an `int`, and the first chunk on its free list, if any, does not
lie on the other side of a limit. -/
def Unmixed (s : XheapSession) : XheapEvent → Prop
  | .allocate bytes _ => s.heap.Untruncated bytes ∧
      (s.memory.load64 (s.heap.freeList (s.heap.getIndex bytes)) ≠ 0 →
        ¬ s.heap.Straddles (getChunkSize s.memory
            (s.heap.mem + s.memory.load64 (s.heap.freeList (s.heap.getIndex bytes))) + 24)
          (s.heap.getAllocBytes bytes))
  | _ => True

/-- `Inv` with what keeps chunks from getting lost: each is live or listed, and the list is the
one for its size. -/
structure Kept (L : Nat → List Nat) (s : XheapSession) : Prop where
  inv : Inv L s
  fitted : ∀ p ∈ s.chunks, ∃ bytes, getChunkSize s.memory p + 24 = s.heap.getAllocBytes bytes ∧
    s.heap.Untruncated bytes
  sorted : ∀ r < s.heap.nrLists, ∀ p ∈ L r, s.heap.getIndex (getChunkSize s.memory p) = r
  kept : ∀ p ∈ s.chunks, s.Live p ∨ ∃ r < s.heap.nrLists, p ∈ L r

variable {s s' : XheapSession} {L : Nat → List Nat}

theorem freeOn_iff (hi : Inv L s) {r p : Nat} (hr : r < s.heap.nrLists) :
    s.FreeOn r p ↔ p ∈ L r := by
  constructor
  · rintro ⟨l, hl, -, hp⟩
    rwa [← hl.unique (hi.linked r hr)]
  · exact fun hp => ⟨L r, hi.linked r hr, hi.nodup r hr, hp⟩

theorem Kept.conserved (h : Kept L s) : s.Conserved := by
  intro p hp
  by_cases hlive : s.Live p
  · refine Or.inl ⟨hlive, fun r hr hfree => ?_⟩
    obtain ⟨c, hc, hcp⟩ := hlive
    exact (h.inv.listed r hr p ((freeOn_iff h.inv hr).mp hfree)).2 c hc hcp
  · refine Or.inr ⟨hlive, ?_⟩
    obtain ⟨r, hr, hpr⟩ := (h.kept p hp).resolve_left hlive
    refine ⟨r, hr, (freeOn_iff h.inv hr).mpr hpr, fun r' hr' hfree => ?_⟩
    exact h.inv.once r' hr' r hr p ((freeOn_iff h.inv hr').mp hfree) hpr

/-- A request that pops a chunk and refuses it leaves it on no list and with no client. -/
theorem not_conserved_of_refused (hi : Inv L s) {bytes : Nat} {m : Memory} {heap : Xheap}
    (h0 : 0 ≤ s.heap.getIndex bytes) (hr : s.heap.getIndex bytes < s.heap.getIndex s.heap.size)
    (hhead : s.memory.load64 (s.heap.freeList (s.heap.getIndex bytes)) ≠ 0)
    (h : allocate s.memory s.heap bytes = (0, m, heap)) :
    ¬ (s.handOut bytes 0 m heap).Conserved := by
  obtain ⟨r, hrlt, -, hcell⟩ := freeList_eq hi.shape h0 hr
  have hlinked := hi.linked r hrlt
  rw [hcell] at hhead
  cases hl : L r with
  | nil =>
    rw [hl] at hlinked
    exact absurd hlinked hhead
  | cons p l =>
    rw [hl] at hlinked
    obtain ⟨hne, hp, -⟩ := hlinked
    obtain ⟨hmem, hnot⟩ := hi.listed r hrlt p (by simp [hl])
    have hchunk := hi.shape.chunk p hmem
    have hlo := hchunk.lo
    have hhi := hchunk.hi
    have hlost := (inv_pop hi bytes hrlt hl rfl).1
    rcases allocate_chunk (allocateChunk_pop hcell hne hp (by omega)) (by omega) with
      hnull | ⟨hret, -⟩
    · rw [hnull] at h
      cases h
      intro hall
      rcases hall p hmem with ⟨⟨c, hc, hcp⟩, -⟩ | ⟨-, r', hr', hfree, -⟩
      · exact hnot c hc hcp
      · exact hi.not_mem_pop hrlt hl hr' ((freeOn_iff hlost hr').mp hfree)
    · rw [hret] at h
      cases h
      omega

/-- A request finds its list, and the list is the one for its class. -/
theorem Kept.cell (h : Kept L s) {bytes : Nat} (hun : s.heap.Untruncated bytes)
    (hr : s.heap.getIndex bytes < s.heap.getIndex s.heap.size) :
    ∃ r < s.heap.nrLists, s.heap.getIndex bytes = r ∧
      s.heap.freeList (s.heap.getIndex bytes) = s.heap.mem + 8 * r := by
  have hindex := getIndex_eq hun
  have hlt : s.heap.requestClass bytes < s.heap.nrLists := by
    rw [nrLists]
    omega
  have harray := h.inv.shape.array
  have hcur := h.inv.shape.cur_le
  have hfits := h.inv.shape.block.fits
  exact ⟨_, hlt, hindex, by rw [hindex, freeList_natCast (by omega)]⟩

/-- The chunk at the head of the list has the size that the request needs. -/
theorem Kept.head_size (h : Kept L s) {bytes r p : Nat} {l : List Nat}
    (hun : s.heap.Untruncated bytes) (hindex : s.heap.getIndex bytes = r)
    (hr : r < s.heap.nrLists) (hl : L r = p :: l)
    (hmixed : ¬ s.heap.Straddles (getChunkSize s.memory p + 24) (s.heap.getAllocBytes bytes)) :
    getChunkSize s.memory p + 24 = s.heap.getAllocBytes bytes := by
  have hpage := h.inv.shape.block.page
  have hp : p ∈ L r := by simp [hl]
  obtain ⟨bytes', hsize, hun'⟩ := h.fitted p (h.inv.listed r hr p hp).1
  have hsorted := h.sorted r hr p hp
  rw [getIndex_again s.heap bytes' hpage hsize, ← hindex] at hsorted
  rw [hsize] at hmixed ⊢
  exact ((getIndex_eq_iff hpage hun' hun).mp hsorted).resolve_right hmixed

theorem Kept.carve (h : Kept L s) {bytes : Nat} (hun : s.heap.Untruncated bytes)
    (hr : s.heap.getIndex bytes < s.heap.getIndex s.heap.size)
    (hfit : s.heap.cur + s.heap.getAllocBytes bytes ≤ s.heap.size) :
    Kept L (s.handOut bytes (s.heap.mem + s.heap.cur + sizeofHeader)
      (Xheap.carve s.memory s.heap (s.heap.getAllocBytes bytes))
      { s.heap with cur := s.heap.cur + s.heap.getAllocBytes bytes }) := by
  have hlt := h.inv.shape.block.size_lt
  have hge := s.heap.le_getAllocBytes bytes
  have hpos : s.heap.mem + s.heap.cur + sizeofHeader ≠ 0 :=
    Nat.ne_of_gt (Nat.add_pos_right _ (by decide))
  have hnew : getChunkSize (Xheap.carve s.memory s.heap (s.heap.getAllocBytes bytes))
      (s.heap.mem + s.heap.cur + sizeofHeader) + 24 = s.heap.getAllocBytes bytes := by
    rw [getChunkSize_carve _ _ (by omega), sizeofHeader]
    omega
  have hinv := inv_carve h.inv hfit (by rw [getIndex_eq hun]; omega) hr
  rw [handOut_chunk s bytes _ _ hpos] at hinv ⊢
  refine ⟨hinv, fun p hp => ?_, fun r hrlt p hp => ?_, fun p hp => ?_⟩
  · rcases List.mem_cons.mp hp with rfl | hp
    · exact ⟨bytes, hnew, hun⟩
    · obtain ⟨bytes', hsize, hun'⟩ := h.fitted p hp
      exact ⟨bytes', (congrArg (· + 24) (h.inv.size_carve _ hp)).trans hsize, hun'⟩
  · have hchunk := (h.inv.listed r hrlt p hp).1
    dsimp only
    rw [h.inv.size_carve _ hchunk]
    exact h.sorted r hrlt p hp
  · rcases List.mem_cons.mp hp with rfl | hp
    · exact Or.inl ⟨_, List.mem_cons_self, rfl⟩
    · rcases h.kept p hp with ⟨c, hc, hcp⟩ | hlisted
      · exact Or.inl ⟨c, List.mem_cons_of_mem _ hc, hcp⟩
      · exact Or.inr hlisted

theorem Kept.pop (h : Kept L s) {bytes r p : Nat} {l : List Nat} (hr : r < s.heap.nrLists)
    (hl : L r = p :: l) (hsize : getChunkSize s.memory p + 24 = s.heap.getAllocBytes bytes) :
    Kept (Function.update L r l) (s.handOut bytes p
      (s.memory.store64 (s.heap.mem + 8 * r) (s.memory.load64 p)) s.heap) := by
  have hge := s.heap.le_getAllocBytes bytes
  have hp : p ∈ s.chunks := (h.inv.listed r hr p (by simp [hl])).1
  have hpos : p ≠ 0 := by
    have := (h.inv.shape.chunk p hp).lo
    omega
  have hkeep {q : Nat} (hq : q ∈ s.chunks) := h.inv.size_cell hr (s.memory.load64 p) hq
  have hinv := (inv_pop h.inv bytes hr hl rfl).2 (by rw [hkeep hp]; omega)
  rw [handOut_chunk s bytes _ _ hpos] at hinv ⊢
  have hsub {r' q : Nat} (hq : q ∈ Function.update L r l r') : q ∈ L r' := by
    by_cases hne : r' = r
    · subst hne
      rw [Function.update_self] at hq
      exact hl ▸ List.mem_cons_of_mem p hq
    · rwa [Function.update_of_ne hne] at hq
  have hchunks {q : Nat} (hq : q ∈ p :: s.chunks) : q ∈ s.chunks := by
    rcases List.mem_cons.mp hq with rfl | hq
    · exact hp
    · exact hq
  refine ⟨hinv, fun q hq => ?_, fun r' hr' q hq => ?_, fun q hq => ?_⟩
  · obtain ⟨bytes', hsize', hun'⟩ := h.fitted q (hchunks hq)
    exact ⟨bytes', (congrArg (· + 24) (hkeep (hchunks hq))).trans hsize', hun'⟩
  · dsimp only
    rw [hkeep (h.inv.listed r' hr' q (hsub hq)).1]
    exact h.sorted r' hr' q (hsub hq)
  · by_cases hqp : q = p
    · exact Or.inl ⟨_, List.mem_cons_self, hqp.symm⟩
    · rcases h.kept q (hchunks hq) with ⟨c, hc, hcq⟩ | ⟨r', hr', hqr⟩
      · exact Or.inl ⟨c, List.mem_cons_of_mem _ hc, hcq⟩
      · refine Or.inr ⟨r', hr', ?_⟩
        by_cases hne : r' = r
        · subst hne
          rw [Function.update_self]
          rw [hl] at hqr
          exact (List.mem_cons.mp hqr).resolve_left hqp
        · rwa [Function.update_of_ne hne]

theorem Kept.allocate (h : Kept L s) {bytes ret : Nat} {m : Memory} {heap : Xheap}
    (hun : s.heap.Untruncated bytes) (hr : s.heap.getIndex bytes < s.heap.getIndex s.heap.size)
    (hmixed : s.memory.load64 (s.heap.freeList (s.heap.getIndex bytes)) ≠ 0 →
      ¬ s.heap.Straddles (getChunkSize s.memory
          (s.heap.mem + s.memory.load64 (s.heap.freeList (s.heap.getIndex bytes))) + 24)
        (s.heap.getAllocBytes bytes))
    (halloc : allocate s.memory s.heap bytes = (ret, m, heap)) :
    (∃ L', Kept L' (s.handOut bytes ret m heap)) ∧ (ret = 0 → m = s.memory ∧ heap = s.heap) := by
  obtain ⟨r, hrlt, hindex, hcell⟩ := h.cell hun hr
  have hlinked := h.inv.linked r hrlt
  cases hl : L r with
  | nil =>
    rw [hl] at hlinked
    by_cases hfull : s.heap.cur + s.heap.getAllocBytes bytes > s.heap.size
    · rw [allocate_null (allocateChunk_full hcell hlinked hfull)] at halloc
      cases halloc
      exact ⟨⟨L, h⟩, fun _ => ⟨rfl, rfl⟩⟩
    · have hlt := h.inv.shape.block.size_lt
      rw [allocate_exact (allocateChunk_carve hcell hlinked hfull)
        (getChunkSize_carve _ _ (by omega))] at halloc
      cases halloc
      exact ⟨⟨L, h.carve hun hr (Nat.le_of_not_lt hfull)⟩,
        fun h0 => absurd h0 (Nat.ne_of_gt (Nat.add_pos_right _ (by decide)))⟩
  | cons p l =>
    rw [hl] at hlinked
    obtain ⟨hne, hp, -⟩ := hlinked
    have hmem := (h.inv.listed r hrlt p (by simp [hl])).1
    have hchunk := h.inv.shape.chunk p hmem
    have hlo := hchunk.lo
    have hhi := hchunk.hi
    rw [hcell, hp] at hmixed
    have hsize := h.head_size hun hindex hrlt hl (hmixed hne)
    have hexact : getChunkSize (s.memory.store64 (s.heap.mem + 8 * r) (s.memory.load64 p)) p =
        s.heap.getAllocBytes bytes - sizeofHeader := by
      rw [h.inv.size_cell hrlt _ hmem, sizeofHeader]
      omega
    rw [allocate_exact (allocateChunk_pop hcell hne hp (by omega)) hexact] at halloc
    cases halloc
    exact ⟨⟨_, h.pop hrlt hl hsize⟩, fun h0 => by omega⟩

theorem Kept.free (h : Kept L s) {c : Nat × Nat} (hc : c ∈ s.live) :
    ∃ m, free s.memory s.heap c.1 = some m ∧
      ∃ L', Kept L' { s with memory := m, live := s.live.filter (·.1 ≠ c.1) } := by
  have hmem := (h.inv.live c hc).1
  obtain ⟨r, hrlt, hr, -, hfree, hinv⟩ := free_list h.inv hc
  refine ⟨_, hfree, _, hinv, fun p hp => ?_, fun r' hr' p hp => ?_, fun p hp => ?_⟩
  · obtain ⟨bytes, hsize, hun⟩ := h.fitted p hp
    exact ⟨bytes, (congrArg (· + 24) (h.inv.size_push hrlt hmem hp)).trans hsize, hun⟩
  · by_cases hne : r' = r
    · subst hne
      rw [Function.update_self] at hp
      rcases List.mem_cons.mp hp with rfl | hp
      · dsimp only
        rw [h.inv.size_push hrlt hmem hmem]
        exact hr
      · dsimp only
        rw [h.inv.size_push hrlt hmem (h.inv.listed r' hr' p hp).1]
        exact h.sorted r' hr' p hp
    · rw [Function.update_of_ne hne] at hp
      dsimp only
      rw [h.inv.size_push hrlt hmem (h.inv.listed r' hr' p hp).1]
      exact h.sorted r' hr' p hp
  · by_cases hpc : p = c.1
    · exact Or.inr ⟨r, hrlt, by rw [Function.update_self, hpc]; exact List.mem_cons_self⟩
    · rcases h.kept p hp with ⟨d, hd, hdp⟩ | ⟨r', hr', hpr⟩
      · refine Or.inl ⟨d, List.mem_filter.mpr ⟨hd, ?_⟩, hdp⟩
        simpa [hdp] using hpc
      · refine Or.inr ⟨r', hr', ?_⟩
        by_cases hne : r' = r
        · subst hne
          rw [Function.update_self]
          exact List.mem_cons_of_mem _ hpr
        · rwa [Function.update_of_ne hne]

theorem Kept.write (h : Kept L s) {m : Memory} (hm : ∀ x, m x ≠ s.memory x → ∃ c ∈ s.live,
      c.1 ≤ x ∧ x < c.1 + getChunkSize s.memory c.1) : Kept L { s with memory := m } := by
  have hkeep {p : Nat} (hp : p ∈ s.chunks) : getChunkSize m p = getChunkSize s.memory p :=
    h.inv.size_congr hp fun x hx hx' => h.inv.write_header hm hp hx hx'
  refine ⟨h.inv.write hm, fun p hp => ?_, fun r hr p hp => ?_, h.kept⟩
  · obtain ⟨bytes, hsize, hun⟩ := h.fitted p hp
    exact ⟨bytes, (congrArg (· + 24) (hkeep hp)).trans hsize, hun⟩
  · dsimp only
    rw [hkeep (h.inv.listed r hr p hp).1]
    exact h.sorted r hr p hp

theorem Kept.step (h : Kept L s) {ev : XheapEvent} (hadm : s.Admissible ev) (hok : s.Unmixed ev)
    (hstep : s.Step ev s') : ∃ L', Kept L' s' := by
  cases ev with
  | allocate bytes ret =>
    obtain ⟨m, heap, halloc, rfl⟩ := hstep
    exact (h.allocate hok.1 hadm.2 hok.2 halloc).1
  | free ptr =>
    obtain ⟨c, hc, rfl⟩ := hadm
    obtain ⟨m, hfree, rfl⟩ := hstep
    obtain ⟨m', hfree', hkept⟩ := h.free hc
    rw [hfree] at hfree'
    cases hfree'
    exact hkept
  | write m =>
    obtain rfl := hstep
    exact ⟨L, h.write hadm⟩

theorem kept_init {m0 m : Memory} {addr size alignment_unit mem : Nat} {heap : Xheap}
    (hb : ValidBlock addr size alignment_unit mem)
    (h : init m0 addr size alignment_unit mem = (0, m, heap)) :
    Kept (fun _ => []) (start m heap) :=
  ⟨inv_init hb h, by simp [start], by simp, by simp [start]⟩

/-- In every run in which no request has a truncated class or finds a chunk from the other side
of a limit on its list, no chunk is lost and no allocation that fails changes anything; and two
requests with one index need one chunk size exactly if they do not straddle a limit. -/
theorem run_conserves {m0 m : Memory} {addr size alignment_unit mem : Nat} {heap : Xheap}
    (hb : ValidBlock addr size alignment_unit mem)
    (h : init m0 addr size alignment_unit mem = (0, m, heap)) {evs : List XheapEvent}
    (hrun : Run (Guarded Step fun s ev => s.Admissible ev ∧ s.Unmixed ev) (start m heap) evs s) :
    s.Conserved ∧
      (∀ bytes s', Guarded Step (fun s ev => s.Admissible ev ∧ s.Unmixed ev) s
        (.allocate bytes 0) s' → s' = s) ∧
      ∀ bytes bytes', s.heap.Untruncated bytes → s.heap.Untruncated bytes' →
        s.heap.getIndex bytes = s.heap.getIndex bytes' →
        (s.heap.getAllocBytes bytes = s.heap.getAllocBytes bytes' ↔
          ¬ s.heap.Straddles (s.heap.getAllocBytes bytes) (s.heap.getAllocBytes bytes')) := by
  obtain ⟨L, hkept⟩ := hrun.invariant (I := fun s => ∃ L, Kept L s)
    (by
      rintro s ev s' ⟨L, hkept⟩ ⟨⟨hadm, hok⟩, hstep⟩
      exact hkept.step hadm hok hstep)
    ⟨_, kept_init hb h⟩
  refine ⟨hkept.conserved, fun bytes s' hstep => ?_, fun bytes bytes' hun hun' hindex => ?_⟩
  · obtain ⟨⟨hadm, hun, hmixed⟩, m', heap', halloc, rfl⟩ := hstep
    obtain ⟨rfl, rfl⟩ := (hkept.allocate hun hadm.2 hmixed halloc).2 rfl
    rfl
  · have hpage := hkept.inv.shape.block.page
    refine ⟨fun heq hs => ne_of_straddles hpage hs heq, fun hs => ?_⟩
    exact ((getIndex_eq_iff hpage hun hun').mp hindex).resolve_right hs

def smallHeap (cur : Nat) : Xheap := ⟨5, 4096, cur, 4096, 8⟩

def smallStart : Int × Memory × Xheap := init (fun _ => 0) 8 4096 5 4096

theorem smallStart_eq : smallStart = (0, smallStart.2.1, smallHeap 456) :=
  eq_parts (by decide +kernel)

theorem smallBlock : ValidBlock 8 4096 5 4096 :=
  ⟨by decide, by decide, by decide, by decide, by decide, by decide, by decide⟩

def smallFirst (bytes : Nat) : Nat × Memory × Xheap :=
  allocate smallStart.2.1 (smallHeap 456) bytes

def smallFree (bytes : Nat) : Option Memory :=
  free (smallFirst bytes).2.1 (smallFirst bytes).2.2 4576

def smallMemory (bytes : Nat) : Memory := (smallFree bytes).getD fun _ => 0

def smallSecond (bytes bytes' : Nat) : Nat × Memory × Xheap :=
  allocate (smallMemory bytes) (smallFirst bytes).2.2 bytes'

theorem small_calls (bytes bytes' ret cur : Nat) (mid : Memory → Prop)
    (hfirst : (smallFirst bytes).1 = 4576 ∧ (smallFirst bytes).2.2 = smallHeap cur)
    (hfree : (smallFree bytes).isSome = true)
    (hsecond : (smallSecond bytes bytes').1 = ret ∧
      (smallSecond bytes bytes').2.2 = smallHeap cur)
    (hmid : mid (smallMemory bytes)) :
    ∃ m1 m2 m3, allocate smallStart.2.1 (smallHeap 456) bytes = (4576, m1, smallHeap cur) ∧
      free m1 (smallHeap cur) 4576 = some m2 ∧
      allocate m2 (smallHeap cur) bytes' = (ret, m3, smallHeap cur) ∧ mid m2 := by
  refine ⟨(smallFirst bytes).2.1, smallMemory bytes, (smallSecond bytes bytes').2.1,
    eq_parts (x := smallFirst bytes) hfirst, ?_, ?_, hmid⟩
  · rw [← hfirst.2]
    obtain ⟨m, hm⟩ := Option.isSome_iff_exists.mp hfree
    rw [smallMemory, hm]
    exact hm
  · have hcall : smallSecond bytes bytes' = allocate (smallMemory bytes) (smallHeap cur) bytes' := by
      unfold smallSecond
      rw [hfirst.2]
    rw [← hcall]
    exact eq_parts hsecond

theorem small_run (ok : XheapSession → XheapEvent → Prop) {m m1 m2 m3 : Memory}
    {bytes bytes' ret cur : Nat}
    (hfirst : allocate m (smallHeap 456) bytes = (4576, m1, smallHeap cur))
    (hfree : free m1 (smallHeap cur) 4576 = some m2)
    (hsecond : allocate m2 (smallHeap cur) bytes' = (ret, m3, smallHeap cur))
    (hok1 : ok (start m (smallHeap 456)) (.allocate bytes 4576))
    (hok2 : ok ⟨m1, smallHeap cur, [(4576, bytes)], [4576]⟩ (.free 4576))
    (hok3 : ok ⟨m2, smallHeap cur, [], [4576]⟩ (.allocate bytes' ret)) :
    Run (Guarded Step ok) (start m (smallHeap 456))
      [.allocate bytes 4576, .free 4576, .allocate bytes' ret]
      (handOut ⟨m2, smallHeap cur, [], [4576]⟩ bytes' ret m3 (smallHeap cur)) := by
  have hstep1 : (start m (smallHeap 456)).Step (.allocate bytes 4576)
      ⟨m1, smallHeap cur, [(4576, bytes)], [4576]⟩ :=
    ⟨m1, _, hfirst, (handOut_chunk (start m (smallHeap 456)) bytes m1 (smallHeap cur)
      (show 4576 ≠ 0 by decide)).symm⟩
  have hstep2 : Step ⟨m1, smallHeap cur, [(4576, bytes)], [4576]⟩
      (.free 4576) ⟨m2, smallHeap cur, [], [4576]⟩ := ⟨m2, hfree, by simp⟩
  have hstep3 : Step ⟨m2, smallHeap cur, [], [4576]⟩ (.allocate bytes' ret)
      (handOut ⟨m2, smallHeap cur, [], [4576]⟩ bytes' ret m3 (smallHeap cur)) :=
    ⟨m3, _, hsecond, rfl⟩
  exact .cons ⟨hok1, hstep1⟩ (.cons ⟨hok2, hstep2⟩ (.single ⟨hok3, hstep3⟩))

/-- The chunk of a request serves the next request of its size. -/
theorem run_conserves_reuse : ∃ m heap evs s,
    init (fun _ => 0) 8 4096 5 4096 = (0, m, heap) ∧
      Run (Guarded Step fun s ev => s.Admissible ev ∧ s.Unmixed ev) (start m heap) evs s ∧
      s.live = [(4576, 40)] ∧ s.chunks = [4576, 4576] ∧ s.Conserved := by
  obtain ⟨m1, m2, m3, hfirst, hfree, hsecond, hcell, hsize⟩ := small_calls 40 40 4576 520
    (fun m => m.load64 ((smallHeap 520).freeList ((smallHeap 520).getIndex 40)) = 480 ∧
      getChunkSize m 4576 = 40)
    (by decide +kernel) (by decide +kernel) (by decide +kernel) (by decide +kernel)
  have hempty : smallStart.2.1.load64 ((smallHeap 456).freeList ((smallHeap 456).getIndex 40)) = 0 := by
    decide +kernel
  have hadm : ∀ cur ∈ [456, 520], 40 ≤ 4096 ∧
      (smallHeap cur).getIndex 40 < (smallHeap cur).getIndex 4096 ∧
      (smallHeap cur).Untruncated 40 ∧
      ¬ (smallHeap cur).Straddles 64 ((smallHeap cur).getAllocBytes 40) := by
    unfold Untruncated
    decide +kernel
  obtain ⟨hle, hlt456, hun456, -⟩ := hadm 456 (by decide)
  obtain ⟨-, hlt520, hun520, hsame⟩ := hadm 520 (by decide)
  have hrun := small_run (fun s ev => s.Admissible ev ∧ s.Unmixed ev) hfirst hfree hsecond
    ⟨⟨hle, hlt456⟩, hun456, fun hne => absurd hempty hne⟩
    ⟨⟨_, List.mem_cons_self, rfl⟩, trivial⟩
    ⟨⟨hle, hlt520⟩, hun520, fun _ => by
      dsimp only
      rw [hcell]
      change ¬ (smallHeap 520).Straddles (getChunkSize m2 4576 + 24) _
      rw [hsize]
      exact hsame⟩
  exact ⟨_, _, _, _, smallStart_eq, hrun, rfl, rfl, (run_conserves smallBlock smallStart_eq hrun).1⟩

/-- Of two requests on the two sides of the limit of 32 pages, the second one gets nothing and
the chunk of the first one is lost. -/
theorem not_run_conserves : ¬ ∀ (m0 m : Memory) (addr size alignment_unit mem : Nat)
    (heap : Xheap) (evs : List XheapEvent) (s : XheapSession),
    ValidBlock addr size alignment_unit mem →
    init m0 addr size alignment_unit mem = (0, m, heap) →
    Run (Guarded Step Admissible) (start m heap) evs s → s.Conserved := by
  intro hall
  obtain ⟨m1, m2, m3, hfirst, hfree, hsecond, hcell⟩ := small_calls 1023 1024 0 1512
    (fun m => m.load64 ((smallHeap 1512).freeList ((smallHeap 1512).getIndex 1024)) ≠ 0)
    (by decide +kernel) (by decide +kernel) (by decide +kernel) (by decide +kernel)
  have hadm : ∀ cur ∈ [456, 1512], 1023 ≤ 4096 ∧ 1024 ≤ 4096 ∧
      (0 ≤ (smallHeap cur).getIndex 1023 ∧
        (smallHeap cur).getIndex 1023 < (smallHeap cur).getIndex 4096) ∧
      0 ≤ (smallHeap cur).getIndex 1024 ∧
        (smallHeap cur).getIndex 1024 < (smallHeap cur).getIndex 4096 := by
    decide +kernel
  obtain ⟨hle, -, ⟨h0, hlt⟩, -⟩ := hadm 456 (by decide)
  obtain ⟨-, hle', -, h0', hlt'⟩ := hadm 1512 (by decide)
  have hrun := small_run Admissible hfirst hfree hsecond ⟨hle, hlt⟩
    ⟨_, List.mem_cons_self, rfl⟩ ⟨hle', hlt'⟩
  have hstart := inv_init smallBlock smallStart_eq
  obtain ⟨⟨L1, hinv1⟩, -⟩ := inv_allocate hstart h0 hlt hfirst
  rw [handOut_chunk _ _ _ _ (by decide)] at hinv1
  obtain ⟨m, hfree', L2, hinv2⟩ := inv_free hinv1 List.mem_cons_self
  rw [hfree] at hfree'
  cases hfree'
  exact not_conserved_of_refused hinv2 h0' hlt' hcell hsecond
    (hall _ _ _ _ _ _ _ _ _ smallBlock smallStart_eq hrun)

end XheapSession

end Libxseg
