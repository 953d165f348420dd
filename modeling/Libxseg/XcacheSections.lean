import Libxseg.XcacheTables

/-!
# What the locked sections of the cache do

`Tables` says which nodes the two tables map names to, and `Ordered`, for a cache with
`XCACHE_LRU_ARRAY`, that exactly the nodes in `entries` have an access time. One lemma
for each locked section says how it moves nodes between the tables and by how much it
changes the reference counts. With `XCACHE_LRU_HEAP` the same holds as long as the heap
names nodes that are in `entries`.
-/

namespace Libxseg

set_option autoImplicit false

namespace Xcache

variable {c c' c'' : Xcache} {E R : Finset xqindex} {idx g h v : xqindex} {name : NamePtr}

structure Frame (c c' : Xcache) : Prop where
  size : c'.size = c.size
  nr_nodes : c'.nr_nodes = c.nr_nodes
  free_nodes : c'.free_nodes = c.free_nodes
  flags : c'.flags = c.flags
  ops : c'.ops = c.ops
  name : ∀ idx, (c'.nodes idx).name = (c.nodes idx).name

structure Quiet (c c' : Xcache) : Prop extends Frame c c' where
  ref : ∀ idx, (c'.nodes idx).ref = (c.nodes idx).ref
  time : c'.time = c.time
  calls : c'.calls = c.calls

structure Ranked (c c' : Xcache) : Prop extends Frame c c' where
  ref : ∀ idx, (c'.nodes idx).ref = (c.nodes idx).ref
  entries : c'.entries = c.entries
  rm_entries : c'.rm_entries = c.rm_entries
  calls : c'.calls = c.calls

theorem Frame.refl (c : Xcache) : Frame c c := ⟨rfl, rfl, rfl, rfl, rfl, fun _ => rfl⟩

theorem Frame.trans (h : Frame c c') (h' : Frame c' c'') : Frame c c'' :=
  ⟨h'.size.trans h.size, h'.nr_nodes.trans h.nr_nodes, h'.free_nodes.trans h.free_nodes,
    h'.flags.trans h.flags, h'.ops.trans h.ops, fun idx => (h'.name idx).trans (h.name idx)⟩

theorem Quiet.refl (c : Xcache) : Quiet c c := ⟨Frame.refl c, fun _ => rfl, rfl, rfl⟩

theorem Quiet.trans (h : Quiet c c') (h' : Quiet c' c'') : Quiet c c'' :=
  ⟨h.toFrame.trans h'.toFrame, fun idx => (h'.ref idx).trans (h.ref idx), h'.time.trans h.time,
    h'.calls.trans h.calls⟩

theorem Ranked.refl (c : Xcache) : Ranked c c := ⟨Frame.refl c, fun _ => rfl, rfl, rfl, rfl⟩

theorem Ranked.trans (h : Ranked c c') (h' : Ranked c' c'') : Ranked c c'' :=
  ⟨h.toFrame.trans h'.toFrame, fun idx => (h'.ref idx).trans (h.ref idx),
    h'.entries.trans h.entries, h'.rm_entries.trans h.rm_entries, h'.calls.trans h.calls⟩

theorem Ranked.quiet (h : Ranked c c') (htime : c'.time = c.time) : Quiet c c' :=
  ⟨h.toFrame, h.ref, htime, h.calls⟩

theorem Frame.has (h : Frame c c') (flag : UInt32) : c'.has flag = c.has flag := by
  rw [Xcache.has, Xcache.has, h.flags]

theorem modify_nodes_self (c : Xcache) (idx : xqindex) (f : XcacheEntry → XcacheEntry) :
    (c.modify idx f).nodes idx = f (c.nodes idx) := by
  simp [modify]

theorem modify_nodes_of_ne {j : xqindex} (c : Xcache) (f : XcacheEntry → XcacheEntry)
    (hne : j ≠ idx) : (c.modify idx f).nodes j = c.nodes j := by
  simp [modify, hne]

theorem frame_modify (c : Xcache) (idx : xqindex) {f : XcacheEntry → XcacheEntry}
    (hf : ∀ ce, (f ce).name = ce.name) : Frame c (c.modify idx f) := by
  refine ⟨rfl, rfl, rfl, rfl, rfl, fun j => ?_⟩
  by_cases hj : j = idx
  · rw [hj, modify_nodes_self, hf]
  · rw [modify_nodes_of_ne c f hj]

/-- A change of a node that keeps its name and its reference count. -/
theorem quiet_modify (c : Xcache) (idx : xqindex) {f : XcacheEntry → XcacheEntry}
    (hf : ∀ ce, (f ce).name = ce.name) (hr : ∀ ce, (f ce).ref = ce.ref) :
    Quiet c (c.modify idx f) := by
  refine ⟨frame_modify c idx hf, fun j => ?_, rfl, rfl⟩
  by_cases hj : j = idx
  · rw [hj, modify_nodes_self, hr]
  · rw [modify_nodes_of_ne c f hj]

theorem ranked_modify (c : Xcache) (idx : xqindex) (h : Nat) :
    Ranked c (c.modify idx fun ce => { ce with h := h }) := by
  have hq : Quiet c (c.modify idx fun ce => { ce with h := h }) :=
    quiet_modify c idx (fun _ => rfl) fun _ => rfl
  exact ⟨hq.toFrame, hq.ref, rfl, rfl, rfl⟩

/-- `entries` maps names to the nodes in `E`, `rm_entries` to those in `R`. -/
structure Tables (c : Xcache) (E R : Finset xqindex) : Prop where
  entries : Indexes c.nodes c.entries E
  rm_entries : Indexes c.nodes c.rm_entries R
  entries_cap : Capacity c.entries c.size.toNat
  rm_cap : Capacity c.rm_entries c.size.toNat
  positive : 0 < c.size.toNat
  nodes_le : c.nr_nodes.toNat ≤ 2 * c.size.toNat
  entries_low : ∀ idx ∈ E, idx.toNat < c.nr_nodes.toNat
  rm_low : ∀ idx ∈ R, idx.toNat < c.nr_nodes.toNat
  apart : ∀ i ∈ E, ∀ j ∈ R, (c.nodes i).name ≠ (c.nodes j).name
  card_le : E.card ≤ c.size.toNat
  unused : c.has XCACHE_USE_RMTABLE = false → R = ∅

structure Timed (c : Xcache) (E : Finset xqindex) : Prop where
  array : c.has XCACHE_LRU_ARRAY = true
  below : c.time ≠ XCACHE_LRU_MAX
  cached : ∀ idx, c.times idx ≠ XCACHE_LRU_MAX ↔ idx ∈ E
  le : ∀ idx ∈ E, c.times idx ≤ c.time
  inj : ∀ i ∈ E, ∀ j ∈ E, c.times i = c.times j → i = j

def Ordered (c : Xcache) (E : Finset xqindex) : Prop := c.has XCACHE_LRU_ARRAY = true → Timed c E

theorem Ordered.congr (hm : Ordered c E) (hf : Frame c c') (htime : c'.time = c.time)
    (htimes : c'.times = c.times) : Ordered c' E := by
  intro harray
  have hm := hm (by rwa [hf.has] at harray)
  refine ⟨harray, ?_, ?_, ?_, ?_⟩
  · rw [htime]
    exact hm.below
  · rw [htimes]
    exact hm.cached
  · rw [htimes, htime]
    exact hm.le
  · rw [htimes]
    exact hm.inj

theorem notMark_of_low {n : UInt32} (hlow : idx.toNat < n.toNat) : Xhash.NotMark idx := by
  have hn := n.toNat_lt
  constructor
  · rintro rfl
    exact absurd (Nat.lt_trans hlow hn) (by decide)
  · rintro rfl
    exact absurd (Nat.lt_trans hlow hn) (by decide)

theorem toNat_ofNat_lt {i : Nat} {n : UInt32} (hi : i < n.toNat) : (UInt64.ofNat i).toNat = i := by
  have hn := n.toNat_lt
  have hsize : UInt64.size = 2 ^ 64 := rfl
  exact UInt64.toNat_ofNat_of_lt' (by omega)

theorem ne_noEntry_of_low {n : UInt32} (hlow : idx.toNat < n.toNat) : idx ≠ NoEntry :=
  (notMark_of_low hlow).2

theorem card_le_of_low {s : Finset xqindex} {n : Nat} (hlow : ∀ idx ∈ s, idx.toNat < n) :
    s.card ≤ n := by
  have hcard := Finset.card_le_card_of_injOn (t := Finset.range n) UInt64.toNat
    (fun idx hmem => Finset.mem_coe.mpr (Finset.mem_range.mpr (hlow idx hmem)))
    (fun _ _ _ _ heq => UInt64.toNat_inj.mp heq)
  rwa [Finset.card_range] at hcard

namespace Tables

theorem noEntry_notMem (ht : Tables c E R) : NoEntry ∉ E :=
  fun hmem => ne_noEntry_of_low (ht.entries_low _ hmem) rfl

theorem disjoint (ht : Tables c E R) : Disjoint E R :=
  Finset.disjoint_left.mpr fun idx hE hR => ht.apart idx hE idx hR rfl

theorem congr (ht : Tables c E R) (hf : Frame c c') (he : c'.entries = c.entries)
    (hr : c'.rm_entries = c.rm_entries) : Tables c' E R where
  entries := he ▸ ht.entries.congr fun idx _ => hf.name idx
  rm_entries := hr ▸ ht.rm_entries.congr fun idx _ => hf.name idx
  entries_cap := by
    rw [he, hf.size]
    exact ht.entries_cap
  rm_cap := by
    rw [hr, hf.size]
    exact ht.rm_cap
  positive := by
    rw [hf.size]
    exact ht.positive
  nodes_le := by
    rw [hf.size, hf.nr_nodes]
    exact ht.nodes_le
  entries_low idx hmem := by
    rw [hf.nr_nodes]
    exact ht.entries_low idx hmem
  rm_low idx hmem := by
    rw [hf.nr_nodes]
    exact ht.rm_low idx hmem
  apart i hi j hj := by
    rw [hf.name, hf.name]
    exact ht.apart i hi j hj
  card_le := by
    rw [hf.size]
    exact ht.card_le
  unused hrm := ht.unused (by rwa [hf.has] at hrm)

/-- A node in neither table leaves room for the victim of an eviction. -/
theorem rm_room (ht : Tables c E R) (hg : g.toNat < c.nr_nodes.toNat) (hgE : g ∉ E) (hgR : g ∉ R)
    (hfull : c.size.toNat ≤ E.card) : R.card < c.size.toNat := by
  have hcard : (insert g (E ∪ R)).card ≤ c.nr_nodes.toNat := by
    refine card_le_of_low fun idx hmem => ?_
    rcases Finset.mem_insert.mp hmem with rfl | hmem
    · exact hg
    rcases Finset.mem_union.mp hmem with hmem | hmem
    · exact ht.entries_low idx hmem
    · exact ht.rm_low idx hmem
  have hnot : g ∉ E ∪ R := by
    rw [Finset.mem_union]
    exact fun hmem => hmem.elim hgE hgR
  rw [Finset.card_insert_of_notMem hnot, Finset.card_union_of_disjoint ht.disjoint] at hcard
  have := ht.nodes_le
  omega

end Tables

def TimeBelow (c : Xcache) : Prop := c.time + 1 ≠ XCACHE_LRU_MAX

theorem entryGet_ref (c : Xcache) (idx j : xqindex) :
    ((c.entryGet idx).nodes j).ref = (c.nodes j).ref + if j = idx then 1 else 0 := by
  rw [entryGet]
  split
  · rename_i heq
    rw [heq, modify_nodes_self]
  · rename_i hne
    rw [modify_nodes_of_ne c _ hne, UInt32.add_zero]

theorem entryGetAndUpdate_eq (harray : c.has XCACHE_LRU_ARRAY = true) (hbelow : c.TimeBelow) :
    c.entryGetAndUpdate idx = { c.entryGet idx with
      time := c.time + 1
      times := Function.update c.times idx (c.time + 1) } :=
   (if_neg hbelow).trans (if_pos harray)

theorem time_lt_succ (htime : c.time ≠ XCACHE_LRU_MAX) : c.time < c.time + 1 := by
  have hlt := c.time.toNat_lt
  have hne : c.time.toNat ≠ 2 ^ 64 - 1 := fun heq => htime (UInt64.toNat_inj.mp heq)
  rw [UInt64.lt_iff_toNat_lt, UInt64.toNat_add, UInt64.toNat_one]
  omega

theorem Timed.touch (hm : Timed c E) (hbelow : c.TimeBelow) :
    Timed (c.entryGetAndUpdate idx) (insert idx E) := by
  have hlt := time_lt_succ hm.below
  rw [entryGetAndUpdate_eq hm.array hbelow]
  have hself : Function.update c.times idx (c.time + 1) idx = c.time + 1 := Function.update_self ..
  have hother {j : xqindex} (hj : j ≠ idx) : Function.update c.times idx (c.time + 1) j = c.times j :=
    Function.update_of_ne hj _ _
  have hmem {j : xqindex} (hj : j ∈ insert idx E) (hne : j ≠ idx) : j ∈ E :=
    (Finset.mem_insert.mp hj).resolve_left hne
  refine ⟨hm.array, hbelow, fun j => ?_, fun j hj => ?_, fun i hi j hj heq => ?_⟩
  · show Function.update c.times idx (c.time + 1) j ≠ _ ↔ _
    by_cases hj : j = idx
    · rw [hj, hself]
      exact iff_of_true hbelow (Finset.mem_insert_self _ _)
    · rw [hother hj, hm.cached, Finset.mem_insert]
      exact ⟨Or.inr, fun h => h.resolve_left hj⟩
  · show Function.update c.times idx (c.time + 1) j ≤ c.time + 1
    by_cases hne : j = idx
    · rw [hne, hself]
      exact UInt64.le_refl _
    · rw [hother hne]
      exact UInt64.le_of_lt (UInt64.lt_of_le_of_lt (hm.le j (hmem hj hne)) hlt)
  · change Function.update c.times idx (c.time + 1) i = Function.update c.times idx (c.time + 1) j
      at heq
    have hlate {k : xqindex} (hk : k ∈ E) : c.times k ≠ c.time + 1 :=
      UInt64.ne_of_lt (UInt64.lt_of_le_of_lt (hm.le k hk) hlt)
    by_cases hi' : i = idx
    · by_cases hj' : j = idx
      · rw [hi', hj']
      · rw [hi', hself, hother hj'] at heq
        exact absurd heq.symm (hlate (hmem hj hj'))
    · by_cases hj' : j = idx
      · rw [hj', hself, hother hi'] at heq
        exact absurd heq (hlate (hmem hi hi'))
      · rw [hother hi', hother hj'] at heq
        exact hm.inj i (hmem hi hi') j (hmem hj hj') heq

theorem ranked_resetTime (c : Xcache) (i : Nat) : Ranked c (c.resetTime i) := by
  unfold resetTime
  dsimp only
  split
  · exact ⟨⟨rfl, rfl, rfl, rfl, rfl, fun _ => rfl⟩, fun _ => rfl, rfl, rfl, rfl⟩
  · exact .refl c

theorem ranked_resetKey (c : Xcache) (i : Nat) : Ranked c (c.resetKey i) := by
  unfold resetKey
  dsimp only
  split
  · exact .refl c
  split
  · exact ⟨⟨rfl, rfl, rfl, rfl, rfl, fun _ => rfl⟩, fun _ => rfl, rfl, rfl, rfl⟩
  · exact ⟨⟨rfl, rfl, rfl, rfl, rfl, fun _ => rfl⟩, fun _ => rfl, rfl, rfl, rfl⟩

theorem ranked_foldl {f : Xcache → Nat → Xcache} (hf : ∀ c i, Ranked c (f c i)) (l : List Nat)
    (c : Xcache) : Ranked c (l.foldl f c) := by
  induction l generalizing c with
  | nil => exact .refl c
  | cons i l ih => exact (hf c i).trans (ih (f c i))

theorem ranked_resetTimes (c : Xcache) : Ranked c c.resetTimes := by
  unfold resetTimes
  split
  · exact ranked_foldl ranked_resetTime _ c
  split
  · exact ranked_foldl ranked_resetKey _ c
  · exact .refl c

theorem ranked_updateAccessTime (c : Xcache) (idx : xqindex) : Ranked c (c.updateAccessTime idx) := by
  unfold updateAccessTime
  dsimp only
  split
  · have hfirst : Ranked c { c with time := 0 } :=
      ⟨⟨rfl, rfl, rfl, rfl, rfl, fun _ => rfl⟩, fun _ => rfl, rfl, rfl, rfl⟩
    exact hfirst.trans (ranked_resetTimes _)
  split
  · exact ⟨⟨rfl, rfl, rfl, rfl, rfl, fun _ => rfl⟩, fun _ => rfl, rfl, rfl, rfl⟩
  split
  · split
    · exact ⟨⟨rfl, rfl, rfl, rfl, rfl, fun _ => rfl⟩, fun _ => rfl, rfl, rfl, rfl⟩
    · have hfirst : Ranked c { c with
          time := c.time + 1
          binheap := (c.binheap.insert (c.time + 1) idx).2 } :=
        ⟨⟨rfl, rfl, rfl, rfl, rfl, fun _ => rfl⟩, fun _ => rfl, rfl, rfl, rfl⟩
      exact hfirst.trans (ranked_modify _ idx _)
  · exact ⟨⟨rfl, rfl, rfl, rfl, rfl, fun _ => rfl⟩, fun _ => rfl, rfl, rfl, rfl⟩

theorem frame_entryGetAndUpdate (c : Xcache) (idx : xqindex) :
    Frame c (c.entryGetAndUpdate idx) := by
  have hget : Frame c (c.entryGet idx) := frame_modify c idx fun _ => rfl
  exact hget.trans (ranked_updateAccessTime _ idx).toFrame

theorem entryGetAndUpdate_ref (c : Xcache) (idx j : xqindex) :
    ((c.entryGetAndUpdate idx).nodes j).ref = (c.nodes j).ref + if j = idx then 1 else 0 := by
  rw [entryGetAndUpdate, (ranked_updateAccessTime _ idx).ref]
  exact entryGet_ref c idx j

theorem entryGetAndUpdate_calls (c : Xcache) (idx : xqindex) :
    (c.entryGetAndUpdate idx).calls = c.calls := by
  rw [entryGetAndUpdate, (ranked_updateAccessTime _ idx).calls]
  rfl

theorem Tables.touch (ht : Tables c E R) (idx : xqindex) :
    Tables (c.entryGetAndUpdate idx) E R := by
  have hr : Ranked (c.entryGet idx) (c.entryGetAndUpdate idx) := ranked_updateAccessTime _ idx
  exact ht.congr (frame_entryGetAndUpdate c idx) hr.entries hr.rm_entries

theorem Ordered.touch (hm : Ordered c E) (hbelow : c.TimeBelow) :
    Ordered (c.entryGetAndUpdate idx) (insert idx E) := by
  intro harray
  rw [(frame_entryGetAndUpdate c idx).has] at harray
  exact (hm harray).touch hbelow

/-- The turns of the loop of `__xcache_lru` keep the smallest of the times so far. -/
theorem lruScan_foldl (times : xqindex → UInt64) (top : UInt64) (n : Nat) :
    (List.range n).foldl (lruScan times) (top, Noneidx) = (top, Noneidx) ∧
      (∀ i < n, top ≤ times (.ofNat i)) ∨
    ∃ i < n, (List.range n).foldl (lruScan times) (top, Noneidx) =
        (times (.ofNat i), .ofNat i) ∧ times (.ofNat i) < top ∧
      ∀ j < n, times (.ofNat i) ≤ times (.ofNat j) := by
  induction n with
  | zero => exact Or.inl ⟨rfl, fun i hi => absurd hi (Nat.not_lt_zero i)⟩
  | succ n ih =>
    rw [List.range_succ, List.foldl_append, List.foldl_cons, List.foldl_nil]
    rcases ih with ⟨hbest, hle⟩ | ⟨i, hi, hbest, hlt, hle⟩
    · rw [hbest, lruScan]
      split
      · rename_i hgt
        refine Or.inr ⟨n, n.lt_succ_self, rfl, hgt, fun j hj => ?_⟩
        rcases Nat.lt_succ_iff_lt_or_eq.mp hj with hj | rfl
        · exact UInt64.le_of_lt (UInt64.lt_of_lt_of_le hgt (hle j hj))
        · exact UInt64.le_refl _
      · rename_i hge
        refine Or.inl ⟨rfl, fun i hi => ?_⟩
        rcases Nat.lt_succ_iff_lt_or_eq.mp hi with hi | rfl
        · exact hle i hi
        · exact UInt64.not_lt.mp hge
    · rw [hbest, lruScan]
      split
      · rename_i hgt
        refine Or.inr ⟨n, n.lt_succ_self, rfl, UInt64.lt_trans hgt hlt, fun j hj => ?_⟩
        rcases Nat.lt_succ_iff_lt_or_eq.mp hj with hj | rfl
        · exact UInt64.le_of_lt (UInt64.lt_of_lt_of_le hgt (hle j hj))
        · exact UInt64.le_refl _
      · rename_i hge
        refine Or.inr ⟨i, Nat.lt_succ_of_lt hi, rfl, hlt, fun j hj => ?_⟩
        rcases Nat.lt_succ_iff_lt_or_eq.mp hj with hj | rfl
        · exact hle j hj
        · exact UInt64.not_lt.mp hge

/-- `v` is the cached node that was accessed least recently, and early enough to be found. -/
structure Oldest (c : Xcache) (E : Finset xqindex) (v : xqindex) : Prop where
  mem : v ∈ E
  early : c.times v < -2
  le : ∀ idx ∈ E, c.times v ≤ c.times idx

theorem Timed.lru (hm : Timed c E) (hlow : ∀ idx ∈ E, idx.toNat < c.nr_nodes.toNat) :
    (∃ v, c.lru = (v, c) ∧ Oldest c E v) ∨
      c.lru = (NoEntry, c) ∧ ∀ idx ∈ E, -2 ≤ c.times idx := by
  have hlru : c.lru = (((List.range c.nr_nodes.toNat).foldl (lruScan c.times) (-2, Noneidx)).2, c) :=
    if_pos hm.array
  have hindex {idx : xqindex} (hmem : idx ∈ E) : ∃ i < c.nr_nodes.toNat, UInt64.ofNat i = idx :=
    ⟨idx.toNat, hlow idx hmem, UInt64.ofNat_toNat⟩
  rw [hlru]
  rcases lruScan_foldl c.times (-2) c.nr_nodes.toNat with ⟨hbest, hle⟩ | ⟨i, -, hbest, hlt, hle⟩
  · refine Or.inr ⟨by rw [hbest]; rfl, fun idx hmem => ?_⟩
    obtain ⟨i, hi, rfl⟩ := hindex hmem
    exact hle i hi
  · refine Or.inl ⟨_, by rw [hbest], ?_, hlt, fun idx hmem => ?_⟩
    · rw [← hm.cached]
      rintro heq
      rw [heq] at hlt
      exact absurd hlt (by decide)
    · obtain ⟨j, hj, rfl⟩ := hindex hmem
      exact hle j hj

/-- Without the array, nothing is known of the node that comes out. -/
theorem ranked_lru (c : Xcache) : Ranked c c.lru.2 ∧ c.lru.2.time = c.time ∧
    (c.has XCACHE_LRU_ARRAY = true → c.lru.2 = c) := by
  unfold lru
  split
  · exact ⟨Ranked.refl c, rfl, fun _ => rfl⟩
  · rename_i hno
    refine ⟨?_, ?_, fun harray => absurd harray hno⟩
    · split
      · dsimp only
        split
        · exact ⟨⟨rfl, rfl, rfl, rfl, rfl, fun _ => rfl⟩, fun _ => rfl, rfl, rfl, rfl⟩
        · have hfirst : Ranked c { c with binheap := c.binheap.extract.2 } :=
            ⟨⟨rfl, rfl, rfl, rfl, rfl, fun _ => rfl⟩, fun _ => rfl, rfl, rfl, rfl⟩
          exact hfirst.trans (ranked_modify _ _ _)
      · exact Ranked.refl c
    · split
      · dsimp only
        split <;> rfl
      · rfl

theorem lru_congr (hflags : c'.flags = c.flags) (hnodes : c'.nr_nodes = c.nr_nodes)
    (htimes : c'.times = c.times) (hheap : c'.binheap = c.binheap) : c'.lru.1 = c.lru.1 := by
  unfold lru has
  rw [hflags, hnodes, htimes, hheap]
  split
  · rfl
  split
  · dsimp only
    split <;> rfl
  · rfl

theorem Ordered.lru (hm : Ordered c E) : Ordered c.lru.2 E := by
  obtain ⟨hr, -, hsame⟩ := ranked_lru c
  intro harray
  rw [hr.has] at harray
  rw [hsame harray]
  exact hm harray

def VictimCached (c : Xcache) (E : Finset xqindex) : Prop := c.lru.1 = NoEntry ∨ c.lru.1 ∈ E

theorem Timed.victimCached (hm : Timed c E) (hlow : ∀ idx ∈ E, idx.toNat < c.nr_nodes.toNat) :
    VictimCached c E := by
  rcases hm.lru hlow with ⟨v, hlru, hold⟩ | ⟨hlru, -⟩
  · refine Or.inr ?_
    rw [hlru]
    exact hold.mem
  · refine Or.inl ?_
    rw [hlru]

theorem lookupAndGet (ht : Tables c E R) (name : NamePtr) :
    (∃ idx ∈ E, (c.nodes idx).name = name.read c.nodes ∧
      c.lookupAndGetEntries name = some (idx, c.entryGetAndUpdate idx)) ∨
    (∀ idx ∈ E, (c.nodes idx).name ≠ name.read c.nodes) ∧
      c.lookupAndGetEntries name = some (NoEntry, c) := by
  rcases ht.entries.tableLookup name with ⟨idx, hmem, hname, hl⟩ | ⟨hno, hl⟩
  · refine Or.inl ⟨idx, hmem, hname, ?_⟩
    have hne := ne_noEntry_of_low (ht.entries_low idx hmem)
    rw [lookupAndGetEntries, lookupEntries, hl, Option.map_some, if_pos hne]
  · refine Or.inr ⟨hno, ?_⟩
    rw [lookupAndGetEntries, lookupEntries, hl, Option.map_some, if_neg (not_not_intro rfl)]

theorem ranked_forget (c : Xcache) (h : xcache_handler) :
    Ranked c (c.forget h) ∧ (c.forget h).time = c.time := by
  unfold forget
  dsimp only
  split
  · exact ⟨⟨⟨rfl, rfl, rfl, rfl, rfl, fun _ => rfl⟩, fun _ => rfl, rfl, rfl, rfl⟩, rfl⟩
  split
  · split
    · have hfirst : Ranked c { c with
          binheap := (c.binheap.increasekey (c.nodes h).h XCACHE_LRU_MAX).extract.2 } :=
        ⟨⟨rfl, rfl, rfl, rfl, rfl, fun _ => rfl⟩, fun _ => rfl, rfl, rfl, rfl⟩
      exact ⟨hfirst.trans (ranked_modify _ h _), rfl⟩
    · exact ⟨Ranked.refl c, rfl⟩
  · exact ⟨Ranked.refl c, rfl⟩

theorem Ordered.forget (hm : Ordered c E) (h : xcache_handler) :
    Ordered (c.forget h) (E.erase h) := by
  intro harray
  rw [(ranked_forget c h).1.has] at harray
  have hm := hm harray
  have hforget : c.forget h = { c with times := Function.update c.times h XCACHE_LRU_MAX } :=
    if_pos harray
  rw [hforget]
  have hself : Function.update c.times h XCACHE_LRU_MAX h = XCACHE_LRU_MAX := Function.update_self ..
  have hother {j : xqindex} (hj : j ≠ h) : Function.update c.times h XCACHE_LRU_MAX j = c.times j :=
    Function.update_of_ne hj _ _
  have hsub {j : xqindex} (hj : j ∈ E.erase h) : j ∈ E := Finset.mem_of_mem_erase hj
  refine ⟨harray, hm.below, fun j => ?_, fun j hj => ?_, fun i hi j hj heq => ?_⟩
  · dsimp only
    by_cases hj : j = h
    · rw [hj, hself]
      exact iff_of_false (not_not_intro rfl) (Finset.notMem_erase _ _)
    · rw [hother hj, hm.cached, Finset.mem_erase]
      exact ⟨fun hmem => ⟨hj, hmem⟩, And.right⟩
  · dsimp only
    rw [hother (Finset.ne_of_mem_erase hj)]
    exact hm.le j (hsub hj)
  · dsimp only at heq
    rw [hother (Finset.ne_of_mem_erase hi), hother (Finset.ne_of_mem_erase hj)] at heq
    exact hm.inj i (hsub hi) j (hsub hj) heq

theorem removeEntries_mem (ht : Tables c E R) (hm : Ordered c E) (hmem : h ∈ E) :
    ∃ c', c.removeEntries h = some (0, c') ∧ Tables c' (E.erase h) R ∧ Ordered c' (E.erase h) ∧
      Quiet c c' := by
  obtain ⟨idx, hidx, hname, t, hr, hx, hcap⟩ | ⟨hno, -⟩ :=
    ht.entries.tableRemove ht.entries_cap (.node h)
  · obtain rfl := ht.entries.name_inj hidx hmem hname
    let c1 : Xcache := { c with entries := t }
    obtain ⟨hrank, htime⟩ := ranked_forget c1 idx
    have hcard : (E.erase idx).card ≤ c.size.toNat :=
      (Finset.card_le_card (Finset.erase_subset _ _)).trans ht.card_le
    have hsub {j : xqindex} (hj : j ∈ E.erase idx) : j ∈ E := Finset.mem_of_mem_erase hj
    have ht1 : Tables c1 (E.erase idx) R :=
      ⟨hx, ht.rm_entries, hcap, ht.rm_cap, ht.positive, ht.nodes_le,
        fun j hj => ht.entries_low j (hsub hj), ht.rm_low, fun i hi => ht.apart i (hsub hi), hcard,
        ht.unused⟩
    have hm1 : Ordered c1 E := hm.congr ⟨rfl, rfl, rfl, rfl, rfl, fun _ => rfl⟩ rfl rfl
    refine ⟨c1.forget idx, ?_, ht1.congr hrank.toFrame hrank.entries hrank.rm_entries,
      hm1.forget idx, ?_⟩
    · rw [removeEntries, hr]
      rfl
    · have hq : Quiet c1 (c1.forget idx) := hrank.quiet htime
      exact ⟨⟨hq.size, hq.nr_nodes, hq.free_nodes, hq.flags, hq.ops, hq.name⟩, hq.ref, hq.time,
        hq.calls⟩
  · exact absurd rfl (hno h hmem)

theorem removeRm_spec (ht : Tables c E R) (h : xcache_handler) :
    (∃ idx ∈ R, (c.nodes idx).name = (c.nodes h).name ∧ ∃ t,
      c.removeRm h = some (0, { c with rm_entries := t }) ∧
        Tables { c with rm_entries := t } E (R.erase idx)) ∨
    (∀ idx ∈ R, (c.nodes idx).name ≠ (c.nodes h).name) ∧
      c.removeRm h = some (-XHASH_ENOENT, c) := by
  obtain ⟨idx, hidx, hname, t, hr, hx, hcap⟩ | ⟨hno, hr⟩ :=
    ht.rm_entries.tableRemove ht.rm_cap (.node h)
  · have hsub {j : xqindex} (hj : j ∈ R.erase idx) : j ∈ R := Finset.mem_of_mem_erase hj
    refine Or.inl ⟨idx, hidx, hname, t, by rw [removeRm, hr]; rfl, ht.entries, hx, ht.entries_cap,
      hcap, ht.positive, ht.nodes_le, ht.entries_low, fun j hj => ht.rm_low j (hsub hj),
      fun i hi j hj => ht.apart i hi j (hsub hj), ht.card_le, fun hrm => ?_⟩
    rw [ht.unused hrm] at hidx
    cases hidx
  · exact Or.inr ⟨hno, by rw [removeRm, hr]; rfl⟩

def rmAfter (c : Xcache) (R : Finset xqindex) (v : xqindex) : Finset xqindex :=
  if c.has XCACHE_USE_RMTABLE then insert v R else R

theorem evict_spec (ht : Tables c E R) (hm : Ordered c E) (hmem : v ∈ E)
    (hroom : R.card < c.size.toNat) (mem : TableMemory) :
    (∃ c', c.evict v mem = some (0, c') ∧ Tables c' (E.erase v) (c.rmAfter R v) ∧
      Ordered c' (E.erase v) ∧ Quiet c c') ∨
    (c.has XCACHE_USE_RMTABLE = true ∧ mem = none) ∧ ∃ c', c.evict v mem = some (-1, c') ∧
      Tables c' (E.erase v) R ∧ Ordered c' (E.erase v) ∧ Quiet c c' := by
  obtain ⟨c1, hr, ht1, hm1, hq1⟩ := removeEntries_mem ht hm hmem
  have hhas : c1.has XCACHE_USE_RMTABLE = c.has XCACHE_USE_RMTABLE := hq1.has _
  cases hrm : c.has XCACHE_USE_RMTABLE with
  | false =>
    rw [hrm] at hhas
    refine Or.inl ⟨c1, ?_, by rwa [rmAfter, hrm, if_neg (by decide)], hm1, hq1⟩
    rw [evict, hr, Option.bind_some]
    dsimp only
    rw [if_neg (by decide), hhas]
    rfl
  | true =>
    rw [hrm] at hhas
    let c2 := c1.modify v fun ce => { ce with state := .NODE_EVICTED }
    have hq2 : Quiet c1 c2 := quiet_modify c1 v (fun _ => rfl) fun _ => rfl
    have ht2 : Tables c2 (E.erase v) R := ht1.congr hq2.toFrame rfl rfl
    have hq := hq1.trans hq2
    have hnew : ∀ idx ∈ R, (c2.nodes idx).name ≠ (c2.nodes v).name := by
      intro idx hidx
      rw [hq.name, hq.name]
      exact (ht.apart v hmem idx hidx).symm
    obtain ⟨t, hins, hx, hcap⟩ | ⟨hnone, hins⟩ := ht2.rm_entries.tableInsert ht2.rm_cap
      (by rw [hq.size]; exact hroom) hnew (notMark_of_low (ht.entries_low v hmem)) mem
    · refine Or.inl ⟨{ c2 with rm_entries := t }, ?_, ?_,
        hm1.congr ⟨rfl, rfl, rfl, rfl, rfl, hq2.name⟩ rfl rfl,
        ⟨⟨hq.size, hq.nr_nodes, hq.free_nodes, hq.flags, hq.ops, hq.name⟩, hq.ref, hq.time,
          hq.calls⟩⟩
      · have hrmins : c2.insertRm v mem = some (0, { c2 with rm_entries := t }) := by
          rw [insertRm, hins]
          rfl
        rw [evict, hr, Option.bind_some]
        dsimp only
        rw [if_neg (by decide), hhas, if_neg (by decide), hrmins]
        rfl
      · rw [rmAfter, hrm, if_pos rfl]
        refine ⟨ht2.entries, hx, ht2.entries_cap, hcap, ht2.positive, ht2.nodes_le,
          ht2.entries_low, fun j hj => ?_, fun i hi j hj => ?_, ht2.card_le, fun hno => ?_⟩
        · rcases Finset.mem_insert.mp hj with rfl | hj
          · show j.toNat < c2.nr_nodes.toNat
            rw [hq.nr_nodes]
            exact ht.entries_low j hmem
          · exact ht2.rm_low j hj
        · rcases Finset.mem_insert.mp hj with rfl | hj
          · intro heq
            change (c2.nodes i).name = (c2.nodes j).name at heq
            rw [hq.name, hq.name] at heq
            exact Finset.ne_of_mem_erase hi
              (ht.entries.name_inj (Finset.mem_of_mem_erase hi) hmem heq)
          · exact ht2.apart i hi j hj
        · change c1.has XCACHE_USE_RMTABLE = false at hno
          rw [hhas] at hno
          cases hno
    · let c3 := c2.modify v fun ce => { ce with state := .NODE_ACTIVE }
      have hq3 : Quiet c2 c3 := quiet_modify c2 v (fun _ => rfl) fun _ => rfl
      refine Or.inr ⟨⟨rfl, hnone⟩, c3, ?_, ht2.congr hq3.toFrame rfl rfl,
        hm1.congr (hq2.trans hq3).toFrame rfl rfl, hq.trans hq3⟩
      have hrmins : c2.insertRm v mem = some (-1, c2) := by
        rw [insertRm, hins]
        rfl
      rw [evict, hr, Option.bind_some]
      dsimp only
      rw [if_neg (by decide), hhas, if_neg (by decide), hrmins]
      rfl

theorem evictLru_spec (ht : Tables c E R) (hm : Ordered c E) (hroom : R.card < c.size.toNat)
    (hlru : VictimCached c E) (mem : TableMemory) :
    (∃ c', c.evictLru mem = some (c.lru.1, c') ∧ c.lru.1 ∈ E ∧
      Tables c' (E.erase c.lru.1) (c.rmAfter R c.lru.1) ∧ Ordered c' (E.erase c.lru.1) ∧
      Quiet c c') ∨
    (c.lru.1 = NoEntry ∧ ∃ c', c.evictLru mem = some (NoEntry, c') ∧ Tables c' E R ∧ Ordered c' E ∧
      Quiet c c') ∨
    (c.has XCACHE_USE_RMTABLE = true ∧ mem = none) ∧ c.lru.1 ∈ E ∧
      ∃ c', c.evictLru mem = some (NoEntry, c') ∧ Tables c' (E.erase c.lru.1) R ∧
        Ordered c' (E.erase c.lru.1) ∧ Quiet c c' := by
  obtain ⟨hrank, htime, -⟩ := ranked_lru c
  have ht1 : Tables c.lru.2 E R := ht.congr hrank.toFrame hrank.entries hrank.rm_entries
  have hq1 : Quiet c c.lru.2 := hrank.quiet htime
  have hrun : c.evictLru mem = if c.lru.1 = NoEntry then some (NoEntry, c.lru.2)
      else (c.lru.2.evict c.lru.1 mem).map fun p => (if p.1 < 0 then NoEntry else c.lru.1, p.2) := rfl
  by_cases hnone : c.lru.1 = NoEntry
  · refine Or.inr (Or.inl ⟨hnone, c.lru.2, ?_, ht1, hm.lru, hq1⟩)
    rw [hrun, if_pos hnone]
  · have hmem : c.lru.1 ∈ E := hlru.resolve_left hnone
    rcases evict_spec ht1 hm.lru hmem (by rwa [hrank.size]) mem with
      ⟨c', hr, ht', hm', hq⟩ | ⟨hlost, c', hr, ht', hm', hq⟩
    · refine Or.inl ⟨c', ?_, hmem, ?_, hm', hq1.trans hq⟩
      · rw [hrun, if_neg hnone, hr]
        rfl
      · rwa [rmAfter, hrank.has] at ht'
    · rw [hrank.has] at hlost
      refine Or.inr (Or.inr ⟨hlost, hmem, c', ?_, ht', hm', hq1.trans hq⟩)
      rw [hrun, if_neg hnone, hr]
      rfl

structure Entered (c : Xcache) (E R : Finset xqindex) (g : xqindex) (c' : Xcache) : Prop where
  tables : Tables c' (insert g E) R
  ordered : Ordered c' (insert g E)
  frame : Frame c c'
  ref : ∀ idx, (c'.nodes idx).ref = (c.nodes idx).ref + if idx = g then 1 else 0
  calls : c'.calls = c.calls

theorem enter (ht : Tables c E R) (hm : Ordered c E)
    (hg : g.toNat < c.nr_nodes.toNat) (hE : ∀ idx ∈ E, (c.nodes idx).name ≠ (c.nodes g).name)
    (hR : ∀ idx ∈ R, (c.nodes idx).name ≠ (c.nodes g).name) (hroom : E.card < c.size.toNat)
    (mem : TableMemory) :
    (∃ c', c.insertEntries g mem = some (0, c') ∧
      (c.TimeBelow → Entered c E R g (c'.entryGetAndUpdate g))) ∨
    mem = none ∧ c.insertEntries g mem = some (-1, c) := by
  obtain ⟨t, hins, hx, hcap⟩ | ⟨hnone, hins⟩ :=
    ht.entries.tableInsert ht.entries_cap hroom hE (notMark_of_low hg) mem
  · let c' : Xcache := { c with entries := t }
    have ht' : Tables c' (insert g E) R := by
      refine ⟨hx, ht.rm_entries, hcap, ht.rm_cap, ht.positive, ht.nodes_le, fun j hj => ?_, ht.rm_low,
        fun i hi j hj => ?_, ?_, ht.unused⟩
      · rcases Finset.mem_insert.mp hj with rfl | hj
        · exact hg
        · exact ht.entries_low j hj
      · rcases Finset.mem_insert.mp hi with rfl | hi
        · exact (hR j hj).symm
        · exact ht.apart i hi j hj
      · rw [Finset.card_insert_of_notMem fun hmem => hE g hmem rfl]
        exact hroom
    have hm' : Ordered c' E := hm.congr ⟨rfl, rfl, rfl, rfl, rfl, fun _ => rfl⟩ rfl rfl
    refine Or.inl ⟨c', by rw [insertEntries, hins]; rfl, fun hbelow => ?_⟩
    have hbelow' : c'.TimeBelow := hbelow
    have hframe : Frame c' (c'.entryGetAndUpdate g) := frame_entryGetAndUpdate c' g
    exact ⟨ht'.touch g, hm'.touch hbelow', ⟨hframe.size, hframe.nr_nodes, hframe.free_nodes,
      hframe.flags, hframe.ops, hframe.name⟩, entryGetAndUpdate_ref c' g,
      entryGetAndUpdate_calls c' g⟩
  · exact Or.inr ⟨hnone, by rw [insertEntries, hins]; rfl⟩

theorem insertEntries_full (ht : Tables c E R) (hfull : c.size.toNat ≤ E.card) (mem : TableMemory) :
    c.insertEntries g mem = some (-XHASH_ENOSPC, c) := by
  rw [insertEntries, ht.entries.tableInsert_full ht.entries_cap ht.positive hfull]
  rfl

def Victim (c : Xcache) (E R R' : Finset xqindex) (v : xcache_handler) : Prop :=
  E.card < c.size.toNat ∧ v = NoEntry ∧ R' = R ∨
    E.card = c.size.toNat ∧ v = c.lru.1 ∧ v ∈ E ∧ R' = c.rmAfter R v

/-- What `__xcache_insert` does from its label on, with a handle that is in neither table. -/
theorem insertNew_spec (ht : Tables c E R) (hm : Ordered c E)
    (hg : g.toNat < c.nr_nodes.toNat) (hE : ∀ idx ∈ E, (c.nodes idx).name ≠ (c.nodes g).name)
    (hR : ∀ idx ∈ R, (c.nodes idx).name ≠ (c.nodes g).name) (reinsert : xcache_handler)
    (mem : InsertMemory) (hlru : c.size.toNat ≤ c.entries.used → VictimCached c E) :
    (∃ v R' c', c.insertNew g reinsert mem = some ⟨g, v, reinsert, c'⟩ ∧ Victim c E R R' v ∧
      (c.TimeBelow → Entered c (E.erase v) R' g c')) ∨
    ((mem.first = none ∨ mem.second = none ∨ E.card = c.size.toNat ∧ c.lru.1 = NoEntry) ∧
    ∃ v R' c', c.insertNew g reinsert mem = some ⟨NoEntry, v, reinsert, c'⟩ ∧
      (v = NoEntry ∧ R' = R ∨ Victim c E R R' v) ∧
      Tables c' (E.erase v) R' ∧ Ordered c' (E.erase v) ∧ Quiet c c') ∨
    (c.has XCACHE_USE_RMTABLE = true ∧ c.size.toNat ≤ c.entries.used ∧ mem.victim = none) ∧
      c.lru.1 ∈ E ∧ ∃ c', c.insertNew g reinsert mem = some ⟨NoEntry, NoEntry, reinsert, c'⟩ ∧
        Tables c' (E.erase c.lru.1) R ∧ Ordered c' (E.erase c.lru.1) ∧ Quiet c c' := by
  have hnone : E.erase NoEntry = E := Finset.erase_eq_of_notMem ht.noEntry_notMem
  rcases Nat.lt_or_ge E.card c.size.toNat with hroom | hfull
  · rcases enter ht hm hg hE hR hroom mem.first with ⟨c', hins, hent⟩ | ⟨hno, hins⟩
    · refine Or.inl ⟨NoEntry, R, c'.entryGetAndUpdate g, ?_, Or.inl ⟨hroom, rfl, rfl⟩, ?_⟩
      · rw [insertNew, hins]
        rfl
      · rwa [hnone]
    · refine Or.inr (Or.inl ⟨Or.inl hno, NoEntry, R, c, ?_, Or.inl ⟨rfl, rfl⟩, ?_, ?_, Quiet.refl c⟩)
      · rw [insertNew, hins]
        rfl
      · rwa [hnone]
      · rwa [hnone]
  · have hcard : E.card = c.size.toNat := Nat.le_antisymm ht.card_le hfull
    have hused : c.size.toNat ≤ c.entries.used := ht.entries.used ▸ hfull
    have hgE : g ∉ E := fun hmem => hE g hmem rfl
    have hgR : g ∉ R := fun hmem => hR g hmem rfl
    have hrm := ht.rm_room hg hgE hgR hfull
    rcases evictLru_spec ht hm hrm (hlru hused) mem.victim with
      ⟨c1, hev, hmem, ht1, hm1, hq⟩ | ⟨hlast, c1, hev, ht1, hm1, hq⟩ |
      ⟨⟨hrmt, hno⟩, hmem, c1, hev, ht1, hm1, hq⟩
    · obtain ⟨v, hv⟩ : ∃ v, c.lru.1 = v := ⟨_, rfl⟩
      rw [hv] at hev hmem ht1 hm1
      have hne : v ≠ NoEntry := ne_noEntry_of_low (ht.entries_low v hmem)
      have hvictim : Victim c E R (c.rmAfter R v) v := Or.inr ⟨hcard, hv.symm, hmem, rfl⟩
      have hroom1 : (E.erase v).card < c1.size.toNat := by
        rw [Finset.card_erase_of_mem hmem, hq.size, hcard]
        exact Nat.sub_lt ht.positive Nat.one_pos
      have hE1 : ∀ idx ∈ E.erase v, (c1.nodes idx).name ≠ (c1.nodes g).name := by
        intro idx hmem
        rw [hq.name, hq.name]
        exact hE idx (Finset.mem_of_mem_erase hmem)
      have hR1 : ∀ idx ∈ c.rmAfter R v, (c1.nodes idx).name ≠ (c1.nodes g).name := by
        intro idx hidx
        rw [hq.name, hq.name]
        unfold rmAfter at hidx
        split at hidx
        · rcases Finset.mem_insert.mp hidx with rfl | hidx
          · exact hE idx hmem
          · exact hR idx hidx
        · exact hR idx hidx
      have hg1 : g.toNat < c1.nr_nodes.toNat := by rwa [hq.nr_nodes]
      have hrun : c.insertNew g reinsert mem = (c1.insertEntries g mem.second).map fun p =>
          if p.1 < 0 then ⟨NoEntry, v, reinsert, p.2⟩ else p.2.insertDone g v reinsert p.1 := by
        rw [insertNew, insertEntries_full ht hfull, Option.bind_some]
        dsimp only
        rw [if_pos rfl, hev, Option.bind_some]
        exact if_neg hne
      rcases enter ht1 hm1 hg1 hE1 hR1 hroom1 mem.second with ⟨c2, hins, hent⟩ | ⟨hno, hins⟩
      · refine Or.inl ⟨v, _, c2.entryGetAndUpdate g, ?_, hvictim, fun hbelow => ?_⟩
        · rw [hrun, hins]
          rfl
        · have hent := hent (by rw [TimeBelow, hq.time]; exact hbelow)
          refine ⟨hent.tables, hent.ordered, hq.toFrame.trans hent.frame, fun idx => ?_,
            hent.calls.trans hq.calls⟩
          rw [hent.ref, hq.ref]
      · refine Or.inr (Or.inl ⟨Or.inr (Or.inl hno), v, _, c1, ?_, Or.inr hvictim, ht1, hm1, hq⟩)
        rw [hrun, hins]
        rfl
    · refine Or.inr (Or.inl ⟨Or.inr (Or.inr ⟨hcard, hlast⟩), NoEntry, R, c1, ?_, Or.inl ⟨rfl, rfl⟩,
        ?_, ?_, hq⟩)
      · rw [insertNew, insertEntries_full ht hfull, Option.bind_some]
        dsimp only
        rw [if_pos rfl, hev]
        rfl
      · rwa [hnone]
      · rwa [hnone]
    · refine Or.inr (Or.inr ⟨⟨hrmt, hused, hno⟩, hmem, c1, ?_, ht1, hm1, hq⟩)
      rw [insertNew, insertEntries_full ht hfull, Option.bind_some]
      dsimp only
      rw [if_pos rfl, hev]
      rfl

/-- An entry of `rm_entries` on its way back: out of that table, with one more reference. -/
theorem reinsertRm_spec (ht : Tables c E R) (hm : Ordered c E) (hg : g ∈ R) :
    ∃ c', c.reinsertRm g = some (0, c') ∧ Tables c' E (R.erase g) ∧ Ordered c' E ∧ Frame c c' ∧
      (∀ idx, (c'.nodes idx).ref = (c.nodes idx).ref + if idx = g then 1 else 0) ∧
      c'.lru.1 = c.lru.1 ∧ c'.time = c.time ∧ c'.calls = c.calls := by
  obtain ⟨idx, hidx, hname, t, hr, ht1⟩ | ⟨hno, -⟩ := removeRm_spec ht g
  · obtain rfl := ht.rm_entries.name_inj hidx hg hname
    let c1 : Xcache := { c with rm_entries := t }
    let c2 := c1.modify idx fun ce => { ce with state := .NODE_ACTIVE }
    have hq : Quiet c1 c2 := quiet_modify c1 idx (fun _ => rfl) fun _ => rfl
    have hframe : Frame c1 (c2.entryGet idx) :=
      hq.toFrame.trans (frame_modify c2 idx fun _ => rfl)
    have hframe' : Frame c (c2.entryGet idx) :=
      ⟨hframe.size, hframe.nr_nodes, hframe.free_nodes, hframe.flags, hframe.ops, hframe.name⟩
    refine ⟨c2.entryGet idx, by rw [reinsertRm, hr]; rfl, ht1.congr hframe rfl rfl,
      hm.congr hframe' rfl rfl, hframe', fun j => ?_, ?_, rfl, rfl⟩
    · rw [entryGet_ref, hq.ref]
    · exact lru_congr rfl rfl rfl rfl
  · exact absurd rfl (hno g hg)

/-- What `__xcache_insert` can do with a handle that is in neither table: the result and the
nodes that are then in the tables. -/
inductive InsertOutcome (c : Xcache) (E R : Finset xqindex) (h : xcache_handler)
    (mem : InsertMemory) : InsertResult → Finset xqindex → Finset xqindex → Prop where
  | found {idx : xqindex} : idx ∈ E → (c.nodes idx).name = (c.nodes h).name →
      InsertOutcome c E R h mem ⟨idx, NoEntry, NoEntry, c.entryGetAndUpdate idx⟩ E R
  | fresh {v : xcache_handler} {R' : Finset xqindex} {c' : Xcache} :
      (∀ idx ∈ E, (c.nodes idx).name ≠ (c.nodes h).name) →
      (∀ idx ∈ R, (c.nodes idx).name ≠ (c.nodes h).name) →
      Victim c E R R' v → (c.TimeBelow → Entered c (E.erase v) R' h c') →
      InsertOutcome c E R h mem ⟨h, v, NoEntry, c'⟩ (insert h (E.erase v)) R'
  | back {g : xqindex} {v : xcache_handler} {R' : Finset xqindex} {c1 c' : Xcache} :
      (∀ idx ∈ E, (c.nodes idx).name ≠ (c.nodes h).name) →
      g ∈ R → (c.nodes g).name = (c.nodes h).name → Frame c c1 →
      (∀ idx, (c1.nodes idx).ref = (c.nodes idx).ref + if idx = g then 1 else 0) →
      c1.calls = c.calls → Victim c E (R.erase g) R' v →
      (c.TimeBelow → Entered c1 (E.erase v) R' g c') →
      InsertOutcome c E R h mem ⟨g, v, g, c'⟩ (insert g (E.erase v)) R'
  | refused {v : xcache_handler} {R' : Finset xqindex} {c' : Xcache} :
      (∀ idx ∈ E, (c.nodes idx).name ≠ (c.nodes h).name) →
      (∀ idx ∈ R, (c.nodes idx).name ≠ (c.nodes h).name) →
      mem.first = none ∨ mem.second = none ∨ E.card = c.size.toNat ∧ c.lru.1 = NoEntry →
      v = NoEntry ∧ R' = R ∨ Victim c E R R' v →
      Tables c' (E.erase v) R' → Ordered c' (E.erase v) → Quiet c c' →
      InsertOutcome c E R h mem ⟨NoEntry, v, NoEntry, c'⟩ (E.erase v) R'

/-- The allocations of an insertion succeed, and there is a victim if the entries are full. -/
structure InsertMemory.Enough (c : Xcache) (mem : InsertMemory) : Prop where
  first : mem.first ≠ none
  second : mem.second ≠ none
  victim : c.size.toNat ≤ c.entries.used → c.lru.1 ≠ NoEntry

theorem InsertMemory.Enough.not_refused {mem : InsertMemory} (h : mem.Enough c)
    (ht : Tables c E R) :
    ¬ (mem.first = none ∨ mem.second = none ∨ E.card = c.size.toNat ∧ c.lru.1 = NoEntry) := by
  rintro (hno | hno | ⟨hcard, hnone⟩)
  · exact h.first hno
  · exact h.second hno
  · refine h.victim ?_ hnone
    rw [ht.entries.used, hcard]

/-- An entry of `rm_entries` that an insertion has taken back, before it goes to `entries`. -/
structure Reclaimed (c : Xcache) (E R : Finset xqindex) (g : xqindex) (c' : Xcache) : Prop where
  mem : g ∈ R
  tables : Tables c' E (R.erase g)
  ordered : Ordered c' E
  frame : Frame c c'
  ref : ∀ idx, (c'.nodes idx).ref = (c.nodes idx).ref + if idx = g then 1 else 0

/-- The victim of an insertion has left `entries`, and `rm_entries` has no memory for it. -/
def InsertMemory.Drops (c : Xcache) (mem : InsertMemory) : Prop :=
  c.has XCACHE_USE_RMTABLE = true ∧ c.size.toNat ≤ c.entries.used ∧ mem.victim = none

/-- What an insertion does that finds no memory on the way and loses the reference of its victim,
or of the entry it has taken back. -/
inductive LostOutcome (c : Xcache) (E R : Finset xqindex) (h : xcache_handler)
    (mem : InsertMemory) : InsertResult → Finset xqindex → Finset xqindex → Prop where
  | victim {c' : Xcache} :
      (∀ idx ∈ R, (c.nodes idx).name ≠ (c.nodes h).name) → mem.Drops c → c.lru.1 ∈ E →
      Tables c' (E.erase c.lru.1) R → Ordered c' (E.erase c.lru.1) → Quiet c c' →
      LostOutcome c E R h mem ⟨NoEntry, NoEntry, NoEntry, c'⟩ (E.erase c.lru.1) R
  | back {g : xqindex} {v : xcache_handler} {R' : Finset xqindex} {c1 c' : Xcache} :
      Reclaimed c E R g c1 → (c.nodes g).name = (c.nodes h).name →
      mem.first = none ∨ mem.second = none ∨ E.card = c.size.toNat ∧ c.lru.1 = NoEntry →
      v = NoEntry ∧ R' = R.erase g ∨ Victim c E (R.erase g) R' v →
      Tables c' (E.erase v) R' → Ordered c' (E.erase v) → Quiet c1 c' →
      LostOutcome c E R h mem ⟨NoEntry, v, g, c'⟩ (E.erase v) R'
  | both {g : xqindex} {c1 c' : Xcache} :
      Reclaimed c E R g c1 → (c.nodes g).name = (c.nodes h).name → mem.Drops c → c.lru.1 ∈ E →
      Tables c' (E.erase c.lru.1) (R.erase g) → Ordered c' (E.erase c.lru.1) → Quiet c1 c' →
      LostOutcome c E R h mem ⟨NoEntry, NoEntry, g, c'⟩ (E.erase c.lru.1) (R.erase g)

theorem insertRaw_cases (ht : Tables c E R) (hm : Ordered c E)
    (hh : h.toNat < c.nr_nodes.toNat) (mem : InsertMemory)
    (hlru : (∀ idx ∈ E, (c.nodes idx).name ≠ (c.nodes h).name) → c.size.toNat ≤ c.entries.used →
      VictimCached c E) :
    ∃ res E' R', c.insertRaw h mem = some res ∧
      (InsertOutcome c E R h mem res E' R' ∨ LostOutcome c E R h mem res E' R') := by
  rcases lookupAndGet ht (.node h) with ⟨idx, hmem, hname, hl⟩ | ⟨hE, hl⟩
  · have hne := ne_noEntry_of_low (ht.entries_low idx hmem)
    refine ⟨_, E, R, ?_, Or.inl (.found hmem hname)⟩
    rw [insertRaw, hl, Option.bind_some]
    exact if_pos hne
  have hnew (hR : ∀ idx ∈ R, (c.nodes idx).name ≠ (c.nodes h).name)
      (hrun : c.insertRaw h mem = c.insertNew h NoEntry mem) :
      ∃ res E' R', c.insertRaw h mem = some res ∧
        (InsertOutcome c E R h mem res E' R' ∨ LostOutcome c E R h mem res E' R') := by
    rcases insertNew_spec ht hm hh hE hR NoEntry mem (hlru hE) with
      ⟨v, R', c', hr, hv, hent⟩ | ⟨hwhy, v, R', c', hr, hv, ht', hm', hq⟩ |
      ⟨hdrops, hmem, c', hr, ht', hm', hq⟩
    · exact ⟨_, _, R', hrun.trans hr, Or.inl (.fresh hE hR hv hent)⟩
    · exact ⟨_, _, R', hrun.trans hr, Or.inl (.refused hE hR hwhy hv ht' hm' hq)⟩
    · exact ⟨_, _, R, hrun.trans hr, Or.inr (.victim hR hdrops hmem ht' hm' hq)⟩
  cases hrm : c.has XCACHE_USE_RMTABLE with
  | false =>
    apply hnew
    · intro idx hmem
      rw [ht.unused hrm] at hmem
      cases hmem
    · rw [insertRaw, hl, Option.bind_some]
      dsimp only
      rw [if_neg (not_not_intro rfl), hrm]
      rfl
  | true =>
    have hrun : c.insertRaw h mem = (c.lookupRm (.node h)).bind fun tmp_h =>
        if tmp_h ≠ NoEntry then
          (c.reinsertRm tmp_h).bind fun p =>
            if p.1 < 0 then some ⟨NoEntry, NoEntry, NoEntry, p.2⟩
            else p.2.insertNew tmp_h tmp_h mem
        else c.insertNew h NoEntry mem := by
      rw [insertRaw, hl, Option.bind_some]
      dsimp only
      rw [if_neg (not_not_intro rfl), hrm]
      rfl
    rcases ht.rm_entries.tableLookup (.node h) with ⟨g, hg, hname, hlr⟩ | ⟨hR, hlr⟩
    · obtain ⟨c1, hr1, ht1, hm1, hf1, href1, hlru1, htime1, hcalls1⟩ := reinsertRm_spec ht hm hg
      have hgl := ht.rm_low g hg
      have hE1 : ∀ idx ∈ E, (c1.nodes idx).name ≠ (c1.nodes g).name := by
        intro idx hmem
        rw [hf1.name, hf1.name]
        exact ht.apart idx hmem g hg
      have hR1 : ∀ idx ∈ R.erase g, (c1.nodes idx).name ≠ (c1.nodes g).name := by
        intro idx hmem heq
        rw [hf1.name, hf1.name] at heq
        exact Finset.ne_of_mem_erase hmem
          (ht.rm_entries.name_inj (Finset.mem_of_mem_erase hmem) hg heq)
      have hgo : c.insertRaw h mem = c1.insertNew g g mem := by
        rw [hrun, lookupRm, hlr, Option.bind_some]
        rw [if_pos (ne_noEntry_of_low hgl), hr1]
        rfl
      have hused : c1.entries.used = c.entries.used := by
        rw [ht1.entries.used, ht.entries.used]
      have hback : Reclaimed c E R g c1 := ⟨hg, ht1, hm1, hf1, href1⟩
      have hvictim {v : xqindex} {R' : Finset xqindex} (hv : Victim c1 E (R.erase g) R' v) :
          Victim c E (R.erase g) R' v := by
        rcases hv with ⟨hlt, hv⟩ | ⟨heq, hvlru, hvmem, hR'⟩
        · exact Or.inl ⟨hf1.size ▸ hlt, hv⟩
        · refine Or.inr ⟨hf1.size ▸ heq, hvlru.trans hlru1, hvmem, ?_⟩
          rw [hR', rmAfter, rmAfter, hf1.has]
      rcases insertNew_spec ht1 hm1 (by rw [hf1.nr_nodes]; exact hgl) hE1 hR1 g mem
        (by rw [hf1.size, hused, VictimCached, hlru1]; exact hlru hE) with
        ⟨v, R', c', hr, hv, hent⟩ | ⟨hwhy, v, R', c', hr, hv, ht', hm', hq⟩ |
        ⟨hdrops, hmem, c', hr, ht', hm', hq⟩
      · have hbelow1 (hbelow : c.TimeBelow) : c1.TimeBelow := by
          rw [TimeBelow, htime1]
          exact hbelow
        exact ⟨_, _, R', hgo.trans hr, Or.inl
          (.back hE hg hname hf1 href1 hcalls1 (hvictim hv) fun hbelow => hent (hbelow1 hbelow))⟩
      · rw [hlru1, hf1.size] at hwhy
        exact ⟨_, _, R', hgo.trans hr, Or.inr
          (.back hback hname hwhy (hv.imp_right hvictim) ht' hm' hq)⟩
      · rw [hf1.has, hf1.size, hused] at hdrops
        rw [hlru1] at hmem ht' hm'
        exact ⟨_, _, _, hgo.trans hr, Or.inr (.both hback hname hdrops hmem ht' hm' hq)⟩
    · apply hnew hR
      rw [hrun, lookupRm, hlr]
      rfl

theorem insertRaw_spec (ht : Tables c E R) (hm : Ordered c E)
    (hh : h.toNat < c.nr_nodes.toNat) {mem : InsertMemory}
    (hlru : (∀ idx ∈ E, (c.nodes idx).name ≠ (c.nodes h).name) → c.size.toNat ≤ c.entries.used →
      VictimCached c E)
    (hmalloc : c.has XCACHE_USE_RMTABLE = true → c.size.toNat ≤ c.entries.used → mem.victim ≠ none)
    (henough : ∀ g ∈ R, (c.nodes g).name = (c.nodes h).name → mem.Enough c) :
    ∃ res E' R', c.insertRaw h mem = some res ∧ InsertOutcome c E R h mem res E' R' := by
  have hnot : ¬ mem.Drops c := fun ⟨hrm, hfull, hno⟩ => hmalloc hrm hfull hno
  obtain ⟨res, E', R', hr, ho | ho⟩ := insertRaw_cases ht hm hh mem hlru
  · exact ⟨res, E', R', hr, ho⟩
  · cases ho with
    | victim _ hdrops => exact absurd hdrops hnot
    | back hback hname hwhy =>
      exact absurd hwhy ((henough _ hback.mem hname).not_refused ht)
    | both _ _ hdrops => exact absurd hdrops hnot

/-- What the locked part of a put can find: whether the node is to be freed, and the nodes that
are then in `rm_entries`. -/
inductive PutOutcome (c : Xcache) (R : Finset xqindex) (idx : xqindex) :
    Bool → Finset xqindex → Prop where
  | more : (c.nodes idx).ref - 1 ≠ 0 → PutOutcome c R idx false R
  | last : (c.nodes idx).ref - 1 = 0 → c.has XCACHE_USE_RMTABLE = false →
      PutOutcome c R idx true R
  | removed {g : xqindex} : (c.nodes idx).ref - 1 = 0 → c.has XCACHE_USE_RMTABLE = true → g ∈ R →
      (c.nodes g).name = (c.nodes idx).name → PutOutcome c R idx true (R.erase g)
  | stuck : (c.nodes idx).ref - 1 = 0 → c.has XCACHE_USE_RMTABLE = true →
      (∀ g ∈ R, (c.nodes g).name ≠ (c.nodes idx).name) → PutOutcome c R idx false R

theorem entryPutRef_spec (ht : Tables c E R) (hm : Ordered c E) (idx : xqindex) :
    ∃ last c' R', c.entryPutRef idx = some (last, c') ∧ Tables c' E R' ∧ Ordered c' E ∧
      Frame c c' ∧ c'.time = c.time ∧
      (∀ j, (c'.nodes j).ref = if j = idx then (c.nodes idx).ref - 1 else (c.nodes j).ref) ∧
      (c'.calls = c.calls ∨ c'.calls = .on_finalize idx :: c.calls) ∧
      PutOutcome c R idx last R' := by
  let c1 := c.modify idx fun ce => { ce with ref := ce.ref - 1 }
  have hf1 : Frame c c1 := frame_modify c idx fun _ => rfl
  have ht1 : Tables c1 E R := ht.congr hf1 rfl rfl
  have href1 (j : xqindex) :
      (c1.nodes j).ref = if j = idx then (c.nodes idx).ref - 1 else (c.nodes j).ref := by
    split
    · rename_i heq
      rw [heq, modify_nodes_self]
    · rename_i hne
      rw [modify_nodes_of_ne c _ hne]
  have hself : (c1.nodes idx).ref = (c.nodes idx).ref - 1 := by rw [href1, if_pos rfl]
  by_cases hzero : (c.nodes idx).ref - 1 = 0
  · have hnot : ¬ (c1.nodes idx).ref > 0 := by
      rw [hself, hzero]
      exact UInt32.lt_irrefl 0
    cases hrm : c.has XCACHE_USE_RMTABLE with
    | false =>
      refine ⟨true, c1, R, ?_, ht1, hm.congr hf1 rfl rfl, hf1, rfl, href1,
        Or.inl rfl, .last hzero hrm⟩
      rw [entryPutRef]
      dsimp only
      rw [if_neg hnot]
      exact if_neg (by rw [hf1.has, hrm]; decide)
    | true =>
      let c2 := c1.call c1.ops.on_finalize (.on_finalize idx)
      have ht2 : Tables c2 E R :=
        ht1.congr ⟨rfl, rfl, rfl, rfl, rfl, fun _ => rfl⟩ rfl rfl
      have hcalls : c2.calls = c.calls ∨ c2.calls = .on_finalize idx :: c.calls := by
        unfold c2 call
        dsimp only
        split
        · exact Or.inr rfl
        · exact Or.inl rfl
      have hput : c.entryPutRef idx =
          (c2.removeRm idx).map fun p => (decide (0 ≤ p.1), p.2) := by
        rw [entryPutRef]
        dsimp only
        rw [if_neg hnot, if_pos (by rw [hf1.has, hrm])]
        exact if_neg (not_not_intro (hself.trans hzero))
      have hname (j : xqindex) : (c2.nodes j).name = (c.nodes j).name := hf1.name j
      rcases removeRm_spec ht2 idx with ⟨g, hg, hgn, t, hr, ht3⟩ | ⟨hno, hr⟩
      · rw [hname, hname] at hgn
        refine ⟨true, { c2 with rm_entries := t }, R.erase g, ?_, ht3,
          hm.congr ⟨rfl, rfl, rfl, rfl, rfl, hname⟩ rfl rfl, ⟨rfl, rfl, rfl, rfl, rfl, hname⟩, rfl,
          href1, hcalls, .removed hzero hrm hg hgn⟩
        rw [hput, hr]
        rfl
      · refine ⟨false, c2, R, ?_, ht2, hm.congr ⟨rfl, rfl, rfl, rfl, rfl, hname⟩ rfl rfl,
          ⟨rfl, rfl, rfl, rfl, rfl, hname⟩, rfl, href1, hcalls, .stuck hzero hrm fun j hj => ?_⟩
        · rw [hput, hr]
          rfl
        · have := hno j hj
          rwa [hname, hname] at this
  · refine ⟨false, c1, R, ?_, ht1, hm.congr hf1 rfl rfl, hf1, rfl, href1,
      Or.inl rfl, .more hzero⟩
    rw [entryPutRef]
    refine if_pos ?_
    rw [hself]
    exact UInt32.pos_iff_ne_zero.mpr hzero

/-- What the locked section of an invalidation can find: the node that is to be put, and the nodes
that are then in the tables. -/
inductive InvalidateOutcome (c : Xcache) (E R : Finset xqindex) (name : CString) :
    xcache_handler → Finset xqindex → Finset xqindex → Prop where
  | cached {idx : xqindex} : idx ∈ E → (c.nodes idx).name = name →
      InvalidateOutcome c E R name idx (E.erase idx) R
  | removed {idx : xqindex} : (∀ j ∈ E, (c.nodes j).name ≠ name) → idx ∈ R →
      (c.nodes idx).name = name → InvalidateOutcome c E R name NoEntry E (R.erase idx)
  | unknown : (∀ j ∈ E, (c.nodes j).name ≠ name) → (∀ j ∈ R, (c.nodes j).name ≠ name) →
      InvalidateOutcome c E R name NoEntry E R

theorem invalidateRaw_spec (ht : Tables c E R) (hm : Ordered c E) (name : CString) :
    ∃ hp c' E' R', c.invalidateRaw name = some (0, hp, c') ∧ Quiet c c' ∧ Tables c' E' R' ∧
      Ordered c' E' ∧ InvalidateOutcome c E R name hp E' R' := by
  rcases ht.entries.tableLookup (.arg name) with ⟨idx, hmem, hname, hl⟩ | ⟨hE, hl⟩
  · obtain ⟨c', hr, ht', hm', hq⟩ := removeEntries_mem ht hm hmem
    refine ⟨idx, c', _, _, ?_, hq, ht', hm', .cached hmem hname⟩
    rw [invalidateRaw, lookupEntries, hl, Option.bind_some]
    dsimp only
    rw [if_pos (ne_noEntry_of_low (ht.entries_low idx hmem)), hr]
    rfl
  cases hrm : c.has XCACHE_USE_RMTABLE with
  | false =>
    refine ⟨NoEntry, c, _, _, ?_, Quiet.refl c, ht, hm, .unknown hE ?_⟩
    · rw [invalidateRaw, lookupEntries, hl, Option.bind_some]
      dsimp only
      rw [if_neg (not_not_intro rfl), hrm]
      rfl
    · intro idx hmem
      rw [ht.unused hrm] at hmem
      cases hmem
  | true =>
    have hrun : c.invalidateRaw name = (c.lookupRm (.arg name)).bind fun h =>
        if h ≠ NoEntry then (c.removeRm h).map fun p => (p.1, NoEntry, p.2)
        else some (0, NoEntry, c) := by
      rw [invalidateRaw, lookupEntries, hl, Option.bind_some]
      dsimp only
      rw [if_neg (not_not_intro rfl), hrm]
      rfl
    rcases ht.rm_entries.tableLookup (.arg name) with ⟨g, hg, hname, hlr⟩ | ⟨hR, hlr⟩
    · rcases removeRm_spec ht g with ⟨idx, hidx, hidxn, t, hr, ht'⟩ | ⟨hno, -⟩
      · obtain rfl := ht.rm_entries.name_inj hidx hg hidxn
        refine ⟨NoEntry, { c with rm_entries := t }, _, _, ?_,
          ⟨⟨rfl, rfl, rfl, rfl, rfl, fun _ => rfl⟩, fun _ => rfl, rfl, rfl⟩, ht',
          hm.congr ⟨rfl, rfl, rfl, rfl, rfl, fun _ => rfl⟩ rfl rfl, .removed hE hg hname⟩
        rw [hrun, lookupRm, hlr, Option.bind_some]
        rw [if_pos (ne_noEntry_of_low (ht.rm_low idx hg)), hr]
        rfl
      · exact absurd rfl (hno g hg)
    · refine ⟨NoEntry, c, _, _, ?_, Quiet.refl c, ht, hm, .unknown hE hR⟩
      rw [hrun, lookupRm, hlr]
      rfl

end Xcache

end Libxseg
