import Mathlib.Data.Nat.Count
import Mathlib.Tactic.MkIffOfInductiveProp
import Libxseg.XbinheapDead
import Libxseg.XcacheVictims

/-!
# When the time comes to its maximum

`__update_access_time` then sets the time to zero and gives all nodes new times. It goes through
the first `size` nodes only, of twice as many, and it returns before the accessed node has its
own time.

In the array the low nodes get the numbers from zero on in the order of their indexes. In the
heap they all get zero.
-/

namespace Libxseg

set_option autoImplicit false

namespace Xcache

variable {c c' : Xcache} {idx j : xqindex} {t : UInt64} {n : Nat}

/-- The time of the last access, by what `__xcache_lru` goes by. -/
def LastUsed (c : Xcache) (j : xqindex) (t : UInt64) : Prop :=
  if c.has XCACHE_LRU_ARRAY = true then c.times j ≠ XCACHE_LRU_MAX ∧ c.times j = t
  else ∃ h, c.binheap.live h = some ⟨t, j⟩

theorem lastUsed_array (harray : c.has XCACHE_LRU_ARRAY = true) (j : xqindex) (t : UInt64) :
    c.LastUsed j t ↔ c.times j ≠ XCACHE_LRU_MAX ∧ c.times j = t := by
  rw [LastUsed, if_pos harray]

theorem lastUsed_records (hnot : c.has XCACHE_LRU_ARRAY = false) (j : xqindex) (t : UInt64) :
    c.LastUsed j t ↔ ∃ h, c.binheap.live h = some ⟨t, j⟩ := by
  rw [LastUsed, hnot, if_neg Bool.false_ne_true]

def Evictable (c : Xcache) (j : xqindex) : Prop :=
  ∃ t, c.LastUsed j t ∧ (c.has XCACHE_LRU_ARRAY = true → t < -2)

def Present (c : Xcache) (idx j : xqindex) : Prop :=
  j.toNat < c.nr_nodes.toNat ∧ (j = idx ∨ c.HasEntry j)

structure KeepsRecency (c : Xcache) (idx : xqindex) (c' : Xcache) : Prop where
  evictable : ∀ j, c.Present idx j → c'.Evictable j
  latest : ∀ j s t, c.Present idx j → j ≠ idx → c'.LastUsed j s → c'.LastUsed idx t → s < t
  order : ∀ i j s t s' t', c.Present idx i → c.Present idx j → i ≠ idx → j ≠ idx →
    c.LastUsed i s → c.LastUsed j t → c'.LastUsed i s' → c'.LastUsed j t' → (s < t ↔ s' < t')

/-- As long as there is a node to evict, `__xcache_lru` takes the one that was used first. -/
theorem lru_array (harray : c.has XCACHE_LRU_ARRAY = true) (hj : j.toNat < c.nr_nodes.toNat)
    (he : c.Evictable j) : ∃ t, c.LastUsed c.lru.1 t ∧
      ∀ i s, i.toNat < c.nr_nodes.toNat → c.LastUsed i s → t ≤ s := by
  have hused := lastUsed_array harray
  have hlru : c.lru =
      (((List.range c.nr_nodes.toNat).foldl (lruScan c.times) (-2, Noneidx)).2, c) := if_pos harray
  rcases lruScan_foldl c.times (-2) c.nr_nodes.toNat with ⟨-, hle⟩ | ⟨i, -, hbest, hlt, hle⟩
  · obtain ⟨t, ht, hearly⟩ := he
    obtain ⟨-, rfl⟩ := (hused j t).mp ht
    have hge := hle j.toNat hj
    rw [UInt64.ofNat_toNat] at hge
    exact absurd (hearly harray) (UInt64.not_lt.mpr hge)
  · rw [hlru, hbest]
    refine ⟨_, (hused _ _).mpr ⟨fun heq => ?_, rfl⟩, fun k s hk hs => ?_⟩
    · rw [heq] at hlt
      exact absurd hlt (by decide)
    · obtain ⟨-, rfl⟩ := (hused k s).mp hs
      have hk' := hle k.toNat hk
      rwa [UInt64.ofNat_toNat] at hk'

theorem lru_heap (hnot : c.has XCACHE_LRU_ARRAY = false) (hheap : c.has XCACHE_LRU_HEAP = true)
    (hw : c.binheap.Wf) (hmin : c.binheap.isMaxHeap = false) (he : c.Evictable j) :
    ∃ t, c.LastUsed c.lru.1 t ∧ ∀ i s, c.LastUsed i s → t ≤ s := by
  have hnot' : ¬ c.has XCACHE_LRU_ARRAY = true := Bool.eq_false_iff.mp hnot
  have hused := lastUsed_records hnot
  obtain ⟨t, ht, -⟩ := he
  obtain ⟨h, hlive⟩ := (hused j t).mp ht
  have hcount : c.binheap.count ≠ 0 := by
    intro hzero
    have hnone := hw.placed.live_eq_none_iff.mpr hzero h
    rw [hnone] at hlive
    cases hlive
  obtain ⟨hbest, hfirst⟩ := hw.bestEntry hcount
  obtain ⟨_, hext, -⟩ := hw.extract hcount
  have hlru : c.lru.1 = (c.binheap.nodes 0).value := by
    rw [lru, if_neg hnot', if_pos hheap, hext]
    dsimp only
    split
    · exact Eq.symm ‹_›
    · rfl
  refine ⟨_, (hused _ _).mpr ⟨_, by rw [hbest, hlru]⟩, fun i s hs => ?_⟩
  obtain ⟨h, hlive⟩ := (hused i s).mp hs
  have hle := hfirst h _ hlive
  have hflag : ¬ c.binheap.flags &&& XBINHEAP_MAX ≠ 0 := by
    intro hne
    have hmax : c.binheap.isMaxHeap = true := bne_iff_ne.mpr hne
    rw [hmin] at hmax
    cases hmax
  rwa [Precedes, if_neg hflag] at hle

/-- Where the times of both caches are known, what is expected is about these. -/
theorem keepsRecency_iff {used : xqindex → Prop} {old new : xqindex → UInt64}
    (hidx : idx.toNat < c.nr_nodes.toNat) (hflags : c'.flags = c.flags)
    (hold : ∀ j t, c.LastUsed j t ↔ used j ∧ old j = t)
    (hnew : ∀ j t, c'.LastUsed j t ↔ used j ∧ new j = t) :
    KeepsRecency c idx c' ↔
      (∀ j, c.Present idx j → used j ∧ (c.has XCACHE_LRU_ARRAY = true → new j < -2)) ∧
        Refreshes (c.Present idx) idx old new := by
  have hhas : c'.has XCACHE_LRU_ARRAY = c.has XCACHE_LRU_ARRAY := by
    rw [has, hflags, has]
  have hself : c.Present idx idx := ⟨hidx, Or.inl rfl⟩
  have hevict {j : xqindex} (hj : c.Present idx j) :
      c'.Evictable j ↔ used j ∧ (c.has XCACHE_LRU_ARRAY = true → new j < -2) := by
    constructor
    · rintro ⟨t, hused, hearly⟩
      obtain ⟨husedj, rfl⟩ := (hnew j t).mp hused
      rw [hhas] at hearly
      exact ⟨husedj, hearly⟩
    · rintro ⟨husedj, hearly⟩
      refine ⟨new j, (hnew j _).mpr ⟨husedj, rfl⟩, ?_⟩
      rwa [hhas]
  constructor
  · intro h
    have hall (j : xqindex) (hj : c.Present idx j) := (hevict hj).mp (h.evictable j hj)
    have hused {j : xqindex} (hj : c.Present idx j) : c.LastUsed j (old j) :=
      (hold j _).mpr ⟨(hall j hj).1, rfl⟩
    have hused' {j : xqindex} (hj : c.Present idx j) : c'.LastUsed j (new j) :=
      (hnew j _).mpr ⟨(hall j hj).1, rfl⟩
    refine ⟨hall, fun j hj hne => ?_, fun i j hi hj hine hjne => ?_⟩
    · exact h.latest j _ _ hj hne (hused' hj) (hused' hself)
    · exact h.order i j _ _ _ _ hi hj hine hjne (hused hi) (hused hj) (hused' hi) (hused' hj)
  · rintro ⟨hall, hr⟩
    refine ⟨fun j hj => (hevict hj).mpr (hall j hj), fun j s t hj hne hs ht => ?_,
      fun i j s t s' t' hi hj hine hjne hs ht hs' ht' => ?_⟩
    · obtain ⟨-, rfl⟩ := (hnew j s).mp hs
      obtain ⟨-, rfl⟩ := (hnew idx t).mp ht
      exact hr.latest j hj hne
    · obtain ⟨-, rfl⟩ := (hold i s).mp hs
      obtain ⟨-, rfl⟩ := (hold j t).mp ht
      obtain ⟨-, rfl⟩ := (hnew i s').mp hs'
      obtain ⟨-, rfl⟩ := (hnew j t').mp ht'
      exact hr.order i j hi hj hine hjne

def Low (c : Xcache) (j : xqindex) : Prop := j.toNat < c.size.toNat

instance (c : Xcache) (j : xqindex) : Decidable (c.Low j) :=
  inferInstanceAs (Decidable (j.toNat < c.size.toNat))

def timedBelow (c : Xcache) (n : Nat) : Nat :=
  Nat.count (fun i => c.times (.ofNat i) ≠ XCACHE_LRU_MAX) n

theorem timedBelow_succ (c : Xcache) (n : Nat) : c.timedBelow (n + 1) =
    c.timedBelow n + if c.times (.ofNat n) ≠ XCACHE_LRU_MAX then 1 else 0 := Nat.count_succ ..

theorem timedBelow_le (c : Xcache) (n : Nat) : c.timedBelow n ≤ n := Nat.count_le _

theorem timedBelow_lt {i j : xqindex} (hi : c.times i ≠ XCACHE_LRU_MAX) :
    c.timedBelow i.toNat < c.timedBelow j.toNat ↔ i < j := by
  rw [UInt64.lt_iff_toNat_lt]
  constructor
  · exact Nat.lt_of_count_lt_count
  · intro hlt
    refine Nat.count_strict_mono ?_ hlt
    rwa [UInt64.ofNat_toNat]

theorem toNat_timedBelow (c : Xcache) (j : xqindex) :
    (UInt64.ofNat (c.timedBelow j.toNat)).toNat = c.timedBelow j.toNat := by
  have hle := c.timedBelow_le j.toNat
  exact UInt64.toNat_ofNat_of_lt' (Nat.lt_of_le_of_lt hle j.toNat_lt)

theorem foldl_resetTime (c : Xcache) {n : Nat} (hn : n ≤ c.size.toNat) :
    ((List.range n).foldl resetTime { c with time := 0 }).time = .ofNat (c.timedBelow n) ∧
      ∀ j, ((List.range n).foldl resetTime { c with time := 0 }).times j =
        if j.toNat < n ∧ c.times j ≠ XCACHE_LRU_MAX then .ofNat (c.timedBelow j.toNat)
        else c.times j := by
  induction n with
  | zero => exact ⟨rfl, fun j => (if_neg fun h => Nat.not_lt_zero _ h.1).symm⟩
  | succ n ih =>
    obtain ⟨htime, htimes⟩ := ih (Nat.le_of_succ_le hn)
    have hnat : (UInt64.ofNat n).toNat = n := toNat_ofNat_lt (Nat.lt_of_succ_le hn)
    rw [List.range_succ, List.foldl_append, List.foldl_cons, List.foldl_nil]
    generalize (List.range n).foldl resetTime { c with time := 0 } = r at htime htimes ⊢
    have hturn : r.times (.ofNat n) = c.times (.ofNat n) := by
      rw [htimes, hnat]
      exact if_neg fun h => Nat.lt_irrefl n h.1
    -- the turn is about the one node that the bound takes in
    have hrest {j : xqindex} (hj : j ≠ .ofNat n) : j.toNat < n + 1 ↔ j.toNat < n := by
      have hne : j.toNat ≠ n := fun heq => hj (by rw [← heq, UInt64.ofNat_toNat])
      omega
    rw [timedBelow_succ, resetTime, hturn]
    by_cases htimed : c.times (.ofNat n) ≠ XCACHE_LRU_MAX
    · rw [if_pos htimed, if_pos htimed]
      refine ⟨?_, fun j => ?_⟩
      · rw [htime]
        exact (UInt64.ofNat_add _ _).symm
      · show Function.update r.times (.ofNat n) r.time j = _
        by_cases hj : j = .ofNat n
        · rw [hj, Function.update_self, htime, hnat, if_pos ⟨n.lt_succ_self, htimed⟩]
        · rw [Function.update_of_ne hj, htimes]
          simp only [hrest hj]
    · rw [if_neg htimed, if_neg htimed]
      refine ⟨htime, fun j => ?_⟩
      rw [htimes]
      by_cases hj : j = .ofNat n
      · rw [hj, if_neg fun h => htimed h.2, if_neg fun h => htimed h.2]
      · simp only [hrest hj]

def number (c : Xcache) (j : xqindex) : UInt64 := .ofNat (c.timedBelow j.toNat)

theorem number_lt {i j : xqindex} (hi : c.times i ≠ XCACHE_LRU_MAX) :
    c.number i < c.number j ↔ i < j := by
  rw [UInt64.lt_iff_toNat_lt, number, number, toNat_timedBelow, toNat_timedBelow, timedBelow_lt hi]

theorem number_lt_time : c.number j < t ↔ c.timedBelow j.toNat < t.toNat := by
  rw [UInt64.lt_iff_toNat_lt, number, toNat_timedBelow]

theorem time_lt_number : t < c.number j ↔ t.toNat < c.timedBelow j.toNat := by
  rw [UInt64.lt_iff_toNat_lt, number, toNat_timedBelow]

/-- No number comes near the times that keep a node from eviction. -/
theorem number_early (hlow : c.Low j) : c.number j < -2 := by
  rw [number_lt_time]
  have hle := c.timedBelow_le j.toNat
  have hsize := c.size.toNat_lt
  have hbig : 2 ^ 32 < (-2 : UInt64).toNat := by decide
  rw [Low] at hlow
  omega

theorem number_ne_max (hlow : c.Low j) : c.number j ≠ XCACHE_LRU_MAX := by
  intro heq
  have hlt := number_early hlow
  rw [heq] at hlt
  exact absurd hlt (by decide)

theorem updateAccessTime_renumbers (harray : c.has XCACHE_LRU_ARRAY = true)
    (hwrap : c.time + 1 = XCACHE_LRU_MAX) : c.updateAccessTime idx =
      (List.range c.size.toNat).foldl resetTime { c with time := 0 } :=
  (if_pos hwrap).trans (if_pos harray)

theorem lastUsed_renumbered (harray : c.has XCACHE_LRU_ARRAY = true)
    (hwrap : c.time + 1 = XCACHE_LRU_MAX) (j : xqindex) (t : UInt64) :
    (c.updateAccessTime idx).LastUsed j t ↔
      c.times j ≠ XCACHE_LRU_MAX ∧ (if c.Low j then c.number j else c.times j) = t := by
  have hafter : (c.updateAccessTime idx).has XCACHE_LRU_ARRAY = true := by
    rw [(ranked_updateAccessTime c idx).has, harray]
  have htimes : (c.updateAccessTime idx).times j =
      if c.Low j ∧ c.times j ≠ XCACHE_LRU_MAX then c.number j else c.times j := by
    rw [updateAccessTime_renumbers harray hwrap]
    exact (foldl_resetTime c (Nat.le_refl _)).2 j
  rw [lastUsed_array hafter, htimes]
  by_cases hlow : c.Low j
  · by_cases htimed : c.times j ≠ XCACHE_LRU_MAX
    · rw [if_pos ⟨hlow, htimed⟩, if_pos hlow]
      exact and_congr_left fun _ => iff_of_true (number_ne_max hlow) htimed
    · rw [if_neg fun h => htimed h.2]
      exact iff_of_false (fun h => htimed h.1) fun h => htimed h.1
  · rw [if_neg fun h => hlow h.1, if_neg hlow]

/-- The accessed node had a time, the low entries lie in the order of their times with the accessed
node last, and the number of a low entry compares with the time of a high one as its time did. -/
@[mk_iff ArraySurvives.iff_and]
structure ArraySurvives (c : Xcache) (idx : xqindex) : Prop where
  timed : ∀ j, c.Present idx j → c.times j ≠ XCACHE_LRU_MAX
  early : ∀ j, c.Present idx j → ¬ c.Low j → c.times j < -2
  latest_low : ∀ j, c.Present idx j → j ≠ idx → c.Low j →
    (c.Low idx → j < idx) ∧ (¬ c.Low idx → c.timedBelow j.toNat < (c.times idx).toNat)
  latest_high : ∀ j, c.Present idx j → j ≠ idx → ¬ c.Low j →
    (c.Low idx → (c.times j).toNat < c.timedBelow idx.toNat) ∧
      (¬ c.Low idx → c.times j < c.times idx)
  order : ∀ i j, c.Present idx i → c.Present idx j → i ≠ idx → j ≠ idx → c.Low i → c.Low j →
    (c.times i < c.times j ↔ i < j)
  mixed : ∀ i j, c.Present idx i → c.Present idx j → i ≠ idx → j ≠ idx → c.Low i → ¬ c.Low j →
    (c.times i < c.times j ↔ c.timedBelow i.toNat < (c.times j).toNat) ∧
      (c.times j < c.times i ↔ (c.times j).toNat < c.timedBelow i.toNat)

theorem arraySurvives_iff : c.ArraySurvives idx ↔
    (∀ j, c.Present idx j → c.times j ≠ XCACHE_LRU_MAX ∧
      (if c.Low j then c.number j else c.times j) < -2) ∧
      RefreshesLow (c.Present idx) c.Low idx c.times c.number := by
  constructor
  · intro h
    refine ⟨fun j hj => ⟨h.timed j hj, ?_⟩, fun j hj hne hlow => ?_, fun j hj hne hhigh => ?_,
      fun i j hi hj hine hjne hli hlj => ?_, fun i j hi hj hine hjne hli hhj => ?_⟩
    · split
      · exact number_early ‹_›
      · exact h.early j hj ‹_›
    · rw [number_lt (h.timed j hj), number_lt_time]
      exact h.latest_low j hj hne hlow
    · rw [time_lt_number]
      exact h.latest_high j hj hne hhigh
    · rw [number_lt (h.timed i hi)]
      exact h.order i j hi hj hine hjne hli hlj
    · rw [number_lt_time, time_lt_number]
      exact h.mixed i j hi hj hine hjne hli hhj
  · rintro ⟨hall, h⟩
    refine ⟨fun j hj => (hall j hj).1, fun j hj hhigh => ?_, fun j hj hne hlow => ?_,
      fun j hj hne hhigh => ?_, fun i j hi hj hine hjne hli hlj => ?_,
      fun i j hi hj hine hjne hli hhj => ?_⟩
    · have hearly := (hall j hj).2
      rwa [if_neg hhigh] at hearly
    · rw [← number_lt (hall j hj).1, ← number_lt_time]
      exact h.latest_low j hj hne hlow
    · rw [← time_lt_number]
      exact h.latest_high j hj hne hhigh
    · rw [← number_lt (hall i hi).1]
      exact h.order i j hi hj hine hjne hli hlj
    · rw [← number_lt_time, ← time_lt_number]
      exact h.mixed i j hi hj hine hjne hli hhj

theorem keepsRecency_array (hidx : idx.toNat < c.nr_nodes.toNat)
    (hwrap : c.time + 1 = XCACHE_LRU_MAX) (harray : c.has XCACHE_LRU_ARRAY = true) :
    KeepsRecency c idx (c.updateAccessTime idx) ↔ c.ArraySurvives idx := by
  rw [keepsRecency_iff hidx (ranked_updateAccessTime c idx).flags
    (lastUsed_array harray) (lastUsed_renumbered harray hwrap), refreshes_ite_iff,
    arraySurvives_iff]
  refine and_congr_left fun _ => forall₂_congr fun j _ => and_congr_right fun _ => ?_
  exact ⟨fun h => h harray, fun h _ => h⟩

/-- Each record in the heap is under the handle of its node, and the loop of `__reset_times` comes
to no handle but those of records. -/
structure HeapKept (c : Xcache) : Prop where
  placed : c.binheap.Placed
  record : ∀ h t j, c.binheap.live h = some ⟨t, j⟩ → (c.nodes j).h = h
  low : ∀ i < c.size.toNat, (c.nodes (.ofNat i)).h ≠ NoNode →
    ∃ e, c.binheap.live (c.nodes (.ofNat i)).h = some e

def Reset (c : Xcache) (n h : Nat) : Prop := h ≠ NoNode ∧ ∃ i < n, (c.nodes (.ofNat i)).h = h

instance (c : Xcache) (n h : Nat) : Decidable (c.Reset n h) :=
  inferInstanceAs (Decidable (h ≠ NoNode ∧ ∃ i < n, (c.nodes (.ofNat i)).h = h))

theorem reset_succ {h : Nat} (hne : h = NoNode ∨ (c.nodes (.ofNat n)).h ≠ h) :
    c.Reset (n + 1) h ↔ c.Reset n h := by
  refine and_congr_right fun hset => ⟨?_, ?_⟩
  · rintro ⟨i, hi, rfl⟩
    refine ⟨i, Nat.lt_of_le_of_ne (Nat.le_of_lt_succ hi) ?_, rfl⟩
    rintro rfl
    exact hne.elim hset fun hother => hother rfl
  · rintro ⟨i, hi, hh⟩
    exact ⟨i, Nat.lt_succ_of_lt hi, hh⟩

structure Levelled (c : Xcache) (n : Nat) (r : Xcache) : Prop where
  nodes : r.nodes = c.nodes
  time : r.time = 0
  placed : r.binheap.Placed
  live : ∀ h, r.binheap.live h =
    (c.binheap.live h).map fun e => if c.Reset n h then { e with key := 0 } else e

theorem Levelled.turn {r : Xcache} (hk : c.HeapKept) (hn : n < c.size.toNat)
    (hl : Levelled c n r) : Levelled c (n + 1) (r.resetKey n) := by
  have hothers {h : Nat} (hne : h = NoNode ∨ (c.nodes (.ofNat n)).h ≠ h) : r.binheap.live h =
      (c.binheap.live h).map fun e => if c.Reset (n + 1) h then { e with key := 0 } else e := by
    rw [hl.live]
    simp only [reset_succ hne]
  rw [resetKey, hl.nodes, hl.time]
  by_cases hnone : (c.nodes (.ofNat n)).h = NoNode
  · rw [if_pos hnone]
    refine ⟨hl.nodes, hl.time, hl.placed, fun h => hothers ?_⟩
    by_cases hh : h = NoNode
    · exact Or.inl hh
    · exact Or.inr fun heq => hh (heq.symm.trans hnone)
  · obtain ⟨e, hold⟩ := hk.low n hn hnone
    have hreset : c.Reset (n + 1) (c.nodes (.ofNat n)).h := ⟨hnone, n, n.lt_succ_self, rfl⟩
    have hlive := hl.live (c.nodes (.ofNat n)).h
    rw [hold, Option.map_some] at hlive
    have hzero : ¬ r.binheap.getkey (c.nodes (.ofNat n)).h < 0 := UInt64.not_lt_zero
    rw [if_neg hnone, if_neg hzero]
    obtain ⟨hplaced, -, hlive'⟩ := hl.placed.keyChanged hlive (hl.placed.decreasekey hlive)
    refine ⟨rfl, rfl, hplaced, fun h => ?_⟩
    rw [hlive', Function.update_apply]
    split
    · rename_i hh
      rw [hh, hold, Option.map_some, if_pos hreset]
      split
      · rfl
      · rfl
    · rename_i hh
      exact hothers (Or.inr (Ne.symm hh))

theorem foldl_resetKey (hk : c.HeapKept) (hn : n ≤ c.size.toNat) :
    Levelled c n ((List.range n).foldl resetKey { c with time := 0 }) := by
  induction n with
  | zero =>
    refine ⟨rfl, rfl, hk.placed, fun h => ?_⟩
    have hnot : ¬ c.Reset 0 h := fun ⟨_, i, hi, _⟩ => Nat.not_lt_zero i hi
    simp only [if_neg hnot]
    exact Option.map_id'.symm
  | succ n ih =>
    rw [List.range_succ, List.foldl_append, List.foldl_cons, List.foldl_nil]
    exact (ih (Nat.le_of_succ_le hn)).turn hk hn

theorem updateAccessTime_levels (idx : xqindex) (hnot : c.has XCACHE_LRU_ARRAY = false)
    (hheap : c.has XCACHE_LRU_HEAP = true) (hwrap : c.time + 1 = XCACHE_LRU_MAX) :
    c.updateAccessTime idx = (List.range c.size.toNat).foldl resetKey { c with time := 0 } := by
  have hnot' : ¬ ({ c with time := 0 } : Xcache).has XCACHE_LRU_ARRAY = true :=
    Bool.eq_false_iff.mp hnot
  exact (if_pos hwrap).trans ((if_neg hnot').trans (if_pos hheap))

def InHeap (c : Xcache) (j : xqindex) : Prop := ∃ t, c.binheap.live (c.nodes j).h = some ⟨t, j⟩

def key (c : Xcache) (j : xqindex) : xbinheapidx := c.binheap.getkey (c.nodes j).h

def Zeroed (c : Xcache) (j : xqindex) : Prop := c.Reset c.size.toNat (c.nodes j).h

instance (c : Xcache) (j : xqindex) : Decidable (c.Zeroed j) :=
  inferInstanceAs (Decidable (c.Reset c.size.toNat (c.nodes j).h))

theorem lastUsed_heap (hk : c.HeapKept) (hnot : c.has XCACHE_LRU_ARRAY = false) (j : xqindex)
    (t : UInt64) : c.LastUsed j t ↔ c.InHeap j ∧ c.key j = t := by
  rw [lastUsed_records hnot]
  constructor
  · rintro ⟨h, hlive⟩
    obtain rfl := hk.record h t j hlive
    exact ⟨⟨t, hlive⟩, Xbinheap.getkey_live hlive⟩
  · rintro ⟨⟨t, hlive⟩, rfl⟩
    have hkey : c.key j = t := Xbinheap.getkey_live hlive
    rw [hkey]
    exact ⟨_, hlive⟩

theorem lastUsed_levelled (hk : c.HeapKept) (hnot : c.has XCACHE_LRU_ARRAY = false)
    (hheap : c.has XCACHE_LRU_HEAP = true) (hwrap : c.time + 1 = XCACHE_LRU_MAX) (j : xqindex)
    (t : UInt64) : (c.updateAccessTime idx).LastUsed j t ↔
      c.InHeap j ∧ (if c.Zeroed j then 0 else c.key j) = t := by
  have hafter : (c.updateAccessTime idx).has XCACHE_LRU_ARRAY = false := by
    rw [(ranked_updateAccessTime c idx).has, hnot]
  have hlive (h : Nat) := (foldl_resetKey hk (Nat.le_refl _)).live h
  rw [← updateAccessTime_levels idx hnot hheap hwrap] at hlive
  rw [lastUsed_records hafter]
  constructor
  · rintro ⟨h, hrecord⟩
    rw [hlive] at hrecord
    obtain ⟨⟨s, v⟩, hold, heq⟩ := Option.map_eq_some_iff.mp hrecord
    obtain rfl : v = j := by
      split at heq
      · exact congrArg XbinheapEntry.value heq
      · exact congrArg XbinheapEntry.value heq
    obtain rfl := hk.record h s v hold
    have hkey : c.key v = s := Xbinheap.getkey_live hold
    refine ⟨⟨s, hold⟩, ?_⟩
    rw [hkey]
    split at heq
    · exact (if_pos ‹_›).trans (congrArg XbinheapEntry.key heq)
    · exact (if_neg ‹_›).trans (congrArg XbinheapEntry.key heq)
  · rintro ⟨⟨s, hold⟩, rfl⟩
    have hkey : c.key j = s := Xbinheap.getkey_live hold
    refine ⟨(c.nodes j).h, ?_⟩
    rw [hlive, hold, Option.map_some, hkey]
    by_cases hzeroed : c.Zeroed j
    · rw [if_pos hzeroed]
      exact congrArg some (if_pos hzeroed)
    · rw [if_neg hzeroed]
      exact congrArg some (if_neg hzeroed)

/-- All entries whose records the loop comes to are alike before, and the accessed node is a later
one whose record it does not come to. -/
@[mk_iff HeapSurvives.iff_and]
structure HeapSurvives (c : Xcache) (idx : xqindex) : Prop where
  recorded : ∀ j, c.Present idx j → c.InHeap j
  latest : ∀ j, c.Present idx j → j ≠ idx →
    ¬ c.Zeroed idx ∧ (c.Zeroed j → 0 < c.key idx) ∧ (¬ c.Zeroed j → c.key j < c.key idx)
  level : ∀ i j, c.Present idx i → c.Present idx j → i ≠ idx → j ≠ idx →
    c.Zeroed i → c.Zeroed j → c.key i = c.key j
  mixed : ∀ i j, c.Present idx i → c.Present idx j → i ≠ idx → j ≠ idx →
    c.Zeroed i → ¬ c.Zeroed j → c.key i < c.key j ∨ c.key i = 0 ∧ c.key j = 0

theorem heapSurvives_iff : c.HeapSurvives idx ↔ (∀ j, c.Present idx j → c.InHeap j) ∧
    RefreshesLow (c.Present idx) c.Zeroed idx c.key fun _ => 0 := by
  constructor
  · intro h
    refine ⟨h.recorded, fun j hj hne hlow => ?_, fun j hj hne hhigh => ?_,
      fun i j hi hj hine hjne hli hlj => ?_, fun i j hi hj hine hjne hli hhj => ?_⟩
    · obtain ⟨hhigh, hlt, -⟩ := h.latest j hj hne
      exact ⟨fun hlow' => absurd hlow' hhigh, fun _ => hlt hlow⟩
    · obtain ⟨hhigh', -, hlt⟩ := h.latest j hj hne
      exact ⟨fun hlow => absurd hlow hhigh', fun _ => hlt hhigh⟩
    · rw [h.level i j hi hj hine hjne hli hlj]
      exact iff_of_false (UInt64.lt_irrefl _) (UInt64.lt_irrefl _)
    · rcases h.mixed i j hi hj hine hjne hli hhj with hlt | ⟨hi0, hj0⟩
      · have hpos : 0 < c.key j := UInt64.lt_of_le_of_lt UInt64.zero_le hlt
        exact ⟨iff_of_true hlt hpos, iff_of_false (UInt64.lt_asymm hlt) UInt64.not_lt_zero⟩
      · rw [hi0, hj0]
        exact ⟨Iff.rfl, Iff.rfl⟩
  · rintro ⟨hall, h⟩
    refine ⟨hall, fun j hj hne => ?_, fun i j hi hj hine hjne hli hlj => ?_,
      fun i j hi hj hine hjne hli hhj => ?_⟩
    · have hhigh : ¬ c.Zeroed idx := by
        intro hlow
        by_cases hlj : c.Zeroed j
        · exact UInt64.lt_irrefl _ ((h.latest_low j hj hne hlj).1 hlow)
        · exact UInt64.not_lt_zero ((h.latest_high j hj hne hlj).1 hlow)
      exact ⟨hhigh, fun hlj => (h.latest_low j hj hne hlj).2 hhigh,
        fun hhj => (h.latest_high j hj hne hhj).2 hhigh⟩
    · apply UInt64.le_antisymm
      · exact UInt64.not_lt.mp fun hlt =>
          UInt64.lt_irrefl _ ((h.order j i hj hi hjne hine hlj hli).mp hlt)
      · exact UInt64.not_lt.mp fun hlt =>
          UInt64.lt_irrefl _ ((h.order i j hi hj hine hjne hli hlj).mp hlt)
    · obtain ⟨hlt, hgt⟩ := h.mixed i j hi hj hine hjne hli hhj
      by_cases hpos : 0 < c.key j
      · exact Or.inl (hlt.mpr hpos)
      · have hle : c.key i ≤ c.key j := UInt64.not_lt.mp fun h => UInt64.not_lt_zero (hgt.mp h)
        have hj0 : c.key j = 0 := UInt64.le_antisymm (UInt64.not_lt.mp hpos) UInt64.zero_le
        rw [hj0] at hle
        exact Or.inr ⟨UInt64.le_antisymm hle UInt64.zero_le, hj0⟩

theorem keepsRecency_heap (hidx : idx.toNat < c.nr_nodes.toNat)
    (hwrap : c.time + 1 = XCACHE_LRU_MAX) (hnot : c.has XCACHE_LRU_ARRAY = false)
    (hheap : c.has XCACHE_LRU_HEAP = true) (hk : c.HeapKept) :
    KeepsRecency c idx (c.updateAccessTime idx) ↔ c.HeapSurvives idx := by
  rw [keepsRecency_iff hidx (ranked_updateAccessTime c idx).flags (lastUsed_heap hk hnot)
    (lastUsed_levelled hk hnot hheap hwrap), refreshes_ite_iff, heapSurvives_iff]
  refine and_congr_left fun _ => forall₂_congr fun j _ => and_iff_left fun harray => ?_
  rw [hnot] at harray
  cases harray

/-- When the time comes to its maximum the entries stay in order in exactly these cases. -/
theorem updateAccessTime_keepsRecency (hidx : idx.toNat < c.nr_nodes.toNat)
    (hwrap : c.time + 1 = XCACHE_LRU_MAX) :
    (c.has XCACHE_LRU_ARRAY = true →
      (KeepsRecency c idx (c.updateAccessTime idx) ↔ c.ArraySurvives idx)) ∧
    (c.has XCACHE_LRU_ARRAY = false → c.has XCACHE_LRU_HEAP = true → c.HeapKept →
      (KeepsRecency c idx (c.updateAccessTime idx) ↔ c.HeapSurvives idx)) :=
  ⟨keepsRecency_array hidx hwrap, keepsRecency_heap hidx hwrap⟩

section Decide

instance (c : Xcache) (idx j : xqindex) : Decidable (c.Present idx j) :=
  inferInstanceAs (Decidable (j.toNat < c.nr_nodes.toNat ∧ (j = idx ∨ c.HasEntry j)))

theorem forall_present {p : xqindex → Prop} : (∀ j, c.Present idx j → p j) ↔
    ∀ i < c.nr_nodes.toNat, c.Present idx (.ofNat i) → p (.ofNat i) := by
  constructor
  · exact fun h i _ => h (.ofNat i)
  · intro h j hj
    have hnode := h j.toNat hj.1
    rw [UInt64.ofNat_toNat] at hnode
    exact hnode hj

instance {p : xqindex → Prop} [DecidablePred p] : Decidable (∀ j, c.Present idx j → p j) :=
  decidable_of_iff _ forall_present.symm

instance {p : xqindex → xqindex → Prop} [∀ i j, Decidable (p i j)] :
    Decidable (∀ i j, c.Present idx i → c.Present idx j → p i j) :=
  decidable_of_iff (∀ i, c.Present idx i → ∀ j, c.Present idx j → p i j)
    ⟨fun h i j hi hj => h i hi j hj, fun h i hi j hj => h i j hi hj⟩

set_option synthInstance.maxSize 1000 in
instance (c : Xcache) (idx : xqindex) : Decidable (c.ArraySurvives idx) :=
  decidable_of_iff _ (ArraySurvives.iff_and c idx).symm

instance (h : Xbinheap) : Decidable h.Placed :=
  decidable_of_iff
    (((∀ hd < h.size, h.indexes hd < h.size) ∧ (∀ p < h.size, (h.nodes p).h < h.size) ∧
      (∀ hd < h.size, (h.nodes (h.indexes hd)).h = hd) ∧
      ∀ p < h.size, h.indexes (h.nodes p).h = p) ∧ h.count ≤ h.size)
    ⟨fun hp => ⟨⟨hp.1.1, hp.1.2.1, hp.1.2.2.1, hp.1.2.2.2⟩, hp.2⟩,
      fun hp => ⟨⟨hp.perm.index_lt, hp.perm.handle_lt, hp.perm.handle_index,
        hp.perm.index_handle⟩, hp.count_le⟩⟩

theorem forall_live {p : Nat → UInt64 → xqindex → Prop} :
    (∀ h t j, c.binheap.live h = some ⟨t, j⟩ → p h t j) ↔
      ∀ h < c.binheap.size, ∀ e ∈ c.binheap.live h, p h e.key e.value := by
  constructor
  · exact fun hall h _ e he => hall h e.key e.value he
  · intro hall h t j hlive
    obtain ⟨⟨hlt, -⟩, -⟩ := Xbinheap.liveBelow_some.mp hlive
    exact hall h hlt ⟨t, j⟩ hlive

instance (c : Xcache) : Decidable c.HeapKept :=
  decidable_of_iff
    (c.binheap.Placed ∧
      (∀ h < c.binheap.size, ∀ e ∈ c.binheap.live h, (c.nodes e.value).h = h) ∧
      ∀ i < c.size.toNat, (c.nodes (.ofNat i)).h ≠ NoNode →
        (c.binheap.live (c.nodes (.ofNat i)).h).isSome)
    ⟨fun hk => ⟨hk.1, forall_live.mpr hk.2.1, fun i hi hne => Option.isSome_iff_exists.mp
      (hk.2.2 i hi hne)⟩, fun hk => ⟨hk.placed, forall_live.mp hk.record, fun i hi hne =>
        Option.isSome_iff_exists.mpr (hk.low i hi hne)⟩⟩

instance (c : Xcache) (j : xqindex) : Decidable (c.InHeap j) :=
  decidable_of_iff (∃ e ∈ c.binheap.live (c.nodes j).h, e.value = j)
    ⟨fun ⟨e, he, hj⟩ => ⟨e.key, hj ▸ he⟩, fun ⟨t, ht⟩ => ⟨⟨t, j⟩, ht, rfl⟩⟩

set_option synthInstance.maxSize 1000 in
instance (c : Xcache) (idx : xqindex) : Decidable (c.HeapSurvives idx) :=
  decidable_of_iff _ (HeapSurvives.iff_and c idx).symm

end Decide

def threeEntries [Builtins] (flags : UInt32) (time : UInt64) : Option Xcache :=
  (trial (fun _ _ => True) 4 flags
    [.pop 0, .init 0 nameA 0, .insert 0 plenty 0 NoEntry NoEntry, .pop 7, .init 7 nameD 0,
      .insert 7 plenty 7 NoEntry NoEntry, .pop 6, .init 6 nameE 0,
      .insert 6 plenty 6 NoEntry NoEntry]).map fun w => { w.cache with time := time }

/-- The entry at node 0 is renumbered, those at the nodes 7 and 6 are not, and 6 is accessed. -/
theorem updateAccessTime_keepsRecency_three : ∃ (_ : Builtins) (a b : Xcache),
    (threeEntries XCACHE_LRU_ARRAY (XCACHE_LRU_MAX - 1) = some a ∧
      (a.HasEntry 0 ∧ a.HasEntry 7 ∧ a.HasEntry 6) ∧ KeepsRecency a 6 (a.updateAccessTime 6)) ∧
    (threeEntries XCACHE_LRU_HEAP (XCACHE_LRU_MAX - 1) = some b ∧
      (b.HasEntry 0 ∧ b.HasEntry 7 ∧ b.HasEntry 6) ∧ KeepsRecency b 6 (b.updateAccessTime 6)) := by
  let _ : Builtins := ⟨0⟩
  have harray : (threeEntries XCACHE_LRU_ARRAY (XCACHE_LRU_MAX - 1)).any (fun c =>
      (c.HasEntry 0 ∧ c.HasEntry 7 ∧ c.HasEntry 6) ∧ (6 : xqindex).toNat < c.nr_nodes.toNat ∧
        c.time + 1 = XCACHE_LRU_MAX ∧ c.has XCACHE_LRU_ARRAY = true ∧
        c.ArraySurvives 6) = true := by
    decide +kernel
  have hheap : (threeEntries XCACHE_LRU_HEAP (XCACHE_LRU_MAX - 1)).any (fun c =>
      (c.HasEntry 0 ∧ c.HasEntry 7 ∧ c.HasEntry 6) ∧ (6 : xqindex).toNat < c.nr_nodes.toNat ∧
        c.time + 1 = XCACHE_LRU_MAX ∧ c.has XCACHE_LRU_ARRAY = false ∧
        c.has XCACHE_LRU_HEAP = true ∧ c.HeapKept ∧ c.HeapSurvives 6) = true := by
    decide +kernel
  obtain ⟨a, ha, hcheck⟩ := (Option.any_eq_true _ _).mp harray
  obtain ⟨hentries, hidx, hwrap, hflag, hsurvives⟩ := of_decide_eq_true hcheck
  obtain ⟨b, hb, hcheck⟩ := (Option.any_eq_true _ _).mp hheap
  obtain ⟨hentries', hidx', hwrap', hnot, hflag', hkept, hsurvives'⟩ := of_decide_eq_true hcheck
  refine ⟨_, a, b, ⟨ha, hentries, ?_⟩, hb, hentries', ?_⟩
  · exact ((updateAccessTime_keepsRecency hidx hwrap).1 hflag).mpr hsurvives
  · exact ((updateAccessTime_keepsRecency hidx' hwrap').2 hnot hflag' hkept).mpr hsurvives'

def stamped (c : Xcache) (idx : xqindex) (t : UInt64) : Xcache :=
  { c with time := t, times := Function.update c.times idx t }

theorem stamped_updateAccessTime (harray : c.has XCACHE_LRU_ARRAY = true)
    (hne : t + 1 ≠ XCACHE_LRU_MAX) :
    (c.stamped idx t).updateAccessTime idx = c.stamped idx (t + 1) := by
  have hstep : (c.stamped idx t).updateAccessTime idx = { c with
      time := t + 1
      times := Function.update (Function.update c.times idx t) idx (t + 1) } :=
    (if_neg hne).trans (if_pos harray)
  rw [hstep, Function.update_idem, stamped]

theorem iterate_updateAccessTime (harray : c.has XCACHE_LRU_ARRAY = true) (idx : xqindex)
    (hn : c.time.toNat + (n + 1) < XCACHE_LRU_MAX.toNat) :
    (fun c => c.updateAccessTime idx)^[n + 1] c = c.stamped idx (c.time + .ofNat (n + 1)) := by
  have hmax : XCACHE_LRU_MAX.toNat = 2 ^ 64 - 1 := rfl
  induction n with
  | zero =>
    have hne : c.time + 1 ≠ XCACHE_LRU_MAX := by
      intro heq
      have hnat := congrArg UInt64.toNat heq
      rw [UInt64.toNat_add, UInt64.toNat_one] at hnat
      omega
    exact (if_neg hne).trans (if_pos harray)
  | succ n ih =>
    have hne : c.time + .ofNat (n + 1) + 1 ≠ XCACHE_LRU_MAX := by
      intro heq
      have hnat := congrArg UInt64.toNat heq
      rw [UInt64.toNat_add, UInt64.toNat_add, UInt64.toNat_one,
        UInt64.toNat_ofNat_of_lt' (show n + 1 < 2 ^ 64 by omega)] at hnat
      omega
    rw [Function.iterate_succ_apply', ih (by omega), stamped_updateAccessTime harray hne,
      UInt64.add_assoc, ← UInt64.ofNat_one, ← UInt64.ofNat_add]

/-- One of two entries is accessed until the time is about to come to its maximum, and then the
other one. The first has a node above the loop, so it is never evicted after that. -/
theorem not_updateAccessTime_keepsRecency : ¬ ∀ (_ : Builtins) (w₀ w : World Unit)
    (as : List (Unit × Event)) (c : Xcache) (k idx : xqindex) (n : Nat), Start w₀ →
    Run World.Step w₀ as w → (fun c => c.updateAccessTime k)^[n] w.cache = c →
    c.has XCACHE_LRU_ARRAY = true ∨ c.has XCACHE_LRU_HEAP = true → c.HasEntry k → c.HasEntry idx →
    idx.toNat < c.nr_nodes.toNat → c.time + 1 = XCACHE_LRU_MAX →
    KeepsRecency c idx (c.updateAccessTime idx) := by
  intro hall
  let _ : Builtins := ⟨0⟩
  let events : List Event := [.pop 0, .init 0 nameA 0, .insert 0 plenty 0 NoEntry NoEntry, .pop 3,
    .init 3 nameD 0, .insert 3 plenty 3 NoEntry NoEntry]
  have hsome : (trial (fun _ _ => True) 2 XCACHE_LRU_ARRAY events).any (fun w =>
      w.cache.has XCACHE_LRU_ARRAY = true ∧ w.cache.HasEntry 0 ∧ w.cache.HasEntry 3 ∧
        w.cache.nr_nodes = 4 ∧ w.cache.size = 2 ∧ w.cache.time = 2) = true := by
    decide +kernel
  obtain ⟨w₀, w, hs, -, hrun, hcheck⟩ := run_of_trial hsome
  obtain ⟨harray, hold, hin, hnodes, hsize, htime⟩ := of_decide_eq_true hcheck
  have haccesses : (fun c => c.updateAccessTime 3)^[2 ^ 64 - 5 + 1] w.cache =
      w.cache.stamped 3 (-2) := by
    rw [iterate_updateAccessTime harray 3 (by rw [htime]; decide), htime]
    exact congrArg (w.cache.stamped 3) (by decide)
  have hlow : (0 : xqindex).toNat < w.cache.nr_nodes.toNat := by
    rw [hnodes]
    decide
  have hpresent : (w.cache.stamped 3 (-2)).Present 0 3 := by
    refine ⟨?_, Or.inr hin⟩
    show (3 : xqindex).toNat < w.cache.nr_nodes.toNat
    rw [hnodes]
    decide
  have hhigh : ¬ (w.cache.stamped 3 (-2)).Low 3 := by
    show ¬ (3 : xqindex).toNat < w.cache.size.toNat
    rw [hsize]
    decide
  have hkeeps := hall _ w₀ w _ _ 3 0 _ hs (hrun.mono And.right) haccesses (Or.inl harray) hin hold
    hlow rfl
  have hsurvives : (w.cache.stamped 3 (-2)).ArraySurvives 0 :=
    (keepsRecency_array (c := w.cache.stamped 3 (-2)) hlow rfl harray).mp hkeeps
  have hearly := hsurvives.early 3 hpresent hhigh
  have hself : (w.cache.stamped 3 (-2)).times 3 = -2 := Function.update_self 3 (-2) w.cache.times
  rw [hself] at hearly
  exact absurd hearly (UInt64.lt_irrefl _)

end Xcache

end Libxseg
