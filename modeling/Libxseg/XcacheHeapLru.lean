import Libxseg.XbinheapRuns
import Libxseg.XcacheVictims

/-!
# The cache with the heap beside the one with the array

`withHeap` is the cache that keeps its access times in a heap, where all else is that of a
cache with the array. `Tracks` says that the heap holds exactly the nodes that have a time,
under the handles that the nodes have. A section then does the same to both, unless it
removes an entry while there are others.
-/

namespace Libxseg

set_option autoImplicit false

namespace Xcache

/-- What a cache with `XCACHE_LRU_HEAP` has of its own. Its `times` are never used. -/
structure HeapLru where
  flags : UInt32
  times : xqindex → UInt64
  binheap : Xbinheap
  h : xqindex → Nat

def withHeap (c : Xcache) (l : HeapLru) : Xcache :=
  { c with
    nodes := fun idx => { c.nodes idx with h := l.h idx }
    times := l.times
    binheap := l.binheap
    flags := l.flags }

abbrev inHeap {α : Type} (l : HeapLru) (p : α × Xcache) : α × Xcache := (p.1, p.2.withHeap l)

def InsertResult.withHeap (result : InsertResult) (l : HeapLru) : InsertResult :=
  { result with cache := result.cache.withHeap l }

variable {c c' c'' : Xcache} {l l' l'' : HeapLru} {E R : Finset xqindex} {idx g h v z : xqindex}

theorem modify_withHeap (c : Xcache) (l : HeapLru) (idx : xqindex) {f : XcacheEntry → XcacheEntry}
    (hf : ∀ ce h, f { ce with h := h } = { f ce with h := h }) :
    (c.withHeap l).modify idx f = (c.modify idx f).withHeap l := by
  have hnodes : Function.update (c.withHeap l).nodes idx (f ((c.withHeap l).nodes idx)) =
      fun j => { Function.update c.nodes idx (f (c.nodes idx)) j with h := l.h j } := by
    funext j
    by_cases hj : j = idx
    · rw [hj, Function.update_self, Function.update_self]
      exact hf _ _
    · rw [Function.update_of_ne hj, Function.update_of_ne hj]
      rfl
  unfold modify
  rw [hnodes]
  rfl

theorem modify_handle (c : Xcache) (l : HeapLru) (idx : xqindex) (h : Nat) :
    ((c.withHeap l).modify idx fun ce => { ce with h := h }) =
      c.withHeap { l with h := Function.update l.h idx h } := by
  have hnodes : Function.update (c.withHeap l).nodes idx
        { (c.withHeap l).nodes idx with h := h } =
      fun j => { c.nodes j with h := Function.update l.h idx h j } := by
    funext j
    by_cases hj : j = idx
    · rw [hj, Function.update_self, Function.update_self]
      rfl
    · rw [Function.update_of_ne hj, Function.update_of_ne hj]
      rfl
  unfold modify
  rw [hnodes]
  rfl

theorem nameFunctions_withHeap (c : Xcache) (l : HeapLru) :
    nameFunctions (c.withHeap l).nodes = nameFunctions c.nodes := by
  have hread : NamePtr.read (c.withHeap l).nodes = NamePtr.read c.nodes := by
    funext name
    cases name <;> rfl
  unfold nameFunctions
  rw [hread]

theorem cached_withHeap {key : NamePtr} : (c.withHeap l).Cached key idx ↔ c.Cached key idx := by
  rw [Cached, nameFunctions_withHeap]
  rfl

theorem removed_withHeap {key : NamePtr} : (c.withHeap l).Removed key idx ↔ c.Removed key idx := by
  rw [Removed, nameFunctions_withHeap]
  rfl

theorem hasEntry_withHeap : (c.withHeap l).HasEntry idx ↔ c.HasEntry idx := by
  unfold HasEntry
  exact exists_congr fun _ => cached_withHeap

theorem lookupEntries_withHeap (c : Xcache) (l : HeapLru) (name : NamePtr) :
    (c.withHeap l).lookupEntries name = c.lookupEntries name := by
  unfold lookupEntries tableLookup
  rw [nameFunctions_withHeap]
  rfl

theorem lookupRm_withHeap (c : Xcache) (l : HeapLru) (name : NamePtr) :
    (c.withHeap l).lookupRm name = c.lookupRm name := by
  unfold lookupRm tableLookup
  rw [nameFunctions_withHeap]
  rfl

theorem removeRm_withHeap (c : Xcache) (l : HeapLru) (h : xcache_handler) :
    (c.withHeap l).removeRm h = (c.removeRm h).map (inHeap l) := by
  unfold removeRm tableRemove
  rw [nameFunctions_withHeap, Option.map_map]
  rfl

theorem insertRm_withHeap (c : Xcache) (l : HeapLru) (h : xcache_handler) (mem : TableMemory) :
    (c.withHeap l).insertRm h mem = (c.insertRm h mem).map (inHeap l) := by
  unfold insertRm tableInsert
  rw [nameFunctions_withHeap, Option.map_map]
  rfl

theorem insertEntries_withHeap (c : Xcache) (l : HeapLru) (h : xcache_handler)
    (mem : TableMemory) :
    (c.withHeap l).insertEntries h mem = (c.insertEntries h mem).map (inHeap l) := by
  unfold insertEntries tableInsert
  rw [nameFunctions_withHeap, Option.map_map]
  rfl

theorem entryGet_withHeap (c : Xcache) (l : HeapLru) (idx : xqindex) :
    (c.withHeap l).entryGet idx = (c.entryGet idx).withHeap l :=
  modify_withHeap c l idx fun _ _ => rfl

theorem reinsertRm_withHeap (c : Xcache) (l : HeapLru) (h : xcache_handler) :
    (c.withHeap l).reinsertRm h = (c.reinsertRm h).map (inHeap l) := by
  unfold reinsertRm
  rw [removeRm_withHeap, Option.map_map, Option.map_map]
  congr 1
  funext ⟨r, c₁⟩
  dsimp only [Function.comp_apply, inHeap]
  by_cases hr : r < 0
  · rw [if_pos hr, if_pos hr]
  · rw [if_neg hr, if_neg hr, modify_withHeap _ _ _ fun _ _ => rfl, entryGet_withHeap]

structure Beside (c : Xcache) (l : HeapLru) : Prop where
  array : c.has XCACHE_LRU_ARRAY = true
  not_array : (c.withHeap l).has XCACHE_LRU_ARRAY = false
  heap : (c.withHeap l).has XCACHE_LRU_HEAP = true
  rmTable : (c.withHeap l).has XCACHE_USE_RMTABLE = c.has XCACHE_USE_RMTABLE

theorem has_withHeap (c : Xcache) (l : HeapLru) (flag : UInt32) :
    (c.withHeap l).has flag = (l.flags &&& flag != 0) := rfl

theorem Beside.congr (hb : Beside c l) (hflags : c'.flags = c.flags)
    (hflags' : l'.flags = l.flags) : Beside c' l' where
  array := by
    rw [has, hflags]
    exact hb.array
  not_array := by
    rw [has_withHeap, hflags']
    exact hb.not_array
  heap := by
    rw [has_withHeap, hflags']
    exact hb.heap
  rmTable := by
    rw [has_withHeap, hflags', has, hflags]
    exact hb.rmTable

/-- The heap holds exactly the nodes that have a time, and knows them by the handles. -/
structure Tracks (c : Xcache) (l : HeapLru) : Prop extends Beside c l where
  wf : l.binheap.Wf
  min : l.binheap.isMaxHeap = false
  size : l.binheap.size = c.size.toNat
  record : ∀ idx, c.times idx ≠ XCACHE_LRU_MAX →
    l.binheap.live (l.h idx) = some ⟨c.times idx, idx⟩
  timed : ∀ hd e, l.binheap.live hd = some e →
    c.times e.value ≠ XCACHE_LRU_MAX ∧ l.h e.value = hd

/-- A node without a time has no handle. That does not hold of those that were never set up. -/
def Unlisted (c : Xcache) (l : HeapLru) (idx : xqindex) : Prop :=
  c.times idx = XCACHE_LRU_MAX → l.h idx = NoNode

def Keeps (c : Xcache) (l : HeapLru) (c' : Xcache) (l' : HeapLru) : Prop :=
  ∀ idx, c.Unlisted l idx → c'.Unlisted l' idx

theorem Keeps.trans (h : Keeps c l c' l') (h' : Keeps c' l' c'' l'') : Keeps c l c'' l'' :=
  fun idx hs => h' idx (h idx hs)

theorem Keeps.of_times (htimes : c'.times = c.times) : Keeps c l c' l := by
  intro idx hs
  rw [Unlisted, htimes]
  exact hs

theorem Tracks.congr (hl : Tracks c l) (hflags : c'.flags = c.flags) (hsize : c'.size = c.size)
    (htimes : c'.times = c.times) : Tracks c' l where
  toBeside := hl.toBeside.congr hflags rfl
  wf := hl.wf
  min := hl.min
  size := by
    rw [hsize]
    exact hl.size
  record := by
    rw [htimes]
    exact hl.record
  timed := by
    rw [htimes]
    exact hl.timed

theorem Tracks.handle_lt (hl : Tracks c l) (hidx : c.times idx ≠ XCACHE_LRU_MAX) :
    l.h idx < l.binheap.size := by
  obtain ⟨⟨hlt, -⟩, -⟩ := Xbinheap.liveBelow_some.mp (hl.record idx hidx)
  exact hlt

theorem Tracks.ne_noNode_of_lt (hl : Tracks c l) {hd : Nat} (hlt : hd < l.binheap.size) :
    hd ≠ NoNode := by
  have hsize := c.size.toNat_lt
  rw [hl.size] at hlt
  unfold NoNode
  omega

/-- No more records than entries. -/
theorem Tracks.count_le (hl : Tracks c l) (hm : Timed c E) : l.binheap.count ≤ E.card := by
  have hle := hl.wf.count_le
  have hrecord {p : Nat} (hp : p < l.binheap.count) : l.binheap.live (l.binheap.nodes p).h =
      some ⟨(l.binheap.nodes p).key, (l.binheap.nodes p).value⟩ :=
    hl.wf.perm.liveBelow_handle hp (by omega)
  have hcard := Finset.card_le_card_of_injOn (s := Finset.range l.binheap.count) (t := E)
    (fun p => (l.binheap.nodes p).value) ?_ ?_
  · rwa [Finset.card_range] at hcard
  · intro p hp
    have hp := Finset.mem_range.mp (Finset.mem_coe.mp hp)
    exact Finset.mem_coe.mpr ((hm.cached _).mp (hl.timed _ _ (hrecord hp)).1)
  · intro p hp q hq heq
    have hp := Finset.mem_range.mp (Finset.mem_coe.mp hp)
    have hq := Finset.mem_range.mp (Finset.mem_coe.mp hq)
    have hhandle : (l.binheap.nodes p).h = (l.binheap.nodes q).h := by
      rw [← (hl.timed _ _ (hrecord hp)).2, ← (hl.timed _ _ (hrecord hq)).2]
      exact congrArg l.h heq
    rw [← hl.wf.perm.index_handle p (by omega), hhandle, hl.wf.perm.index_handle q (by omega)]

theorem Tracks.handle_ne (hl : Tracks c l) {i j : xqindex} (hi : c.times i ≠ XCACHE_LRU_MAX)
    (hj : c.times j ≠ XCACHE_LRU_MAX) (hne : i ≠ j) : l.h i ≠ l.h j := by
  intro heq
  have hrec := hl.record i hi
  rw [heq, hl.record j hj] at hrec
  exact hne (XbinheapEntry.mk.inj (Option.some.inj hrec)).2.symm

/-- The parts of two caches that no access and no removal changes. -/
structure Still (c : Xcache) (l : HeapLru) (c' : Xcache) (l' : HeapLru) : Prop where
  flags : c'.flags = c.flags
  size : c'.size = c.size
  heapFlags : l'.flags = l.flags
  wf : l'.binheap.Wf
  binheapFlags : l'.binheap.flags = l.binheap.flags
  binheapSize : l'.binheap.size = l.binheap.size

theorem Tracks.of_still (hl : Tracks c l) (hs : Still c l c' l')
    (hrecord : ∀ idx, c'.times idx ≠ XCACHE_LRU_MAX →
      l'.binheap.live (l'.h idx) = some ⟨c'.times idx, idx⟩)
    (htimed : ∀ hd e, l'.binheap.live hd = some e →
      c'.times e.value ≠ XCACHE_LRU_MAX ∧ l'.h e.value = hd) : Tracks c' l' where
  toBeside := hl.toBeside.congr hs.flags hs.heapFlags
  wf := hs.wf
  min := by
    unfold Xbinheap.isMaxHeap
    rw [hs.binheapFlags]
    exact hl.min
  size := by
    rw [hs.binheapSize, hs.size]
    exact hl.size
  record := hrecord
  timed := htimed

/-- The node gets a time in the array and a record with that time, new or not, in the heap. -/
theorem Tracks.stamp (hl : Tracks c l) {hd : Nat} {t : UInt64} {binheap : Xbinheap}
    (hs : Still c l c' { l with binheap := binheap, h := Function.update l.h z hd })
    (htimes : c'.times = Function.update c.times z t) (ht : t ≠ XCACHE_LRU_MAX)
    (hlive : binheap.live = Function.update l.binheap.live hd (some ⟨t, z⟩))
    (hself : c.times z ≠ XCACHE_LRU_MAX → l.h z = hd)
    (hother : ∀ idx, idx ≠ z → c.times idx ≠ XCACHE_LRU_MAX → l.h idx ≠ hd) :
    Tracks c' { l with binheap := binheap, h := Function.update l.h z hd } ∧
      Keeps c l c' { l with binheap := binheap, h := Function.update l.h z hd } := by
  have htimesOf {idx : xqindex} (hne : idx ≠ z) : c'.times idx = c.times idx := by
    rw [htimes, Function.update_of_ne hne]
  have htimesSelf : c'.times z = t := by rw [htimes, Function.update_self]
  refine ⟨hl.of_still hs (fun idx hidx => ?_) (fun hd' e he => ?_), fun idx hset hidx => ?_⟩
  · dsimp only
    rw [hlive]
    by_cases hne : idx = z
    · rw [hne, Function.update_self, Function.update_self, htimesSelf]
    · rw [htimesOf hne] at hidx ⊢
      rw [Function.update_of_ne hne, Function.update_of_ne (hother idx hne hidx)]
      exact hl.record idx hidx
  · dsimp only at he ⊢
    rw [hlive] at he
    by_cases hhd : hd' = hd
    · rw [hhd, Function.update_self] at he
      obtain rfl := Option.some.inj he
      rw [htimesSelf, Function.update_self]
      exact ⟨ht, hhd.symm⟩
    · rw [Function.update_of_ne hhd] at he
      obtain ⟨htimed, hhandle⟩ := hl.timed hd' e he
      have hne : e.value ≠ z := by
        intro heq
        rw [heq] at htimed hhandle
        exact hhd (hhandle.symm.trans (hself htimed))
      rw [htimesOf hne, Function.update_of_ne hne]
      exact ⟨htimed, hhandle⟩
  · have hne : idx ≠ z := by
      intro heq
      rw [heq, htimesSelf] at hidx
      exact ht hidx
    dsimp only
    rw [Function.update_of_ne hne]
    rw [htimesOf hne] at hidx
    exact hset hidx

/-- The node loses its time in the array and its record in the heap. -/
theorem Tracks.drop (hl : Tracks c l) {binheap : Xbinheap}
    (hs : Still c l c' { l with binheap := binheap, h := Function.update l.h z NoNode })
    (htimes : c'.times = Function.update c.times z XCACHE_LRU_MAX)
    (hz : c.times z ≠ XCACHE_LRU_MAX)
    (hlive : binheap.live = Function.update l.binheap.live (l.h z) none) :
    Tracks c' { l with binheap := binheap, h := Function.update l.h z NoNode } ∧
      Keeps c l c' { l with binheap := binheap, h := Function.update l.h z NoNode } := by
  have htimesOf {idx : xqindex} (hne : idx ≠ z) : c'.times idx = c.times idx := by
    rw [htimes, Function.update_of_ne hne]
  refine ⟨hl.of_still hs (fun idx hidx => ?_) (fun hd' e he => ?_), fun idx hset hidx => ?_⟩
  · have hne : idx ≠ z := by
      intro heq
      rw [heq, htimes, Function.update_self] at hidx
      exact hidx rfl
    rw [htimesOf hne] at hidx ⊢
    dsimp only
    rw [hlive, Function.update_of_ne hne, Function.update_of_ne (hl.handle_ne hidx hz hne)]
    exact hl.record idx hidx
  · dsimp only at he ⊢
    rw [hlive] at he
    by_cases hhd : hd' = l.h z
    · rw [hhd, Function.update_self] at he
      cases he
    · rw [Function.update_of_ne hhd] at he
      obtain ⟨htimed, hhandle⟩ := hl.timed hd' e he
      have hne : e.value ≠ z := fun heq => hhd (by rw [← hhandle, heq])
      rw [htimesOf hne, Function.update_of_ne hne]
      exact ⟨htimed, hhandle⟩
  · dsimp only
    by_cases hne : idx = z
    · rw [hne, Function.update_self]
    · rw [Function.update_of_ne hne]
      rw [htimesOf hne] at hidx
      exact hset hidx

theorem updateAccessTime_rekey (c : Xcache) (idx : xqindex) (hbelow : c.TimeBelow)
    (hnot : c.has XCACHE_LRU_ARRAY = false) (hheap : c.has XCACHE_LRU_HEAP = true)
    (hlisted : (c.nodes idx).h ≠ NoNode) :
    c.updateAccessTime idx = { c with
      time := c.time + 1
      binheap := c.binheap.increasekey (c.nodes idx).h (c.time + 1) } := by
  have hnot' : ¬ c.has XCACHE_LRU_ARRAY = true := Bool.eq_false_iff.mp hnot
  exact (if_neg hbelow).trans ((if_neg hnot').trans ((if_pos hheap).trans (if_pos hlisted)))

theorem updateAccessTime_insert (c : Xcache) (idx : xqindex) (hbelow : c.TimeBelow)
    (hnot : c.has XCACHE_LRU_ARRAY = false) (hheap : c.has XCACHE_LRU_HEAP = true)
    (hnew : (c.nodes idx).h = NoNode) :
    c.updateAccessTime idx = ({ c with
      time := c.time + 1
      binheap := (c.binheap.insert (c.time + 1) idx).2 } : Xcache).modify idx
        fun ce => { ce with h := (c.binheap.insert (c.time + 1) idx).1 } := by
  have hnot' : ¬ c.has XCACHE_LRU_ARRAY = true := Bool.eq_false_iff.mp hnot
  exact (if_neg hbelow).trans
    ((if_neg hnot').trans ((if_pos hheap).trans (if_neg (not_not_intro hnew))))

/-- An access of a node that is in the heap, or for which there is room. -/
theorem Tracks.touch (hl : Tracks c l) (hm : Timed c E) (hbelow : c.TimeBelow)
    (hz : c.Unlisted l z) (hroom : c.times z = XCACHE_LRU_MAX → l.binheap.count < c.size.toNat) :
    ∃ l', (c.withHeap l).entryGetAndUpdate z = (c.entryGetAndUpdate z).withHeap l' ∧
      Tracks (c.entryGetAndUpdate z) l' ∧ Keeps c l (c.entryGetAndUpdate z) l' := by
  have hframe := frame_entryGetAndUpdate c z
  have htimes : (c.entryGetAndUpdate z).times = Function.update c.times z (c.time + 1) := by
    rw [entryGetAndUpdate_eq hl.array hbelow]
  by_cases hnew : c.times z = XCACHE_LRU_MAX
  · have hcount : l.binheap.count < l.binheap.size := by
      rw [hl.size]
      exact hroom hnew
    obtain ⟨hd, binheap, hins, hwf, hsize, hflags, -, hfree, hlive⟩ :=
      hl.wf.insert hcount (c.time + 1) z
    refine ⟨{ l with binheap := binheap, h := Function.update l.h z hd }, ?_,
      hl.stamp ⟨hframe.flags, hframe.size, rfl, hwf, hflags, hsize⟩ htimes hbelow hlive
        (absurd hnew) fun idx _ hidx heq => ?_⟩
    · have hinsert := updateAccessTime_insert ((c.entryGet z).withHeap l) z hbelow
        hl.not_array hl.heap (hz hnew)
      rw [entryGetAndUpdate, entryGet_withHeap, hinsert, entryGetAndUpdate_eq hl.array hbelow]
      change ({ (c.entryGet z).withHeap l with
        time := c.time + 1
        binheap := (l.binheap.insert (c.time + 1) z).2 } : Xcache).modify z
          (fun ce => { ce with h := (l.binheap.insert (c.time + 1) z).1 }) = _
      rw [hins]
      exact modify_handle { c.entryGet z with time := c.time + 1 } { l with binheap := binheap }
        z hd
    · have hrec := hl.record idx hidx
      rw [heq, hfree] at hrec
      cases hrec
  · have hrec := hl.record z hnew
    have hle : c.times z ≤ c.time + 1 :=
      UInt64.le_of_lt (UInt64.lt_of_le_of_lt (hm.le z ((hm.cached z).mp hnew))
        (time_lt_succ hm.below))
    have hk := hl.wf.increasekey hrec hle
    have hsame : Function.update l.h z (l.h z) = l.h := Function.update_eq_self z l.h
    refine ⟨{ l with
      binheap := l.binheap.increasekey (l.h z) (c.time + 1)
      h := Function.update l.h z (l.h z) }, ?_,
      hl.stamp ⟨hframe.flags, hframe.size, rfl, hk.wf, hk.flags, hk.size⟩ htimes hbelow hk.live
        (fun _ => rfl) fun idx hne hidx => hl.handle_ne hidx hnew hne⟩
    have hrekey := updateAccessTime_rekey ((c.entryGet z).withHeap l) z hbelow
      hl.not_array hl.heap (hl.ne_noNode_of_lt (hl.handle_lt hnew))
    rw [hsame, entryGetAndUpdate, entryGet_withHeap, hrekey, entryGetAndUpdate_eq hl.array hbelow]
    rfl

theorem Tracks.first (hl : Tracks c l) (hidx : c.times idx ≠ XCACHE_LRU_MAX) :
    l.binheap.count ≠ 0 ∧ c.times (l.binheap.nodes 0).value ≠ XCACHE_LRU_MAX ∧
      l.h (l.binheap.nodes 0).value = (l.binheap.nodes 0).h ∧
      c.times (l.binheap.nodes 0).value ≤ c.times idx := by
  have hrec := hl.record idx hidx
  have hcount : l.binheap.count ≠ 0 := by
    intro hzero
    rw [hl.wf.placed.live_eq_none_iff.mpr hzero] at hrec
    cases hrec
  obtain ⟨hbest, hfirst⟩ := hl.wf.bestEntry hcount
  obtain ⟨htimed, hhandle⟩ := hl.timed _ _ hbest
  refine ⟨hcount, htimed, hhandle, ?_⟩
  have hle := hfirst _ _ hrec
  have hflag : ¬ l.binheap.flags &&& XBINHEAP_MAX ≠ 0 := by
    intro hne
    have hmax : l.binheap.isMaxHeap = true := bne_iff_ne.mpr hne
    rw [hl.min] at hmax
    cases hmax
  rw [Precedes, if_neg hflag] at hle
  have hkey := hl.record _ htimed
  rw [hhandle, hbest] at hkey
  obtain ⟨hkey, -⟩ := XbinheapEntry.mk.inj (Option.some.inj hkey)
  rwa [← hkey]

/-- The scan and the heap come to the same victim. -/
theorem Tracks.lru (hl : Tracks c l) (hm : Timed c E)
    (hlow : ∀ idx ∈ E, idx.toNat < c.nr_nodes.toNat) (hearly : c.time < -2) (hsome : E.Nonempty) :
    ∃ v l', c.lru = (v, c) ∧ v ∈ E ∧ (c.withHeap l).lru = (v, c.withHeap l') ∧
      l'.h v = NoNode ∧
      Tracks { c with times := Function.update c.times v XCACHE_LRU_MAX } l' ∧
      Keeps c l { c with times := Function.update c.times v XCACHE_LRU_MAX } l' := by
  obtain ⟨v, hlru, hold⟩ : ∃ v, c.lru = (v, c) ∧ Oldest c E v := by
    rcases hm.lru hlow with hlru | ⟨-, hlate⟩
    · exact hlru
    · obtain ⟨idx, hidx⟩ := hsome
      have hlt := UInt64.lt_of_le_of_lt (hm.le idx hidx) hearly
      exact absurd hlt (UInt64.not_lt.mpr (hlate idx hidx))
  have hv : c.times v ≠ XCACHE_LRU_MAX := (hm.cached v).mpr hold.mem
  obtain ⟨hcount, htimed, hhandle, hle⟩ := hl.first hv
  have hsame : (l.binheap.nodes 0).value = v := by
    have hmem := (hm.cached _).mp htimed
    exact hm.inj _ hmem v hold.mem (UInt64.le_antisymm hle (hold.le _ hmem))
  obtain ⟨binheap, hext, hwf, hsize, hflags, hlive⟩ := hl.wf.extract hcount
  rw [hsame] at hhandle hext
  rw [← hhandle] at hlive
  have hne : v ≠ .ofNat NoNode := ne_noEntry_of_low (hlow v hold.mem)
  have hnot : ¬ (c.withHeap l).has XCACHE_LRU_ARRAY = true := Bool.eq_false_iff.mp hl.not_array
  have hheap : (c.withHeap l).lru = (v, (c.withHeap { l with binheap := binheap }).modify v
      fun ce => { ce with h := NoNode }) := by
    rw [Xcache.lru, if_neg hnot, if_pos hl.heap]
    have hext' : (c.withHeap l).binheap.extract = (v, binheap) := hext
    rw [hext']
    exact if_neg hne
  rw [modify_handle] at hheap
  refine ⟨v, _, hlru, hold.mem, hheap, Function.update_self .., ?_⟩
  exact hl.drop ⟨rfl, rfl, rfl, hwf, hflags, hsize⟩ rfl hv hlive

theorem forget_array (harray : c.has XCACHE_LRU_ARRAY = true) (h : xcache_handler) :
    c.forget h = { c with times := Function.update c.times h XCACHE_LRU_MAX } := if_pos harray

theorem Beside.forget_unlisted (hb : Beside c l) (hh : l.h h = NoNode) :
    (c.withHeap l).forget h = (c.forget h).withHeap l := by
  have hnot : ¬ (c.withHeap l).has XCACHE_LRU_ARRAY = true := Bool.eq_false_iff.mp hb.not_array
  rw [forget_array hb.array]
  exact (if_neg hnot).trans ((if_pos hb.heap).trans (if_neg (not_not_intro hh)))

/-- The heap forgets the only entry there is. -/
theorem Tracks.forget_lone (hl : Tracks c l) (hh : c.times h ≠ XCACHE_LRU_MAX)
    (hlone : ∀ idx, c.times idx ≠ XCACHE_LRU_MAX → idx = h) :
    ∃ l', (c.withHeap l).forget h = (c.forget h).withHeap l' ∧ Tracks (c.forget h) l' ∧
      Keeps c l (c.forget h) l' := by
  have hrec := hl.record h hh
  have hlisted : l.h h ≠ NoNode := hl.ne_noNode_of_lt (hl.handle_lt hh)
  have hmax : c.times h ≤ XCACHE_LRU_MAX := by
    have hlt := (c.times h).toNat_lt
    rw [UInt64.le_iff_toNat_le]
    exact Nat.le_of_lt_succ hlt
  have hk := hl.wf.increasekey hrec hmax
  obtain ⟨raised, hraised⟩ : ∃ raised, l.binheap.increasekey (l.h h) XCACHE_LRU_MAX = raised :=
    ⟨_, rfl⟩
  rw [hraised] at hk
  have hself : raised.live (l.h h) = some ⟨XCACHE_LRU_MAX, h⟩ := by
    rw [hk.live, Function.update_self]
  have hcount : raised.count ≠ 0 := by
    intro hzero
    rw [hk.wf.placed.live_eq_none_iff.mpr hzero] at hself
    cases hself
  have hroot : (raised.nodes 0).h = l.h h := by
    obtain ⟨hbest, -⟩ := hk.wf.bestEntry hcount
    by_contra hne
    rw [hk.live, Function.update_of_ne hne] at hbest
    obtain ⟨htimed, hhandle⟩ := hl.timed _ _ hbest
    rw [hlone _ htimed] at hhandle
    exact hne hhandle.symm
  obtain ⟨binheap, hext, hwf, hsize, hflags, hlive⟩ := hk.wf.extract hcount
  rw [hroot, hk.live, Function.update_idem] at hlive
  have hnot : ¬ (c.withHeap l).has XCACHE_LRU_ARRAY = true := Bool.eq_false_iff.mp hl.not_array
  have hforget : (c.withHeap l).forget h =
      ((c.withHeap { l with binheap := binheap }).modify h fun ce => { ce with h := NoNode }) := by
    have hrun : (c.withHeap l).forget h = { c.withHeap l with
        binheap := (l.binheap.increasekey (l.h h) XCACHE_LRU_MAX).extract.2 }.modify h
          fun ce => { ce with h := NoNode } :=
      (if_neg hnot).trans ((if_pos hl.heap).trans (if_pos hlisted))
    rw [hrun, hraised, hext]
    rfl
  rw [modify_handle] at hforget
  rw [forget_array hl.array, hforget]
  exact ⟨_, rfl, hl.drop ⟨rfl, rfl, rfl, hwf, hflags.trans hk.flags, hsize.trans hk.size⟩ rfl hh
    hlive⟩

end Xcache

end Libxseg
