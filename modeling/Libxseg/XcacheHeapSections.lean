import Libxseg.XcacheHeapLru

/-!
# The sections of the cache with the heap

Each locked section does the same to both caches. What it looks up in the two tables is the
same, and the victim of an insertion is the node with the smallest time in the array and the
root of the heap. `Keeps` goes with each of them: a node that may be inserted still has no
handle.
-/

namespace Libxseg

set_option autoImplicit false

namespace Xcache

variable {c c' c'' : Xcache} {l l' l'' : HeapLru} {E R : Finset xqindex} {idx g h v z : xqindex}

theorem removeEntries_eq (c : Xcache) (h : xcache_handler) : c.removeEntries h =
    (c.entries.delete (nameFunctions c.nodes) (.node h)).map fun p =>
      if p.1 < 0 then (p.1, { c with entries := p.2 })
      else (0, forget { c with entries := p.2 } h) := rfl

theorem Beside.removeEntries_unlisted (hb : Beside c l) (hh : l.h h = NoNode) :
    (c.withHeap l).removeEntries h = (c.removeEntries h).map (inHeap l) := by
  rw [removeEntries_eq, removeEntries_eq, nameFunctions_withHeap, Option.map_map]
  congr 1
  funext ⟨r, entries⟩
  dsimp only [Function.comp_apply, inHeap]
  have hforget : forget { c.withHeap l with entries := entries } h =
      (forget { c with entries := entries } h).withHeap l :=
    Beside.forget_unlisted (c := { c with entries := entries }) (hb.congr rfl rfl) hh
  by_cases hr : r < 0
  · rw [if_pos hr, if_pos hr]
    rfl
  · rw [if_neg hr, if_neg hr, hforget]

theorem evict_eq (c : Xcache) (h : xcache_handler) (mem : TableMemory) : c.evict h mem =
    (c.removeEntries h).bind fun p =>
      if p.1 < 0 then some (-1, p.2)
      else if !p.2.has XCACHE_USE_RMTABLE then some (0, p.2)
      else
        ((p.2.modify h fun ce => { ce with state := .NODE_EVICTED }).insertRm h mem).map fun q =>
          if q.1 < 0 then (-1, q.2.modify h fun ce => { ce with state := .NODE_ACTIVE })
          else (0, q.2) := rfl

theorem Beside.evict_unlisted (hb : Beside c l) (hh : l.h h = NoNode) (mem : TableMemory) :
    (c.withHeap l).evict h mem = (c.evict h mem).map (inHeap l) := by
  rw [evict_eq, evict_eq, hb.removeEntries_unlisted hh]
  cases hrun : c.removeEntries h with
  | none => rfl
  | some p =>
    obtain ⟨r, c₁⟩ := p
    have hrm := (hb.congr (restamped_removeEntries hb.array hrun).flags rfl : Beside c₁ l).rmTable
    rw [Option.map_some, Option.bind_some, Option.bind_some]
    dsimp only
    rw [hrm]
    by_cases hr : r < 0
    · rw [if_pos hr, if_pos hr]
      rfl
    rw [if_neg hr, if_neg hr]
    by_cases hno : (!c₁.has XCACHE_USE_RMTABLE) = true
    · rw [if_pos hno, if_pos hno]
      rfl
    rw [if_neg hno, if_neg hno, modify_withHeap _ _ _ fun _ _ => rfl, insertRm_withHeap,
      Option.map_map, Option.map_map]
    congr 1
    funext ⟨r₂, c₂⟩
    dsimp only [Function.comp_apply, inHeap]
    by_cases hr₂ : r₂ < 0
    · rw [if_pos hr₂, if_pos hr₂, modify_withHeap _ _ _ fun _ _ => rfl]
    · rw [if_neg hr₂, if_neg hr₂]

theorem evict_times {mem : TableMemory} {r : Int} (harray : c.has XCACHE_LRU_ARRAY = true)
    (ht : Tables c E R) (hm : Ordered c E) (hmem : v ∈ E) (hrun : c.evict v mem = some (r, c')) :
    c'.flags = c.flags ∧ c'.size = c.size ∧
      c'.times = Function.update c.times v XCACHE_LRU_MAX := by
  obtain ⟨r₁, c₁, hremove, hrest⟩ := evict_inv hrun
  obtain ⟨r₀, entries, -, hdone⟩ := removeEntries_inv hremove
  obtain ⟨c₀, hmem', -, -, -⟩ := removeEntries_mem ht hm hmem
  rw [hremove, Option.some.injEq, Prod.mk.injEq] at hmem'
  have hc₁ : c₁ = { c with
      entries := entries
      times := Function.update c.times v XCACHE_LRU_MAX } := by
    rcases hdone with ⟨hlt, hr, -⟩ | ⟨-, -, hc₁⟩
    · rw [← hr, hmem'.1] at hlt
      exact absurd hlt (Int.lt_irrefl 0)
    · rw [hc₁]
      exact forget_array (c := { c with entries := entries }) harray v
  have hsame : c₁.flags = c.flags ∧ c₁.size = c.size ∧
      c₁.times = Function.update c.times v XCACHE_LRU_MAX := by
    rw [hc₁]
    exact ⟨rfl, rfl, rfl⟩
  rcases hrest with ⟨-, -, rfl⟩ | ⟨-, -, -, rfl⟩ | ⟨-, -, r₂, c₂, hinsert, hc'⟩
  · exact hsame
  · exact hsame
  · obtain ⟨rm_entries, -, rfl⟩ := insertRm_inv hinsert
    rcases hc' with ⟨-, -, rfl⟩ | ⟨-, -, rfl⟩
    · exact hsame
    · exact hsame

/-- An eviction takes the same victim out of both. -/
theorem Tracks.evictLru (hl : Tracks c l) (ht : Tables c E R) (hm : Timed c E)
    (hearly : c.time < -2) (hsome : E.Nonempty) (mem : TableMemory) :
    ∃ l', (c.withHeap l).evictLru mem = (c.evictLru mem).map (inHeap l') ∧
      ∀ lru c', c.evictLru mem = some (lru, c') → Tracks c' l' ∧ Keeps c l c' l' := by
  obtain ⟨v, l', hlru, hmem, hlru', hnew, hl', hk⟩ := hl.lru hm ht.entries_low hearly hsome
  have hne : v ≠ NoEntry := ne_noEntry_of_low (ht.entries_low v hmem)
  have hb : Beside c l' := hl'.toBeside.congr rfl rfl
  have hrun : c.evictLru mem =
      (c.evict v mem).map fun p => (if p.1 < 0 then NoEntry else v, p.2) := by
    unfold Xcache.evictLru
    rw [hlru]
    exact if_neg hne
  have hrun' : (c.withHeap l).evictLru mem = ((c.withHeap l').evict v mem).map
      fun p => (if p.1 < 0 then NoEntry else v, p.2) := by
    unfold Xcache.evictLru
    rw [hlru']
    exact if_neg hne
  refine ⟨l', ?_, fun lru c' hc' => ?_⟩
  · rw [hrun, hrun', hb.evict_unlisted hnew, Option.map_map, Option.map_map]
    rfl
  · rw [hrun] at hc'
    obtain ⟨⟨r, _⟩, hevict, heq⟩ := Option.map_eq_some_iff.mp hc'
    obtain ⟨-, rfl⟩ := Prod.mk.inj heq
    obtain ⟨hflags, hsize, htimes⟩ := evict_times hl.array ht (fun _ => hm) hmem hevict
    exact ⟨hl'.congr hflags hsize htimes, hk.trans (Keeps.of_times htimes)⟩

theorem Timed.congr (hm : Timed c E) (hf : Frame c c') (htime : c'.time = c.time)
    (htimes : c'.times = c.times) : Timed c' E :=
  Ordered.congr (fun _ => hm) hf htime htimes (by rw [hf.has]; exact hm.array)

/-- Both enter the name of a node, or have no memory for it. -/
theorem Tracks.enter (hl : Tracks c l) (ht : Tables c E R) (hm : Timed c E)
    (hbelow : c.TimeBelow) (hg : g.toNat < c.nr_nodes.toNat)
    (hE : ∀ idx ∈ E, (c.nodes idx).name ≠ (c.nodes g).name)
    (hR : ∀ idx ∈ R, (c.nodes idx).name ≠ (c.nodes g).name) (hset : c.Unlisted l g)
    (hroom : E.card < c.size.toNat) (lru reinsert : xcache_handler) (mem : TableMemory) :
    ∃ r c₁ l', c.insertEntries g mem = some (r, c₁) ∧ r ≠ -XHASH_ENOSPC ∧
      (c₁.withHeap l).insertDone g lru reinsert r =
        (c₁.insertDone g lru reinsert r).withHeap l' ∧
      Tracks (c₁.insertDone g lru reinsert r).cache l' ∧
      Keeps c l (c₁.insertDone g lru reinsert r).cache l' := by
  rcases Xcache.enter ht (fun _ => hm) hg hE hR hroom mem with ⟨c₁, hins, -⟩ | ⟨-, hins⟩
  · obtain ⟨entries, -, hc₁⟩ := insertEntries_inv hins
    have hl₁ : Tracks c₁ l := by
      rw [hc₁]
      exact hl.congr rfl rfl rfl
    have hm₁ : Timed c₁ E := by
      rw [hc₁]
      exact hm.congr ⟨rfl, rfl, rfl, rfl, rfl, fun _ => rfl⟩ rfl rfl
    have hbelow₁ : c₁.TimeBelow := by
      rw [hc₁]
      exact hbelow
    have hkeep : Keeps c l c₁ l := by
      rw [hc₁]
      exact Keeps.of_times rfl
    have hcount : l.binheap.count < c₁.size.toNat := by
      rw [hc₁]
      exact Nat.lt_of_le_of_lt (hl.count_le hm) hroom
    obtain ⟨l', htouch, hl', hk'⟩ := hl₁.touch hm₁ hbelow₁ (hkeep g hset) fun _ => hcount
    refine ⟨0, c₁, l', hins, by decide, ?_, ?_, ?_⟩
    · unfold insertDone
      rw [if_pos (Int.le_refl 0), if_pos (Int.le_refl 0), htouch]
      rfl
    · unfold insertDone
      rw [if_pos (Int.le_refl 0)]
      exact hl'
    · unfold insertDone
      rw [if_pos (Int.le_refl 0)]
      exact hkeep.trans hk'
  · refine ⟨-1, c, l, hins, by decide, rfl, hl, Keeps.of_times rfl⟩

theorem insertDone_failed (c : Xcache) (h lru reinsert : xcache_handler) (r : Int) :
    (if r < 0 then ⟨NoEntry, lru, reinsert, c⟩ else c.insertDone h lru reinsert r) =
      c.insertDone h lru reinsert r := by
  split
  · rename_i hlt
    exact (if_neg (Int.not_le.mpr hlt)).symm
  · rfl

theorem insertNew_eq (c : Xcache) (h reinsert : xcache_handler) (mem : InsertMemory) :
    c.insertNew h reinsert mem = (c.insertEntries h mem.first).bind fun p =>
      if p.1 = -XHASH_ENOSPC then
        (p.2.evictLru mem.victim).bind fun q =>
          if q.1 = NoEntry then some ⟨NoEntry, NoEntry, reinsert, q.2⟩
          else (q.2.insertEntries h mem.second).map fun p =>
            if p.1 < 0 then ⟨NoEntry, q.1, reinsert, p.2⟩ else p.2.insertDone h q.1 reinsert p.1
      else some (p.2.insertDone h NoEntry reinsert p.1) := rfl

theorem Tracks.insertNew (hl : Tracks c l) (ht : Tables c E R) (hm : Timed c E)
    (hbelow : c.TimeBelow) (hearly : c.time < -2) (hg : g.toNat < c.nr_nodes.toNat)
    (hE : ∀ idx ∈ E, (c.nodes idx).name ≠ (c.nodes g).name)
    (hR : ∀ idx ∈ R, (c.nodes idx).name ≠ (c.nodes g).name) (hset : c.Unlisted l g)
    (reinsert : xcache_handler) (mem : InsertMemory) :
    ∃ result l', c.insertNew g reinsert mem = some result ∧
      (c.withHeap l).insertNew g reinsert mem = some (result.withHeap l') ∧
      Tracks result.cache l' ∧ Keeps c l result.cache l' := by
  rcases Nat.lt_or_ge E.card c.size.toNat with hroom | hfull
  · obtain ⟨r, c₁, l', hins, hr, hdone, hl', hk⟩ :=
      hl.enter ht hm hbelow hg hE hR hset hroom NoEntry reinsert mem.first
    refine ⟨_, l', ?_, ?_, hl', hk⟩
    · rw [insertNew_eq, hins, Option.bind_some, if_neg hr]
    · rw [insertNew_eq, insertEntries_withHeap, hins, Option.map_some, Option.bind_some, if_neg hr,
        ← hdone]
  · have hcard : E.card = c.size.toNat := Nat.le_antisymm ht.card_le hfull
    have hgE : g ∉ E := fun hmem => hE g hmem rfl
    have hgR : g ∉ R := fun hmem => hR g hmem rfl
    have hsome : E.Nonempty := Finset.card_pos.mp (hcard ▸ ht.positive)
    obtain ⟨l₁, hev', hrest⟩ := hl.evictLru ht hm hearly hsome mem.victim
    have hrun {lru : xcache_handler} {c₁ : Xcache} (hev : c.evictLru mem.victim = some (lru, c₁)) :
        c.insertNew g reinsert mem =
            (if lru = NoEntry then some ⟨NoEntry, NoEntry, reinsert, c₁⟩
            else (c₁.insertEntries g mem.second).map fun p =>
              if p.1 < 0 then ⟨NoEntry, lru, reinsert, p.2⟩
              else p.2.insertDone g lru reinsert p.1) ∧
          (c.withHeap l).insertNew g reinsert mem =
            if lru = NoEntry then some ⟨NoEntry, NoEntry, reinsert, c₁.withHeap l₁⟩
            else ((c₁.withHeap l₁).insertEntries g mem.second).map fun p =>
              if p.1 < 0 then ⟨NoEntry, lru, reinsert, p.2⟩
              else p.2.insertDone g lru reinsert p.1 := by
      rw [insertNew_eq, insertNew_eq, insertEntries_withHeap, insertEntries_full ht hfull,
        Option.map_some, Option.bind_some, Option.bind_some, if_pos rfl, if_pos rfl, hev', hev]
      exact ⟨rfl, rfl⟩
    have hlost {c₁ : Xcache} (hev : c.evictLru mem.victim = some (NoEntry, c₁)) :
        ∃ result l', c.insertNew g reinsert mem = some result ∧
          (c.withHeap l).insertNew g reinsert mem = some (result.withHeap l') ∧
          Tracks result.cache l' ∧ Keeps c l result.cache l' := by
      obtain ⟨hr, hr'⟩ := hrun hev
      rw [if_pos rfl] at hr hr'
      exact ⟨_, l₁, hr, hr', hrest _ _ hev⟩
    rcases evictLru_spec ht (fun _ => hm) (ht.rm_room hg hgE hgR hfull)
      (hm.victimCached ht.entries_low) mem.victim with
      ⟨c₁, hev, hmem, ht₁, hm₁, hq⟩ | ⟨-, c₁, hev, -⟩ | ⟨-, -, c₁, hev, -⟩
    · obtain ⟨v, hv⟩ : ∃ v, c.lru.1 = v := ⟨_, rfl⟩
      rw [hv] at hev hmem ht₁ hm₁
      have hne : v ≠ NoEntry := ne_noEntry_of_low (ht.entries_low v hmem)
      obtain ⟨hl₁, hk₁⟩ := hrest _ _ hev
      have hroom₁ : (E.erase v).card < c₁.size.toNat := by
        rw [Finset.card_erase_of_mem hmem, hq.size, hcard]
        exact Nat.sub_lt ht.positive Nat.one_pos
      have hE₁ : ∀ idx ∈ E.erase v, (c₁.nodes idx).name ≠ (c₁.nodes g).name := by
        intro idx hidx
        rw [hq.name, hq.name]
        exact hE idx (Finset.mem_of_mem_erase hidx)
      have hR₁ : ∀ idx ∈ c.rmAfter R v, (c₁.nodes idx).name ≠ (c₁.nodes g).name := by
        intro idx hidx
        rw [hq.name, hq.name]
        unfold rmAfter at hidx
        split at hidx
        · rcases Finset.mem_insert.mp hidx with rfl | hidx
          · exact hE idx hmem
          · exact hR idx hidx
        · exact hR idx hidx
      have hbelow₁ : c₁.TimeBelow := by
        rw [TimeBelow, hq.time]
        exact hbelow
      have hg₁ : g.toNat < c₁.nr_nodes.toNat := by rwa [hq.nr_nodes]
      obtain ⟨r, c₂, l', hins, -, hdone, hl', hk⟩ := hl₁.enter ht₁ (hm₁ hl₁.array) hbelow₁ hg₁ hE₁
        hR₁ (hk₁ g hset) hroom₁ v reinsert mem.second
      obtain ⟨hr, hr'⟩ := hrun hev
      rw [if_neg hne, hins, Option.map_some, insertDone_failed] at hr
      rw [if_neg hne, insertEntries_withHeap, hins, Option.map_some, Option.map_some,
        insertDone_failed, hdone] at hr'
      exact ⟨_, l', hr, hr', hl', hk₁.trans hk⟩
    · exact hlost hev
    · exact hlost hev

theorem Tracks.lookupAndGet (hl : Tracks c l) (ht : Tables c E R) (hm : Timed c E)
    (hbelow : c.TimeBelow) (name : NamePtr) :
    ∃ p l', c.lookupAndGetEntries name = some p ∧
      (c.withHeap l).lookupAndGetEntries name = some (inHeap l' p) ∧
      Tracks p.2 l' ∧ Keeps c l p.2 l' := by
  have hrun' : (c.withHeap l).lookupAndGetEntries name = (c.lookupEntries name).map fun h =>
      (h, if h ≠ NoEntry then (c.withHeap l).entryGetAndUpdate h else c.withHeap l) := by
    rw [lookupAndGetEntries, lookupEntries_withHeap]
  rcases ht.entries.tableLookup name with ⟨idx, hmem, -, hlookup⟩ | ⟨-, hlookup⟩
  · have hne : idx ≠ NoEntry := ne_noEntry_of_low (ht.entries_low idx hmem)
    have hidx : c.times idx ≠ XCACHE_LRU_MAX := (hm.cached idx).mpr hmem
    obtain ⟨l', htouch, hl', hk⟩ := hl.touch hm hbelow (absurd · hidx) (absurd · hidx)
    refine ⟨(idx, c.entryGetAndUpdate idx), l', ?_, ?_, hl', hk⟩
    · rw [lookupAndGetEntries, lookupEntries, hlookup, Option.map_some, if_pos hne]
    · rw [hrun', lookupEntries, hlookup, Option.map_some, if_pos hne, htouch]
  · refine ⟨(NoEntry, c), l, ?_, ?_, hl, Keeps.of_times rfl⟩
    · rw [lookupAndGetEntries, lookupEntries, hlookup, Option.map_some,
        if_neg (not_not_intro rfl)]
    · rw [hrun', lookupEntries, hlookup, Option.map_some, if_neg (not_not_intro rfl)]

theorem insertRaw_eq (c : Xcache) (h : xcache_handler) (mem : InsertMemory) :
    c.insertRaw h mem = (c.lookupAndGetEntries (.node h)).bind fun p =>
      if p.1 ≠ NoEntry then some ⟨p.1, NoEntry, NoEntry, p.2⟩
      else if !p.2.has XCACHE_USE_RMTABLE then p.2.insertNew h NoEntry mem
      else (p.2.lookupRm (.node h)).bind fun tmp_h =>
        if tmp_h ≠ NoEntry then
          (p.2.reinsertRm tmp_h).bind fun q =>
            if q.1 < 0 then some ⟨NoEntry, NoEntry, NoEntry, q.2⟩
            else q.2.insertNew tmp_h tmp_h mem
        else p.2.insertNew h NoEntry mem := rfl

theorem reinsertRm_times {r : Int} (hrun : c.reinsertRm g = some (r, c')) : c'.times = c.times := by
  obtain ⟨c₁, hremove, hc'⟩ := reinsertRm_inv hrun
  obtain ⟨rm_entries, -, rfl⟩ := removeRm_inv hremove
  rcases hc' with ⟨-, rfl⟩ | ⟨-, rfl⟩
  · rfl
  · rfl

/-- A whole insertion has the same result, with the same victim, for both. -/
theorem Tracks.insertRaw (hl : Tracks c l) (ht : Tables c E R) (hm : Timed c E)
    (hbelow : c.TimeBelow) (hearly : c.time < -2) (hh : h.toNat < c.nr_nodes.toNat)
    (hset : c.Unlisted l h) (hsetR : ∀ idx ∈ R, c.Unlisted l idx) (mem : InsertMemory) :
    ∃ result l', c.insertRaw h mem = some result ∧
      (c.withHeap l).insertRaw h mem = some (result.withHeap l') ∧
      Tracks result.cache l' ∧ Keeps c l result.cache l' := by
  obtain ⟨⟨tmp_h, c₁⟩, l₁, hfind, hfind', hl₁, hk₁⟩ := hl.lookupAndGet ht hm hbelow (.node h)
  rw [insertRaw_eq, insertRaw_eq, hfind, hfind', Option.bind_some, Option.bind_some]
  dsimp only [inHeap] at hl₁ hk₁ ⊢
  rcases Xcache.lookupAndGet ht (.node h) with ⟨idx, hmem, -, hfound⟩ | ⟨hE, hfound⟩
  · rw [hfind] at hfound
    cases hfound
    have hne : tmp_h ≠ NoEntry := ne_noEntry_of_low (ht.entries_low tmp_h hmem)
    rw [if_pos hne, if_pos hne]
    exact ⟨_, l₁, rfl, rfl, hl₁, hk₁⟩
  rw [hfind] at hfound
  cases hfound
  rw [if_neg (not_not_intro rfl), if_neg (not_not_intro rfl), hl₁.rmTable]
  have hnew (hR : ∀ idx ∈ R, (c.nodes idx).name ≠ (c.nodes h).name) :
      ∃ result l', c.insertNew h NoEntry mem = some result ∧
        (c.withHeap l₁).insertNew h NoEntry mem = some (result.withHeap l') ∧
        Tracks result.cache l' ∧ Keeps c l result.cache l' := by
    obtain ⟨result, l', hr, hr', hl', hk⟩ :=
      hl₁.insertNew ht hm hbelow hearly hh hE hR (hk₁ h hset) NoEntry mem
    exact ⟨result, l', hr, hr', hl', hk₁.trans hk⟩
  cases hrm : c.has XCACHE_USE_RMTABLE with
  | false =>
    rw [Bool.not_false, if_pos rfl, if_pos rfl]
    apply hnew
    intro idx hidx
    rw [ht.unused hrm] at hidx
    cases hidx
  | true =>
    rw [if_neg (by decide), if_neg (by decide), lookupRm_withHeap]
    rcases ht.rm_entries.tableLookup (.node h) with ⟨g, hg, hname, hfindRm⟩ | ⟨hR, hfindRm⟩
    · obtain ⟨c₂, hback, ht₂, hm₂, hf, -, -, htime, -⟩ := reinsertRm_spec ht (fun _ => hm) hg
      have hne : g ≠ NoEntry := ne_noEntry_of_low (ht.rm_low g hg)
      have htimes := reinsertRm_times hback
      have hl₂ : Tracks c₂ l₁ := hl₁.congr hf.flags hf.size htimes
      have hk₂ : Keeps c l c₂ l₁ := hk₁.trans (Keeps.of_times htimes)
      have hE₂ : ∀ idx ∈ E, (c₂.nodes idx).name ≠ (c₂.nodes g).name := by
        intro idx hidx
        rw [hf.name, hf.name]
        exact ht.apart idx hidx g hg
      have hR₂ : ∀ idx ∈ R.erase g, (c₂.nodes idx).name ≠ (c₂.nodes g).name := by
        intro idx hidx heq
        rw [hf.name, hf.name] at heq
        exact Finset.ne_of_mem_erase hidx
          (ht.rm_entries.name_inj (Finset.mem_of_mem_erase hidx) hg heq)
      have hbelow₂ : c₂.TimeBelow := by
        rw [TimeBelow, htime]
        exact hbelow
      have hearly₂ : c₂.time < -2 := by rwa [htime]
      have hg₂ : g.toNat < c₂.nr_nodes.toNat := by
        rw [hf.nr_nodes]
        exact ht.rm_low g hg
      obtain ⟨result, l', hr, hr', hl', hk⟩ := hl₂.insertNew ht₂ (hm₂ hl₂.array) hbelow₂ hearly₂ hg₂
        hE₂ hR₂ (hk₂ g (hsetR g hg)) g mem
      refine ⟨result, l', ?_, ?_, hl', hk₂.trans hk⟩
      · rw [lookupRm, hfindRm, Option.bind_some, if_pos hne, hback]
        exact hr
      · rw [lookupRm, hfindRm, Option.bind_some, if_pos hne, reinsertRm_withHeap, hback]
        exact hr'
    · rw [lookupRm, hfindRm, Option.bind_some, if_neg (not_not_intro rfl)]
      rw [Option.bind_some, if_neg (not_not_intro rfl)]
      exact hnew hR

theorem Beside.entryPutRef (hb : Beside c l) (idx : xqindex) :
    (c.withHeap l).entryPutRef idx = (c.entryPutRef idx).map (inHeap l) := by
  have hput : (c.withHeap l).modify idx (fun ce => { ce with ref := ce.ref - 1 }) =
      (c.modify idx fun ce => { ce with ref := ce.ref - 1 }).withHeap l :=
    modify_withHeap c l idx fun _ _ => rfl
  have hb : Beside (c.modify idx fun ce => { ce with ref := ce.ref - 1 }) l := hb.congr rfl rfl
  unfold Xcache.entryPutRef
  rw [hput]
  generalize (c.modify idx fun ce => { ce with ref := ce.ref - 1 }) = c₁ at hb ⊢
  dsimp only
  by_cases hmore : (c₁.nodes idx).ref > 0
  · rw [if_pos hmore]
    exact if_pos hmore
  rw [if_neg hmore]
  refine (if_neg hmore).trans ?_
  rw [hb.rmTable]
  by_cases hrm : c₁.has XCACHE_USE_RMTABLE = true
  · rw [if_pos hrm, if_pos hrm]
    have hzero : ¬ (c₁.nodes idx).ref ≠ 0 := fun hne => hmore (UInt32.pos_iff_ne_zero.mpr hne)
    refine (if_neg hzero).trans ?_
    have hrun : (if ((c₁.call c₁.ops.on_finalize (.on_finalize idx)).nodes idx).ref ≠ 0 then
          some (false, c₁.call c₁.ops.on_finalize (.on_finalize idx))
        else ((c₁.call c₁.ops.on_finalize (.on_finalize idx)).removeRm idx).map
          fun p => (decide (0 ≤ p.1), p.2)) = _ := if_neg hzero
    rw [hrun]
    have hremove := removeRm_withHeap (c₁.call c₁.ops.on_finalize (.on_finalize idx)) l idx
    refine (congrArg (Option.map fun p => (decide (0 ≤ p.1), p.2)) hremove).trans ?_
    rw [Option.map_map, Option.map_map]
    rfl
  · rw [if_neg hrm, if_neg hrm]
    rfl

/-- No entry is found under the name. -/
theorem Tables.removeEntries_missed (ht : Tables c E R) (l : HeapLru)
    (hno : ∀ idx, ¬ c.Cached (.node h) idx) : c.removeEntries h = some (-XHASH_ENOENT, c) ∧
      (c.withHeap l).removeEntries h = some (-XHASH_ENOENT, c.withHeap l) := by
  have htable : c.entries.delete (nameFunctions c.nodes) (.node h) =
      some (-XHASH_ENOENT, c.entries) := by
    rcases ht.entries.tableRemove ht.entries_cap (.node h) with ⟨idx, hmem, hname, -⟩ | ⟨-, htable⟩
    · exact absurd (ht.entries.holds.mpr ⟨hmem, hname⟩) (hno idx)
    · exact htable
  have htable' : (c.withHeap l).entries.delete (nameFunctions (c.withHeap l).nodes) (.node h) =
      some (-XHASH_ENOENT, (c.withHeap l).entries) := by
    rw [nameFunctions_withHeap]
    exact htable
  rw [removeEntries_eq, removeEntries_eq, htable, htable']
  exact ⟨rfl, rfl⟩

/-- A removal of the only entry there is. -/
theorem Tracks.removeEntries (hl : Tracks c l) (ht : Tables c E R) (hm : Timed c E) (hmem : h ∈ E)
    (hlone : ∀ idx ∈ E, idx = h) :
    ∃ c' l', c.removeEntries h = some (0, c') ∧
      (c.withHeap l).removeEntries h = some (0, c'.withHeap l') ∧ Tracks c' l' ∧
      Keeps c l c' l' := by
  obtain ⟨c', hremove, -⟩ := removeEntries_mem ht (fun _ => hm) hmem
  obtain ⟨r₁, entries, htable, hdone⟩ := removeEntries_inv hremove
  have hl₁ : Tracks { c with entries := entries } l := hl.congr rfl rfl rfl
  obtain ⟨l', hforget, hl', hk⟩ := hl₁.forget_lone ((hm.cached h).mpr hmem)
    fun idx hidx => hlone idx ((hm.cached idx).mp hidx)
  obtain ⟨hnot, hc'⟩ : ¬ r₁ < 0 ∧ c' = forget { c with entries := entries } h := by
    rcases hdone with ⟨hlt, hr, -⟩ | ⟨hle, -, hc'⟩
    · rw [← hr] at hlt
      exact absurd hlt (Int.lt_irrefl 0)
    · exact ⟨Int.not_lt.mpr hle, hc'⟩
  have htable' : c.entries.delete (nameFunctions c.nodes) (.node h) = some (r₁, entries) := htable
  refine ⟨c', l', hremove, ?_, ?_, ?_⟩
  · rw [removeEntries_eq, nameFunctions_withHeap]
    have hrun : (c.withHeap l).entries.delete (nameFunctions c.nodes) (.node h) =
        some (r₁, entries) := htable
    rw [hrun, Option.map_some]
    refine congrArg some ((if_neg hnot).trans ?_)
    rw [hc', ← hforget]
    rfl
  · rw [hc']
    exact hl'
  · rw [hc']
    exact Keeps.trans (Keeps.of_times rfl) hk

theorem invalidateRaw_missed {name : CString} (hmiss : c.lookupEntries (.arg name) = some NoEntry) :
    c.invalidateRaw name =
      if c.has XCACHE_USE_RMTABLE then
        (c.lookupRm (.arg name)).bind fun h =>
          if h ≠ NoEntry then (c.removeRm h).map fun p => (p.1, NoEntry, p.2)
          else some (0, NoEntry, c)
      else some (0, NoEntry, c) := by
  rw [invalidateRaw, hmiss, Option.bind_some]
  exact if_neg (not_not_intro rfl)

theorem Beside.invalidateRaw_missed (hb : Beside c l) {name : CString}
    (hmiss : c.lookupEntries (.arg name) = some NoEntry) :
    (c.withHeap l).invalidateRaw name =
      (c.invalidateRaw name).map fun p => (p.1, p.2.1, p.2.2.withHeap l) := by
  have hmiss' : (c.withHeap l).lookupEntries (.arg name) = some NoEntry := by
    rw [lookupEntries_withHeap, hmiss]
  rw [Xcache.invalidateRaw_missed hmiss, Xcache.invalidateRaw_missed hmiss', hb.rmTable,
    lookupRm_withHeap]
  by_cases hrm : c.has XCACHE_USE_RMTABLE = true
  · rw [if_pos hrm, if_pos hrm, Option.map_bind]
    congr 1
    funext h
    dsimp only [Function.comp_apply]
    by_cases hne : h ≠ NoEntry
    · rw [if_pos hne, if_pos hne, removeRm_withHeap, Option.map_map, Option.map_map]
      rfl
    · rw [if_neg hne, if_neg hne]
      rfl
  · rw [if_neg hrm, if_neg hrm]
    rfl

theorem Tracks.invalidateRaw (hl : Tracks c l) (ht : Tables c E R) (hm : Timed c E) (name : CString)
    (hlone : ∀ h ∈ E, (c.nodes h).name = name → ∀ idx ∈ E, idx = h) :
    ∃ r h c' l', c.invalidateRaw name = some (r, h, c') ∧
      (c.withHeap l).invalidateRaw name = some (r, h, c'.withHeap l') ∧ Tracks c' l' ∧
      Keeps c l c' l' := by
  rcases ht.entries.tableLookup (.arg name) with ⟨idx, hmem, hname, hfind⟩ | ⟨hE, hfind⟩
  · have hne : idx ≠ NoEntry := ne_noEntry_of_low (ht.entries_low idx hmem)
    obtain ⟨c', l', hremove, hremove', hl', hk⟩ :=
      hl.removeEntries ht hm hmem (hlone idx hmem hname)
    refine ⟨0, idx, c', l', ?_, ?_, hl', hk⟩
    · rw [Xcache.invalidateRaw, lookupEntries, hfind, Option.bind_some, if_pos hne, hremove]
      rfl
    · rw [Xcache.invalidateRaw, lookupEntries_withHeap, lookupEntries, hfind, Option.bind_some,
        if_pos hne, hremove']
      rfl
  · obtain ⟨h, c', -, -, hrun, -⟩ := invalidateRaw_spec ht (fun _ => hm) name
    refine ⟨0, h, c', l, hrun, ?_, ?_⟩
    · rw [hl.toBeside.invalidateRaw_missed hfind, hrun]
      rfl
    · rcases invalidateRaw_inv hrun with ⟨g, hne, hfound, -⟩ | ⟨-, ⟨g, -, -, hremove⟩ | ⟨-, rfl⟩⟩
      · rw [lookupEntries, hfind] at hfound
        exact absurd (Option.some.inj hfound).symm hne
      · obtain ⟨rm_entries, -, rfl⟩ := removeRm_inv hremove
        exact ⟨hl.congr rfl rfl rfl, Keeps.of_times rfl⟩
      · exact ⟨hl, Keeps.of_times rfl⟩

theorem detached_withHeap (c : Xcache) (l : HeapLru) (name : CString) :
    (c.withHeap l).detached name = c.detached name := by
  unfold detached
  rw [lookupEntries_withHeap, lookupRm_withHeap]

/-- A node that is set up has no handle. -/
theorem Tracks.entryInit (hl : Tracks c l) (hidx : c.times idx = XCACHE_LRU_MAX) (name : CString)
    (r : Int) :
    ∃ l', (c.withHeap l).entryInit idx name r =
        ((c.entryInit idx name r).1, (c.entryInit idx name r).2.withHeap l') ∧
      Tracks (c.entryInit idx name r).2 l' ∧ Keeps c l (c.entryInit idx name r).2 l' ∧
      (c.entryInit idx name r).2.Unlisted l' idx := by
  have hnodes : Function.update (c.withHeap l).nodes idx
        ⟨1, .NODE_ACTIVE, name.take XSEG_MAX_TARGETLEN, NoNode⟩ =
      fun j => { Function.update c.nodes idx
        ⟨1, .NODE_ACTIVE, name.take XSEG_MAX_TARGETLEN, NoNode⟩ j with
          h := Function.update l.h idx NoNode j } := by
    funext j
    by_cases hj : j = idx
    · rw [hj, Function.update_self, Function.update_self, Function.update_self]
    · rw [Function.update_of_ne hj, Function.update_of_ne hj, Function.update_of_ne hj]
      rfl
  have hmodify : (c.withHeap l).modify idx
        (fun _ => ⟨1, .NODE_ACTIVE, name.take XSEG_MAX_TARGETLEN, NoNode⟩) =
      (c.modify idx fun _ => ⟨1, .NODE_ACTIVE, name.take XSEG_MAX_TARGETLEN, NoNode⟩).withHeap
        { l with h := Function.update l.h idx NoNode } := by
    unfold modify
    rw [hnodes]
    rfl
  refine ⟨{ l with h := Function.update l.h idx NoNode }, ?_, ?_, fun j hset hj => ?_, fun _ => ?_⟩
  · unfold Xcache.entryInit
    rw [hmodify]
    rfl
  · refine hl.of_still ⟨rfl, rfl, rfl, hl.wf, rfl, rfl⟩ (fun j hj => ?_) (fun hd e he => ?_)
    · change c.times j ≠ XCACHE_LRU_MAX at hj
      have hne : j ≠ idx := fun heq => hj (heq ▸ hidx)
      dsimp only
      rw [Function.update_of_ne hne]
      exact hl.record j hj
    · obtain ⟨htimed, hhandle⟩ := hl.timed hd e he
      have hne : e.value ≠ idx := fun heq => htimed (heq ▸ hidx)
      dsimp only
      rw [Function.update_of_ne hne]
      exact ⟨htimed, hhandle⟩
  · dsimp only
    by_cases hne : j = idx
    · rw [hne, Function.update_self]
    · rw [Function.update_of_ne hne]
      exact hset hj
  · exact Function.update_self ..

end Xcache

end Libxseg
