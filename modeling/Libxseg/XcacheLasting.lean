import Libxseg.XcacheCounts
import Libxseg.XcacheInversion

/-!
# What the tables keep in any run

The section lemmas of `Tables` need a cache whose counts are right. Here nothing is known of
the cache: what each removal from a table and each insertion of an admissible node keeps is
kept by every step, only admissible nodes get an access time, and no step but the set-up of a
node changes a name.
-/

namespace Libxseg

set_option autoImplicit false

namespace Xcache

variable {ι : Type} {c c' c'' : Xcache} {idx h g : xqindex} {r : Int} {mem : TableMemory}
  {ok : xqindex → Prop} {P : Xhash NamePtr → Prop}

/-- Removals keep it, insertions of admissible nodes keep it, and it makes what is found
admissible. -/
structure Lasting (ok : xqindex → Prop) (P : Xhash NamePtr → Prop) : Prop where
  insert : ∀ {nodes table h mem r table'}, ok h → P table →
    tableInsert nodes table h mem = some (r, table') → P table'
  remove : ∀ {nodes table name r table'}, P table →
    tableRemove nodes table name = some (r, table') → P table'
  found : ∀ {nodes table name g}, P table → tableLookup nodes table name = some g →
    g ≠ NoEntry → ok g

theorem tableInsert_keeps {nodes : xqindex → XcacheEntry} {table table' : Xhash NamePtr}
    (hraw : ∀ {t t' : Xhash NamePtr}, P t →
      t.insertRaw (nameFunctions nodes) (.node h) h = some t' → P t')
    (hresize : ∀ {t t' : Xhash NamePtr} {kvs0 : Nat → NamePtr}, P t →
      t.resize (nameFunctions nodes) t.size_shift t.limit kvs0 = some t' → P t')
    (hp : P table) (hrun : tableInsert nodes table h mem = some (r, table')) : P table' := by
  have hinsert {t t' : Xhash NamePtr} {r : Int} (hp : P t)
      (hrun : t.insert (nameFunctions nodes) (.node h) h = some (r, t')) : P t' := by
    unfold Xhash.insert at hrun
    split at hrun
    · cases hrun
      exact hp
    split at hrun
    · cases hrun
      exact hp
    · obtain ⟨t, hins, heq⟩ := Option.map_eq_some_iff.mp hrun
      cases heq
      exact hraw hp hins
  obtain ⟨r₁, t₁, hfirst, hrest⟩ := tableInsert_inv hrun
  have h₁ := hinsert hp hfirst
  rcases hrest with ⟨-, -, rfl⟩ | ⟨-, ⟨-, -, rfl⟩ | ⟨kvs0, new, r₂, -, hres, hsecond, -⟩⟩
  · exact h₁
  · exact h₁
  · exact hinsert (hresize h₁ hres) hsecond

/-- Names stay, an access time is new only with an admissible node, and what holds of both tables
stays. -/
structure Lasts (ok : xqindex → Prop) (P : Xhash NamePtr → Prop) (c c' : Xcache) : Prop where
  name : ∀ idx, (c'.nodes idx).name = (c.nodes idx).name
  flags : c'.flags = c.flags
  nr_nodes : c'.nr_nodes = c.nr_nodes
  free_nodes : c'.free_nodes = c.free_nodes
  times : ∀ idx, c'.times idx ≠ XCACHE_LRU_MAX → c.times idx ≠ XCACHE_LRU_MAX ∨ ok idx
  tables : P c.entries → P c.rm_entries → P c'.entries ∧ P c'.rm_entries

namespace Lasts

theorem refl (c : Xcache) : Lasts ok P c c :=
  ⟨fun _ => rfl, rfl, rfl, rfl, fun _ => Or.inl, fun hpe hpr => ⟨hpe, hpr⟩⟩

theorem trans (h : Lasts ok P c c') (h' : Lasts ok P c' c'') : Lasts ok P c c'' := by
  refine ⟨fun idx => (h'.name idx).trans (h.name idx), h'.flags.trans h.flags,
    h'.nr_nodes.trans h.nr_nodes, h'.free_nodes.trans h.free_nodes, fun idx hne => ?_,
    fun hpe hpr => ?_⟩
  · rcases h'.times idx hne with hne | hok
    · exact h.times idx hne
    · exact Or.inr hok
  · obtain ⟨hpe', hpr'⟩ := h.tables hpe hpr
    exact h'.tables hpe' hpr'

theorem of_eq (hname : ∀ idx, (c'.nodes idx).name = (c.nodes idx).name) (hflags : c'.flags = c.flags)
    (hnr : c'.nr_nodes = c.nr_nodes) (hfree : c'.free_nodes = c.free_nodes)
    (htimes : c'.times = c.times) (he : c'.entries = c.entries)
    (hr : c'.rm_entries = c.rm_entries) : Lasts ok P c c' := by
  refine ⟨hname, hflags, hnr, hfree, fun idx hne => ?_, fun hpe hpr => ?_⟩
  · rw [htimes] at hne
    exact Or.inl hne
  · rw [he, hr]
    exact ⟨hpe, hpr⟩

theorem modify (c : Xcache) (idx : xqindex) {f : XcacheEntry → XcacheEntry}
    (hf : ∀ ce, (f ce).name = ce.name) : Lasts ok P c (c.modify idx f) :=
  of_eq (frame_modify c idx hf).name rfl rfl rfl rfl rfl rfl

theorem call (c : Xcache) (set : Bool) (hook : HookCall) : Lasts ok P c (c.call set hook) :=
  of_eq (fun _ => rfl) rfl rfl rfl rfl rfl rfl

end Lasts

theorem resetTime_times {i : Nat} (hne : (c.resetTime i).times idx ≠ XCACHE_LRU_MAX) :
    c.times idx ≠ XCACHE_LRU_MAX := by
  unfold resetTime at hne
  dsimp only at hne
  split at hne
  · rename_i htimed
    by_cases hidx : idx = UInt64.ofNat i
    · rwa [hidx]
    · have hsame : Function.update c.times (UInt64.ofNat i) c.time idx = c.times idx :=
        Function.update_of_ne hidx _ _
      rwa [← hsame]
  · exact hne

theorem resetKey_times (c : Xcache) (i : Nat) : (c.resetKey i).times = c.times := by
  unfold resetKey
  dsimp only
  split
  · rfl
  split <;> rfl

theorem foldl_resetTime_times (l : List Nat)
    (hne : (l.foldl resetTime c).times idx ≠ XCACHE_LRU_MAX) : c.times idx ≠ XCACHE_LRU_MAX := by
  induction l generalizing c with
  | nil => exact hne
  | cons i l ih => exact resetTime_times (ih hne)

theorem foldl_resetKey_times (l : List Nat) (c : Xcache) :
    (l.foldl resetKey c).times = c.times := by
  induction l generalizing c with
  | nil => rfl
  | cons i l ih => exact (ih _).trans (resetKey_times c i)

theorem resetTimes_times (hne : c.resetTimes.times idx ≠ XCACHE_LRU_MAX) :
    c.times idx ≠ XCACHE_LRU_MAX := by
  unfold resetTimes at hne
  split at hne
  · exact foldl_resetTime_times _ hne
  split at hne
  · rwa [foldl_resetKey_times] at hne
  · exact hne

theorem updateAccessTime_times {z : xqindex}
    (hne : (c.updateAccessTime z).times idx ≠ XCACHE_LRU_MAX) :
    c.times idx ≠ XCACHE_LRU_MAX ∨ idx = z := by
  unfold updateAccessTime at hne
  dsimp only at hne
  split at hne
  · have hold : ({ c with time := 0 } : Xcache).times idx ≠ XCACHE_LRU_MAX := resetTimes_times hne
    exact Or.inl hold
  split at hne
  · by_cases hidx : idx = z
    · exact Or.inr hidx
    · have hsame : Function.update c.times z (c.time + 1) idx = c.times idx :=
        Function.update_of_ne hidx _ _
      change Function.update c.times z (c.time + 1) idx ≠ _ at hne
      rw [hsame] at hne
      exact Or.inl hne
  split at hne
  · split at hne
    · exact Or.inl hne
    · exact Or.inl hne
  · exact Or.inl hne

theorem lasts_touch (c : Xcache) (hok : ok idx) : Lasts ok P c (c.entryGetAndUpdate idx) := by
  have hget : Lasts ok P c (c.entryGet idx) := .modify c idx fun _ => rfl
  have hr : Ranked (c.entryGet idx) (c.entryGetAndUpdate idx) := ranked_updateAccessTime _ idx
  refine hget.trans ⟨hr.name, hr.flags, hr.nr_nodes, hr.free_nodes, fun j hne => ?_, fun hpe hpr => ?_⟩
  · rcases updateAccessTime_times hne with hne | rfl
    · exact Or.inl hne
    · exact Or.inr hok
  · rw [hr.entries, hr.rm_entries]
    exact ⟨hpe, hpr⟩

theorem lasts_forget (c : Xcache) (h : xcache_handler) : Lasts ok P c (c.forget h) := by
  have hr := (ranked_forget c h).1
  refine ⟨hr.name, hr.flags, hr.nr_nodes, hr.free_nodes, fun j hne => ?_, fun hpe hpr => ?_⟩
  · unfold forget at hne
    dsimp only at hne
    split at hne
    · by_cases hj : j = h
      · rw [hj] at hne
        exact absurd (Function.update_self ..) hne
      · have hsame : Function.update c.times h XCACHE_LRU_MAX j = c.times j :=
          Function.update_of_ne hj _ _
        change Function.update c.times h XCACHE_LRU_MAX j ≠ _ at hne
        rw [hsame] at hne
        exact Or.inl hne
    split at hne
    · split at hne
      · exact Or.inl hne
      · exact Or.inl hne
    · exact Or.inl hne
  · rw [hr.entries, hr.rm_entries]
    exact ⟨hpe, hpr⟩

theorem lru_times (c : Xcache) : c.lru.2.times = c.times := by
  unfold lru
  split
  · rfl
  split
  · dsimp only
    split <;> rfl
  · rfl

theorem lasts_lru (c : Xcache) : Lasts ok P c c.lru.2 := by
  have hr := (ranked_lru c).1
  exact .of_eq hr.name hr.flags hr.nr_nodes hr.free_nodes (lru_times c) hr.entries hr.rm_entries

theorem reinsertRm_lru (hrun : c.reinsertRm h = some (r, c')) : c'.lru.1 = c.lru.1 := by
  obtain ⟨c₁, hremove, hc'⟩ := reinsertRm_inv hrun
  obtain ⟨_, -, rfl⟩ := removeRm_inv hremove
  rcases hc' with ⟨-, rfl⟩ | ⟨-, rfl⟩
  · exact lru_congr rfl rfl rfl rfl
  · exact lru_congr rfl rfl rfl rfl

theorem insertEntries_lru (hrun : c.insertEntries h mem = some (r, c')) :
    c'.lru.1 = c.lru.1 := by
  obtain ⟨_, -, rfl⟩ := insertEntries_inv hrun
  exact lru_congr rfl rfl rfl rfl

namespace Lasting

theorem lookupAndGet (hl : Lasting ok P) {name : NamePtr} {ret : xcache_handler}
    (hpe : P c.entries) (hrun : c.lookupAndGetEntries name = some (ret, c')) : Lasts ok P c c' := by
  obtain ⟨hfind, ⟨hne, rfl⟩ | ⟨-, rfl⟩⟩ := lookupAndGetEntries_inv hrun
  · exact lasts_touch c (hl.found hpe hfind hne)
  · exact .refl c'

theorem removeEntries (hl : Lasting ok P) (hrun : c.removeEntries h = some (r, c')) :
    Lasts ok P c c' := by
  obtain ⟨r₁, entries, hremove, hc'⟩ := removeEntries_inv hrun
  have hfirst : Lasts ok P c { c with entries := entries } :=
    ⟨fun _ => rfl, rfl, rfl, rfl, fun _ => Or.inl, fun hpe hpr => ⟨hl.remove hpe hremove, hpr⟩⟩
  rcases hc' with ⟨-, -, rfl⟩ | ⟨-, -, rfl⟩
  · exact hfirst
  · exact hfirst.trans (lasts_forget _ h)

theorem removeRm (hl : Lasting ok P) (hrun : c.removeRm h = some (r, c')) : Lasts ok P c c' := by
  obtain ⟨rm_entries, hremove, rfl⟩ := removeRm_inv hrun
  exact ⟨fun _ => rfl, rfl, rfl, rfl, fun _ => Or.inl, fun hpe hpr => ⟨hpe, hl.remove hpr hremove⟩⟩

theorem insertRm (hl : Lasting ok P) (hok : ok h) (hrun : c.insertRm h mem = some (r, c')) :
    Lasts ok P c c' := by
  obtain ⟨rm_entries, hinsert, rfl⟩ := insertRm_inv hrun
  exact ⟨fun _ => rfl, rfl, rfl, rfl, fun _ => Or.inl,
    fun hpe hpr => ⟨hpe, hl.insert hok hpr hinsert⟩⟩

theorem insertEntries (hl : Lasting ok P) (hok : ok h)
    (hrun : c.insertEntries h mem = some (r, c')) : Lasts ok P c c' := by
  obtain ⟨entries, hinsert, rfl⟩ := insertEntries_inv hrun
  exact ⟨fun _ => rfl, rfl, rfl, rfl, fun _ => Or.inl,
    fun hpe hpr => ⟨hl.insert hok hpe hinsert, hpr⟩⟩

theorem evict (hl : Lasting ok P) (hok : ok h) (hrun : c.evict h mem = some (r, c')) :
    Lasts ok P c c' := by
  obtain ⟨r₁, c₁, hremove, hrest⟩ := evict_inv hrun
  have hfirst := hl.removeEntries hremove
  rcases hrest with ⟨-, -, rfl⟩ | ⟨-, -, -, rfl⟩ | ⟨-, -, r₂, c₂, hinsert, hc'⟩
  · exact hfirst
  · exact hfirst
  · have hstate : Lasts ok P c₁ (c₁.modify h fun ce => { ce with state := .NODE_EVICTED }) :=
      .modify c₁ h fun _ => rfl
    have hsecond := (hfirst.trans hstate).trans (hl.insertRm hok hinsert)
    rcases hc' with ⟨-, -, rfl⟩ | ⟨-, -, rfl⟩
    · exact hsecond.trans (.modify c₂ h fun _ => rfl)
    · exact hsecond

theorem evictLru (hl : Lasting ok P) {lru : xcache_handler}
    (hvictim : c.lru.1 ≠ NoEntry → ok c.lru.1) (hrun : c.evictLru mem = some (lru, c')) :
    Lasts ok P c c' := by
  have hfirst : Lasts ok P c c.lru.2 := lasts_lru c
  rcases evictLru_inv hrun with ⟨-, -, rfl⟩ | ⟨hne, r, hevict, -⟩
  · exact hfirst
  · exact hfirst.trans (hl.evict (hvictim hne) hevict)

theorem insertDone (hok : ok h) (lru reinsert : xcache_handler) (r : Int) :
    Lasts ok P c (c.insertDone h lru reinsert r).cache := by
  unfold Xcache.insertDone
  split
  · exact lasts_touch c hok
  · exact .refl c

theorem insertNew (hl : Lasting ok P) {reinsert : xcache_handler} {mem : InsertMemory}
    {result : InsertResult} (hok : ok h) (hvictim : c.lru.1 ≠ NoEntry → ok c.lru.1)
    (hrun : c.insertNew h reinsert mem = some result) : Lasts ok P c result.cache := by
  obtain ⟨r₁, c₁, hfirst, hrest⟩ := insertNew_inv hrun
  have h₁ := hl.insertEntries hok hfirst
  have hlru := insertEntries_lru hfirst
  rcases hrest with ⟨-, rfl⟩ | ⟨-, lru, c₂, hevict, hrest⟩
  · exact h₁.trans (insertDone hok ..)
  · have h₂ := h₁.trans (hl.evictLru (by rwa [hlru]) hevict)
    rcases hrest with ⟨-, rfl⟩ | ⟨-, r₃, c₃, hsecond, rfl⟩
    · exact h₂
    · exact (h₂.trans (hl.insertEntries hok hsecond)).trans (insertDone hok ..)

theorem reinsertRm (hl : Lasting ok P) (hrun : c.reinsertRm h = some (r, c')) : Lasts ok P c c' := by
  obtain ⟨c₁, hremove, hc'⟩ := reinsertRm_inv hrun
  have hfirst := hl.removeRm hremove
  rcases hc' with ⟨-, rfl⟩ | ⟨-, rfl⟩
  · exact hfirst
  · have hstate : Lasts ok P c₁ (c₁.modify h fun ce => { ce with state := .NODE_ACTIVE }) :=
      .modify c₁ h fun _ => rfl
    have hget := hfirst.trans hstate
    exact hget.trans (.modify _ h fun _ => rfl)

theorem insertRaw (hl : Lasting ok P) {mem : InsertMemory} {result : InsertResult} (hok : ok h)
    (hvictim : c.lru.1 ≠ NoEntry → ok c.lru.1) (hpe : P c.entries) (hpr : P c.rm_entries)
    (hrun : c.insertRaw h mem = some result) : Lasts ok P c result.cache := by
  rcases insertRaw_inv hrun with ⟨g, hne, hfind, rfl⟩ | ⟨-, hnew | ⟨g, -, hne, hfind, hrest⟩⟩
  · exact lasts_touch c (hl.found hpe hfind hne)
  · exact hl.insertNew hok hvictim hnew
  · obtain ⟨r, c₁, hreinsert, hrest⟩ := hrest
    have h₁ := hl.reinsertRm hreinsert
    have hlru := reinsertRm_lru hreinsert
    rcases hrest with ⟨-, rfl⟩ | ⟨-, hnew⟩
    · exact h₁
    · exact h₁.trans (hl.insertNew (hl.found hpr hfind hne) (by rwa [hlru]) hnew)

theorem entryPutRef (hl : Lasting ok P) {last : Bool} (hrun : c.entryPutRef h = some (last, c')) :
    Lasts ok P c c' := by
  obtain ⟨c₁, hc₁, hrest⟩ := entryPutRef_inv hrun
  have hfirst : Lasts ok P c c₁ := hc₁ ▸ .modify c h fun _ => rfl
  rcases hrest with rfl | ⟨-, rfl⟩ | ⟨r, hremove, -⟩
  · exact hfirst
  · exact hfirst.trans (.call ..)
  · exact (hfirst.trans (.call ..)).trans (hl.removeRm hremove)

theorem invalidateRaw (hl : Lasting ok P) {name : CString}
    (hrun : c.invalidateRaw name = some (r, h, c')) : Lasts ok P c c' := by
  rcases invalidateRaw_inv hrun with ⟨g, -, -, hremove, -⟩ | ⟨-, ⟨g, -, -, hremove⟩ | ⟨-, rfl⟩⟩
  · exact hl.removeEntries hremove
  · exact hl.removeRm hremove
  · exact .refl c'

/-- The step lemma: a step sets up a node, or lasts apart from the queue. An insertion is of an
admissible node and has an admissible victim. -/
theorem step [DecidableEq ι] {w w' : World ι} {b : ι × Event} (hl : Lasting ok P)
    (hstep : World.Step w b w') (hfresh : ∀ idx ∈ w.fresh, ok idx)
    (hvictim : ∀ h mem ret lru reinsert, b.2 = .insert h mem ret lru reinsert →
      w.cache.lru.1 ≠ NoEntry → ok w.cache.lru.1)
    (hpe : P w.cache.entries) (hpr : P w.cache.rm_entries) :
    Lasts ok P w.cache { w'.cache with free_nodes := w.cache.free_nodes } ∧
        (∀ idx name r, b.2 ≠ .init idx name r) ∨
      ∃ idx name r, b.2 = .init idx name r ∧ w'.cache = (w.cache.entryInit idx name r).2 := by
  have hapart {c' : Xcache} (h : Lasts ok P w.cache c') :
      Lasts ok P w.cache { c' with free_nodes := w.cache.free_nodes } :=
    ⟨h.name, h.flags, h.nr_nodes, rfl, h.times, h.tables⟩
  cases hstep with
  | full _ hpop =>
    obtain rfl := (Prod.ext_iff.mp hpop).2
    exact Or.inl ⟨.refl w.cache, fun _ _ _ => Event.noConfusion⟩
  | pop _ hpop _ =>
    obtain rfl := (Prod.ext_iff.mp hpop).2
    exact Or.inl ⟨.refl w.cache, fun _ _ _ => Event.noConfusion⟩
  | init _ hrun _ =>
    obtain rfl := (Prod.ext_iff.mp hrun).2
    exact Or.inr ⟨_, _, _, rfl, rfl⟩
  | fail _ hrun _ =>
    obtain rfl := (Prod.ext_iff.mp hrun).2
    exact Or.inr ⟨_, _, _, rfl, rfl⟩
  | undo _ =>
    exact Or.inl ⟨.of_eq (fun _ => rfl) rfl rfl rfl rfl rfl rfl, fun _ _ _ => Event.noConfusion⟩
  | insert _ hmem _ hrun =>
    have hfirst := hl.insertRaw (hfresh _ hmem) (hvictim _ _ _ _ _ rfl) hpe hpr hrun
    refine Or.inl ⟨hapart ?_, fun _ _ _ => Event.noConfusion⟩
    exact (hfirst.trans (.call ..)).trans (.call ..)
  | lookup _ hrun =>
    exact Or.inl ⟨hapart (hl.lookupAndGet hpe hrun), fun _ _ _ => Event.noConfusion⟩
  | @get _ idx _ _ =>
    have hget : Lasts ok P w.cache (w.cache.modify idx fun ce => { ce with ref := ce.ref + 1 }) :=
      .modify w.cache idx fun _ => rfl
    exact Or.inl ⟨hapart hget, fun _ _ _ => Event.noConfusion⟩
  | put _ _ hput => exact Or.inl ⟨hapart (hl.entryPutRef hput), fun _ _ _ => Event.noConfusion⟩
  | settle _ hput => exact Or.inl ⟨hapart (hl.entryPutRef hput), fun _ _ _ => Event.noConfusion⟩
  | @free _ _ new _ =>
    refine Or.inl ⟨?_, fun _ _ _ => Event.noConfusion⟩
    cases new with
    | true => exact .of_eq (fun _ => rfl) rfl rfl rfl rfl rfl rfl
    | false => exact .of_eq (fun _ => rfl) rfl rfl rfl rfl rfl rfl
  | invalidate _ hrun =>
    exact Or.inl ⟨hapart (hl.invalidateRaw hrun), fun _ _ _ => Event.noConfusion⟩
  | @freeNew _ idx _ _ _ =>
    have hdrop : Lasts ok P w.cache (w.cache.modify idx fun ce => { ce with ref := 0 }) :=
      .modify w.cache idx fun _ => rfl
    exact Or.inl ⟨hapart hdrop, fun _ _ _ => Event.noConfusion⟩

end Lasting

end Xcache

end Libxseg
