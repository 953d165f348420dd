import Libxseg.Xcache

/-!
# What a section of the cache has done

For each section that can fail to end, what is known once it has ended: the calls that it made
one after the other, which of its branches it took and what it left. The invariants are read
off these, and no section is taken apart a second time.
-/

namespace Libxseg

set_option autoImplicit false

namespace Xcache
variable {c c' : Xcache} {h idx g : xqindex} {r : Int} {table : TableMemory} {mem : InsertMemory}
  {result : InsertResult}

/-- A name is entered, or once more after a rebuild if the table asked for one. -/
theorem tableInsert_inv {nodes : xqindex → XcacheEntry} {t t' : Xhash NamePtr}
    (hrun : tableInsert nodes t h table = some (r, t')) :
    ∃ r₁ t₁, t.insert (nameFunctions nodes) (.node h) h = some (r₁, t₁) ∧
      (r₁ ≠ -XHASH_ERESIZE ∧ r = r₁ ∧ t' = t₁ ∨
        r₁ = -XHASH_ERESIZE ∧ (table = none ∧ r = -1 ∧ t' = t₁ ∨
          ∃ kvs0 new r₂, table = some kvs0 ∧
            t₁.resize (nameFunctions nodes) t₁.size_shift t₁.limit kvs0 = some new ∧
            new.insert (nameFunctions nodes) (.node h) h = some (r₂, t') ∧
            r = if r₂ = -XHASH_ERESIZE then -1 else r₂)) := by
  obtain ⟨⟨r₁, t₁⟩, hfirst, hrun⟩ := Option.bind_eq_some_iff.mp hrun
  refine ⟨r₁, t₁, hfirst, ?_⟩
  dsimp only at hrun
  split at hrun
  · rename_i hresize
    refine Or.inr ⟨hresize, ?_⟩
    cases table with
    | none =>
      cases hrun
      exact Or.inl ⟨rfl, rfl, rfl⟩
    | some kvs0 =>
      obtain ⟨new, hres, hrun⟩ := Option.bind_eq_some_iff.mp hrun
      obtain ⟨⟨r₂, _⟩, hsecond, heq⟩ := Option.map_eq_some_iff.mp hrun
      obtain ⟨hret, rfl⟩ := Prod.mk.inj heq
      exact Or.inr ⟨kvs0, new, r₂, rfl, hres, hsecond, hret.symm⟩
  · rename_i hnot
    cases hrun
    exact Or.inl ⟨hnot, rfl, rfl⟩

theorem removeEntries_inv (hrun : c.removeEntries h = some (r, c')) :
    ∃ r₁ entries, tableRemove c.nodes c.entries (.node h) = some (r₁, entries) ∧
      (r₁ < 0 ∧ r = r₁ ∧ c' = { c with entries := entries } ∨
        0 ≤ r₁ ∧ r = 0 ∧ c' = { c with entries := entries }.forget h) := by
  obtain ⟨⟨r₁, entries⟩, hremove, heq⟩ := Option.map_eq_some_iff.mp hrun
  refine ⟨r₁, entries, hremove, ?_⟩
  dsimp only at heq
  split at heq
  · rename_i hfailed
    cases heq
    exact Or.inl ⟨hfailed, rfl, rfl⟩
  · rename_i hdone
    cases heq
    exact Or.inr ⟨Int.not_lt.mp hdone, rfl, rfl⟩

theorem removeRm_inv (hrun : c.removeRm h = some (r, c')) :
    ∃ rm_entries, tableRemove c.nodes c.rm_entries (.node h) = some (r, rm_entries) ∧
      c' = { c with rm_entries := rm_entries } := by
  obtain ⟨⟨_, rm_entries⟩, hremove, heq⟩ := Option.map_eq_some_iff.mp hrun
  cases heq
  exact ⟨rm_entries, hremove, rfl⟩

theorem insertRm_inv (hrun : c.insertRm h table = some (r, c')) :
    ∃ rm_entries, tableInsert c.nodes c.rm_entries h table = some (r, rm_entries) ∧
      c' = { c with rm_entries := rm_entries } := by
  obtain ⟨⟨_, rm_entries⟩, hinsert, heq⟩ := Option.map_eq_some_iff.mp hrun
  cases heq
  exact ⟨rm_entries, hinsert, rfl⟩

theorem insertEntries_inv (hrun : c.insertEntries h table = some (r, c')) :
    ∃ entries, tableInsert c.nodes c.entries h table = some (r, entries) ∧
      c' = { c with entries := entries } := by
  obtain ⟨⟨_, entries⟩, hinsert, heq⟩ := Option.map_eq_some_iff.mp hrun
  cases heq
  exact ⟨entries, hinsert, rfl⟩

theorem lookupAndGetEntries_inv {name : NamePtr} (hrun : c.lookupAndGetEntries name = some (h, c')) :
    c.lookupEntries name = some h ∧
      (h ≠ NoEntry ∧ c' = c.entryGetAndUpdate h ∨ h = NoEntry ∧ c' = c) := by
  obtain ⟨_, hlookup, heq⟩ := Option.map_eq_some_iff.mp hrun
  obtain ⟨rfl, rfl⟩ := Prod.mk.inj heq
  refine ⟨hlookup, ?_⟩
  split
  · rename_i hfound
    exact Or.inl ⟨hfound, rfl⟩
  · rename_i hmiss
    exact Or.inr ⟨not_not.mp hmiss, rfl⟩

theorem reinsertRm_inv (hrun : c.reinsertRm h = some (r, c')) :
    ∃ c₁, c.removeRm h = some (r, c₁) ∧
      (r < 0 ∧ c' = c₁ ∨
        0 ≤ r ∧ c' = (c₁.modify h fun ce => { ce with state := .NODE_ACTIVE }).entryGet h) := by
  obtain ⟨⟨r₁, c₁⟩, hremove, heq⟩ := Option.map_eq_some_iff.mp hrun
  dsimp only at heq
  split at heq
  · rename_i hfailed
    cases heq
    exact ⟨_, hremove, Or.inl ⟨hfailed, rfl⟩⟩
  · rename_i hdone
    cases heq
    exact ⟨_, hremove, Or.inr ⟨Int.not_lt.mp hdone, rfl⟩⟩

/-- An eviction ends with the removal, or goes on to the table of removed entries. -/
theorem evict_inv (hrun : c.evict h table = some (r, c')) :
    ∃ r₁ c₁, c.removeEntries h = some (r₁, c₁) ∧
      (r₁ < 0 ∧ r = -1 ∧ c' = c₁ ∨
        0 ≤ r₁ ∧ c₁.has XCACHE_USE_RMTABLE = false ∧ r = 0 ∧ c' = c₁ ∨
        0 ≤ r₁ ∧ c₁.has XCACHE_USE_RMTABLE = true ∧ ∃ r₂ c₂,
          (c₁.modify h fun ce => { ce with state := .NODE_EVICTED }).insertRm h table =
            some (r₂, c₂) ∧
          (r₂ < 0 ∧ r = -1 ∧ c' = (c₂.modify h fun ce => { ce with state := .NODE_ACTIVE }) ∨
            0 ≤ r₂ ∧ r = 0 ∧ c' = c₂)) := by
  obtain ⟨⟨r₁, c₁⟩, hremove, hrun⟩ := Option.bind_eq_some_iff.mp hrun
  refine ⟨r₁, c₁, hremove, ?_⟩
  dsimp only at hrun
  split at hrun
  · rename_i hfailed
    cases hrun
    exact Or.inl ⟨hfailed, rfl, rfl⟩
  rename_i hremoved
  have hremoved : 0 ≤ r₁ := Int.not_lt.mp hremoved
  split at hrun
  · rename_i hnot
    cases hrun
    exact Or.inr (Or.inl ⟨hremoved, Bool.not_eq_true' _ ▸ hnot, rfl, rfl⟩)
  · rename_i hrm
    obtain ⟨⟨r₂, c₂⟩, hinsert, heq⟩ := Option.map_eq_some_iff.mp hrun
    refine Or.inr (Or.inr ⟨hremoved, by simpa using hrm, r₂, c₂, hinsert, ?_⟩)
    dsimp only at heq
    split at heq
    · rename_i hfailed
      cases heq
      exact Or.inl ⟨hfailed, rfl, rfl⟩
    · rename_i hdone
      cases heq
      exact Or.inr ⟨Int.not_lt.mp hdone, rfl, rfl⟩

theorem evictLru_inv {lru : xcache_handler} (hrun : c.evictLru table = some (lru, c')) :
    (c.lru.1 = NoEntry ∧ lru = NoEntry ∧ c' = c.lru.2) ∨
      c.lru.1 ≠ NoEntry ∧ ∃ r, c.lru.2.evict c.lru.1 table = some (r, c') ∧
        lru = if r < 0 then NoEntry else c.lru.1 := by
  unfold evictLru at hrun
  dsimp only at hrun
  split at hrun
  · rename_i hnone
    cases hrun
    exact Or.inl ⟨hnone, rfl, rfl⟩
  · rename_i hne
    obtain ⟨⟨r, _⟩, hevict, heq⟩ := Option.map_eq_some_iff.mp hrun
    obtain ⟨hret, rfl⟩ := Prod.mk.inj heq
    exact Or.inr ⟨hne, r, hevict, hret.symm⟩

theorem insertDone_lru (c : Xcache) (h lru reinsert : xcache_handler) (r : Int) :
    (c.insertDone h lru reinsert r).lru = lru := by
  unfold insertDone
  split <;> rfl

/-- The name is entered at the first attempt, or at the second, with a victim out of the way. -/
theorem insertNew_inv {reinsert : xcache_handler}
    (hrun : c.insertNew h reinsert mem = some result) :
    ∃ r₁ c₁, c.insertEntries h mem.first = some (r₁, c₁) ∧
      (r₁ ≠ -XHASH_ENOSPC ∧ result = c₁.insertDone h NoEntry reinsert r₁ ∨
        r₁ = -XHASH_ENOSPC ∧ ∃ lru c₂, c₁.evictLru mem.victim = some (lru, c₂) ∧
          (lru = NoEntry ∧ result = ⟨NoEntry, NoEntry, reinsert, c₂⟩ ∨
            lru ≠ NoEntry ∧ ∃ r₃ c₃, c₂.insertEntries h mem.second = some (r₃, c₃) ∧
              result = c₃.insertDone h lru reinsert r₃)) := by
  obtain ⟨⟨r₁, c₁⟩, hfirst, hrun⟩ := Option.bind_eq_some_iff.mp hrun
  refine ⟨r₁, c₁, hfirst, ?_⟩
  dsimp only at hrun
  split at hrun
  · rename_i hfull
    obtain ⟨⟨lru, c₂⟩, hevict, hrun⟩ := Option.bind_eq_some_iff.mp hrun
    refine Or.inr ⟨hfull, lru, c₂, hevict, ?_⟩
    dsimp only at hrun
    split at hrun
    · rename_i hnone
      cases hrun
      exact Or.inl ⟨hnone, rfl⟩
    · rename_i hne
      obtain ⟨⟨r₃, c₃⟩, hsecond, heq⟩ := Option.map_eq_some_iff.mp hrun
      refine Or.inr ⟨hne, r₃, c₃, hsecond, ?_⟩
      dsimp only at heq
      split at heq
      · rename_i hfailed
        rw [← heq]
        exact (if_neg (Int.not_le.mpr hfailed)).symm
      · exact heq.symm
  · rename_i hroom
    cases hrun
    exact Or.inl ⟨hroom, rfl⟩

/-- The name is found, or entered for the node, or for the removed node that has it. -/
theorem insertRaw_inv (hrun : c.insertRaw h mem = some result) :
    (∃ g, g ≠ NoEntry ∧ c.lookupEntries (.node h) = some g ∧
      result = ⟨g, NoEntry, NoEntry, c.entryGetAndUpdate g⟩) ∨
    c.lookupEntries (.node h) = some NoEntry ∧
      (c.insertNew h NoEntry mem = some result ∨
        ∃ g, c.has XCACHE_USE_RMTABLE = true ∧ g ≠ NoEntry ∧ c.lookupRm (.node h) = some g ∧
          ∃ r c₁, c.reinsertRm g = some (r, c₁) ∧
            (r < 0 ∧ result = ⟨NoEntry, NoEntry, NoEntry, c₁⟩ ∨
              0 ≤ r ∧ c₁.insertNew g g mem = some result)) := by
  obtain ⟨⟨tmp_h, c₁⟩, hlookup, hrest⟩ := Option.bind_eq_some_iff.mp hrun
  dsimp only at hrest
  obtain ⟨hfind, ⟨hne, rfl⟩ | ⟨rfl, rfl⟩⟩ := lookupAndGetEntries_inv hlookup
  · rw [if_pos hne] at hrest
    cases hrest
    exact Or.inl ⟨tmp_h, hne, hfind, rfl⟩
  rw [if_neg (not_not_intro rfl)] at hrest
  refine Or.inr ⟨hfind, ?_⟩
  split at hrest
  · exact Or.inl hrest
  rename_i hrm
  obtain ⟨tmp_h, hfindRm, hrest⟩ := Option.bind_eq_some_iff.mp hrest
  split at hrest
  · rename_i hne
    obtain ⟨⟨r, c₂⟩, hreinsert, hrest⟩ := Option.bind_eq_some_iff.mp hrest
    refine Or.inr ⟨tmp_h, by simpa using hrm, hne, hfindRm, r, c₂, hreinsert, ?_⟩
    dsimp only at hrest
    split at hrest
    · rename_i hfailed
      cases hrest
      exact Or.inl ⟨hfailed, rfl⟩
    · rename_i hdone
      exact Or.inr ⟨Int.not_lt.mp hdone, hrest⟩
  · exact Or.inl hrest

/-- A put that is not the last one counts down, or calls the hook and finds a reference; the last
one leaves the table of removed entries. -/
theorem entryPutRef_inv {last : Bool} (hrun : c.entryPutRef idx = some (last, c')) :
    ∃ c₁, c₁ = (c.modify idx fun ce => { ce with ref := ce.ref - 1 }) ∧
      (c' = c₁ ∨ last = false ∧ c' = c₁.call c₁.ops.on_finalize (.on_finalize idx) ∨
        ∃ r, (c₁.call c₁.ops.on_finalize (.on_finalize idx)).removeRm idx = some (r, c') ∧
          last = decide (0 ≤ r)) := by
  refine ⟨_, rfl, ?_⟩
  unfold entryPutRef at hrun
  dsimp only at hrun
  split at hrun
  · cases hrun
    exact Or.inl rfl
  split at hrun
  · split at hrun
    · cases hrun
      exact Or.inr (Or.inl ⟨rfl, rfl⟩)
    · obtain ⟨⟨r, _⟩, hremove, heq⟩ := Option.map_eq_some_iff.mp hrun
      obtain ⟨hlast, rfl⟩ := Prod.mk.inj heq
      exact Or.inr (Or.inr ⟨r, hremove, hlast.symm⟩)
  · cases hrun
    exact Or.inl rfl

theorem invalidateRaw_inv {name : CString} (hrun : c.invalidateRaw name = some (r, h, c')) :
    (∃ g, g ≠ NoEntry ∧ c.lookupEntries (.arg name) = some g ∧ c.removeEntries g = some (r, c') ∧
      h = if r ≥ 0 then g else NoEntry) ∨
    h = NoEntry ∧ ((∃ g, g ≠ NoEntry ∧ c.lookupRm (.arg name) = some g ∧
      c.removeRm g = some (r, c')) ∨ r = 0 ∧ c' = c) := by
  obtain ⟨g, hfind, hrun⟩ := Option.bind_eq_some_iff.mp hrun
  split at hrun
  · rename_i hne
    obtain ⟨⟨r₁, c₁⟩, hremove, heq⟩ := Option.map_eq_some_iff.mp hrun
    cases heq
    exact Or.inl ⟨g, hne, hfind, hremove, rfl⟩
  split at hrun
  · obtain ⟨g', hfindRm, hrun⟩ := Option.bind_eq_some_iff.mp hrun
    split at hrun
    · rename_i hne
      obtain ⟨⟨r₁, c₁⟩, hremove, heq⟩ := Option.map_eq_some_iff.mp hrun
      cases heq
      exact Or.inr ⟨rfl, Or.inl ⟨g', hne, hfindRm, hremove⟩⟩
    · cases hrun
      exact Or.inr ⟨rfl, Or.inr ⟨rfl, rfl⟩⟩
  · cases hrun
    exact Or.inr ⟨rfl, Or.inr ⟨rfl, rfl⟩⟩

end Xcache

end Libxseg
