import Libxseg.XcacheLasting

/-!
# What the tables find in any run

In any run the slots of a table are of nodes under their own names (`Filed`). A name that was
just inserted is found again, and an insertion returns a node with the name that the entry has,
which the table then has. Nothing is needed of the counts, and only that much of the nodes that
their indexes are not the marks of a free slot.
-/

namespace Libxseg

set_option autoImplicit false

namespace Xcache

variable {c c' : Xcache} {h g idx : xqindex} {r : Int} {mem : TableMemory}
  {nodes nodes' : xqindex → XcacheEntry} {table table' : Xhash NamePtr} {name : NamePtr}
  {ok : xqindex → Prop}

def Filed (ok : xqindex → Prop) (table : Xhash NamePtr) : Prop :=
  table.Every fun key val => key = .node val ∧ ok val

theorem Filed.mono {ok' : xqindex → Prop} (hf : Filed ok table) (h : ∀ idx, ok idx → ok' idx) :
    Filed ok' table :=
  fun i hi hv => (hf i hi hv).imp_right (h _)

theorem Filed.found (hf : Filed ok table) (hrun : tableLookup nodes table name = some g)
    (hne : g ≠ NoEntry) : ok g ∧ Xhash.NotMark g ∧ (nodes g).name = name.read nodes := by
  rcases table.lookup_deleteRaw (nameFunctions nodes) name with
    ⟨hlookup, -⟩ | ⟨hlookup, -⟩ | ⟨i, ⟨hi, hvalid, hcmp⟩, hlookup, -⟩
  · rw [tableLookup, hlookup] at hrun
    cases hrun
  · rw [tableLookup, hlookup] at hrun
    exact absurd (Option.some.inj hrun).symm hne
  · rw [tableLookup, hlookup] at hrun
    obtain rfl : table.vals i = g := Option.some.inj hrun
    obtain ⟨hkey, hok⟩ := hf i hi hvalid
    rw [nameFunctions_cmp, hkey] at hcmp
    exact ⟨hok, Xhash.itemValid_iff.mp hvalid, hcmp⟩

theorem lasting_filed (ok : xqindex → Prop) : Lasting ok (Filed ok) where
  insert := by
    intro nodes table h mem r table' hok hf hrun
    apply tableInsert_keeps (P := Filed ok) _ _ hf hrun
    · exact fun hf hins => hf.insertRaw ⟨rfl, hok⟩ hins
    · exact fun hf hres => hf.resize hres
  remove := by
    intro nodes table name r table' hf hrun
    unfold tableRemove Xhash.delete at hrun
    split at hrun
    · cases hrun
      exact hf
    · exact hf.deleteRaw hrun
  found hf hrun hne := (hf.found hrun hne).1

theorem tableLookup_congr (hname : ∀ idx, (nodes' idx).name = (nodes idx).name)
    (table : Xhash NamePtr) (name : NamePtr) :
    tableLookup nodes' table name = tableLookup nodes table name := by
  have hread : NamePtr.read nodes' = NamePtr.read nodes := by
    funext key
    cases key with
    | node idx => exact hname idx
    | arg string => rfl
  have htf : nameFunctions nodes' = nameFunctions nodes := by
    unfold nameFunctions
    rw [hread]
  rw [tableLookup, tableLookup, htf]

theorem tableInsert_lookup (hval : Xhash.NotMark h)
    (hrun : tableInsert nodes table h mem = some (r, table')) (hr : 0 ≤ r) :
    tableLookup nodes table' (.node h) = some h := by
  have hfinds {t t' : Xhash NamePtr} {r : Int}
      (hins : t.insert (nameFunctions nodes) (.node h) h = some (r, t')) (hr : 0 ≤ r) :
      tableLookup nodes t' (.node h) = some h := by
    rw [tableLookup, Xhash.insert_lookup hval hins hr]
    rfl
  obtain ⟨r₁, t₁, hfirst, hrest⟩ := tableInsert_inv hrun
  rcases hrest with ⟨-, rfl, rfl⟩ | ⟨-, ⟨-, rfl, -⟩ | ⟨kvs0, new, r₂, -, hres, hsecond, rfl⟩⟩
  · exact hfinds hfirst hr
  · exact absurd hr (by decide)
  · split at hr
    · exact absurd hr (by decide)
    · exact hfinds hsecond hr

theorem lookupEntries_congr (hname : ∀ idx, (c'.nodes idx).name = (c.nodes idx).name)
    (he : c'.entries = c.entries) (name : NamePtr) :
    c'.lookupEntries name = c.lookupEntries name := by
  rw [lookupEntries, lookupEntries, he]
  exact tableLookup_congr hname _ name

theorem touch_lookupEntries (c : Xcache) (idx : xqindex) (name : NamePtr) :
    (c.entryGetAndUpdate idx).lookupEntries name = c.lookupEntries name := by
  have hr : Ranked (c.entryGet idx) (c.entryGetAndUpdate idx) := ranked_updateAccessTime _ idx
  exact lookupEntries_congr (frame_entryGetAndUpdate c idx).name hr.entries name

theorem insertEntries_lookup (hval : Xhash.NotMark h)
    (hrun : c.insertEntries h mem = some (r, c')) (hr : 0 ≤ r) :
    c'.lookupEntries (.node h) = some h := by
  obtain ⟨entries, hinsert, rfl⟩ := insertEntries_inv hrun
  exact tableInsert_lookup hval hinsert hr

theorem insertDone_lookup {lru reinsert : xcache_handler}
    (hfound : 0 ≤ r → c.lookupEntries (.node h) = some h)
    (hne : (c.insertDone h lru reinsert r).ret ≠ NoEntry) :
    (c.insertDone h lru reinsert r).ret = h ∧
      (c.insertDone h lru reinsert r).cache.lookupEntries (.node h) = some h := by
  unfold insertDone at hne ⊢
  split at hne
  · rename_i hr
    rw [if_pos hr]
    exact ⟨rfl, (touch_lookupEntries c h _).trans (hfound hr)⟩
  · exact absurd rfl hne

theorem insertNew_lookup {reinsert : xcache_handler} {mem : InsertMemory} {result : InsertResult}
    (hval : Xhash.NotMark h) (hrun : c.insertNew h reinsert mem = some result)
    (hne : result.ret ≠ NoEntry) :
    result.ret = h ∧ result.cache.lookupEntries (.node h) = some h := by
  obtain ⟨r₁, c₁, hfirst, ⟨-, rfl⟩ | ⟨-, lru, c₂, -, hrest⟩⟩ := insertNew_inv hrun
  · exact insertDone_lookup (insertEntries_lookup hval hfirst) hne
  · rcases hrest with ⟨-, rfl⟩ | ⟨-, r₃, c₃, hsecond, rfl⟩
    · exact absurd rfl hne
    · exact insertDone_lookup (insertEntries_lookup hval hsecond) hne

theorem lookupEntries_arg (c : Xcache) (h : xcache_handler) :
    c.lookupEntries (.arg (c.nodes h).name) = c.lookupEntries (.node h) := rfl

/-- An insertion returns a node with the name that the entry has, and the table then has it. -/
theorem insertRaw_lookup {mem : InsertMemory} {result : InsertResult} (hval : Xhash.NotMark h)
    (hpe : Filed ok c.entries) (hpr : Filed ok c.rm_entries) (hok : ok h)
    (hrun : c.insertRaw h mem = some result) (hne : result.ret ≠ NoEntry) :
    ok result.ret ∧ (c.nodes result.ret).name = (c.nodes h).name ∧
      result.cache.lookupEntries (.arg (c.nodes h).name) = some result.ret := by
  have hlasts := (lasting_filed fun _ => True).insertRaw trivial (fun _ => trivial)
    (hpe.mono fun _ _ => trivial) (hpr.mono fun _ _ => trivial) hrun
  have hnew {g : xqindex} (hok' : ok g) (hname : (c.nodes g).name = (c.nodes h).name)
      (hentered : result.ret = g ∧ result.cache.lookupEntries (.node g) = some g) :
      ok result.ret ∧ (c.nodes result.ret).name = (c.nodes h).name ∧
        result.cache.lookupEntries (.arg (c.nodes h).name) = some result.ret := by
    obtain ⟨hret, hlookup⟩ := hentered
    rw [hret]
    refine ⟨hok', hname, ?_⟩
    rw [← hname, ← hlasts.name g, lookupEntries_arg]
    exact hlookup
  rcases insertRaw_inv hrun with ⟨g, hfound, hfind, rfl⟩ | ⟨-, hrun | ⟨g, -, hfound, hfind, hrest⟩⟩
  · obtain ⟨hok', -, hname⟩ := hpe.found hfind hfound
    refine ⟨hok', hname, ?_⟩
    rw [touch_lookupEntries, lookupEntries_arg]
    exact hfind
  · exact hnew hok rfl (insertNew_lookup hval hrun hne)
  · obtain ⟨hok', hmark, hname⟩ := hpr.found hfind hfound
    obtain ⟨r, c₁, -, ⟨-, rfl⟩ | ⟨-, hrun⟩⟩ := hrest
    · exact absurd rfl hne
    · exact hnew hok' hname (insertNew_lookup hmark hrun hne)

theorem evictLru_lru {lru : xcache_handler} (hrun : c.evictLru mem = some (lru, c')) :
    lru = NoEntry ∨ lru = c.lru.1 := by
  rcases evictLru_inv hrun with ⟨-, hlru, -⟩ | ⟨-, r, -, hlru⟩
  · exact Or.inl hlru
  · rw [hlru]
    split
    · exact Or.inl rfl
    · exact Or.inr rfl

/-- The victim that an insertion reports is the one that the cache names. -/
theorem insertNew_lru {reinsert : xcache_handler} {mem : InsertMemory} {result : InsertResult}
    (hrun : c.insertNew h reinsert mem = some result) :
    result.lru = NoEntry ∨ result.lru = c.lru.1 := by
  obtain ⟨r₁, c₁, hfirst, ⟨-, rfl⟩ | ⟨-, lru, c₂, hevict, hrest⟩⟩ := insertNew_inv hrun
  · exact Or.inl (insertDone_lru ..)
  · rcases hrest with ⟨-, rfl⟩ | ⟨-, r₃, c₃, -, rfl⟩
    · exact Or.inl rfl
    · rw [insertDone_lru, ← insertEntries_lru hfirst]
      exact evictLru_lru hevict

theorem insertRaw_lru {mem : InsertMemory} {result : InsertResult}
    (hrun : c.insertRaw h mem = some result) : result.lru = NoEntry ∨ result.lru = c.lru.1 := by
  rcases insertRaw_inv hrun with ⟨g, -, -, rfl⟩ | ⟨-, hnew | ⟨g, -, -, -, r, c₁, hreinsert, hrest⟩⟩
  · exact Or.inl rfl
  · exact insertNew_lru hnew
  · rcases hrest with ⟨-, rfl⟩ | ⟨-, hnew⟩
    · exact Or.inl rfl
    · rw [← reinsertRm_lru hreinsert]
      exact insertNew_lru hnew

theorem entryPut_lookupEntries (hrun : c.entryPut idx = some c') (name : NamePtr) :
    c'.lookupEntries name = c.lookupEntries name := by
  obtain ⟨⟨last, c₁⟩, hput, heq⟩ := Option.map_eq_some_iff.mp hrun
  have hname := ((lasting_filed fun _ => True).entryPutRef hput).name
  have hentries : c₁.entries = c.entries := by
    obtain ⟨c₂, rfl, rfl | ⟨-, rfl⟩ | ⟨r, hremove, -⟩⟩ := entryPutRef_inv hput
    · rfl
    · rfl
    · obtain ⟨rm_entries, -, rfl⟩ := removeRm_inv hremove
      rfl
  cases last with
  | false =>
    cases heq
    exact lookupEntries_congr hname hentries name
  | true =>
    cases heq
    exact lookupEntries_congr hname hentries name

theorem insert_lookupEntries {mem : InsertMemory} {ret : xcache_handler}
    (hrun : c.insert h mem = some (ret, c')) :
    ∃ result, c.insertRaw h mem = some result ∧ result.ret = ret ∧
      ∀ name, c'.lookupEntries name = result.cache.lookupEntries name := by
  obtain ⟨result, hraw, hrun⟩ := Option.bind_eq_some_iff.mp hrun
  refine ⟨result, hraw, ?_⟩
  obtain ⟨c₁, hput, heq⟩ := Option.map_eq_some_iff.mp hrun
  obtain ⟨hret, hc'⟩ := Prod.mk.inj heq
  refine ⟨hret, fun name => ?_⟩
  have hlast : c'.lookupEntries name = c₁.lookupEntries name := by
    rw [← hc']
    split
    · exact lookupEntries_congr (fun _ => rfl) rfl name
    · rfl
  rw [hlast]
  split at hput
  · exact (entryPut_lookupEntries hput name).trans (lookupEntries_congr (fun _ => rfl) rfl name)
  · cases hput
    rfl

theorem lookup_of_entries {string : CString} (h : c.lookupEntries (.arg string) = some g) :
    ∃ c', c.lookup string = some (g, c') := by
  rw [lookup, lookupAndGetEntries, h]
  exact ⟨_, rfl⟩

end Xcache

end Libxseg
