import Mathlib.Data.Finset.Card
import Libxseg.Xcache
import Libxseg.XhashResize

/-!
# The tables of the cache as sets of nodes

A table of the cache is determined by the set of the nodes it maps names to: each key
points into the node it is mapped to. `Indexes` says which set that is, and the three
helpers of `xcache.c` are then a search by name, the removal of a node and the
insertion of one.
-/

namespace Libxseg

set_option autoImplicit false

variable {nodes nodes' : xqindex → XcacheEntry} {table : Xhash NamePtr} {s : Finset xqindex}
  {size : Nat} {name key : NamePtr} {idx h : xqindex} {mem : TableMemory}

theorem nameFunctions_cmp {a b : NamePtr} :
    (nameFunctions nodes).cmp_fun a b = true ↔ a.read nodes = b.read nodes :=
  decide_eq_true_iff

structure Indexes (nodes : xqindex → XcacheEntry) (table : Xhash NamePtr) (s : Finset xqindex) :
    Prop where
  wf : table.Wf (nameFunctions nodes)
  unique : table.Unique (nameFunctions nodes)
  keys : table.Every fun key idx => key = .node idx
  mem : ∀ idx, table.Holds (nameFunctions nodes) (.node idx) idx ↔ idx ∈ s
  used : table.used = s.card

/-- The table is made for `size` names: it neither shrinks, nor grows by a rebuild. -/
structure Capacity (table : Xhash NamePtr) (size : Nat) : Prop where
  limit : table.limit = size
  steady : table.size_shift = table.minsize_shift
  roomy : size / 2 + size < 2 ^ table.size_shift

namespace Indexes

theorem holds (hx : Indexes nodes table s) :
    table.Holds (nameFunctions nodes) name idx ↔ idx ∈ s ∧ (nodes idx).name = name.read nodes := by
  constructor
  · rintro ⟨i, ⟨hi, hv, hcmp⟩, rfl⟩
    have hkey := hx.keys i hi hv
    rw [nameFunctions_cmp, hkey] at hcmp
    refine ⟨(hx.mem _).mp ⟨i, ⟨hi, hv, ?_⟩, rfl⟩, hcmp⟩
    rw [hkey]
    exact (nameFunctions nodes).cmp_refl _
  · rintro ⟨hmem, hname⟩
    obtain ⟨i, ⟨hi, hv, hcmp⟩, rfl⟩ := (hx.mem idx).mpr hmem
    exact ⟨i, ⟨hi, hv, nameFunctions_cmp.mpr ((nameFunctions_cmp.mp hcmp).trans hname)⟩, rfl⟩

theorem absent (hx : Indexes nodes table s) :
    table.Absent (nameFunctions nodes) name ↔ ∀ idx ∈ s, (nodes idx).name ≠ name.read nodes := by
  rw [Xhash.absent_iff_not_holds]
  exact forall_congr' fun idx => by rw [hx.holds, not_and]

theorem name_inj (hx : Indexes nodes table s) {a b : xqindex} (ha : a ∈ s) (hb : b ∈ s)
    (hname : (nodes a).name = (nodes b).name) : a = b := by
  have hheld : table.Holds (nameFunctions nodes) (.node b) a := hx.holds.mpr ⟨ha, hname⟩
  exact hx.unique.holds_inj hheld (hx.holds.mpr ⟨hb, rfl⟩)

theorem slot (hx : Indexes nodes table s) {i : Nat} (hi : i < table.size)
    (hv : table.itemValid i = true) : table.kvs i = .node (table.vals i) ∧ table.vals i ∈ s := by
  have hkey := hx.keys i hi hv
  refine ⟨hkey, (hx.mem _).mp ⟨i, ⟨hi, hv, ?_⟩, rfl⟩⟩
  rw [hkey]
  exact (nameFunctions nodes).cmp_refl _

theorem congr (hx : Indexes nodes table s) (h : ∀ idx ∈ s, (nodes' idx).name = (nodes idx).name) :
    Indexes nodes' table s := by
  have hread {i : Nat} (hi : i < table.size) (hv : table.itemValid i = true) :
      (table.kvs i).read nodes' = (table.kvs i).read nodes := by
    obtain ⟨hkey, hmem⟩ := hx.slot hi hv
    rw [hkey]
    exact h _ hmem
  refine ⟨?_, fun i j hi hj hvi hvj hcmp => ?_, hx.keys, fun idx => ?_, hx.used⟩
  · refine ⟨hx.wf.shift, hx.wf.minsize, hx.wf.used, hx.wf.dummies, hx.wf.room, fun i hi hv => ?_⟩
    have hchain := hx.wf.chain i hi hv
    change table.Reaches (hashString _) i at hchain ⊢
    rwa [hread hi hv]
  · rw [nameFunctions_cmp, hread hi hvi, hread hj hvj] at hcmp
    exact hx.unique i j hi hj hvi hvj (nameFunctions_cmp.mpr hcmp)
  · constructor
    · rintro ⟨i, ⟨hi, hv, -⟩, rfl⟩
      exact (hx.slot hi hv).2
    · intro hmem
      obtain ⟨i, ⟨hi, hv, -⟩, rfl⟩ := (hx.mem idx).mpr hmem
      refine ⟨i, ⟨hi, hv, ?_⟩, rfl⟩
      rw [(hx.slot hi hv).1]
      exact (nameFunctions nodes').cmp_refl _

end Indexes

theorem Indexes.tableLookup (hx : Indexes nodes table s) (name : NamePtr) :
    (∃ idx ∈ s, (nodes idx).name = name.read nodes ∧
      tableLookup nodes table name = some idx) ∨
    (∀ idx ∈ s, (nodes idx).name ≠ name.read nodes) ∧
      tableLookup nodes table name = some NoEntry := by
  have hl := hx.wf.lookup_iff hx.unique name
  by_cases ha : table.Absent (nameFunctions nodes) name
  · refine Or.inr ⟨hx.absent.mp ha, ?_⟩
    rw [Libxseg.tableLookup, hl.2.mp ha]
    rfl
  · rw [Xhash.absent_iff_not_holds] at ha
    push Not at ha
    obtain ⟨idx, hheld⟩ := ha
    obtain ⟨hmem, hname⟩ := hx.holds.mp hheld
    refine Or.inl ⟨idx, hmem, hname, ?_⟩
    rw [Libxseg.tableLookup, (hl.1 idx).mp hheld]
    rfl

theorem Indexes.tableRemove (hx : Indexes nodes table s) (hc : Capacity table size)
    (name : NamePtr) :
    (∃ idx ∈ s, (nodes idx).name = name.read nodes ∧ ∃ table',
      tableRemove nodes table name = some (0, table') ∧ Indexes nodes table' (s.erase idx) ∧
        Capacity table' size) ∨
    (∀ idx ∈ s, (nodes idx).name ≠ name.read nodes) ∧
      tableRemove nodes table name = some (-XHASH_ENOENT, table) := by
  have hshrink : table.shrinkCheck = false := by
    rw [Xhash.shrinkCheck, hc.steady]
    simp
  have hdel : Libxseg.tableRemove nodes table name = table.deleteRaw (nameFunctions nodes) name := by
    rw [Libxseg.tableRemove, Xhash.delete, hshrink]
    rfl
  rw [hdel]
  rcases hx.wf.deleteRaw_holds hx.unique name with ⟨ha, hr⟩ | ⟨ha, new, hr, hd⟩
  · exact Or.inr ⟨hx.absent.mp ha, hr⟩
  · rw [Xhash.absent_iff_not_holds] at ha
    push Not at ha
    obtain ⟨idx, hheld⟩ := ha
    obtain ⟨hmem, hname⟩ := hx.holds.mp hheld
    refine Or.inl ⟨idx, hmem, hname, new, hr, ⟨hd.wf, hd.unique, hx.keys.deleteRaw hr, ?_, ?_⟩, ?_⟩
    · intro j
      rw [hd.holds, hx.mem, Finset.mem_erase, ← Bool.not_eq_true, nameFunctions_cmp, ← hname]
      constructor
      · rintro ⟨hne, hj⟩
        exact ⟨fun heq => hne (by rw [heq]; rfl), hj⟩
      · rintro ⟨hne, hj⟩
        exact ⟨fun heq => hne (hx.name_inj hmem hj heq).symm, hj⟩
    · have := hd.used
      rw [Finset.card_erase_of_mem hmem, ← hx.used]
      omega
    · exact ⟨hd.limit.trans hc.limit, by rw [hd.size_shift, hd.minsize_shift, hc.steady],
        by rw [hd.size_shift]; exact hc.roomy⟩

/-- The insertion of a node whose name is not in a table that needs no rebuild. -/
theorem Indexes.insertRaw (hx : Indexes nodes table s) (hc : Capacity table size)
    (ha : ∀ idx ∈ s, (nodes idx).name ≠ (nodes h).name) (hval : Xhash.NotMark h)
    (hgrow : table.growCheck = false) :
    ∃ table', table.insertRaw (nameFunctions nodes) (.node h) h = some table' ∧
      Indexes nodes table' (insert h s) ∧ Capacity table' size := by
  have habsent : table.Absent (nameFunctions nodes) (.node h) := hx.absent.mpr ha
  have hdirect : table.Direct (nameFunctions nodes) (.node h) :=
    fun i hi => absurd ⟨i, hi⟩ (Xhash.absent_iff.mp habsent)
  obtain ⟨new, hr, hi⟩ := hx.wf.insertRaw_holds hx.unique hdirect hval
    (hx.wf.room_of_not_growCheck hgrow)
  refine ⟨new, hr, ⟨hi.wf, hi.unique, hx.keys.insertRaw rfl hr, fun j => ?_, ?_⟩, ?_⟩
  · rw [hi.holds, Finset.mem_insert]
    split
    · rename_i hcmp
      rw [nameFunctions_cmp] at hcmp
      exact ⟨Or.inl, fun hj => hj.resolve_right fun hj => ha j hj hcmp.symm⟩
    · rename_i hcmp
      rw [hx.mem]
      refine ⟨Or.inr, fun hj => hj.resolve_left fun hj => hcmp ?_⟩
      rw [hj]
      exact (nameFunctions nodes).cmp_refl _
  · rcases hi.used with ⟨-, hused⟩ | ⟨hno, -⟩
    · rw [hused, hx.used, Finset.card_insert_of_notMem fun hmem => ha h hmem rfl]
    · exact absurd habsent hno
  · exact ⟨hi.limit.trans hc.limit, by rw [hi.size_shift, hi.minsize_shift, hc.steady],
      by rw [hi.size_shift]; exact hc.roomy⟩

/-- A rebuild keeps the nodes and leaves room for as many as the table is made for. -/
theorem Indexes.resize (hx : Indexes nodes table s) (hc : Capacity table size)
    (hlt : s.card < size) (kvs0 : Nat → NamePtr) :
    ∃ new, table.resize (nameFunctions nodes) table.size_shift table.limit kvs0 = some new ∧
      Indexes nodes new s ∧ Capacity new size ∧ new.growCheck = false := by
  have hroomy := hc.roomy
  have hfit : table.used < 2 ^ table.size_shift := by
    rw [hx.used]
    omega
  obtain ⟨new, hr, hb⟩ := hx.wf.resize_holds hx.unique hfit hx.wf.shift table.limit kvs0
  refine ⟨new, hr, ⟨hb.wf, hb.unique, hx.keys.resize hr, fun idx => by rw [hb.holds, hx.mem],
    hb.used.trans hx.used⟩, ⟨hb.limit.trans hc.limit, ?_, ?_⟩, ?_⟩
  · rw [hb.size_shift, hb.minsize_shift, hc.steady]
  · rw [hb.size_shift]
    exact hroomy
  · rw [Xhash.growCheck, hb.used, hb.dummies, hb.size_shift, hx.used, Nat.one_shiftLeft,
      decide_eq_false_iff_not]
    omega

theorem Indexes.tableInsert_full (hx : Indexes nodes table s) (hc : Capacity table size)
    (hpos : 0 < size) (hfull : size ≤ s.card) :
    tableInsert nodes table h mem = some (-XHASH_ENOSPC, table) := by
  have hlimit : table.limit ≠ 0 ∧ table.used ≥ table.limit := by
    rw [hc.limit, hx.used]
    omega
  rw [tableInsert, Xhash.insert, if_pos hlimit, Option.bind_some]
  exact if_neg (by decide)

/-- What the insertion of a node with a new name does. Only a rebuild that is due and finds no
memory makes it fail. -/
theorem Indexes.tableInsert (hx : Indexes nodes table s) (hc : Capacity table size)
    (hlt : s.card < size) (ha : ∀ idx ∈ s, (nodes idx).name ≠ (nodes h).name)
    (hval : Xhash.NotMark h) (mem : TableMemory) :
    (∃ table', tableInsert nodes table h mem = some (0, table') ∧
      Indexes nodes table' (insert h s) ∧ Capacity table' size) ∨
    mem = none ∧ tableInsert nodes table h mem = some (-1, table) := by
  have hlimit {t : Xhash NamePtr} (hx : Indexes nodes t s) (hc : Capacity t size) :
      ¬ (t.limit ≠ 0 ∧ t.used ≥ t.limit) := by
    rw [hc.limit, hx.used]
    omega
  cases hgrow : table.growCheck with
  | false =>
    obtain ⟨table', hr, hx', hc'⟩ := hx.insertRaw hc ha hval hgrow
    refine Or.inl ⟨table', ?_, hx', hc'⟩
    rw [Libxseg.tableInsert, Xhash.insert, if_neg (hlimit hx hc), hgrow, if_neg (by decide), hr]
    rfl
  | true =>
    have hfirst : table.insert (nameFunctions nodes) (.node h) h = some (-XHASH_ERESIZE, table) := by
      rw [Xhash.insert, if_neg (hlimit hx hc), if_pos hgrow]
    rw [Libxseg.tableInsert, hfirst, Option.bind_some]
    dsimp only
    rw [if_pos rfl]
    cases mem with
    | none => exact Or.inr ⟨rfl, rfl⟩
    | some kvs0 =>
      obtain ⟨new, hr, hx', hc', hgrow'⟩ := hx.resize hc hlt kvs0
      obtain ⟨table', hr', hx'', hc''⟩ := hx'.insertRaw hc' ha hval hgrow'
      refine Or.inl ⟨table', ?_, hx'', hc''⟩
      rw [Option.elim_some, hr, Option.bind_some, Xhash.insert, if_neg (hlimit hx' hc'), hgrow',
        if_neg (by decide), hr']
      rfl

theorem indexes_init {shift : Nat} (hs : 2 ≤ shift) (kvs0 : Nat → NamePtr) :
    Indexes nodes (Xhash.init shift size kvs0) ∅ := by
  refine ⟨Xhash.wf_initRaw kvs0 hs hs, Xhash.initRaw_unique kvs0,
    Xhash.every_initRaw _ _ _ kvs0, fun idx => ?_, rfl⟩
  refine iff_of_false ?_ (Finset.notMem_empty idx)
  exact Xhash.absent_iff_not_holds.mp (Xhash.initRaw_absent kvs0 _) idx

end Libxseg
