import Libxseg.XcacheLasting
import Libxseg.XcacheVictims

/-!
# Removal by name

`xcache_remove` is given a node, but it asks the table for the name of the node, and takes out
what it finds there. A search for the name stops at the same slot. When the node has left the
cache and its name has come back with another node, that node is in the slot.
-/

namespace Libxseg

set_option autoImplicit false

namespace Xcache

variable {ι : Type} {c c' : Xcache} {E R : Finset xqindex} {h : xqindex}

/-- The calls of `Event`, and `xcache_remove` of any node that the client has a reference to.
Where it succeeds, the client is to put the reference of the table. -/
inductive CacheCall.HeldStep [DecidableEq ι] (w : World ι) : ι × CacheCall → World ι → Prop
  | base {i event w'} : World.Step w (i, event) w' → HeldStep w (i, .base event) w'
  | remove {i h r cache} :
      (w.clients i).pc = .idle → 0 < (w.clients i).held h → w.cache.remove h = some (r, cache) →
      HeldStep w (i, .remove h r)
        (w.act i cache ⟨if r < 0 then (w.clients i).held else hand (w.clients i).held h, .idle⟩)

def Steady (table : Xhash NamePtr) : Prop := table.size_shift = table.minsize_shift

theorem Steady.insertRaw {tf : TypesFunctions NamePtr} {table table' : Xhash NamePtr}
    {name : NamePtr} {val : xhashidx} (h : Steady table)
    (hrun : table.insertRaw tf name val = some table') : Steady table' := by
  obtain ⟨i, ⟨-, rfl⟩ | ⟨-, rfl⟩⟩ := Xhash.phashUpdate_cases hrun
  · exact h
  · exact h

theorem Steady.tableRemove {table : Xhash NamePtr} (h : Steady table)
    (nodes : xqindex → XcacheEntry) (name : NamePtr) :
    tableRemove nodes table name = table.deleteRaw (nameFunctions nodes) name := by
  have hshrink : table.shrinkCheck = false := by
    rw [Xhash.shrinkCheck, decide_eq_false_iff_not]
    rintro ⟨-, hlt⟩
    exact absurd h (Nat.ne_of_gt hlt)
  rw [Libxseg.tableRemove, Xhash.delete, hshrink]
  rfl

theorem lasting_steady : Lasting (fun _ => True) Steady where
  insert _ hsteady hrun := tableInsert_keeps (P := Steady) Steady.insertRaw
    (fun hs hres => Xhash.resize_induct hs (fun _ _ _ hs hins => hs.insertRaw hins) hres) hsteady hrun
  remove := by
    intro nodes table name r table' hsteady hrun
    rw [hsteady.tableRemove] at hrun
    rcases table.lookup_deleteRaw (nameFunctions nodes) name with
      ⟨-, hdelete⟩ | ⟨-, hdelete⟩ | ⟨i, -, -, hdelete⟩
    · rw [hdelete] at hrun
      cases hrun
    · rw [hdelete] at hrun
      cases hrun
      exact hsteady
    · rw [hdelete] at hrun
      cases hrun
      exact hsteady
  found := fun _ _ _ => trivial

theorem CacheCall.HeldStep.steady [DecidableEq ι] {w w' : World ι} {b : ι × CacheCall}
    (hstep : CacheCall.HeldStep w b w')
    (hs : Steady w.cache.entries ∧ Steady w.cache.rm_entries) :
    Steady w'.cache.entries ∧ Steady w'.cache.rm_entries := by
  cases hstep with
  | base hstep =>
    rcases lasting_steady.step hstep (fun _ _ => trivial) (fun _ _ _ _ _ _ _ => trivial) hs.1 hs.2
      with ⟨hlasts, -⟩ | ⟨idx, name, r, -, heq⟩
    · exact hlasts.tables hs.1 hs.2
    · rw [heq]
      exact hs
  | remove _ _ hrun => exact (lasting_steady.removeEntries hrun).tables hs.1 hs.2

theorem run_steady [DecidableEq ι] [Builtins] {w₀ w : World ι} {as : List (ι × CacheCall)}
    (hs : Start w₀) (hrun : Run CacheCall.HeldStep w₀ as w) :
    Steady w.cache.entries ∧ Steady w.cache.rm_entries := by
  apply hrun.invariant (I := fun w => Steady w.cache.entries ∧ Steady w.cache.rm_entries)
  · exact fun hsteady hstep => hstep.steady hsteady
  · obtain ⟨xcache_size, ops, flags, mem, hinit⟩ := hs.cache
    unfold init at hinit
    split at hinit
    · cases hinit
    · rw [← Option.some.inj hinit]
      exact ⟨rfl, rfl⟩

def TakesOut (c c' : Xcache) (h : xcache_handler) : Prop :=
  ∃ i, c.entries.Matches (nameFunctions c.nodes) (.node h) i ∧ c.entries.vals i = h ∧
    c'.entries = c.entries.deleteAt i

/-- The entries, and what is kept of other nodes for the choice of a victim, are as before. -/
structure LeavesOthers (c c' : Xcache) (h : xcache_handler) : Prop where
  entries : c'.entries = c.entries
  times : ∀ idx, idx ≠ h → c'.times idx = c.times idx
  handles : ∀ idx, idx ≠ h → (c'.nodes idx).h = (c.nodes idx).h
  binheap : c'.binheap = c.binheap

/-- `xcache_remove` takes out the mapping to `h` itself, or fails. -/
def RemovesOwn (c : Xcache) (h : xcache_handler) : Prop :=
  ∃ r c', c.remove h = some (r, c') ∧ (0 ≤ r ∧ TakesOut c c' h ∨ r < 0 ∧ LeavesOthers c c' h)

def Unshadowed (c : Xcache) (h : xcache_handler) : Prop :=
  c.lookupEntries (.node h) = some h ∨ c.lookupEntries (.node h) = some NoEntry

/-- Where the counts are right, no other node is cached under the name. -/
theorem Tables.unshadowed_iff (ht : Tables c E R) :
    Unshadowed c h ↔ ∀ idx, c.Cached (.node h) idx → idx = h := by
  rcases ht.entries.tableLookup (.node h) with ⟨idx, hidx, hname, hlookup⟩ | ⟨hno, hlookup⟩
  · have hcached : c.Cached (.node h) idx := ht.entries.holds.mpr ⟨hidx, hname⟩
    rw [Unshadowed, lookupEntries, hlookup]
    constructor
    · rintro (heq | heq) j hj
      · obtain rfl := Option.some.inj heq
        obtain ⟨hjE, hjname⟩ := ht.entries.holds.mp hj
        exact ht.entries.name_inj hjE hidx (hjname.trans hname.symm)
      · exact absurd (Option.some.inj heq) (ne_noEntry_of_low (ht.entries_low idx hidx))
    · intro hall
      exact Or.inl (congrArg some (hall idx hcached))
  · rw [Unshadowed, lookupEntries, hlookup]
    refine iff_of_true (Or.inr rfl) fun j hj => ?_
    obtain ⟨hjE, hjname⟩ := ht.entries.holds.mp hj
    exact absurd hjname (hno j hjE)

theorem removesOwn_of_unfound {r : Int} (hr : r < 0)
    (hremove : tableRemove c.nodes c.entries (.node h) = some (r, c.entries)) : RemovesOwn c h := by
  refine ⟨r, c, ?_, Or.inr ⟨hr, rfl, fun _ _ => rfl, fun _ _ => rfl, rfl⟩⟩
  rw [remove, removeEntries, hremove, Option.map_some]
  exact congrArg some (if_pos hr)

theorem removesOwn_found {i : Nat} (hmatch : c.entries.Matches (nameFunctions c.nodes) (.node h) i)
    (hremove : tableRemove c.nodes c.entries (.node h) = some (0, c.entries.deleteAt i)) :
    RemovesOwn c h ↔ c.entries.vals i = h := by
  have hrun : c.remove h = some (0, { c with entries := c.entries.deleteAt i }.forget h) := by
    rw [remove, removeEntries, hremove, Option.map_some]
    rfl
  have hentries : ({ c with entries := c.entries.deleteAt i }.forget h).entries =
      c.entries.deleteAt i := (ranked_forget _ h).1.entries
  constructor
  · rintro ⟨r, c', heq, hcase⟩
    rw [hrun] at heq
    cases heq
    obtain ⟨-, j, hj, hval, heq⟩ | ⟨hneg, -⟩ := hcase
    · -- only slot `i` holds a tombstone now that held none before
      by_cases hji : j = i
      · rwa [← hji]
      · have hkeeps : (c.entries.deleteAt j).vals j = h := by
          rw [← heq, hentries, Xhash.deleteAt_vals_of_ne hji, hval]
        rw [Xhash.deleteAt_vals_self] at hkeeps
        have hmark := (Xhash.itemValid_iff.mp hj.2.1).1
        rw [hval, ← hkeeps] at hmark
        exact absurd rfl hmark
    · exact absurd hneg (Int.lt_irrefl 0)
  · intro hval
    exact ⟨0, _, hrun, Or.inl ⟨Int.le_refl 0, i, hmatch, hval, hentries⟩⟩

theorem removesOwn_iff (hs : Steady c.entries) : RemovesOwn c h ↔ Unshadowed c h := by
  have hremove := hs.tableRemove c.nodes (.node h)
  rcases c.entries.lookup_deleteRaw (nameFunctions c.nodes) (.node h) with
    ⟨hlookup, hdelete⟩ | ⟨hlookup, hdelete⟩ | ⟨i, hmatch, hlookup, hdelete⟩
  · rw [Unshadowed, lookupEntries, tableLookup, hlookup]
    refine iff_of_false ?_ ?_
    · rintro ⟨r, c', hrun, -⟩
      rw [remove, removeEntries, hremove, hdelete] at hrun
      cases hrun
    · rintro (heq | heq) <;> cases heq
  · rw [Unshadowed, lookupEntries, tableLookup, hlookup]
    exact iff_of_true (removesOwn_of_unfound (by decide) (hremove.trans hdelete)) (Or.inr rfl)
  · have hfound : c.lookupEntries (.node h) = some (c.entries.vals i) := by
      rw [lookupEntries, tableLookup, hlookup]
      rfl
    have hmark : c.entries.vals i ≠ NoEntry := (Xhash.itemValid_iff.mp hmatch.2.1).2
    rw [removesOwn_found hmatch (hremove.trans hdelete), Unshadowed, hfound]
    constructor
    · exact fun hval => Or.inl (congrArg some hval)
    · rintro (heq | heq)
      · exact Option.some.inj heq
      · exact absurd (Option.some.inj heq) hmark

/-- In every state of every run, a removal is that of the node itself or fails, exactly when no
other node is found under the name. -/
theorem run_removesOwn_iff [DecidableEq ι] [Builtins] {w₀ w : World ι} {as : List (ι × CacheCall)}
    (hs : Start w₀) (hrun : Run CacheCall.HeldStep w₀ as w) (h : xcache_handler) :
    RemovesOwn w.cache h ↔ Unshadowed w.cache h :=
  removesOwn_iff (run_steady hs hrun).1

theorem heldRun_base [DecidableEq ι] {w w' : World ι} {bs : List (ι × Event)}
    {ok : World ι → ι × Event → Prop} (hrun : Run (Guarded World.Step ok) w bs w') :
    Run CacheCall.HeldStep w (bs.map fun b => (b.1, .base b.2)) w' :=
  hrun.map _ fun hstep => .base hstep.2

/-- The node is cached, and one client has a reference to it. -/
theorem run_removesOwn_iff_cached : ∃ (_ : Builtins) (w₀ w : World Unit)
    (as : List (Unit × CacheCall)), (Start w₀ ∧ Run CacheCall.HeldStep w₀ as w ∧
      0 < (w.clients ()).held 0 ∧ Unshadowed w.cache 0) ∧
    (RemovesOwn w.cache 0 ↔ Unshadowed w.cache 0) := by
  let _ : Builtins := ⟨0⟩
  let events : List Event := [.pop 0, .init 0 nameA 0, .insert 0 plenty 0 NoEntry NoEntry]
  have hsome : (trial (fun _ _ => True) 1 XCACHE_LRU_ARRAY events).any (fun w =>
      0 < (w.clients ()).held 0 ∧ w.cache.lookupEntries (.node 0) = some 0) = true := by
    decide +kernel
  obtain ⟨w₀, w, hs, -, hrun, hcheck⟩ := run_of_trial hsome
  obtain ⟨hheld, hlookup⟩ := of_decide_eq_true hcheck
  exact ⟨_, w₀, w, _, ⟨hs, heldRun_base hrun, hheld, Or.inl hlookup⟩,
    run_removesOwn_iff hs (heldRun_base hrun) 0⟩

/-- A client keeps a reference to a node that is evicted, and the name comes back with another
node. -/
theorem not_run_removesOwn : ¬ ∀ (_ : Builtins) (w₀ w : World Unit) (as : List (Unit × CacheCall))
    (h : xcache_handler), Start w₀ → w₀.cache.has XCACHE_USE_RMTABLE = false →
      Run CacheCall.HeldStep w₀ as w → 0 < (w.clients ()).held h → RemovesOwn w.cache h := by
  intro hall
  let _ : Builtins := ⟨0⟩
  let events : List Event := [.pop 0, .init 0 nameA 0, .insert 0 plenty 0 NoEntry NoEntry, .pop 3,
    .init 3 nameD 0, .insert 3 plenty 3 NoEntry NoEntry, .pop 2, .init 2 nameE 0,
    .insert 2 plenty 2 0 NoEntry, .settle 0 false, .pop 1, .init 1 nameA 0,
    .insert 1 plenty 1 3 NoEntry]
  have hsome : (trial (fun _ _ => True) 2 XCACHE_LRU_ARRAY events).any (fun w =>
      0 < (w.clients ()).held 0 ∧ w.cache.lookupEntries (.node 0) = some 1) = true := by
    decide +kernel
  obtain ⟨w₀, w, hs, hflags, hrun, hcheck⟩ := run_of_trial hsome
  obtain ⟨hheld, hlookup⟩ := of_decide_eq_true hcheck
  have hflag : w₀.cache.has XCACHE_USE_RMTABLE = false := by
    rw [has, hflags]
    decide
  have hrun := heldRun_base hrun
  have hremoves := hall _ w₀ w _ 0 hs hflag hrun hheld
  rw [removesOwn_iff (run_steady hs hrun).1, Unshadowed, hlookup] at hremoves
  exact absurd hremoves (by decide)

end Xcache

end Libxseg
