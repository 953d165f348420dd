import Libxseg.XcacheReferences

/-!
# The steps of a cache that counts right

`Change` lists what a step can do to the queue and to the tables, with what the event
says about it. `Inv.step` is the step lemma: such a change, and the invariant after it.
Later results about runs split on `Change` and never look at the functions again.
-/

namespace Libxseg

set_option autoImplicit false

namespace Xcache

variable {ι : Type} [Fintype ι] [DecidableEq ι] {w w' : World ι} {c c' : Xcache}
  {free : List xqindex} {E R E' R' : Finset xqindex} {i : ι} {idx h v : xqindex}

theorem Victim.cases (hv : Victim c E R R' v) :
    (v = NoEntry ∨ v ∈ E) ∧ ∀ j ∈ R', j ∈ R ∨ j ∈ E := by
  rcases hv with ⟨-, rfl, rfl⟩ | ⟨-, -, hmem, rfl⟩
  · exact ⟨Or.inl rfl, fun j hj => Or.inl hj⟩
  · refine ⟨Or.inr hmem, ?_⟩
    intro j hj
    unfold rmAfter at hj
    split at hj
    · rcases Finset.mem_insert.mp hj with rfl | hj
      · exact Or.inr hmem
      · exact Or.inl hj
    · exact Or.inl hj

theorem Tables.cached_iff (ht : Tables c E R) (idx : xqindex) :
    (∃ name, c.Cached name idx) ↔ idx ∈ E := by
  constructor
  · rintro ⟨name, hc⟩
    exact (ht.entries.holds.mp hc).1
  · intro hmem
    exact ⟨.node idx, ht.entries.holds.mpr ⟨hmem, rfl⟩⟩

/-- The room that an insertion needs, in terms of the nodes in the tables. -/
theorem Tables.roomy (ht : Tables c E R) {mem : InsertMemory} {ret lru reinsert : xcache_handler}
    (hroomy : Event.Roomy c (.insert h mem ret lru reinsert)) :
    (∀ idx ∈ E, (c.nodes idx).name = (c.nodes h).name → c.RefRoom idx 1) ∧
      (∀ idx ∈ R, (c.nodes idx).name = (c.nodes h).name → c.RefRoom idx 2) ∧
      ((∀ idx ∈ E, (c.nodes idx).name ≠ (c.nodes h).name) →
        (∀ idx ∈ R, (c.nodes idx).name ≠ (c.nodes h).name) → c.RefRoom h 1) := by
  obtain ⟨hfound, hback, hnew⟩ := hroomy
  refine ⟨?_, ?_, ?_⟩
  · exact fun idx hidx hname => hfound idx (ht.entries.holds.mpr ⟨hidx, hname⟩)
  · exact fun idx hidx hname => hback idx (ht.rm_entries.holds.mpr ⟨hidx, hname⟩)
  · intro hE hR
    apply hnew
    intro idx
    constructor
    · intro hc
      obtain ⟨hidx, hname⟩ := ht.entries.holds.mp hc
      exact hE idx hidx hname
    · intro hc
      obtain ⟨hidx, hname⟩ := ht.rm_entries.holds.mp hc
      exact hR idx hidx hname

theorem toNat_add_two {r : UInt32} (h : r.toNat + 2 < 2 ^ 32) : (r + 1 + 1).toNat = r.toNat + 2 := by
  have h1 := toNat_succ (r := r) (by omega)
  rw [toNat_succ (by omega), h1]

theorem dropNew_ref (c : Xcache) (h j : xqindex) :
    ((c.dropNew h).nodes j).ref = if j = h then 0 else (c.nodes j).ref := by
  unfold dropNew
  split
  · rename_i heq
    rw [heq, modify_nodes_self]
  · rename_i hne
    rw [modify_nodes_of_ne c _ hne]

namespace Inv

/-- A section that moves the nodes in `A` into `entries` and hands `n` references to each of them,
and that takes `v` out of `entries`. -/
theorem swapped (hi : Inv w free E R) (hidle : (w.clients i).pc = .idle) {A : Finset xqindex}
    {n : Nat} {held : xqindex → Nat}
    (hw : w'.clients = Function.update w.clients i ⟨held, .toPut v⟩)
    (hheld : ∀ j, held j = (w.clients i).held j + if j ∈ A then n else 0)
    (href : ∀ j, (w'.cache.nodes j).ref.toNat =
      (w.cache.nodes j).ref.toNat + if j ∈ A then n + 1 else 0)
    (hA : ∀ j ∈ A, j ∉ E ∧ (j ∈ R ∨ 0 < (w.clients i).held j)) (hv : v = NoEntry ∨ v ∈ E)
    (hR : ∀ j ∈ R', j ∈ R ∨ j ∈ E) (hf : Frame w.cache w'.cache)
    (ht : Tables w'.cache (A ∪ E.erase v) R') (hm : Ordered w'.cache (A ∪ E.erase v))
    (hfresh : ∀ j ∈ w'.fresh, j ∈ w.fresh ∧ j ∉ A)
    (hevicted : ∀ j ∈ w'.evicted, j ∈ w.evicted ∨ j ∈ E) (hfailed : w'.failed = w.failed) :
    Inv w' free (A ∪ E.erase v) R' := by
  have hrefs (j : xqindex) := refs_of_idle hidle j
  have hpending (j : xqindex) : (Pc.toPut v).pending j = if j = v ∧ v ∈ E then 1 else 0 := by
    rw [Pc.pending_toPut]
    refine if_congr (and_congr_right fun _ => ⟨hv.resolve_left, ?_⟩) rfl rfl
    rintro hmem rfl
    exact hi.stored.tables.noEntry_notMem hmem
  have hk (j : xqindex) : Client.refs ⟨held, .toPut v⟩ j = (w.clients i).held j +
      (if j ∈ A then n else 0) + if j = v ∧ v ∈ E then 1 else 0 := by
    rw [← hpending, ← hheld]
    rfl
  have hsub (j : xqindex) (hj : j ∈ A ∪ E.erase v ∨ j ∈ R' ∨
      0 < Client.refs ⟨held, .toPut v⟩ j) : j ∈ E ∨ j ∈ R ∨ 0 < (w.clients i).refs j := by
    rw [hrefs]
    have hAE {j : xqindex} (hj : j ∈ A) : j ∈ E ∨ j ∈ R ∨ 0 < (w.clients i).held j :=
      Or.inr (hA j hj).2
    rcases hj with hj | hj | hj
    · rcases Finset.mem_union.mp hj with hj | hj
      · exact hAE hj
      · exact Or.inl (Finset.mem_of_mem_erase hj)
    · rcases hR j hj with hj | hj
      · exact Or.inr (Or.inl hj)
      · exact Or.inl hj
    · rw [hk] at hj
      by_cases hjA : j ∈ A
      · exact hAE hjA
      by_cases hjv : j = v ∧ v ∈ E
      · exact Or.inl (hjv.1 ▸ hjv.2)
      rw [if_neg hjA, if_neg hjv] at hj
      exact Or.inr (Or.inr hj)
  have hused (j : xqindex) (hj : j ∈ A ∪ E.erase v ∨ j ∈ R') : j ∉ free := by
    rcases hsub j (hj.imp_right Or.inl) with h | h | h
    · exact hi.stored.entries_free j h
    · exact hi.stored.rm_free j h
    · exact (hi.used (Or.inr (Or.inr (Nat.lt_of_lt_of_le h (w.refs_le i j))))).2.1
  apply hi.locked (not_owns_of_idle hidle) (Pc.not_owns_toPut v) hw
    (hi.stored.of_frame hf ht hm hused) hf.nr_nodes hf.ops hsub
  · intro j
    rw [hrefs, href, hk]
    by_cases hjA : j ∈ A
    · have hjE := (hA j hjA).1
      have hjv : ¬ (j = v ∧ v ∈ E) := fun hand => hjE (hand.1 ▸ hand.2)
      rw [if_pos hjA, if_pos hjA, if_neg hjE, if_neg hjv,
        if_pos (Finset.mem_union_left _ hjA)]
      omega
    · rw [if_neg hjA, if_neg hjA]
      by_cases hjv : j = v
      · have hnot : j ∉ A ∪ E.erase v := by
          rw [Finset.mem_union, hjv]
          exact fun hmem => hmem.elim (hjv ▸ hjA) (Finset.notMem_erase v E)
        rw [if_neg hnot, hjv]
        by_cases hvE : v ∈ E
        · rw [if_pos hvE, if_pos ⟨rfl, hvE⟩]
          omega
        · rw [if_neg hvE, if_neg fun hand => hvE hand.2]
          omega
      · rw [if_neg fun hand : j = v ∧ _ => hjv hand.1]
        have hiff : j ∈ A ∪ E.erase v ↔ j ∈ E := by
          rw [Finset.mem_union, Finset.mem_erase]
          exact ⟨fun h => (h.resolve_left hjA).2, fun h => Or.inr ⟨hjv, h⟩⟩
        rw [if_congr hiff rfl rfl]
        omega
  · intro h hmem
    obtain ⟨hmem, hhA⟩ := hfresh h hmem
    obtain ⟨hE, hR'⟩ := hi.fresh_out hmem
    refine ⟨hmem, ?_, fun h' => (hR h h').elim hR' hE, ?_, ?_⟩
    · rw [Finset.mem_union]
      exact fun h' => h'.elim hhA fun h' => hE (Finset.mem_of_mem_erase h')
    · unfold Pc.toPut
      split
      · exact Pc.noConfusion
      · rename_i hne
        intro heq
        obtain rfl : v = h := Pc.putting.inj heq
        exact hE (hv.resolve_left hne)
    · intro hpos
      dsimp only at hpos
      rwa [hheld, if_neg hhA] at hpos
  · exact hevicted
  · exact hfailed

/-- An insertion that enters nothing, but may have made room for it. -/
theorem unentered (hi : Inv w free E R) (hidle : (w.clients i).pc = .idle) {result : InsertResult}
    (hv : result.lru = NoEntry ∨ result.lru ∈ E) (hR : ∀ j ∈ R', j ∈ R ∨ j ∈ E)
    (ht : Tables result.cache (E.erase result.lru) R')
    (hm : Ordered result.cache (E.erase result.lru)) (hq : Quiet w.cache result.cache)
    (hcache : w'.cache = result.announced)
    (hw : w'.clients = Function.update w.clients i
      ⟨hand (w.clients i).held NoEntry, .toPut result.lru⟩)
    (hfresh : ∀ j ∈ w'.fresh, j ∈ w.fresh) (hevicted : ∀ j ∈ w'.evicted, j ∈ w.evicted ∨ j ∈ E)
    (hfailed : w'.failed = w.failed) : Inv w' free (E.erase result.lru) R' := by
  rw [← Finset.empty_union (E.erase result.lru)] at ht hm ⊢
  apply hi.swapped (n := 0) hidle hw
  · intro j
    rw [hand_apply, if_neg (fun hand => hand.2 rfl)]
    rfl
  · intro j
    rw [hcache]
    exact congrArg UInt32.toNat (hq.ref j)
  · intro j hj
    cases hj
  · exact hv
  · exact hR
  · rw [hcache]
    exact hq.toFrame.trans (announced_frame result)
  · rw [hcache]
    exact announced_tables ht
  · rw [hcache]
    exact announced_ordered hm
  · intro j hj
    exact ⟨hfresh j hj, Finset.notMem_empty j⟩
  · exact hevicted
  · exact hfailed

theorem inserted (hi : Inv w free E R) (hidle : (w.clients i).pc = .idle) (hmem : h ∈ w.fresh)
    (hpos : 0 < (w.clients i).held h) {mem : InsertMemory} {result : InsertResult}
    (ho : InsertOutcome w.cache E R h mem result E' R')
    (htime : result.ret ≠ NoEntry → w.cache.TimeBelow)
    (hfound : ∀ idx ∈ E, (w.cache.nodes idx).name = (w.cache.nodes h).name → w.cache.RefRoom idx 1)
    (hback : ∀ idx ∈ R, (w.cache.nodes idx).name = (w.cache.nodes h).name → w.cache.RefRoom idx 2)
    (hnew : (∀ idx ∈ E, (w.cache.nodes idx).name ≠ (w.cache.nodes h).name) →
      (∀ idx ∈ R, (w.cache.nodes idx).name ≠ (w.cache.nodes h).name) → w.cache.RefRoom h 1)
    (hcache : w'.cache = result.announced)
    (hw : w'.clients = Function.update w.clients i
      ⟨if result.ret = h then (w.clients i).held else hand (w.clients i).held result.ret,
        .toPut result.lru⟩)
    (hfresh : w'.fresh = w.fresh.erase result.ret)
    (hevicted : w'.evicted = (if result.lru = NoEntry then w.evicted
      else Insert.insert result.lru w.evicted).erase result.reinsert)
    (hfailed : w'.failed = w.failed) : Inv w' free E' R' := by
  have hhE := (hi.fresh_out hmem).1
  have hhR := (hi.fresh_out hmem).2
  have hlow : h.toNat < w.cache.nr_nodes.toNat := by
    apply hi.known
    apply Nat.lt_of_lt_of_le hpos
    apply Nat.le_trans _ (w.refs_le i h)
    rw [refs_of_idle hidle]
  have hmem' {j : xqindex} (hj : j ∈ w'.fresh) : j ∈ w.fresh ∧ j ≠ result.ret := by
    rw [hfresh, Finset.mem_erase] at hj
    exact hj.symm
  have hleft {j : xqindex} (hlru : result.lru = NoEntry ∨ result.lru ∈ E) (hj : j ∈ w'.evicted) :
      j ∈ w.evicted ∨ j ∈ E := by
    rw [hevicted] at hj
    have hj := Finset.mem_of_mem_erase hj
    split at hj
    · exact Or.inl hj
    · rename_i hne
      rcases Finset.mem_insert.mp hj with rfl | hj
      · exact Or.inr (hlru.resolve_left hne)
      · exact Or.inl hj
  have hframe : Frame result.cache w'.cache := by
    rw [hcache]
    exact announced_frame result
  have hnodes (j : xqindex) : (w'.cache.nodes j).ref = (result.cache.nodes j).ref := by
    rw [hcache]
    rfl
  have htables {S T : Finset xqindex} (ht : Tables result.cache S T) : Tables w'.cache S T := by
    rw [hcache]
    exact announced_tables ht
  have hordered {S : Finset xqindex} (hm : Ordered result.cache S) : Ordered w'.cache S := by
    rw [hcache]
    exact announced_ordered hm
  cases ho with
  | @found idx hidx hname =>
    have hbelow := htime (ne_noEntry_of_low (hi.stored.tables.entries_low idx hidx))
    have hne : idx ≠ h := fun heq => hhE (heq ▸ hidx)
    apply hi.got hidle (Or.inl hidx) (hfound idx hidx hname)
    · rw [hw, if_neg hne]
      rfl
    · apply hi.stored.of_frame ((frame_entryGetAndUpdate _ idx).trans hframe)
        (htables (hi.stored.tables.touch idx))
      · have hm : Ordered (w.cache.entryGetAndUpdate idx) _ := hi.stored.ordered.touch hbelow
        rw [Finset.insert_eq_of_mem hidx] at hm
        exact hordered hm
      · intro j hj
        exact hj.elim (hi.stored.entries_free j) (hi.stored.rm_free j)
    · rw [hframe.nr_nodes]
      exact (frame_entryGetAndUpdate _ idx).nr_nodes
    · rw [hframe.ops]
      exact (frame_entryGetAndUpdate _ idx).ops
    · intro j
      rw [hnodes, entryGetAndUpdate_ref]
    · exact fun j hj => (hmem' hj).1
    · intro j hj
      rw [hevicted] at hj
      have hj := Finset.mem_of_mem_erase hj
      rwa [if_pos rfl] at hj
    · exact hfailed
  | @fresh v R' c' hE hR hv hent =>
    have hent := hent (htime (ne_noEntry_of_low hlow))
    rw [if_pos rfl] at hw
    rw [Finset.insert_eq]
    apply hi.swapped (n := 0) hidle hw
    · intro j
      rw [ite_self, Nat.add_zero]
    · intro j
      rw [hnodes, hent.ref]
      by_cases hj : j = h
      · rw [if_pos hj, if_pos (Finset.mem_singleton.mpr hj), hj, toNat_succ (hnew hE hR)]
      · rw [if_neg hj, if_neg fun hmem => hj (Finset.mem_singleton.mp hmem), UInt32.add_zero]
        rfl
    · intro j hj
      rw [Finset.mem_singleton.mp hj]
      exact ⟨hhE, Or.inr hpos⟩
    · exact hv.cases.1
    · exact hv.cases.2
    · exact hent.frame.trans hframe
    · rw [← Finset.insert_eq]
      exact htables hent.tables
    · rw [← Finset.insert_eq]
      exact hordered hent.ordered
    · intro j hj
      rw [Finset.mem_singleton]
      exact hmem' hj
    · exact fun j hj => hleft hv.cases.1 hj
    · exact hfailed
  | @back g v R' c1 c' hE hg hname hf href hcalls hv hent =>
    have hglow := hi.stored.tables.rm_low g hg
    have hgE : g ∉ E := fun hmem => Finset.disjoint_left.mp hi.stored.tables.disjoint hmem hg
    have hne : g ≠ h := fun heq => hhR (heq ▸ hg)
    have hgne := ne_noEntry_of_low hglow
    have hent := hent (htime hgne)
    rw [if_neg hne] at hw
    rw [Finset.insert_eq]
    apply hi.swapped (n := 1) hidle hw
    · intro j
      rw [hand_apply]
      refine congrArg _ (if_congr ?_ rfl rfl)
      rw [Finset.mem_singleton]
      exact ⟨And.left, fun hj => ⟨hj, hgne⟩⟩
    · intro j
      rw [hnodes, hent.ref, href]
      by_cases hj : j = g
      · rw [if_pos hj, if_pos (Finset.mem_singleton.mpr hj), hj, toNat_add_two (hback g hg hname)]
      · rw [if_neg hj, if_neg fun hmem => hj (Finset.mem_singleton.mp hmem), UInt32.add_zero,
          UInt32.add_zero]
        rfl
    · intro j hj
      rw [Finset.mem_singleton.mp hj]
      exact ⟨hgE, Or.inl hg⟩
    · exact hv.cases.1
    · intro j hj
      exact (hv.cases.2 j hj).imp_left Finset.mem_of_mem_erase
    · exact (hf.trans hent.frame).trans hframe
    · rw [← Finset.insert_eq]
      exact htables hent.tables
    · rw [← Finset.insert_eq]
      exact hordered hent.ordered
    · intro j hj
      rw [Finset.mem_singleton]
      exact hmem' hj
    · exact fun j hj => hleft hv.cases.1 hj
    · exact hfailed
  | @refused v R' c' hE hR hwhy hv ht hm hq =>
    have hcases : (v = NoEntry ∨ v ∈ E) ∧ ∀ j ∈ R', j ∈ R ∨ j ∈ E := by
      rcases hv with ⟨rfl, rfl⟩ | hv
      · exact ⟨Or.inl rfl, fun j hj => Or.inl hj⟩
      · exact hv.cases
    rw [if_neg (ne_noEntry_of_low hlow).symm] at hw
    exact hi.unentered hidle hcases.1 hcases.2 ht hm hq hcache hw (fun j hj => (hmem' hj).1)
      (fun j hj => hleft hcases.1 hj) hfailed

theorem looked (hi : Inv w free E R) (hidle : (w.clients i).pc = .idle) {name : CString}
    {ret : xcache_handler} (hrun : w.cache.lookup name = some (ret, c'))
    (htime : ret ≠ NoEntry → w.cache.TimeBelow)
    (hroom : ∀ idx ∈ E, (w.cache.nodes idx).name = name → w.cache.RefRoom idx 1) :
    ((ret ∈ E ∧ (w.cache.nodes ret).name = name ∧ c' = w.cache.entryGetAndUpdate ret) ∨
      ret = NoEntry ∧ (∀ idx ∈ E, (w.cache.nodes idx).name ≠ name) ∧ c' = w.cache) ∧
    Inv (w.act i c' ⟨hand (w.clients i).held ret, .idle⟩) free E R := by
  rcases lookupAndGet hi.stored.tables (.arg name) with ⟨idx, hidx, hname, hl⟩ | ⟨hno, hl⟩
  · rw [Xcache.lookup, hl] at hrun
    cases hrun
    have hbelow := htime (ne_noEntry_of_low (hi.stored.tables.entries_low ret hidx))
    have hframe : Frame w.cache (w.cache.entryGetAndUpdate ret) :=
      frame_entryGetAndUpdate _ ret
    refine ⟨Or.inl ⟨hidx, hname, rfl⟩, ?_⟩
    apply hi.got hidle (Or.inl hidx) (hroom ret hidx hname) rfl
    · apply hi.stored.of_frame hframe (hi.stored.tables.touch ret)
      · have hm : Ordered (w.cache.entryGetAndUpdate ret) _ := hi.stored.ordered.touch hbelow
        rwa [Finset.insert_eq_of_mem hidx] at hm
      · intro j hj
        exact hj.elim (hi.stored.entries_free j) (hi.stored.rm_free j)
    · exact hframe.nr_nodes
    · exact hframe.ops
    · exact fun j => entryGetAndUpdate_ref _ ret j
    · exact fun j hj => hj
    · exact fun j hj => hj
    · rfl
  · rw [Xcache.lookup, hl] at hrun
    cases hrun
    refine ⟨Or.inr ⟨rfl, hno, rfl⟩, ?_⟩
    have hheld : hand (w.clients i).held NoEntry = (w.clients i).held := if_pos rfl
    have hsame : (⟨(w.clients i).held, .idle⟩ : Client) = w.clients i := by rw [← hidle]
    have hw : w.act i w.cache (w.clients i) = w := by
      unfold World.act
      rw [Function.update_eq_self]
    rw [hheld, hsame, hw]
    exact hi

omit [DecidableEq ι] in
/-- A client that holds a new node is the only one, and nothing else refers to the node. -/
theorem fresh_refs (hi : Inv w free E R) (hidle : (w.clients i).pc = .idle) (hmem : h ∈ w.fresh)
    (hpos : 0 < (w.clients i).held h) : w.refs h = (w.clients i).held h := by
  rw [← refs_of_idle hidle]
  apply Finset.sum_eq_single_of_mem i (Finset.mem_univ i)
  intro j _ hj
  have hheld : (w.clients j).held h = 0 := by
    by_contra hne
    exact hj (hi.fresh_one hmem (Nat.pos_of_ne_zero hne) hpos)
  rw [Client.refs, hheld, Nat.zero_add]
  cases hpc : (w.clients j).pc with
  | putting k =>
    refine if_neg ?_
    rintro rfl
    exact hi.fresh_put hmem hpc
  | _ => rfl

theorem dropped (hi : Inv w free E R) (hidle : (w.clients i).pc = .idle) (hmem : h ∈ w.fresh)
    (hpos : 0 < (w.clients i).held h) :
    Inv (w.act i (w.cache.dropNew h)
      ⟨Function.update (w.clients i).held h 0, .freeing h true⟩) free E R := by
  obtain ⟨hE, hR⟩ := hi.fresh_out hmem
  have hrefs := hi.fresh_refs hidle hmem hpos
  have huse : h ∈ E ∨ h ∈ R ∨ 0 < w.refs h := Or.inr (Or.inr (hrefs ▸ hpos))
  obtain ⟨hlow, hnfree, hown⟩ := hi.used huse
  have hcount := hi.counted hlow (hi.not_spare huse)
  rw [if_neg hE, hrefs, Nat.zero_add] at hcount
  have hf : Frame w.cache (w.cache.dropNew h) := frame_modify w.cache h fun _ => rfl
  let k : Client := ⟨Function.update (w.clients i).held h 0, .idle⟩
  have hk (j : xqindex) : k.refs j = if j = h then 0 else (w.clients i).held j := by
    rw [refs_of_idle rfl]
    exact Function.update_apply _ _ _ _
  have hinv : Inv (w.act i (w.cache.dropNew h) k) free E R := by
    apply hi.locked (not_owns_of_idle hidle) (fun _ => id) rfl
    · apply hi.stored.of_frame hf (hi.stored.tables.congr hf rfl rfl)
      · exact hi.stored.ordered.congr hf rfl rfl
      · intro j hj
        exact hj.elim (hi.stored.entries_free j) (hi.stored.rm_free j)
    · rfl
    · rfl
    · intro j hj
      rcases hj with hj | hj | hj
      · exact Or.inl hj
      · exact Or.inr (Or.inl hj)
      · rw [hk] at hj
        by_cases heq : j = h
        · rw [if_pos heq] at hj
          cases hj
        · rw [if_neg heq] at hj
          rw [refs_of_idle hidle]
          exact Or.inr (Or.inr hj)
    · intro j
      change ((w.cache.dropNew h).nodes j).ref.toNat + _ + _ = _
      rw [hk, refs_of_idle hidle, dropNew_ref]
      by_cases hj : j = h
      · rw [if_pos hj, if_pos hj, hj, if_neg hE, hcount]
        change 0 + 0 + _ = _
        omega
      · rw [if_neg hj, if_neg hj]
    · intro g hg
      obtain ⟨hgE, hgR⟩ := hi.fresh_out hg
      refine ⟨hg, hgE, hgR, Pc.noConfusion, ?_⟩
      intro hheld
      by_cases heq : g = h
      · rwa [heq]
      · have hsame : k.held g = (w.clients i).held g := Function.update_of_ne heq _ _
        rwa [hsame] at hheld
    · exact fun g hg => Or.inl hg
    · rfl
  have hself : (w.act i (w.cache.dropNew h) k).clients i = k := Function.update_self ..
  have hclients : (w.act i (w.cache.dropNew h) ⟨k.held, .freeing h true⟩).clients =
      Function.update (w.act i (w.cache.dropNew h) k).clients i
        ⟨((w.act i (w.cache.dropNew h) k).clients i).held, .freeing h true⟩ := by
    rw [hself]
    exact (Function.update_idem _ _ _).symm
  refine hinv.release ?_ hlow hnfree hE hR ?_ ?_ hclients rfl rfl rfl rfl
  · rw [hself]
  · intro j
    by_cases hj : j = i
    · rw [hj, hself]
      exact id
    · have hsame : (w.act i (w.cache.dropNew h) k).clients j = w.clients j :=
        Function.update_of_ne hj _ _
      rw [hsame]
      exact hown j
  · exact (dropNew_ref w.cache h h).trans (if_pos rfl)

end Inv

inductive Change (w : World ι) (free : List xqindex) (E R : Finset xqindex) :
    ι × Event → List xqindex → Finset xqindex → Finset xqindex → Prop where
  | full {k} : free = [] → Change w free E R (k, .full) free E R
  | pop {k x l} : free = x :: l → Change w free E R (k, .pop x) l E R
  | init {k x name r} : (w.clients k).pc = .allocating x →
      Change w free E R (k, .init x name r) free E R
  | undo {k x} : Change w free E R (k, .undo x) (x :: free) E R
  | insert {k x mem ret lru reinsert S T} {result : InsertResult} :
      InsertOutcome w.cache E R x mem result S T → result.ret = ret → result.lru = lru →
      result.reinsert = reinsert → Change w free E R (k, .insert x mem ret lru reinsert) free S T
  | hit {k name ret} : ret ∈ E → (w.cache.nodes ret).name = name →
      Change w free E R (k, .lookup name ret) free E R
  | miss {k name} : (∀ x ∈ E, (w.cache.nodes x).name ≠ name) →
      Change w free E R (k, .lookup name NoEntry) free E R
  | get {k x} : Change w free E R (k, .get x) free E R
  | put {k x last T} : PutOutcome w.cache R x last T →
      Change w free E R (k, .put x last) free E T
  | settle {k x last T} : PutOutcome w.cache R x last T →
      Change w free E R (k, .settle x last) free E T
  | free {k x new} : Change w free E R (k, .free x new) (x :: free) E R
  | invalidate {k name x S T} : InvalidateOutcome w.cache E R name x S T →
      Change w free E R (k, .invalidate name 0 x) free S T
  | freeNew {k x} : Change w free E R (k, .freeNew x) free E R

structure Recorded (c : Xcache) (event : Event) (c' : Xcache) : Prop where
  nr_nodes : c'.nr_nodes = c.nr_nodes
  flags : c'.flags = c.flags
  ops : c'.ops = c.ops
  puts : c.ops.on_put = true → ∀ idx,
    c'.calls.count (.on_put idx) = c.calls.count (.on_put idx) + event.puts idx
  frees : c.ops.on_free = true → ∀ idx,
    c'.calls.count (.on_free idx) = c.calls.count (.on_free idx) + event.frees idx

theorem Recorded.of_other {event : Event} (hooks : List HookCall)
    (hnr : c'.nr_nodes = c.nr_nodes) (hflags : c'.flags = c.flags)
    (hops : c'.ops = c.ops) (hcalls : c'.calls = hooks ++ c.calls)
    (hother : ∀ idx, .on_put idx ∉ hooks ∧ .on_free idx ∉ hooks)
    (hnone : ∀ idx, event.puts idx = 0 ∧ event.frees idx = 0) : Recorded c event c' := by
  refine ⟨hnr, hflags, hops, fun _ idx => ?_, fun _ idx => ?_⟩
  · rw [hcalls, List.count_append, List.count_eq_zero_of_not_mem (hother idx).1, (hnone idx).1,
      Nat.zero_add, Nat.add_zero]
  · rw [hcalls, List.count_append, List.count_eq_zero_of_not_mem (hother idx).2, (hnone idx).2,
      Nat.zero_add, Nat.add_zero]

theorem Recorded.of_calls {event : Event} (hnr : c'.nr_nodes = c.nr_nodes)
    (hflags : c'.flags = c.flags) (hops : c'.ops = c.ops)
    (hcalls : c'.calls = c.calls) (hnone : ∀ idx, event.puts idx = 0 ∧ event.frees idx = 0) :
    Recorded c event c' := by
  apply Recorded.of_other [] hnr hflags hops hcalls _ hnone
  intro idx
  exact ⟨List.not_mem_nil, List.not_mem_nil⟩

theorem call_calls (c : Xcache) (set : Bool) (hook : HookCall) :
    (c.call set hook).calls = (if set then [hook] else []) ++ c.calls := by
  unfold call
  dsimp only
  split <;> rfl

theorem recorded_init (idx : xqindex) (name : CString) (r : Int) :
    Recorded c (.init idx name r) (c.entryInit idx name r).2 := by
  apply Recorded.of_other (if c.ops.on_init then [.on_init idx] else [])
  · rfl
  · rfl
  · rfl
  · exact call_calls _ _ _
  · intro j
    split <;> simp
  · exact fun _ => ⟨rfl, rfl⟩

theorem InsertOutcome.recorded {mem : InsertMemory} {result : InsertResult}
    (ho : InsertOutcome c E R h mem result E' R') (htime : result.ret ≠ NoEntry → c.TimeBelow)
    (ht : Tables c E R) (hh : h.toNat < c.nr_nodes.toNat) :
    Recorded c (.insert h mem result.ret result.lru result.reinsert) result.announced := by
  have hsame : result.cache.nr_nodes = c.nr_nodes ∧ result.cache.flags = c.flags ∧
      result.cache.ops = c.ops ∧ result.cache.calls = c.calls := by
    cases ho with
    | @found idx hidx =>
      have hbelow := htime (ne_noEntry_of_low (ht.entries_low _ hidx))
      have hf : Frame c (c.entryGetAndUpdate idx) := frame_entryGetAndUpdate c idx
      exact ⟨hf.nr_nodes, hf.flags, hf.ops, entryGetAndUpdate_calls c idx⟩
    | fresh _ _ _ hent =>
      have hent := hent (htime (ne_noEntry_of_low hh))
      exact ⟨hent.frame.nr_nodes, hent.frame.flags, hent.frame.ops, hent.calls⟩
    | back _ hg _ hf _ hcalls _ hent =>
      have hent := hent (htime (ne_noEntry_of_low (ht.rm_low _ hg)))
      exact ⟨hent.frame.nr_nodes.trans hf.nr_nodes, hent.frame.flags.trans hf.flags,
        hent.frame.ops.trans hf.ops, hent.calls.trans hcalls⟩
    | refused _ _ _ _ _ _ hq => exact ⟨hq.nr_nodes, hq.flags, hq.ops, hq.calls⟩
  obtain ⟨hnr, hflags, hops, hcalls⟩ := hsame
  apply Recorded.of_other
    ((if result.cache.ops.on_reinsert && result.reinsert != NoEntry then
      [.on_reinsert result.reinsert] else []) ++
      if result.cache.ops.on_evict && result.lru != NoEntry then [.on_evict result.lru] else [])
  · exact hnr
  · exact hflags
  · exact hops
  · rw [← hcalls, List.append_assoc, ← call_calls]
    exact call_calls _ _ _
  · intro j
    split <;> split <;> simp
  · exact fun _ => ⟨rfl, rfl⟩

theorem recorded_freeCacheEntry {event : Event} {idx : xqindex} (hooks : List HookCall)
    (hnr : c'.nr_nodes = c.nr_nodes) (hflags : c'.flags = c.flags) (hops : c'.ops = c.ops)
    (hcalls : c'.calls = hooks ++ c.calls)
    (hputs : c.ops.on_put = true → ∀ j, hooks.count (.on_put j) = event.puts j)
    (hfrees : ∀ j, .on_free j ∉ hooks ∧ event.frees j = if idx = j then 1 else 0) :
    Recorded c event (c'.freeCacheEntry idx) := by
  have hfree : (c'.freeCacheEntry idx).calls =
      (if c.ops.on_free then [.on_free idx] else []) ++ hooks ++ c.calls := by
    rw [List.append_assoc, ← hcalls, ← hops]
    exact call_calls _ _ _
  refine ⟨hnr, hflags, hops, fun hset j => ?_, fun hset j => ?_⟩
  · rw [hfree, List.count_append, List.count_append, hputs hset]
    have hnone : (if c.ops.on_free then [.on_free idx] else []).count (HookCall.on_put j) = 0 := by
      split <;> rfl
    omega
  · rw [hfree, if_pos hset, List.count_append, List.count_append,
      List.count_eq_zero_of_not_mem (hfrees j).1, (hfrees j).2, Nat.add_zero, Nat.add_comm]
    simp [List.count_singleton]

theorem recorded_free (idx : xqindex) (new : Bool) : Recorded c (.free idx new)
    (if new then c.freeCacheEntry idx else c.entryPutFree idx) := by
  cases new with
  | true =>
    exact recorded_freeCacheEntry [] rfl rfl rfl rfl (fun _ _ => rfl)
      fun j => ⟨List.not_mem_nil, rfl⟩
  | false =>
    refine recorded_freeCacheEntry (if c.ops.on_put then [.on_put idx] else []) rfl rfl rfl
      (call_calls c _ _) (fun hset j => ?_) fun j => ⟨?_, rfl⟩
    · rw [if_pos hset]
      simp [Event.puts, List.count_singleton]
    · split <;> simp

theorem recorded_undo (idx : xqindex) : Recorded c (.undo idx) (c.freeCacheEntry idx) :=
  recorded_freeCacheEntry [] rfl rfl rfl rfl (fun _ _ => rfl) fun _ => ⟨List.not_mem_nil, rfl⟩

theorem recorded_put {event : Event} {last : Bool} (ht : Tables c E R) (hm : Ordered c E)
    (hput : c.entryPutRef idx = some (last, c'))
    (hnone : ∀ idx, event.puts idx = 0 ∧ event.frees idx = 0) : Recorded c event c' := by
  obtain ⟨last', c1, R', hr, -, -, hf, -, -, hcalls, -⟩ := entryPutRef_spec ht hm idx
  rw [hput] at hr
  cases hr
  rcases hcalls with hcalls | hcalls
  · exact Recorded.of_calls hf.nr_nodes hf.flags hf.ops hcalls hnone
  · apply Recorded.of_other [.on_finalize idx] hf.nr_nodes hf.flags hf.ops hcalls _ hnone
    intro j
    simp

namespace Inv

omit [DecidableEq ι] in
theorem entryInit_stored (hi : Inv w free E R) (hpc : (w.clients i).pc = .allocating idx)
    {name : CString} {r r' : Int} (hrun : w.cache.entryInit idx name r = (r', c')) :
    Stored c' free E R ∧ c'.nr_nodes = w.cache.nr_nodes ∧ c'.ops = w.cache.ops ∧
      (c'.nodes idx).ref = 1 ∧ ∀ j, j ≠ idx → c'.nodes j = w.cache.nodes j := by
  obtain ⟨-, hfree, hE, hR⟩ := hi.out (Pc.owns_allocating hpc)
  let f : XcacheEntry → XcacheEntry := fun _ =>
    { ref := 1, state := .NODE_ACTIVE, name := name.take XSEG_MAX_TARGETLEN, h := NoNode }
  obtain rfl : (w.cache.modify idx f).call w.cache.ops.on_init (.on_init idx) = c' :=
    (Prod.ext_iff.mp hrun).2
  have hs := hi.stored
  have htables : Tables ((w.cache.modify idx f).call w.cache.ops.on_init (.on_init idx)) E R :=
    (hs.tables.modify hE hR f).congr ⟨rfl, rfl, rfl, rfl, rfl, fun _ => rfl⟩ rfl rfl
  have hordered : Ordered ((w.cache.modify idx f).call w.cache.ops.on_init (.on_init idx)) E :=
    (hs.ordered.modify f).congr ⟨rfl, rfl, rfl, rfl, rfl, fun _ => rfl⟩ rfl rfl
  refine ⟨⟨hs.queue, hs.window, hs.nodup, hs.low, htables, hordered, hs.entries_free,
    hs.rm_free⟩, rfl, rfl, ?_, ?_⟩
  · exact congrArg XcacheEntry.ref (modify_nodes_self w.cache idx f)
  · exact fun j hj => modify_nodes_of_ne w.cache f hj

theorem given_back (hi : Inv w free E R)
    (hpc : (w.clients i).pc = .undoing idx ∨ ∃ new, (w.clients i).pc = .freeing idx new)
    {c : Xcache} (hsame : Frame w.cache c)
    (hnodes : c.nodes = w.cache.nodes) (ht : Tables c E R) (hm : Ordered c E) :
    Inv (w.act i (c.freeCacheEntry idx) ⟨(w.clients i).held, .idle⟩) (idx :: free) E R := by
  have hown : (w.clients i).pc.Owns idx := by
    rcases hpc with h | ⟨new, h⟩ <;> rw [h] <;> exact rfl
  obtain ⟨hlow, hfree, hE, hR⟩ := hi.out hown
  have hs : Stored c free E R := hi.stored.of_frame hsame ht hm fun j hj =>
    hj.elim (hi.stored.entries_free j) (hi.stored.rm_free j)
  obtain ⟨-, -, hstored⟩ := hs.freeCacheEntry (hsame.nr_nodes ▸ hlow) hfree hE hR
  exact hi.give hpc rfl hstored hsame.nr_nodes hsame.ops hnodes rfl rfl rfl

theorem freed_back (hi : Inv w free E R) {new : Bool} (hpc : (w.clients i).pc = .freeing idx new) :
    Inv (w.act i (if new then w.cache.freeCacheEntry idx else w.cache.entryPutFree idx)
      ⟨(w.clients i).held, .idle⟩) (idx :: free) E R := by
  have hs := hi.stored
  cases new with
  | true =>
    exact hi.given_back (Or.inr ⟨true, hpc⟩) ⟨rfl, rfl, rfl, rfl, rfl, fun _ => rfl⟩ rfl
      hs.tables hs.ordered
  | false =>
    have hf : Frame w.cache (w.cache.call w.cache.ops.on_put (.on_put idx)) :=
      ⟨rfl, rfl, rfl, rfl, rfl, fun _ => rfl⟩
    exact hi.given_back (Or.inr ⟨false, hpc⟩) hf rfl (hs.tables.congr hf rfl rfl)
      (hs.ordered.congr hf rfl rfl)

theorem invalidated (hi : Inv w free E R) (w' : World ι) (hidle : (w.clients i).pc = .idle)
    {name : CString} {r : Int} (hrun : w.cache.invalidateRaw name = some (r, h, c'))
    (hclients : w'.clients = Function.update w.clients i ⟨(w.clients i).held, .toPut h⟩)
    (hcache : w'.cache = c') (hfresh : w'.fresh = w.fresh)
    (hevicted : ∀ j ∈ w'.evicted, j ∈ w.evicted) (hfailed : w'.failed = w.failed) :
    r = 0 ∧ Quiet w.cache c' ∧
      ∃ E' R', InvalidateOutcome w.cache E R name h E' R' ∧ Inv w' free E' R' := by
  obtain ⟨h', c1, E', R', hr, hq, ht, hm, ho⟩ :=
    invalidateRaw_spec hi.stored.tables hi.stored.ordered name
  rw [hrun, Option.some.injEq, Prod.mk.injEq, Prod.mk.injEq] at hr
  obtain ⟨rfl, rfl, rfl⟩ := hr
  subst hcache
  have hplace : (h = NoEntry ∨ h ∈ E) ∧ R' ⊆ R ∧ E' = ∅ ∪ E.erase h := by
    have hnone : E = ∅ ∪ E.erase NoEntry := by
      rw [Finset.empty_union, Finset.erase_eq_of_notMem hi.stored.tables.noEntry_notMem]
    cases ho with
    | cached hmem _ => exact ⟨Or.inr hmem, Finset.Subset.refl _, (Finset.empty_union _).symm⟩
    | removed => exact ⟨Or.inl rfl, Finset.erase_subset _ _, hnone⟩
    | unknown => exact ⟨Or.inl rfl, Finset.Subset.refl _, hnone⟩
  obtain ⟨hv, hR, rfl⟩ := hplace
  refine ⟨rfl, hq, _, R', ho, ?_⟩
  apply hi.swapped (n := 0) hidle hclients
  · intro j
    rfl
  · intro j
    rw [hq.ref]
    rfl
  · intro j hj
    cases hj
  · exact hv
  · exact fun j hj => Or.inl (hR hj)
  · exact hq.toFrame
  · exact ht
  · exact hm
  · intro j hj
    rw [hfresh] at hj
    exact ⟨hj, Finset.notMem_empty j⟩
  · exact fun j hj => Or.inl (hevicted j hj)
  · exact hfailed

theorem step (hi : Inv w free E R) {b : ι × Event} (hstep : World.Step w b w')
    (htime : b.2.InTime w.cache) (hnamed : b.2.Named w.cache) (hcount : b.2.Counts w.cache) :
    ∃ free' E' R', Change w free E R b free' E' R' ∧ Inv w' free' E' R' ∧
      Recorded w.cache b.2 w'.cache := by
  have hcached {name : NamePtr} {idx : xqindex} (hmem : idx ∈ E)
      (hname : (w.cache.nodes idx).name = name.read w.cache.nodes) : w.cache.Cached name idx :=
    hi.stored.tables.entries.holds.mpr ⟨hmem, hname⟩
  have hremoved {name : NamePtr} {idx : xqindex} (hmem : idx ∈ R)
      (hname : (w.cache.nodes idx).name = name.read w.cache.nodes) : w.cache.Removed name idx :=
    hi.stored.tables.rm_entries.holds.mpr ⟨hmem, hname⟩
  cases hstep with
  | @full i cache hidle hpop =>
    rcases hi.stored.allocCacheEntry with ⟨hnil, hr⟩ | ⟨x, l, q, -, hne, hr, -⟩
    · rw [hpop] at hr
      obtain rfl : cache = w.cache := (Prod.ext_iff.mp hr).2
      have hw : w.act i w.cache (w.clients i) = w := by
        unfold World.act
        rw [Function.update_eq_self]
      refine ⟨free, E, R, .full hnil, ?_, Recorded.of_calls rfl rfl rfl rfl fun _ => ⟨rfl, rfl⟩⟩
      rwa [hw]
    · rw [hpop] at hr
      exact absurd (Prod.ext_iff.mp hr).1.symm hne
  | @pop i idx cache hidle hpop hne =>
    rcases hi.stored.allocCacheEntry with ⟨-, hr⟩ | ⟨x, l, q, rfl, -, hr, hstored⟩
    · rw [hpop] at hr
      exact absurd (Prod.ext_iff.mp hr).1 hne
    · rw [hpop] at hr
      obtain ⟨rfl, rfl⟩ := Prod.mk.injEq .. ▸ hr
      exact ⟨l, E, R, .pop rfl, hi.pop hidle rfl hstored rfl rfl rfl rfl rfl rfl,
        Recorded.of_calls rfl rfl rfl rfl fun _ => ⟨rfl, rfl⟩⟩
  | @init i idx name r r' cache hpc hrun hr =>
    obtain ⟨hstored, hnr, hops, hone, href⟩ := hi.entryInit_stored hpc hrun
    refine ⟨free, E, R, .init hpc, hi.init hpc rfl hstored hnr hops hone href rfl rfl rfl, ?_⟩
    obtain rfl : (w.cache.entryInit idx name r).2 = cache := by rw [hrun]
    exact recorded_init idx name r
  | @fail i idx name r r' cache hpc hrun hr =>
    obtain ⟨hstored, hnr, hops, -, href⟩ := hi.entryInit_stored hpc hrun
    refine ⟨free, E, R, .init hpc, hi.fail hpc rfl hstored hnr hops href rfl rfl rfl, ?_⟩
    obtain rfl : (w.cache.entryInit idx name r).2 = cache := by rw [hrun]
    exact recorded_init idx name r
  | @undo i idx hpc =>
    have hs := hi.stored
    exact ⟨idx :: free, E, R, .undo, hi.given_back (Or.inl hpc)
      ⟨rfl, rfl, rfl, rfl, rfl, fun _ => rfl⟩ rfl hs.tables hs.ordered, recorded_undo idx⟩
  | @insert i h mem result hidle hmem hpos hrun =>
    obtain ⟨hroomy, henough, hmalloc⟩ := hcount
    obtain ⟨hfound, hback, hnew⟩ := hi.stored.tables.roomy hroomy
    have hlow : h.toNat < w.cache.nr_nodes.toNat := by
      apply hi.known
      apply Nat.lt_of_lt_of_le hpos
      rw [hi.fresh_refs hidle hmem hpos]
    have hvictim (hno : ∀ idx ∈ E, (w.cache.nodes idx).name ≠ (w.cache.nodes h).name)
        (hfull : w.cache.size.toNat ≤ w.cache.entries.used) : VictimCached w.cache E := by
      have hnot (idx : xqindex) : ¬ w.cache.Cached (.node h) idx := by
        rw [Cached, hi.stored.tables.entries.holds]
        exact fun hand => hno idx hand.1 hand.2
      exact (hnamed hnot hfull).imp_right (hi.stored.tables.cached_iff _).mp
    obtain ⟨res, E', R', hr, ho⟩ := insertRaw_spec hi.stored.tables hi.stored.ordered hlow hvictim
      hmalloc fun g hg hname => henough g (hremoved hg hname)
    rw [hrun, Option.some.injEq] at hr
    subst hr
    refine ⟨free, E', R', .insert ho rfl rfl rfl, ?_, ho.recorded htime hi.stored.tables hlow⟩
    exact hi.inserted hidle hmem hpos ho htime hfound hback hnew rfl rfl rfl rfl rfl
  | @lookup i name ret cache hidle hrun =>
    obtain ⟨hcase, hinv⟩ := hi.looked hidle hrun htime
      fun idx hidx hname => hcount.1 idx (hcached hidx hname)
    rcases hcase with ⟨hmem, hname, rfl⟩ | ⟨rfl, hno, rfl⟩
    · have hbelow := htime (ne_noEntry_of_low (hi.stored.tables.entries_low ret hmem))
      have hframe : Frame w.cache (w.cache.entryGetAndUpdate ret) := frame_entryGetAndUpdate _ ret
      exact ⟨free, E, R, .hit hmem hname, hinv, Recorded.of_calls hframe.nr_nodes hframe.flags hframe.ops
        (entryGetAndUpdate_calls _ ret) fun _ => ⟨rfl, rfl⟩⟩
    · exact ⟨free, E, R, .miss hno, hinv, Recorded.of_calls rfl rfl rfl rfl fun _ => ⟨rfl, rfl⟩⟩
  | @get i h hidle hpos =>
    refine ⟨free, E, R, .get, ?_, Recorded.of_calls rfl rfl rfl rfl fun _ => ⟨rfl, rfl⟩⟩
    have hf : Frame w.cache (w.cache.entryGet h) := frame_modify w.cache h fun _ => rfl
    apply hi.got hidle (Or.inr hpos) hcount.1 rfl
    · apply hi.stored.of_frame hf (hi.stored.tables.congr hf rfl rfl)
      · exact hi.stored.ordered.congr hf rfl rfl
      · intro j hj
        exact hj.elim (hi.stored.entries_free j) (hi.stored.rm_free j)
    · rfl
    · rfl
    · exact fun j => entryGet_ref w.cache h j
    · exact fun j hj => hj
    · exact fun j hj => hj
    · rfl
  | @put i h last cache hidle hpos hput =>
    obtain ⟨R', ho, hinv⟩ := hi.gave
      (k := ⟨Function.update (w.clients i).held h ((w.clients i).held h - 1), .idle⟩)
      (not_owns_of_idle hidle) (by rwa [refs_of_idle hidle]) hput rfl
      (fun j => by
        rw [refs_of_idle rfl, refs_of_idle hidle]
        dsimp only
        rw [Function.update_apply]
        by_cases hj : j = h
        · rw [if_pos hj, if_pos hj, hj]
          omega
        · rw [if_neg hj, if_neg hj, Nat.add_zero])
      (fun j => by
        dsimp only
        rw [Function.update_apply]
        by_cases hj : j = h
        · rw [if_pos hj, hj]
          omega
        · rw [if_neg hj])
    exact ⟨free, E, R', .put ho, hinv,
      recorded_put hi.stored.tables hi.stored.ordered hput fun _ => ⟨rfl, rfl⟩⟩
  | @settle i idx last cache hpc hput =>
    have hrefs (j : xqindex) :
        (w.clients i).refs j = (w.clients i).held j + if j = idx then 1 else 0 := by
      rw [Client.refs, hpc]
      exact congrArg _ (if_congr eq_comm rfl rfl)
    obtain ⟨R', ho, hinv⟩ := hi.gave (k := ⟨(w.clients i).held, .idle⟩)
      (fun j => by rw [hpc]; exact id) (by rw [hrefs, if_pos rfl]; omega) hput rfl
      (fun j => by rw [hrefs, refs_of_idle rfl]) (fun j => Nat.le_refl _)
    exact ⟨free, E, R', .settle ho, hinv,
      recorded_put hi.stored.tables hi.stored.ordered hput fun _ => ⟨rfl, rfl⟩⟩
  | @free i idx new hpc =>
    exact ⟨idx :: free, E, R, .free, hi.freed_back hpc, recorded_free idx new⟩
  | @invalidate i name r h cache hidle hrun =>
    obtain ⟨rfl, hq, E', R', ho, hinv⟩ := hi.invalidated
      { w.act i cache ⟨(w.clients i).held, .toPut h⟩ with
        evicted := w.evicted.erase (w.cache.detached name) } hidle hrun rfl rfl rfl
      (fun j hj => Finset.mem_of_mem_erase hj) rfl
    exact ⟨free, E', R', .invalidate ho, hinv,
      Recorded.of_calls hq.nr_nodes hq.flags hq.ops hq.calls fun _ => ⟨rfl, rfl⟩⟩
  | @freeNew i h hidle hmem hpos =>
    exact ⟨free, E, R, .freeNew, hi.dropped hidle hmem hpos,
      Recorded.of_calls rfl rfl rfl rfl fun _ => ⟨rfl, rfl⟩⟩

omit [DecidableEq ι] in
theorem named (hi : Inv w free E R) (harray : w.cache.has XCACHE_LRU_ARRAY = true)
    (event : Event) : event.Named w.cache := by
  have hcached := ((hi.stored.ordered harray).victimCached hi.stored.tables.entries_low).imp_right
    (hi.stored.tables.cached_iff _).mpr
  cases event with
  | insert => exact fun _ _ => hcached
  | _ => trivial

end Inv

end Xcache

end Libxseg
