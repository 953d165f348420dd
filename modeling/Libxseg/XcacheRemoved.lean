import Libxseg.XcacheCapacity

/-!
# Evicted nodes and the table they wait in

A put that drops the last reference takes a mapping out of `rm_entries` by name. The
mapping may be that of a later node of the same name, which is then not found any more,
or there may be none, and the node is not freed. Each of the two results here needs the
put to find the right mapping; what else it needs is in `Event.Counts`.
-/

namespace Libxseg

set_option autoImplicit false

namespace Xcache

variable {ι : Type} [Fintype ι] [DecidableEq ι] {w w' : World ι} {c : Xcache}
  {free free' : List xqindex} {E R E' R' : Finset xqindex} {i : ι} {idx h v : xqindex}

/-- A put that drops the last reference to a node finds its mapping in `rm_entries`, or none. -/
def Event.OwnName (c : Xcache) : Event → Prop
  | put h _ | settle h _ => (c.nodes h).ref = 1 → ∀ g, c.Removed (.node h) g → g = h
  | _ => True

instance (c : Xcache) : (event : Event) → Decidable (event.OwnName c)
  | .put h _ | .settle h _ => inferInstanceAs (Decidable
    ((c.nodes h).ref = 1 → ∀ g, c.Removed (.node h) g → g = h))
  | .full | .pop _ | .init .. | .undo _ | .insert .. | .lookup .. | .get _ | .free .. |
    .invalidate .. | .freeNew _ => isTrue trivial

structure Findable (w : World ι) : Prop where
  mapped : ∀ v ∈ w.evicted, 0 < (w.cache.nodes v).ref → w.cache.Removed (.node v) v
  returned : ∀ v ∈ w.evicted, 0 < (w.cache.nodes v).ref → ∀ i h (mem : InsertMemory),
    (w.clients i).pc = .idle → h ∈ w.fresh → 0 < (w.clients i).held h →
    (w.cache.nodes h).name = (w.cache.nodes v).name → mem.Enough w.cache → mem.victim ≠ none →
    ∃ result, w.cache.insertRaw h mem = some result ∧ result.ret = v

structure Late (w : World ι) (E R : Finset xqindex) : Prop where
  fresh : ∀ v ∈ w.evicted, v ∉ w.fresh
  out : ∀ v ∈ w.evicted, v ∉ E
  removed : ∀ v ∈ w.evicted, 0 < w.refs v → v ∈ R

theorem detached_of_removed (ht : Tables c E R)
    {name : CString} (hE : ∀ j ∈ E, (c.nodes j).name ≠ name) (hmem : idx ∈ R)
    (hname : (c.nodes idx).name = name) : c.detached name = idx := by
  rcases ht.entries.tableLookup (.arg name) with ⟨j, hj, hjn, -⟩ | ⟨-, hl⟩
  · exact absurd hjn (hE j hj)
  rcases ht.rm_entries.tableLookup (.arg name) with ⟨j, hj, hjn, hlr⟩ | ⟨hno, -⟩
  · obtain rfl := ht.rm_entries.name_inj hj hmem (hjn.trans hname.symm)
    rw [detached, lookupEntries, hl, if_pos rfl, lookupRm, hlr]
    rfl
  · exact absurd hname (hno idx hmem)

omit [Fintype ι] [DecidableEq ι] in
theorem Pc.pending_afterPut (h idx : xqindex) (last : Bool) : (Pc.afterPut h last).pending idx = 0 := by
  unfold Pc.afterPut
  split <;> rfl

omit [Fintype ι] in
theorem put_refs {client : Client} {last : Bool} (hpos : 0 < client.held h) (j : xqindex) :
    Client.refs ⟨Function.update client.held h (client.held h - 1), .afterPut h last⟩ j +
      (if j = h then 1 else 0) = client.held j := by
  rw [Client.refs, Pc.pending_afterPut]
  dsimp only
  rw [Function.update_apply]
  by_cases hj : j = h
  · rw [if_pos hj, if_pos hj, hj]
    omega
  · rw [if_neg hj, if_neg hj]
    rfl

theorem World.refs_act (w : World ι) (i : ι) (cache : Xcache) (k : Client) (idx : xqindex) :
    (w.act i cache k).refs idx + (w.clients i).refs idx = w.refs idx + k.refs idx :=
  World.refs_update rfl idx

theorem inserted_refs {held : xqindex → Nat} {ret lru : xcache_handler} (idx : xqindex) :
    Client.refs ⟨if ret = h then held else hand held ret, .toPut lru⟩ idx =
      held idx + (if idx = ret ∧ ret ≠ NoEntry ∧ ret ≠ h then 1 else 0) +
        if idx = lru ∧ lru ≠ NoEntry then 1 else 0 := by
  rw [Client.refs, Pc.pending_toPut]
  dsimp only
  refine congrArg (· + _) ?_
  by_cases hret : ret = h
  · rw [if_pos hret, if_neg (fun hand => hand.2.2 hret), Nat.add_zero]
  · rw [if_neg hret, hand_apply]
    refine congrArg _ (if_congr ?_ rfl rfl)
    exact ⟨fun hand => ⟨hand.1, hand.2, hret⟩, fun hand => ⟨hand.1, hand.2.1⟩⟩

/-- What an insertion does to a node that is neither inserted nor taken back. -/
theorem InsertOutcome.others {mem : InsertMemory} {result : InsertResult}
    (ho : InsertOutcome c E R h mem result E' R') (ht : Tables c E R) (hhE : h ∉ E) (hhR : h ∉ R)
    (hrm : c.has XCACHE_USE_RMTABLE = true) :
    (result.lru = NoEntry ∨ result.lru ∈ E ∧ result.lru ∉ E' ∧ result.lru ∈ R') ∧
      (result.reinsert = NoEntry → result.ret = NoEntry ∨ result.ret = h ∨ result.ret ∈ E) ∧
      (result.reinsert ≠ NoEntry → result.ret = result.reinsert) ∧
      (∀ v, v ∈ E' → v ∈ E ∨ v = h ∨ v = result.reinsert) ∧
      ∀ v, v ∈ R → v ≠ result.reinsert → v ∈ R' := by
  have hlru {R₀ : Finset xqindex} {lru g : xqindex} (hv : Victim c E R₀ R' lru) (hg : g ∉ E) :
      (lru = NoEntry ∨ lru ∈ E ∧ lru ∉ insert g (E.erase lru) ∧ lru ∈ R') ∧
        ∀ v ∈ R₀, v ∈ R' := by
    rcases hv with ⟨-, hnone, rfl⟩ | ⟨-, -, hmem, rfl⟩
    · exact ⟨Or.inl hnone, fun v hv => hv⟩
    · rw [rmAfter, if_pos hrm]
      refine ⟨Or.inr ⟨hmem, ?_, Finset.mem_insert_self _ _⟩,
        fun v hv => Finset.mem_insert_of_mem hv⟩
      rw [Finset.mem_insert]
      rintro (rfl | hmem')
      · exact hg hmem
      · exact Finset.notMem_erase _ _ hmem'
  have hE {g lru v : xqindex} (hv : v ∈ insert g (E.erase lru)) : v ∈ E ∨ v = g := by
    rcases Finset.mem_insert.mp hv with rfl | hv
    · exact Or.inr rfl
    · exact Or.inl (Finset.mem_of_mem_erase hv)
  cases ho with
  | found hidx =>
    exact ⟨Or.inl rfl, fun _ => Or.inr (Or.inr hidx), fun hne => absurd rfl hne,
      fun v hv => Or.inl hv, fun v hv _ => hv⟩
  | fresh _ _ hv _ =>
    obtain ⟨hleft, hkeep⟩ := hlru hv hhE
    exact ⟨hleft, fun _ => Or.inr (Or.inl rfl), fun hne => absurd rfl hne,
      fun v hv => (hE hv).imp_right Or.inl, fun v hv _ => hkeep v hv⟩
  | back _ hg _ _ _ _ hv _ =>
    have hgE := fun hmem => Finset.disjoint_left.mp ht.disjoint hmem hg
    obtain ⟨hleft, hkeep⟩ := hlru hv hgE
    refine ⟨hleft, fun hnone => absurd hnone (ne_noEntry_of_low (ht.rm_low _ hg)), fun _ => rfl,
      fun v hv => (hE hv).imp_right Or.inr, ?_⟩
    intro v hv hne
    exact hkeep v (Finset.mem_erase.mpr ⟨hne, hv⟩)
  | refused _ _ _ hv _ _ _ =>
    refine ⟨?_, fun _ => Or.inl rfl, fun hne => absurd rfl hne,
      fun v hv => Or.inl (Finset.mem_of_mem_erase hv), ?_⟩
    · rcases hv with ⟨hnone, -⟩ | hv
      · exact Or.inl hnone
      · refine (hlru hv hhE).1.imp_right ?_
        rintro ⟨hmem, hout, hin⟩
        exact ⟨hmem, fun hmem' => hout (Finset.mem_insert_of_mem hmem'), hin⟩
    · intro v hmem _
      rcases hv with ⟨-, rfl⟩ | hv
      · exact hmem
      · exact (hlru hv hhE).2 v hmem

/-- A step that leaves the tables alone, and gives nobody a first reference to an evicted node. -/
theorem Late.same (hj : Late w E R) {k : Client}
    (hclients : w'.clients = Function.update w.clients i k)
    (hevicted : ∀ v ∈ w'.evicted, v ∈ w.evicted) (hfresh : w'.fresh = w.fresh)
    (hk : ∀ v ∈ w.evicted, k.refs v ≤ (w.clients i).refs v ∨ 0 < (w.clients i).refs v) :
    Late w' E R := by
  constructor
  · intro v hv
    rw [hfresh]
    exact hj.fresh v (hevicted v hv)
  · exact fun v hv => hj.out v (hevicted v hv)
  · intro v hv hpos
    have hv := hevicted v hv
    apply hj.removed v hv
    have hsum := World.refs_update hclients v
    have hle := w.refs_le i v
    rcases hk v hv with hk | hk <;> omega

/-- A put: the caller has one reference less, and a mapping may go. -/
theorem Late.put (hj : Late w E R) (hi : Inv w free E R) {last : Bool} {k : Client}
    (ho : PutOutcome w.cache R idx last R')
    (hown : (w.cache.nodes idx).ref = 1 → ∀ g, w.cache.Removed (.node idx) g → g = idx)
    (hclients : w'.clients = Function.update w.clients i k)
    (hk : ∀ j, k.refs j + (if j = idx then 1 else 0) = (w.clients i).refs j)
    (hevicted : w'.evicted = w.evicted) (hfresh : w'.fresh = w.fresh) : Late w' E R' := by
  have hsum (v : xqindex) : w'.refs v + (if v = idx then 1 else 0) = w.refs v := by
    have hk := hk v
    have hsum := World.refs_update hclients v
    omega
  have hkeep : ∀ v ∈ R, 0 < w'.refs v → v ∈ R' := by
    intro v hv hpos
    cases ho with
    | more => exact hv
    | last => exact hv
    | stuck => exact hv
    | @removed g hzero _ hg hname =>
      refine Finset.mem_erase.mpr ⟨?_, hv⟩
      rintro rfl
      -- the mapping that goes is the node's own, and this was the last reference
      have hone : (w.cache.nodes idx).ref = 1 := by
        rw [← UInt32.sub_add_cancel (w.cache.nodes idx).ref 1, hzero]
        rfl
      obtain rfl := hown hone v (hi.stored.tables.rm_entries.holds.mpr ⟨hg, hname⟩)
      have huse := hi.used (Or.inr (Or.inl hv))
      have hcount := hi.counted huse.1 (hi.not_spare (Or.inr (Or.inl hv)))
      have hsum := hsum v
      rw [hone] at hcount
      rw [if_pos rfl] at hsum
      change 1 = _ at hcount
      omega
  constructor
  · intro v hv
    rw [hevicted] at hv
    rw [hfresh]
    exact hj.fresh v hv
  · intro v hv
    rw [hevicted] at hv
    exact hj.out v hv
  · intro v hv hpos
    rw [hevicted] at hv
    have hsum := hsum v
    exact hkeep v (hj.removed v hv (by omega)) hpos

theorem Late.insert (hj : Late w E R) (hi : Inv w free E R) (hidle : (w.clients i).pc = .idle)
    (hfresh : h ∈ w.fresh) (hrm : w.cache.has XCACHE_USE_RMTABLE = true) {mem : InsertMemory}
    {result : InsertResult} (ho : InsertOutcome w.cache E R h mem result E' R')
    (hclients : w'.clients = Function.update w.clients i
      ⟨if result.ret = h then (w.clients i).held else hand (w.clients i).held result.ret,
        .toPut result.lru⟩)
    (hw : w'.fresh = w.fresh.erase result.ret)
    (hevicted : w'.evicted = (if result.lru = NoEntry then w.evicted
      else Insert.insert result.lru w.evicted).erase result.reinsert) : Late w' E' R' := by
  obtain ⟨hhE, hhR⟩ := hi.fresh_out hfresh
  obtain ⟨hlru, hret, hback, hE, hR⟩ := ho.others hi.stored.tables hhE hhR hrm
  have hmem {v : xqindex} (hv : v ∈ w'.evicted) : v ≠ result.reinsert ∧
      (v = result.lru ∧ result.lru ∈ E ∧ result.lru ∉ E' ∧ result.lru ∈ R' ∨ v ∈ w.evicted) := by
    rw [hevicted, Finset.mem_erase] at hv
    obtain ⟨hne, hv⟩ := hv
    refine ⟨hne, ?_⟩
    split at hv
    · exact Or.inr hv
    · rename_i hsome
      rcases Finset.mem_insert.mp hv with rfl | hv
      · exact Or.inl ⟨rfl, hlru.resolve_left hsome⟩
      · exact Or.inr hv
  have hsub {v : xqindex} (hv : v ∈ w'.fresh) : v ∈ w.fresh := by
    rw [hw] at hv
    exact Finset.mem_of_mem_erase hv
  constructor
  · intro v hv hmem'
    rcases (hmem hv).2 with ⟨rfl, hin, -⟩ | hold
    · exact (hi.fresh_out (hsub hmem')).1 hin
    · exact hj.fresh v hold (hsub hmem')
  · intro v hv hmem'
    obtain ⟨hne, ⟨rfl, -, hout, -⟩ | hold⟩ := hmem hv
    · exact hout hmem'
    · rcases hE v hmem' with hin | rfl | heq
      · exact hj.out v hold hin
      · exact hj.fresh v hold hfresh
      · exact hne heq
  · intro v hv hpos
    obtain ⟨hne, ⟨rfl, -, -, hin⟩ | hold⟩ := hmem hv
    · exact hin
    by_cases hv' : v = result.lru ∧ result.lru ≠ NoEntry
    · rw [hv'.1]
      exact (hlru.resolve_left hv'.2).2.2
    -- nobody was handed the node
    have hnot : ¬ (v = result.ret ∧ result.ret ≠ NoEntry ∧ result.ret ≠ h) := by
      rintro ⟨rfl, hsome, hother⟩
      by_cases hnone : result.reinsert = NoEntry
      · rcases hret hnone with hr | hr | hr
        · exact hsome hr
        · exact hother hr
        · exact hj.out _ hold hr
      · exact hne (hback hnone)
    have hsum := World.refs_update hclients v
    rw [inserted_refs, if_neg hnot, if_neg hv', refs_of_idle hidle] at hsum
    exact hR v (hj.removed v hold (by omega)) hne

theorem Late.invalidate (hj : Late w E R) (hi : Inv w free E R)
    (hidle : (w.clients i).pc = .idle) {name : CString}
    (ho : InvalidateOutcome w.cache E R name h E' R')
    (hclients : w'.clients = Function.update w.clients i ⟨(w.clients i).held, .toPut h⟩)
    (hw : w'.fresh = w.fresh)
    (hevicted : w'.evicted = w.evicted.erase (w.cache.detached name)) : Late w' E' R' := by
  have hmem {v : xqindex} (hv : v ∈ w'.evicted) : v ≠ w.cache.detached name ∧ v ∈ w.evicted := by
    rwa [hevicted, Finset.mem_erase] at hv
  have hEsub : ∀ v ∈ E', v ∈ E := by
    intro v hv
    cases ho with
    | cached => exact Finset.mem_of_mem_erase hv
    | removed => exact hv
    | unknown => exact hv
  constructor
  · intro v hv
    rw [hw]
    exact hj.fresh v (hmem hv).2
  · intro v hv hmem'
    exact hj.out v (hmem hv).2 (hEsub v hmem')
  · intro v hv hpos
    obtain ⟨hne, hv⟩ := hmem hv
    have hsum := World.refs_update hclients v
    rw [refs_of_idle hidle, Client.refs, Pc.pending_toPut] at hsum
    dsimp only at hsum
    have hpos : 0 < w.refs v := by
      by_cases hv' : v = h ∧ h ≠ NoEntry
      · cases ho with
        | cached hin => exact absurd hin (hv'.1 ▸ hj.out v hv)
        | removed => exact absurd rfl hv'.2
        | unknown => exact absurd rfl hv'.2
      · rw [if_neg hv'] at hsum
        omega
    have hin := hj.removed v hv hpos
    cases ho with
    | cached => exact hin
    | unknown => exact hin
    | removed hno hidx hname =>
      refine Finset.mem_erase.mpr ⟨?_, hin⟩
      rwa [detached_of_removed hi.stored.tables hno hidx hname] at hne

theorem Late.step (hj : Late w E R) (hi : Inv w free E R) {b : ι × Event}
    (hstep : World.Step w b w') (hc : Change w free E R b free' E' R')
    (hrm : w.cache.has XCACHE_USE_RMTABLE = true) (hown : b.2.OwnName w.cache) :
    Late w' E' R' := by
  cases hstep with
  | full hidle hpop =>
    cases hc
    exact hj.same rfl (fun _ hv => hv) rfl fun v _ => Or.inl (Nat.le_refl _)
  | @pop i idx cache hidle hpop hne =>
    cases hc
    refine hj.same rfl (fun _ hv => hv) rfl fun v _ => Or.inl ?_
    rw [refs_of_idle hidle]
    exact Nat.le_refl _
  | @init i idx name r r' cache hpc hrun hr =>
    cases hc
    have hout := hi.out (Pc.owns_allocating hpc)
    have hmem {v : xqindex} (hv : v ∈ w.evicted.erase idx) : v ≠ idx ∧ v ∈ w.evicted :=
      Finset.mem_erase.mp hv
    constructor
    · intro v hv hfresh
      rcases Finset.mem_insert.mp hfresh with heq | hfresh
      · exact (hmem hv).1 heq
      · exact hj.fresh v (hmem hv).2 hfresh
    · exact fun v hv => hj.out v (hmem hv).2
    · intro v hv hpos
      obtain ⟨hne, hv⟩ := hmem hv
      have hsum := World.refs_act w i cache ⟨hand (w.clients i).held idx, .idle⟩ v
      rw [refs_of_idle (k := ⟨hand (w.clients i).held idx, .idle⟩) rfl, Client.refs, hpc] at hsum
      dsimp only at hsum
      rw [hand_apply, if_neg fun hand => hne hand.1] at hsum
      apply hj.removed v hv
      change 0 < (w.act i cache ⟨hand (w.clients i).held idx, .idle⟩).refs v at hpos
      omega
  | @fail i idx name r r' cache hpc hrun hr =>
    cases hc
    refine hj.same rfl (fun _ hv => Finset.mem_of_mem_erase hv) rfl fun v _ => Or.inl ?_
    rw [Client.refs, Client.refs, hpc]
    exact Nat.le_refl _
  | @undo i idx hpc =>
    cases hc
    refine hj.same rfl (fun _ hv => hv) rfl fun v _ => Or.inl ?_
    rw [Client.refs, Client.refs, hpc]
    exact Nat.le_refl _
  | @insert i h mem result hidle hmem hpos hrun =>
    cases hc with
    | @insert _ _ _ _ _ _ _ _ result' ho hret hlru hreinsert =>
      refine hj.insert hi hidle hmem hrm ho ?_ ?_ ?_
      · rw [hret, hlru]
        rfl
      · rw [hret]
      · rw [hlru, hreinsert]
  | @lookup i name ret cache hidle hrun =>
    have hnot : ret ∉ w.evicted ∨ ret = NoEntry := by
      cases hc with
      | hit hret _ => exact Or.inl fun hv => hj.out ret hv hret
      | miss => exact Or.inr rfl
    have hsame : free' = free ∧ E' = E ∧ R' = R := by
      cases hc with
      | hit => exact ⟨rfl, rfl, rfl⟩
      | miss => exact ⟨rfl, rfl, rfl⟩
    obtain ⟨-, rfl, rfl⟩ := hsame
    refine hj.same rfl (fun _ hv => hv) rfl fun v hv => Or.inl ?_
    rw [refs_of_idle hidle, refs_of_idle rfl]
    dsimp only
    rw [hand_apply, if_neg]
    · exact Nat.le_refl _
    · rintro ⟨rfl, hne⟩
      exact hnot.elim (fun h => h hv) hne
  | @get i h hidle hpos =>
    cases hc
    refine hj.same rfl (fun _ hv => hv) rfl fun v _ => ?_
    rw [refs_of_idle hidle, refs_of_idle rfl]
    dsimp only
    rw [hand_apply]
    by_cases hv : v = h
    · exact Or.inr (hv ▸ hpos)
    · rw [if_neg fun hand => hv hand.1]
      exact Or.inl (Nat.le_refl _)
  | @put i h last cache hidle hpos hput =>
    cases hc with
    | put ho =>
      refine hj.put hi ho hown rfl (fun j => ?_) rfl rfl
      rw [refs_of_idle hidle]
      exact put_refs hpos j
  | @settle i idx last cache hpc hput =>
    cases hc with
    | settle ho =>
      refine hj.put hi ho hown rfl (fun j => ?_) rfl rfl
      rw [Client.refs, Client.refs, hpc, Pc.pending_afterPut]
      exact congrArg _ (if_congr eq_comm rfl rfl)
  | @free i idx new hpc =>
    cases hc
    refine hj.same rfl (fun _ hv => hv) rfl fun v _ => Or.inl ?_
    rw [Client.refs, Client.refs, hpc]
    exact Nat.le_refl _
  | @invalidate i name r h cache hidle hrun =>
    cases hc with
    | invalidate ho => exact hj.invalidate hi hidle ho rfl rfl rfl
  | @freeNew i h hidle hmem hpos =>
    cases hc
    refine hj.same rfl (fun _ hv => hv) rfl fun v _ => Or.inl ?_
    rw [refs_of_idle hidle, Client.refs]
    dsimp only
    rw [Function.update_apply]
    split
    · exact Nat.zero_le _
    · exact Nat.le_refl _

omit [Fintype ι] in
theorem Change.evicted_low {b : ι × Event} (hc : Change w free E R b free' E' R')
    (ht : Tables w.cache E R) (hstep : World.Step w b w')
    (hlow : ∀ v ∈ w.evicted, v.toNat < w.cache.nr_nodes.toNat) :
    ∀ v ∈ w'.evicted, v.toNat < w.cache.nr_nodes.toNat := by
  cases hstep with
  | init => exact fun v hv => hlow v (Finset.mem_of_mem_erase hv)
  | fail => exact fun v hv => hlow v (Finset.mem_of_mem_erase hv)
  | invalidate => exact fun v hv => hlow v (Finset.mem_of_mem_erase hv)
  | @insert i h mem result =>
    cases hc with
    | @insert _ _ _ _ _ _ _ _ result' ho hret hlru hreinsert =>
      have hmem : result.lru = NoEntry ∨ result.lru ∈ E := by
        rw [← hlru]
        cases ho with
        | found => exact Or.inl rfl
        | fresh _ _ hv => exact hv.cases.1
        | back _ _ _ _ _ _ hv => exact hv.cases.1
        | refused _ _ _ hv => exact hv.elim (fun hnone => Or.inl hnone.1) fun hv => hv.cases.1
      intro v hv
      have hv := Finset.mem_of_mem_erase hv
      split at hv
      · exact hlow v hv
      · rename_i hne
        rcases Finset.mem_insert.mp hv with rfl | hv
        · exact ht.entries_low _ (hmem.resolve_left hne)
        · exact hlow v hv
  | _ => exact hlow

omit [DecidableEq ι] in
theorem Late.findable (hj : Late w E R) (hi : Inv w free E R)
    (harray : w.cache.has XCACHE_LRU_ARRAY = true)
    (hlow : ∀ v ∈ w.evicted, v.toNat < w.cache.nr_nodes.toNat) : Findable w := by
  have ht := hi.stored.tables
  have hin {v : xqindex} (hv : v ∈ w.evicted) (hpos : 0 < (w.cache.nodes v).ref) : v ∈ R := by
    have hspare : ¬ w.Spare free v := by
      intro hspare
      rw [hi.zero (Or.inr hv) (hlow v hv) hspare] at hpos
      exact absurd hpos (UInt32.lt_irrefl 0)
    have hcount := hi.counted (hlow v hv) hspare
    rw [if_neg (hj.out v hv)] at hcount
    have hpos := UInt32.lt_iff_toNat_lt.mp hpos
    change 0 < _ at hpos
    exact hj.removed v hv (by omega)
  constructor
  · intro v hv hpos
    exact ht.rm_entries.holds.mpr ⟨hin hv hpos, rfl⟩
  · intro v hv hpos i h mem hidle hmem hheld hname henough hvictim
    have hvR := hin hv hpos
    have hlow : h.toNat < w.cache.nr_nodes.toNat := by
      apply hi.known
      apply Nat.lt_of_lt_of_le hheld
      rw [hi.fresh_refs hidle hmem hheld]
    obtain ⟨result, E', R', hr, ho⟩ := insertRaw_spec ht hi.stored.ordered hlow
      (fun _ _ => (hi.stored.ordered harray).victimCached ht.entries_low)
      (fun _ _ => hvictim) fun _ _ _ => henough
    refine ⟨result, hr, ?_⟩
    cases ho with
    | found hidx hidxn => exact absurd (hidxn.trans hname) (ht.apart _ hidx v hvR)
    | fresh _ hno => exact absurd hname.symm (hno v hvR)
    | back _ hg hgn => exact ht.rm_entries.name_inj hg hvR (hgn.trans hname)
    | refused _ hno => exact absurd hname.symm (hno v hvR)

/-- Evicted nodes stay findable, if every last put finds the mapping of its own node. -/
theorem run_findable [Builtins] {w₀ : World ι} {as : List (ι × Event)} (hs : Start w₀)
    (harray : w₀.cache.has XCACHE_LRU_ARRAY = true)
    (hrm : w₀.cache.has XCACHE_USE_RMTABLE = true)
    (hrun : Run (Guarded World.Step fun w b =>
      b.2.InTime w.cache ∧ b.2.Counts w.cache ∧ b.2.OwnName w.cache) w₀ as w) : Findable w := by
  have hinv := hrun.invariant (I := fun w => w.cache.flags = w₀.cache.flags ∧
    (∀ v ∈ w.evicted, v.toNat < w.cache.nr_nodes.toNat) ∧
      ∃ free E R, Inv w free E R ∧ Late w E R) ?_ ?_
  · obtain ⟨hflags, hlow, free, E, R, hi, hj⟩ := hinv
    exact hj.findable hi (by rwa [has, hflags]) hlow
  · rintro w b w' ⟨hflags, hlow, free, E, R, hi, hj⟩ ⟨⟨htime, hcount, hown⟩, hstep⟩
    have harray : w.cache.has XCACHE_LRU_ARRAY = true := by rwa [has, hflags]
    have hrm : w.cache.has XCACHE_USE_RMTABLE = true := by rwa [has, hflags]
    obtain ⟨free', E', R', hc, hi', hrec⟩ := hi.step hstep htime (hi.named harray b.2) hcount
    refine ⟨hrec.flags.trans hflags, ?_, free', E', R', hi', hj.step hi hstep hc hrm hown⟩
    rw [hrec.nr_nodes]
    exact hc.evicted_low hi.stored.tables hstep hlow
  · refine ⟨rfl, ?_, _, _, _, hs.inv, ?_⟩
    · rw [hs.evicted]
      exact fun v hv => absurd hv (Finset.notMem_empty v)
    · constructor <;> rw [hs.evicted] <;> exact fun v hv => absurd hv (Finset.notMem_empty v)

def nameC : CString := ⟨[99, 50], by decide, by decide⟩

/-- A run with an eviction, after which the evicted node has a reference. -/
theorem run_findable_evicted : ∃ (_ : Builtins) (w₀ w : World Unit) (as : List (Unit × Event)),
    (Start w₀ ∧ w₀.cache.has XCACHE_LRU_ARRAY = true ∧ w₀.cache.has XCACHE_USE_RMTABLE = true ∧
      Run (Guarded World.Step fun w b =>
        b.2.InTime w.cache ∧ b.2.Counts w.cache ∧ b.2.OwnName w.cache) w₀ as w ∧
      0 ∈ w.evicted ∧ 0 < (w.cache.nodes 0).ref) ∧ Findable w := by
  let _ : Builtins := ⟨0⟩
  let events : List Event := [.pop 0, .init 0 nameA 0, .insert 0 plenty 0 NoEntry NoEntry, .pop 1,
    .init 1 nameB 0, .insert 1 plenty 1 0 NoEntry, .settle 0 false]
  have hsome : (trial (fun w event => w.Early ∧ event.Counts w.cache ∧ event.OwnName w.cache) 1
      (XCACHE_LRU_ARRAY ||| XCACHE_USE_RMTABLE) events).any (fun w =>
        0 ∈ w.evicted ∧ 0 < (w.cache.nodes 0).ref) = true := by decide +kernel
  obtain ⟨w₀, w, hs, hflags, hrun, hcheck⟩ := run_of_trial hsome
  have harray : w₀.cache.has XCACHE_LRU_ARRAY = true := by rw [has, hflags]; decide
  have hrm : w₀.cache.has XCACHE_USE_RMTABLE = true := by rw [has, hflags]; decide
  have hrun : Run (Guarded World.Step fun w b => b.2.InTime w.cache ∧ b.2.Counts w.cache ∧
      b.2.OwnName w.cache) w₀ _ w :=
    World.run_guard (fun b hb w hok => ⟨hok.1.inTime b.2, hok.2⟩) hrun
  exact ⟨_, w₀, w, _, ⟨hs, harray, hrm, hrun, of_decide_eq_true hcheck⟩,
    run_findable hs harray hrm hrun⟩

/-- A late put of an invalidated node takes the mapping of an evicted one of the same name. -/
theorem not_run_findable : ¬ ∀ [Builtins] (w₀ w : World Unit) (as : List (Unit × Event)),
    Start w₀ → w₀.cache.has XCACHE_LRU_ARRAY = true → w₀.cache.has XCACHE_USE_RMTABLE = true →
    Run (Guarded World.Step fun w b => b.2.InTime w.cache ∧ b.2.Counts w.cache) w₀ as w →
    Findable w := by
  let _ : Builtins := ⟨0⟩
  intro hall
  let events : List Event := [.pop 0, .init 0 nameA 0, .insert 0 plenty 0 NoEntry NoEntry,
    .invalidate nameA 0 0, .settle 0 false, .pop 3, .init 3 nameA 0,
    .insert 3 plenty 3 NoEntry NoEntry, .pop 2, .init 2 nameB 0,
    .insert 2 plenty 2 NoEntry NoEntry, .pop 1, .init 1 nameC 0, .insert 1 plenty 1 3 NoEntry,
    .settle 3 false, .put 0 true, .free 0 false, .pop 0, .init 0 nameA 0]
  have hsome : (trial (fun w event => w.Early ∧ event.Counts w.cache) 2
      (XCACHE_LRU_ARRAY ||| XCACHE_USE_RMTABLE) events).any (fun w =>
        3 ∈ w.evicted ∧ 0 < (w.cache.nodes 3).ref ∧ (w.clients ()).pc = .idle ∧ 0 ∈ w.fresh ∧
          0 < (w.clients ()).held 0 ∧ (w.cache.nodes 0).name = (w.cache.nodes 3).name ∧
          plenty.Enough w.cache ∧
            (w.cache.insertRaw 0 plenty).all fun result => result.ret ≠ 3) = true := by
    decide +kernel
  obtain ⟨w₀, w, hs, hflags, hrun, hcheck⟩ := run_of_trial hsome
  have harray : w₀.cache.has XCACHE_LRU_ARRAY = true := by rw [has, hflags]; decide
  have hrm : w₀.cache.has XCACHE_USE_RMTABLE = true := by rw [has, hflags]; decide
  have hrun : Run (Guarded World.Step fun w b => b.2.InTime w.cache ∧ b.2.Counts w.cache) w₀ _ w :=
    World.run_guard (fun b hb w hok => ⟨hok.1.inTime b.2, hok.2⟩) hrun
  obtain ⟨hmem, href, hidle, hfresh, hpos, hname, henough, hne⟩ := of_decide_eq_true hcheck
  obtain ⟨result, hr, hret⟩ := (hall w₀ w _ hs harray hrm hrun).returned 3 hmem href () 0 plenty
    hidle hfresh hpos hname henough (Option.some_ne_none _)
  rw [hr] at hne
  exact of_decide_eq_true hne hret

end Xcache

end Libxseg
