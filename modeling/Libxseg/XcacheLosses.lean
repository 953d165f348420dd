import Mathlib.Data.Fintype.Option
import Libxseg.XcacheCounts

/-!
# The cache when memory runs out

An insertion that finds no memory on its way can forget a reference: that of its victim,
if `rm_entries` cannot take it, or that of an entry it has taken back. The node is then
referred to for ever. `haunted` gives such references to one more client that never
calls, and `Inv.step_lossy` is the step lemma for events that need not complete: the
invariant holds of the world with that client.
-/

namespace Libxseg

set_option autoImplicit false

namespace Xcache

variable {ι : Type} [Fintype ι] [DecidableEq ι] {w w' : World ι} {c c' : Xcache}
  {free : List xqindex} {E R E' R' : Finset xqindex} {i : ι} {idx h v : xqindex}
  {g : xqindex → Nat}

def World.haunted (w : World ι) (g : xqindex → Nat) : World (Option ι) :=
  ⟨w.cache, fun j => j.elim ⟨g, .idle⟩ w.clients, w.fresh, w.evicted, w.failed⟩

omit [Fintype ι] in
theorem World.haunted_clients {k : Client} (hw : w'.clients = Function.update w.clients i k) :
    (w'.haunted g).clients = Function.update (w.haunted g).clients (some i) k := by
  funext j
  cases j with
  | none => exact (Function.update_of_ne (Option.some_ne_none i).symm _ _).symm
  | some j =>
    change w'.clients j = _
    rw [hw]
    by_cases hj : j = i
    · rw [hj, Function.update_self, Function.update_self]
    · rw [Function.update_of_ne hj, Function.update_of_ne fun heq => hj (Option.some.inj heq)]
      rfl

omit [Fintype ι] in
theorem World.haunted_act (w : World ι) (i : ι) (c : Xcache) (k : Client) :
    (w.act i c k).haunted g = (w.haunted g).act (some i) c k := by
  have hclients : ((w.act i c k).haunted g).clients =
      Function.update (w.haunted g).clients (some i) k := World.haunted_clients rfl
  unfold World.act
  rw [← hclients]
  rfl

omit [Fintype ι] in
/-- The steps of the world are steps of the world with that client. -/
theorem World.Step.haunted {event : Event} (hstep : World.Step w (i, event) w')
    (g : xqindex → Nat) : World.Step (w.haunted g) (some i, event) (w'.haunted g) := by
  have hact (c : Xcache) (k : Client) (fresh evicted failed : Finset xqindex) :
      World.haunted { w.act i c k with fresh := fresh, evicted := evicted, failed := failed } g =
        { (w.haunted g).act (some i) c k with
          fresh := fresh, evicted := evicted, failed := failed } := by
    rw [← World.haunted_act]
    rfl
  cases hstep with
  | full hidle hpop =>
    rw [World.haunted_act]
    exact .full hidle hpop
  | pop hidle hpop hne =>
    rw [World.haunted_act]
    exact .pop hidle hpop hne
  | init hpc hrun hr =>
    rw [hact]
    exact .init hpc hrun hr
  | fail hpc hrun hr =>
    rw [hact]
    exact .fail hpc hrun hr
  | undo hpc =>
    rw [World.haunted_act]
    exact .undo hpc
  | insert hidle hmem hpos hrun =>
    rw [hact]
    exact .insert hidle hmem hpos hrun
  | lookup hidle hrun =>
    rw [World.haunted_act]
    exact .lookup hidle hrun
  | get hidle hpos =>
    rw [World.haunted_act]
    exact .get hidle hpos
  | put hidle hpos hput =>
    rw [World.haunted_act]
    exact .put hidle hpos hput
  | settle hpc hput =>
    rw [World.haunted_act]
    exact .settle hpc hput
  | free hpc =>
    rw [World.haunted_act]
    exact .free hpc
  | invalidate hidle hrun =>
    rw [hact]
    exact .invalidate hidle hrun
  | freeNew hidle hmem hpos =>
    rw [World.haunted_act]
    exact .freeNew hidle hmem hpos

theorem of_pos_ite {p : Prop} [Decidable p] (h : 0 < if p then 1 else 0) : p := by
  by_contra hp
  rw [if_neg hp] at h
  exact Nat.lt_irrefl 0 h

omit [Fintype ι] [DecidableEq ι] in
theorem LostOutcome.frame {mem : InsertMemory} {result : InsertResult}
    (ho : LostOutcome c E R h mem result E' R') : Frame c result.cache := by
  cases ho with
  | victim _ _ _ _ _ hq => exact hq.toFrame
  | back hr _ _ _ _ _ hq => exact hr.frame.trans hq.toFrame
  | both hr _ _ _ _ _ hq => exact hr.frame.trans hq.toFrame

namespace Inv

/-- References that are counted and that nobody has go to the client who does not call. -/
theorem strayed (hi : Inv (w.haunted g) free E R) {k : xqindex → Nat}
    (hk : ∀ j, 0 < k j → j ∈ E ∨ j ∈ R) (hE : E' ⊆ E) (hR : R' ⊆ R) (hf : Frame w.cache c')
    (ht : Tables c' E' R') (hm : Ordered c' E')
    (hbal : ∀ j, (c'.nodes j).ref.toNat + (if j ∈ E then 1 else 0) =
      (w.cache.nodes j).ref.toNat + (if j ∈ E' then 1 else 0) + k j) :
    Inv (World.haunted { w with cache := c' } fun j => g j + k j) free E' R' := by
  have hidle : ((w.haunted g).clients none).pc = .idle := rfl
  have hrefs (f : xqindex → Nat) (j : xqindex) : Client.refs ⟨f, .idle⟩ j = f j := rfl
  apply hi.locked (i := none) (k := ⟨fun j => g j + k j, .idle⟩) (not_owns_of_idle hidle)
    (not_owns_of_idle rfl)
  · funext j
    cases j with
    | none => rw [Function.update_self]; rfl
    | some j => rw [Function.update_of_ne (Option.some_ne_none j)]; rfl
  · apply hi.stored.of_frame hf ht hm
    intro j hj
    exact hj.elim (fun hj => hi.stored.entries_free j (hE hj)) fun hj =>
      hi.stored.rm_free j (hR hj)
  · exact hf.nr_nodes
  · exact hf.ops
  · intro j hj
    rcases hj with hj | hj | hj
    · exact Or.inl (hE hj)
    · exact Or.inr (Or.inl (hR hj))
    · rw [hrefs] at hj
      by_cases hpos : 0 < k j
      · exact (hk j hpos).imp_right Or.inl
      · refine Or.inr (Or.inr ?_)
        change 0 < g j
        omega
  · intro j
    have hj := hbal j
    change (c'.nodes j).ref.toNat + _ + g j = (w.cache.nodes j).ref.toNat + _ + (g j + k j)
    omega
  · intro j hj
    obtain ⟨hjE, hjR⟩ := hi.fresh_out hj
    refine ⟨hj, fun hmem => hjE (hE hmem), fun hmem => hjR (hR hmem), Pc.noConfusion, ?_⟩
    intro hpos
    have hnone : ¬ 0 < k j := fun hk' => (hk j hk').elim hjE hjR
    change 0 < g j + k j at hpos
    change 0 < g j
    omega
  · exact fun j hj => Or.inl hj
  · rfl

/-- An insertion that loses a reference keeps the invariant, with more for the client who does
not call. -/
theorem lost (hi : Inv (w.haunted g) free E R) (hidle : (w.clients i).pc = .idle)
    (hh : h ≠ NoEntry) {mem : InsertMemory} {result : InsertResult}
    (ho : LostOutcome w.cache E R h mem result E' R')
    (hback : ∀ idx ∈ R, (w.cache.nodes idx).name = (w.cache.nodes h).name → w.cache.RefRoom idx 1)
    (hcache : w'.cache = result.announced)
    (hw : w'.clients = Function.update w.clients i
      ⟨if result.ret = h then (w.clients i).held else hand (w.clients i).held result.ret,
        .toPut result.lru⟩)
    (hfresh : w'.fresh = w.fresh.erase result.ret)
    (hevicted : w'.evicted = (if result.lru = NoEntry then w.evicted
      else Insert.insert result.lru w.evicted).erase result.reinsert)
    (hfailed : w'.failed = w.failed) : ∃ g', Inv (w'.haunted g') free E' R' := by
  have hret : result.ret = NoEntry := by
    cases ho <;> rfl
  rw [hret] at hw hfresh
  rw [if_neg hh.symm] at hw
  -- once the lost references are given away, nothing is entered
  have hend {c1 : Xcache} {E₁ R₁ R₂ : Finset xqindex} {g' : xqindex → Nat}
      (hi₁ : Inv (World.haunted { w with cache := c1 } g') free E₁ R₁) (hq : Quiet c1 result.cache)
      (hv : result.lru = NoEntry ∨ result.lru ∈ E₁) (hR : ∀ j ∈ R₂, j ∈ R₁ ∨ j ∈ E₁)
      (ht : Tables result.cache (E₁.erase result.lru) R₂)
      (hm : Ordered result.cache (E₁.erase result.lru)) :
      Inv (w'.haunted g') free (E₁.erase result.lru) R₂ := by
    apply hi₁.unentered (i := some i) hidle hv hR ht hm hq hcache
    · exact World.haunted_clients (w := { w with cache := c1 }) hw
    · intro j hj
      change j ∈ w'.fresh at hj
      rw [hfresh] at hj
      exact Finset.mem_of_mem_erase hj
    · intro j hj
      change j ∈ w'.evicted at hj
      rw [hevicted] at hj
      have hj := Finset.mem_of_mem_erase hj
      split at hj
      · exact Or.inl hj
      · rename_i hne
        rcases Finset.mem_insert.mp hj with rfl | hj
        · exact Or.inr (hv.resolve_left hne)
        · exact Or.inl hj
    · exact hfailed
  have hdone {E₁ R₁ : Finset xqindex} {g' : xqindex → Nat}
      (hi₁ : Inv (World.haunted { w with cache := result.cache } g') free E₁ R₁)
      (hlru : result.lru = NoEntry) : Inv (w'.haunted g') free E₁ R₁ := by
    have ht : Tables result.cache E₁ R₁ := hi₁.stored.tables
    have hsame : E₁.erase result.lru = E₁ := by
      rw [hlru]
      exact Finset.erase_eq_of_notMem ht.noEntry_notMem
    have hinv := hend hi₁ (Quiet.refl _) (Or.inl hlru) (fun j hj => Or.inl hj) (by rwa [hsame])
      (by rw [hsame]; exact hi₁.stored.ordered)
    rwa [hsame] at hinv
  have hleft {u j : xqindex} (hu : u ∈ E) : (if j ∈ E then 1 else 0) =
      (if j ∈ E.erase u then 1 else 0) + if j = u then 1 else 0 := by
    by_cases hj : j = u
    · rw [if_pos hj, hj, if_pos hu, if_neg (Finset.notMem_erase u E)]
    · rw [if_neg hj, if_congr (Finset.mem_erase.trans (and_iff_right hj)) rfl rfl]
      rfl
  have hback' {g : xqindex} {c1 : Xcache} (hr : Reclaimed w.cache E R g c1)
      (hname : (w.cache.nodes g).name = (w.cache.nodes h).name) (j : xqindex) :
      (c1.nodes j).ref.toNat = (w.cache.nodes j).ref.toNat + if j = g then 1 else 0 := by
    rw [hr.ref]
    by_cases hj : j = g
    · rw [if_pos hj, if_pos hj, hj, toNat_succ (hback g hr.mem hname)]
    · rw [if_neg hj, if_neg hj, UInt32.add_zero]
      rfl
  cases ho with
  | @victim c' hno hdrops hmem ht hm hq =>
    have hi₁ := hi.strayed (k := fun j => if j = w.cache.lru.1 then 1 else 0)
      (fun j hj => Or.inl (of_pos_ite hj ▸ hmem)) (Finset.erase_subset _ _)
      (Finset.Subset.refl _) hq.toFrame ht hm
      (fun j => by
        rw [hq.ref, hleft hmem]
        omega)
    exact ⟨_, hdone hi₁ rfl⟩
  | @back b v R' c1 c' hr hname hwhy hv ht hm hq =>
    have hi₁ := hi.strayed (k := fun j => if j = b then 1 else 0)
      (fun j hj => Or.inr (of_pos_ite hj ▸ hr.mem)) (Finset.Subset.refl _)
      (Finset.erase_subset _ _) hr.frame hr.tables hr.ordered
      (fun j => by
        rw [hback' hr hname]
        omega)
    have hcases : (v = NoEntry ∨ v ∈ E) ∧ ∀ j ∈ R', j ∈ R.erase b ∨ j ∈ E := by
      rcases hv with ⟨rfl, rfl⟩ | hv
      · exact ⟨Or.inl rfl, fun j hj => Or.inl hj⟩
      · exact hv.cases
    exact ⟨_, hend hi₁ hq hcases.1 hcases.2 ht hm⟩
  | @both b c1 c' hr hname hdrops hmem ht hm hq =>
    have hi₁ := hi.strayed
      (k := fun j => (if j = w.cache.lru.1 then 1 else 0) + if j = b then 1 else 0)
      (fun j hj => by
        rcases Nat.add_pos_iff_pos_or_pos.mp hj with hj | hj
        · exact Or.inl (of_pos_ite hj ▸ hmem)
        · exact Or.inr (of_pos_ite hj ▸ hr.mem))
      (Finset.erase_subset _ _) (Finset.erase_subset _ _) (hr.frame.trans hq.toFrame) ht hm
      (fun j => by
        rw [hq.ref, hback' hr hname, hleft hmem]
        omega)
    exact ⟨_, hdone hi₁ rfl⟩

/-- What an insertion does to the nodes in the tables, whatever memory it finds. -/
theorem step_insert (hi : Inv (w.haunted g) free E R)
    (harray : w.cache.has XCACHE_LRU_ARRAY = true) {mem : InsertMemory}
    {ret lru reinsert : xcache_handler}
    (hstep : World.Step w (i, .insert h mem ret lru reinsert) w')
    (htime : Event.InTime w.cache (.insert h mem ret lru reinsert))
    (hroomy : Event.Roomy w.cache (.insert h mem ret lru reinsert)) :
    ∃ result E' R' g', w.cache.insertRaw h mem = some result ∧ result.ret = ret ∧
      result.lru = lru ∧ w'.cache = result.announced ∧
      (InsertOutcome w.cache E R h mem result E' R' ∨ LostOutcome w.cache E R h mem result E' R') ∧
      h ≠ NoEntry ∧ w'.cache.flags = w.cache.flags ∧ Inv (w'.haunted g') free E' R' := by
  have ht := hi.stored.tables
  have hm := hi.stored.ordered
  obtain ⟨hfound, hback, hnew⟩ := ht.roomy hroomy
  cases hstep with
  | @insert i h mem result hidle hfresh hpos hrun =>
    have hidle' : ((w.haunted g).clients (some i)).pc = .idle := hidle
    have hlow : h.toNat < w.cache.nr_nodes.toNat := by
      apply hi.known
      apply Nat.lt_of_lt_of_le hpos
      rw [hi.fresh_refs hidle' hfresh hpos]
      rfl
    have hh := ne_noEntry_of_low hlow
    obtain ⟨res, E', R', hr, ho⟩ := insertRaw_cases ht hm hlow mem
      fun _ _ => (hm harray).victimCached ht.entries_low
    obtain rfl : result = res := Option.some.inj (hrun.symm.trans hr)
    have hinv : ∃ g', Inv (World.haunted { w.act i result.announced
        ⟨if result.ret = h then (w.clients i).held else hand (w.clients i).held result.ret,
          .toPut result.lru⟩ with
        fresh := w.fresh.erase result.ret
        evicted := (if result.lru = NoEntry then w.evicted
          else Insert.insert result.lru w.evicted).erase result.reinsert } g') free E' R' := by
      rcases ho with ho | ho
      · exact ⟨g, hi.inserted (i := some i) hidle' hfresh hpos ho htime hfound hback hnew rfl
          (World.haunted_clients rfl) rfl rfl rfl⟩
      · refine hi.lost hidle hh ho ?_ rfl rfl rfl rfl rfl
        intro idx hidx hname
        have hroom : w.cache.RefRoom idx 2 := hback idx hidx hname
        unfold RefRoom at hroom ⊢
        omega
    have hflags : result.announced.flags = w.cache.flags := by
      rcases ho with ho | ho
      · exact (ho.recorded htime ht hlow).flags
      · exact ho.frame.flags
    obtain ⟨g', hinv⟩ := hinv
    exact ⟨result, E', R', g', hr, rfl, rfl, rfl, ho, hh, hflags, hinv⟩

theorem step_lossy (hi : Inv (w.haunted g) free E R)
    (harray : w.cache.has XCACHE_LRU_ARRAY = true) {event : Event}
    (hstep : World.Step w (i, event) w') (htime : event.InTime w.cache)
    (hroomy : event.Roomy w.cache) :
    ∃ g' free' E' R', Inv (w'.haunted g') free' E' R' ∧ w'.cache.flags = w.cache.flags := by
  have hother (hcomplete : event.Completes w.cache) :
      ∃ g' free' E' R', Inv (w'.haunted g') free' E' R' ∧ w'.cache.flags = w.cache.flags := by
    obtain ⟨free', E', R', -, hi', hrec⟩ :=
      hi.step (hstep.haunted g) htime (hi.named harray event) ⟨hroomy, hcomplete⟩
    exact ⟨g, free', E', R', hi', hrec.flags⟩
  cases event with
  | insert h mem ret lru reinsert =>
    obtain ⟨result, E', R', g', -, -, -, -, -, -, hflags, hi'⟩ :=
      hi.step_insert harray hstep htime hroomy
    exact ⟨g', free, E', R', hi', hflags⟩
  | _ => exact hother trivial

end Inv

end Xcache

end Libxseg
