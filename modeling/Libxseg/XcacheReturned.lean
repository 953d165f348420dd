import Libxseg.XcacheRemoved

/-!
# Nodes go back

A run is watched by a tally of the last puts. Every node is somewhere: in the queue, in
`entries`, referred to, or in the hands of a call; and a last put that finds a mapping in
`rm_entries` sends the node back. One that finds none leaves the node nowhere.
-/

namespace Libxseg

set_option autoImplicit false

namespace Xcache

variable {ι : Type} {w w' : World ι} {c : Xcache} {free free' : List xqindex}
  {E R E' R' : Finset xqindex} {i : ι} {idx h : xqindex}

def Event.drops (c : Xcache) (idx : xqindex) : Event → Nat
  | put h _ | settle h _ => if h = idx ∧ (c.nodes h).ref = 1 then 1 else 0
  | _ => 0

/-- The node is given up by `xcache_free_new`, or because its `on_init` failed. -/
def Event.abandons (c : Xcache) (idx : xqindex) : Event → Nat
  | init h name r => if h = idx ∧ (c.entryInit h name r).1 < 0 then 1 else 0
  | freeNew h => if h = idx then 1 else 0
  | _ => 0

/-- A world, with the number of last puts and of abandonments of each node so far. -/
structure Tally (ι : Type) where
  world : World ι
  drops : xqindex → Nat
  abandons : xqindex → Nat

def Tally.start (w : World ι) : Tally ι := ⟨w, fun _ => 0, fun _ => 0⟩

def Tally.Step [DecidableEq ι] (t : Tally ι) (b : ι × Event) (t' : Tally ι) : Prop :=
  World.Step t.world b t'.world ∧
    (∀ idx, t'.drops idx = t.drops idx + b.2.drops t.world.cache idx) ∧
      ∀ idx, t'.abandons idx = t.abandons idx + b.2.abandons t.world.cache idx

def Pc.puts (idx : xqindex) : Pc → Nat
  | freeing j false => if j = idx then 1 else 0
  | _ => 0

def Pc.frees (idx : xqindex) : Pc → Nat
  | freeing j _ => if j = idx then 1 else 0
  | undoing j => if j = idx then 1 else 0
  | _ => 0

/-- A node that is not cached, without references and in no call's hands is free, and `on_put` and
`on_free` were called once for each last put, except for the calls that are still to do so. -/
structure Returned [Fintype ι] (t : Tally ι) : Prop where
  home : ∀ idx, idx.toNat < t.world.cache.nr_nodes.toNat → (∀ name, ¬ t.world.cache.Cached name idx) →
    (t.world.cache.nodes idx).ref = 0 → (∀ i, ¬ (t.world.clients i).pc.Owns idx) →
    idx ∈ t.world.cache.free_nodes.elems
  puts : t.world.cache.ops.on_put = true → ∀ idx,
    t.world.cache.calls.count (.on_put idx) + ∑ i, (t.world.clients i).pc.puts idx = t.drops idx
  frees : t.world.cache.ops.on_free = true → ∀ idx,
    t.world.cache.calls.count (.on_free idx) + ∑ i, (t.world.clients i).pc.frees idx =
      t.drops idx + t.abandons idx

/-- A put that drops the last reference to a node finds a mapping of its name in `rm_entries`. -/
def Event.Mapped (c : Xcache) : Event → Prop
  | put h _ | settle h _ => (c.nodes h).ref = 1 → ∃ g, c.Removed (.node h) g
  | _ => True

instance (c : Xcache) : (event : Event) → Decidable (event.Mapped c)
  | .put h _ | .settle h _ => decidable_of_iff
    ((c.nodes h).ref = 1 → ¬ ∀ g, c.Removed (.node h) g → False)
    (imp_congr_right fun _ => not_forall_not)
  | .full | .pop _ | .init .. | .undo _ | .insert .. | .lookup .. | .get _ | .free .. |
    .invalidate .. | .freeNew _ => isTrue trivial

variable [Fintype ι]

def Home (w : World ι) (free : List xqindex) (E : Finset xqindex) : Prop :=
  ∀ idx, idx.toNat < w.cache.nr_nodes.toNat →
    idx ∈ free ∨ idx ∈ E ∨ 0 < w.refs idx ∨ ∃ i, (w.clients i).pc.Owns idx

variable [DecidableEq ι]

theorem Home.moved (hh : Home w free E) {k : Client}
    (hclients : w'.clients = Function.update w.clients i k)
    (hnr : w'.cache.nr_nodes = w.cache.nr_nodes)
    (hk : ∀ idx, idx ∈ free ∨ idx ∈ E ∨ 0 < (w.clients i).refs idx ∨ (w.clients i).pc.Owns idx →
      idx ∈ free' ∨ idx ∈ E' ∨ 0 < w'.refs idx ∨ k.pc.Owns idx) : Home w' free' E' := by
  have hself : w'.clients i = k := by rw [hclients, Function.update_self]
  intro idx hlow
  rw [hnr] at hlow
  have hmine (hk : idx ∈ free' ∨ idx ∈ E' ∨ 0 < w'.refs idx ∨ k.pc.Owns idx) :
      idx ∈ free' ∨ idx ∈ E' ∨ 0 < w'.refs idx ∨ ∃ i, (w'.clients i).pc.Owns idx :=
    hk.imp_right (Or.imp_right (Or.imp_right fun hown => ⟨i, by rwa [hself]⟩))
  rcases hh idx hlow with h | h | h | ⟨j, h⟩
  · exact hmine (hk idx (Or.inl h))
  · exact hmine (hk idx (Or.inr (Or.inl h)))
  · by_cases hpos : 0 < (w.clients i).refs idx
    · exact hmine (hk idx (Or.inr (Or.inr (Or.inl hpos))))
    · have hsum := World.refs_update hclients idx
      exact Or.inr (Or.inr (Or.inl (by omega)))
  · by_cases hj : j = i
    · rw [hj] at h
      exact hmine (hk idx (Or.inr (Or.inr (Or.inr h))))
    · refine Or.inr (Or.inr (Or.inr ⟨j, ?_⟩))
      rwa [hclients, Function.update_of_ne hj]

theorem Home.kept (hh : Home w free E) {k : Client}
    (hclients : w'.clients = Function.update w.clients i k)
    (hnr : w'.cache.nr_nodes = w.cache.nr_nodes)
    (hfree : ∀ idx ∈ free, idx ∈ free' ∨ k.pc.Owns idx)
    (hE : ∀ idx ∈ E, idx ∈ E' ∨ 0 < k.refs idx)
    (hrefs : ∀ idx, 0 < (w.clients i).refs idx → 0 < k.refs idx ∨ k.pc.Owns idx)
    (hown : ∀ idx, (w.clients i).pc.Owns idx →
      idx ∈ free' ∨ 0 < k.refs idx ∨ k.pc.Owns idx) : Home w' free' E' := by
  have hpos (idx : xqindex) (hk : 0 < k.refs idx) : 0 < w'.refs idx := by
    have hle := w'.refs_le i idx
    rw [hclients, Function.update_self] at hle
    omega
  apply hh.moved hclients hnr
  rintro idx (h | h | h | h)
  · exact (hfree idx h).imp_right fun h => Or.inr (Or.inr h)
  · exact Or.inr ((hE idx h).imp_right fun h => Or.inl (hpos idx h))
  · exact Or.inr (Or.inr ((hrefs idx h).imp_left (hpos idx)))
  · exact (hown idx h).imp_right fun h => Or.inr (h.imp_left (hpos idx))

omit [Fintype ι] [DecidableEq ι] in
theorem InsertOutcome.left {mem : InsertMemory} {result : InsertResult}
    (ho : InsertOutcome c E R h mem result E' R') (hmem : idx ∈ E) :
    idx ∈ E' ∨ idx = result.lru := by
  have hleft {v x : xqindex} : idx ∈ insert x (E.erase v) ∨ idx = v := by
    by_cases heq : idx = v
    · exact Or.inr heq
    · exact Or.inl (Finset.mem_insert_of_mem (Finset.mem_erase.mpr ⟨heq, hmem⟩))
  cases ho with
  | found => exact Or.inl hmem
  | fresh => exact hleft
  | back => exact hleft
  | @refused v =>
    by_cases heq : idx = v
    · exact Or.inr heq
    · exact Or.inl (Finset.mem_erase.mpr ⟨heq, hmem⟩)

/-- A put leaves a reference, or the node in the hands of the call. -/
theorem PutOutcome.home {last : Bool} {k : Client} (ho : PutOutcome w.cache R idx last R')
    (hi : Inv w free E R) (hrm : w.cache.has XCACHE_USE_RMTABLE = true)
    (hmapped : (w.cache.nodes idx).ref = 1 → ∃ g, w.cache.Removed (.node idx) g)
    (hclients : w'.clients = Function.update w.clients i k) (hpc : k.pc = .afterPut idx last)
    (hrefs : k.refs idx + 1 = (w.clients i).refs idx) :
    idx ∈ E ∨ 0 < w'.refs idx ∨ k.pc.Owns idx := by
  have hsum := World.refs_update hclients idx
  have hle := w.refs_le i idx
  have huse : idx ∈ E ∨ idx ∈ R ∨ 0 < w.refs idx := Or.inr (Or.inr (by omega))
  have hcount := hi.counted (hi.used huse).1 (hi.not_spare huse)
  cases ho with
  | last _ hno => exact absurd (hrm.symm.trans hno) Bool.noConfusion
  | removed =>
    refine Or.inr (Or.inr ?_)
    rw [hpc]
    exact rfl
  | more hne =>
    by_cases hE : idx ∈ E
    · exact Or.inl hE
    refine Or.inr (Or.inl ?_)
    rw [if_neg hE] at hcount
    have hpred := toNat_pred (r := (w.cache.nodes idx).ref) (by omega)
    have hpos : 0 < ((w.cache.nodes idx).ref - 1).toNat := by
      rw [Nat.pos_iff_ne_zero]
      exact fun hzero => hne (UInt32.toNat_inj.mp hzero)
    omega
  | stuck hzero _ hnone =>
    have hone : (w.cache.nodes idx).ref = 1 := by
      rw [← UInt32.sub_add_cancel (w.cache.nodes idx).ref 1, hzero]
      rfl
    obtain ⟨g, hg⟩ := hmapped hone
    obtain ⟨hmem, hname⟩ := hi.stored.tables.rm_entries.holds.mp hg
    exact absurd hname (hnone g hmem)

theorem Home.put (hh : Home w free E) (hi : Inv w free E R) {last : Bool} {k : Client}
    (ho : PutOutcome w.cache R idx last R') (hrm : w.cache.has XCACHE_USE_RMTABLE = true)
    (hmapped : (w.cache.nodes idx).ref = 1 → ∃ g, w.cache.Removed (.node idx) g)
    (hclients : w'.clients = Function.update w.clients i k)
    (hnr : w'.cache.nr_nodes = w.cache.nr_nodes) (hpc : k.pc = .afterPut idx last)
    (hrefs : ∀ j, k.refs j + (if j = idx then 1 else 0) = (w.clients i).refs j)
    (hown : ∀ j, ¬ (w.clients i).pc.Owns j) : Home w' free E := by
  have hself : w'.clients i = k := by rw [hclients, Function.update_self]
  apply hh.moved hclients hnr
  rintro j (h | h | h | h)
  · exact Or.inl h
  · exact Or.inr (Or.inl h)
  · have hj := hrefs j
    by_cases heq : j = idx
    · rw [if_pos heq] at hj
      rw [heq] at hj ⊢
      exact Or.inr (ho.home hi hrm hmapped hclients hpc hj)
    · rw [if_neg heq] at hj
      have hle := w'.refs_le i j
      rw [hself] at hle
      exact Or.inr (Or.inr (Or.inl (by omega)))
  · exact absurd h (hown j)

theorem Home.requeue (hh : Home w free E)
    (hclients : w'.clients = Function.update w.clients i ⟨(w.clients i).held, .idle⟩)
    (hnr : w'.cache.nr_nodes = w.cache.nr_nodes)
    (hrefs : ∀ j, (w.clients i).refs j = (w.clients i).held j)
    (hown : ∀ j, (w.clients i).pc.Owns j → j = idx) : Home w' (idx :: free) E := by
  refine hh.kept hclients hnr (fun _ hj => Or.inl (List.mem_cons_of_mem _ hj)) (fun _ => Or.inl)
    (fun j hj => Or.inl ?_) fun j hj => Or.inl (List.mem_cons.mpr (Or.inl (hown j hj)))
  rwa [hrefs] at hj

theorem Home.step (hh : Home w free E) (hi : Inv w free E R) {b : ι × Event}
    (hstep : World.Step w b w') (hc : Change w free E R b free' E' R')
    (hrm : w.cache.has XCACHE_USE_RMTABLE = true) (hmapped : b.2.Mapped w.cache)
    (hnr : w'.cache.nr_nodes = w.cache.nr_nodes) : Home w' free' E' := by
  cases hstep with
  | @full i cache hidle hpop =>
    cases hc
    exact hh.kept (k := w.clients i) rfl hnr (fun _ => Or.inl) (fun _ => Or.inl) (fun _ => Or.inl)
      fun idx h => absurd h (not_owns_of_idle hidle idx)
  | @pop i idx cache hidle hpop hne =>
    cases hc with
    | pop hfree =>
    subst hfree
    refine hh.kept (k := ⟨(w.clients i).held, .allocating idx⟩) rfl hnr (fun j hj => ?_)
      (fun _ => Or.inl) (fun j hj => Or.inl ?_) fun j h => absurd h (not_owns_of_idle hidle j)
    · exact (List.mem_cons.mp hj).symm.imp_right Eq.symm
    · rwa [refs_of_idle hidle] at hj
  | @init i idx name r r' cache hpc hrun hr =>
    have hne := ne_noEntry_of_low (hi.out (Pc.owns_allocating hpc)).1
    have hk (j : xqindex) : Client.refs ⟨hand (w.clients i).held idx, .idle⟩ j =
        (w.clients i).refs j + if j = idx then 1 else 0 := by
      rw [refs_of_idle rfl, Client.refs, hpc]
      dsimp only
      rw [hand_apply, if_congr (and_iff_left hne) rfl rfl]
      rfl
    cases hc
    refine hh.kept (k := ⟨hand (w.clients i).held idx, .idle⟩) rfl hnr (fun _ => Or.inl)
      (fun _ => Or.inl) (fun j hj => Or.inl ?_) fun j hown => Or.inr (Or.inl ?_)
    · rw [hk]
      omega
    · rw [hpc] at hown
      rw [hk, if_pos (Eq.symm hown)]
      omega
  | @fail i idx name r r' cache hpc hrun hr =>
    cases hc
    refine hh.kept (k := ⟨(w.clients i).held, .undoing idx⟩) rfl hnr (fun _ => Or.inl)
      (fun _ => Or.inl) (fun j hj => Or.inl ?_) fun j hown => Or.inr (Or.inr ?_)
    · rwa [Client.refs, hpc] at hj
    · rwa [hpc] at hown
  | @undo i idx hpc =>
    cases hc
    refine hh.requeue rfl hnr (fun j => ?_) fun j hown => ?_
    · rw [Client.refs, hpc]
      rfl
    · rw [hpc] at hown
      exact Eq.symm hown
  | @insert i h mem result hidle hmem hpos hrun =>
    cases hc with
    | @insert _ _ _ _ _ _ _ _ result' ho hret hlru hreinsert =>
      refine hh.kept (k := ⟨if result.ret = h then (w.clients i).held
        else hand (w.clients i).held result.ret, .toPut result.lru⟩) rfl hnr (fun _ => Or.inl)
        (fun j hj => (ho.left hj).imp_right fun heq => ?_) (fun j hj => Or.inl ?_)
        fun j h => absurd h (not_owns_of_idle hidle j)
      · have hne := ne_noEntry_of_low (hi.stored.tables.entries_low j hj)
        have heq := heq.trans hlru
        have hpending : (if j = result.lru ∧ result.lru ≠ NoEntry then 1 else 0) = 1 :=
          if_pos ⟨heq, heq ▸ hne⟩
        rw [inserted_refs, hpending]
        omega
      · rw [refs_of_idle hidle] at hj
        rw [inserted_refs]
        omega
  | @lookup i name ret cache hidle hrun =>
    have hsame : free' = free ∧ E' = E := by
      cases hc with
      | hit => exact ⟨rfl, rfl⟩
      | miss => exact ⟨rfl, rfl⟩
    obtain ⟨rfl, rfl⟩ := hsame
    refine hh.kept (k := ⟨hand (w.clients i).held ret, .idle⟩) rfl hnr (fun _ => Or.inl)
      (fun _ => Or.inl) (fun j hj => Or.inl ?_) fun j h => absurd h (not_owns_of_idle hidle j)
    rw [refs_of_idle hidle] at hj
    rw [refs_of_idle rfl]
    dsimp only
    rw [hand_apply]
    omega
  | @get i h hidle hpos =>
    cases hc
    refine hh.kept (k := ⟨hand (w.clients i).held h, .idle⟩) rfl hnr (fun _ => Or.inl)
      (fun _ => Or.inl) (fun j hj => Or.inl ?_) fun j h => absurd h (not_owns_of_idle hidle j)
    rw [refs_of_idle hidle] at hj
    rw [refs_of_idle rfl]
    dsimp only
    rw [hand_apply]
    omega
  | @put i h last cache hidle hpos hput =>
    cases hc with
    | put ho =>
      have hrefs (j : xqindex) : Client.refs ⟨Function.update (w.clients i).held h
          ((w.clients i).held h - 1), .afterPut h last⟩ j + (if j = h then 1 else 0) =
          (w.clients i).refs j := by
        rw [refs_of_idle hidle]
        exact put_refs hpos j
      exact hh.put hi ho hrm hmapped rfl hnr rfl hrefs (not_owns_of_idle hidle)
  | @settle i idx last cache hpc hput =>
    cases hc with
    | settle ho =>
      have hrefs (j : xqindex) : Client.refs ⟨(w.clients i).held, .afterPut idx last⟩ j +
          (if j = idx then 1 else 0) = (w.clients i).refs j := by
        rw [Client.refs, Client.refs, hpc, Pc.pending_afterPut]
        exact congrArg _ (if_congr eq_comm rfl rfl)
      exact hh.put hi ho hrm hmapped rfl hnr rfl hrefs fun j => by rw [hpc]; exact id
  | @free i idx new hpc =>
    cases hc
    refine hh.requeue rfl hnr (fun j => ?_) fun j hown => ?_
    · rw [Client.refs, hpc]
      rfl
    · rw [hpc] at hown
      exact Eq.symm hown
  | @invalidate i name r h cache hidle hrun =>
    cases hc with
    | invalidate ho =>
      refine hh.kept (k := ⟨(w.clients i).held, .toPut h⟩) rfl hnr (fun _ => Or.inl)
        (fun j hj => ?_) (fun j hj => Or.inl ?_) fun j h => absurd h (not_owns_of_idle hidle j)
      · cases ho with
        | cached hmem =>
          have hne := ne_noEntry_of_low (hi.stored.tables.entries_low h hmem)
          by_cases heq : j = h
          · refine Or.inr ?_
            rw [Client.refs, Pc.pending_toPut, if_pos ⟨heq, hne⟩]
            omega
          · exact Or.inl (Finset.mem_erase.mpr ⟨heq, hj⟩)
        | removed => exact Or.inl hj
        | unknown => exact Or.inl hj
      · rw [refs_of_idle hidle] at hj
        exact Nat.lt_of_lt_of_le hj (Nat.le_add_right _ _)
  | @freeNew i h hidle hmem hpos =>
    cases hc
    refine hh.kept (k := ⟨Function.update (w.clients i).held h 0, .freeing h true⟩) rfl hnr
      (fun _ => Or.inl) (fun _ => Or.inl) (fun j hj => ?_)
      fun j h => absurd h (not_owns_of_idle hidle j)
    by_cases heq : j = h
    · exact Or.inr (Eq.symm heq)
    · rw [refs_of_idle hidle] at hj
      refine Or.inl ?_
      rw [Client.refs]
      dsimp only
      rw [Function.update_of_ne heq]
      exact Nat.lt_of_lt_of_le hj (Nat.le_add_right _ _)

omit [Fintype ι] [DecidableEq ι] in
/-- A put goes on to free the node if it drops the last reference. -/
theorem PutOutcome.last_iff {last : Bool} (ho : PutOutcome c R idx last R') (ht : Tables c E R)
    (hrm : c.has XCACHE_USE_RMTABLE = true)
    (hmapped : (c.nodes idx).ref = 1 → ∃ g, c.Removed (.node idx) g) :
    last = true ↔ (c.nodes idx).ref = 1 := by
  have hone (hzero : (c.nodes idx).ref - 1 = 0) : (c.nodes idx).ref = 1 := by
    rw [← UInt32.sub_add_cancel (c.nodes idx).ref 1, hzero]
    rfl
  cases ho with
  | last _ hno => exact absurd (hrm.symm.trans hno) Bool.noConfusion
  | removed hzero => exact iff_of_true rfl (hone hzero)
  | more hne =>
    refine iff_of_false Bool.noConfusion fun h => hne ?_
    rw [h]
    rfl
  | stuck hzero _ hnone =>
    obtain ⟨g, hg⟩ := hmapped (hone hzero)
    obtain ⟨hmem, hname⟩ := ht.rm_entries.holds.mp hg
    exact absurd hname (hnone g hmem)

omit [Fintype ι] [DecidableEq ι] in
theorem Pc.puts_afterPut {last : Bool} (hlast : last = true ↔ (c.nodes h).ref = 1) (idx : xqindex) :
    (Pc.afterPut h last).puts idx = if h = idx ∧ (c.nodes h).ref = 1 then 1 else 0 := by
  cases last with
  | true => exact if_congr (and_iff_left (hlast.mp rfl)).symm rfl rfl
  | false => exact (if_neg fun hand => Bool.noConfusion (hlast.mpr hand.2)).symm

omit [Fintype ι] [DecidableEq ι] in
theorem Pc.frees_afterPut {last : Bool} (hlast : last = true ↔ (c.nodes h).ref = 1)
    (idx : xqindex) :
    (Pc.afterPut h last).frees idx = if h = idx ∧ (c.nodes h).ref = 1 then 1 else 0 := by
  cases last with
  | true => exact if_congr (and_iff_left (hlast.mp rfl)).symm rfl rfl
  | false => exact (if_neg fun hand => Bool.noConfusion (hlast.mpr hand.2)).symm

omit [Fintype ι] [DecidableEq ι] in
theorem Pc.puts_toPut (h idx : xqindex) : (Pc.toPut h).puts idx = 0 ∧ (Pc.toPut h).frees idx = 0 := by
  unfold Pc.toPut
  split <;> exact ⟨rfl, rfl⟩

omit [Fintype ι] in
/-- What a call is still to do is what it was, with what the event asks for and without what it
does. -/
theorem Change.balance {b : ι × Event} (hc : Change w free E R b free' E' R')
    (hstep : World.Step w b w') (hrm : w.cache.has XCACHE_USE_RMTABLE = true)
    (hmapped : b.2.Mapped w.cache) (ht : Tables w.cache E R) :
    ∃ k, w'.clients = Function.update w.clients b.1 k ∧ ∀ idx,
      b.2.puts idx + k.pc.puts idx = (w.clients b.1).pc.puts idx + b.2.drops w.cache idx ∧
      b.2.frees idx + k.pc.frees idx = (w.clients b.1).pc.frees idx + b.2.drops w.cache idx +
        b.2.abandons w.cache idx := by
  cases hstep with
  | full => exact ⟨_, rfl, fun idx => ⟨Nat.zero_add _, Nat.zero_add _⟩⟩
  | pop hidle => exact ⟨_, rfl, fun idx => by rw [hidle]; exact ⟨rfl, rfl⟩⟩
  | init hpc hrun hr =>
    refine ⟨_, rfl, fun idx => ?_⟩
    dsimp only
    rw [hpc, Event.abandons, hrun, if_neg fun hand => Int.not_lt.mpr hr hand.2]
    exact ⟨rfl, rfl⟩
  | fail hpc hrun hr =>
    refine ⟨_, rfl, fun idx => ?_⟩
    dsimp only
    rw [hpc, Event.abandons, hrun, if_congr (and_iff_left hr) rfl rfl]
    exact ⟨rfl, rfl⟩
  | undo hpc =>
    refine ⟨_, rfl, fun idx => ?_⟩
    dsimp only
    rw [hpc]
    exact ⟨rfl, rfl⟩
  | insert hidle =>
    refine ⟨_, rfl, fun idx => ?_⟩
    obtain ⟨hputs, hfrees⟩ := Pc.puts_toPut _ idx
    dsimp only
    rw [hidle, hputs, hfrees]
    exact ⟨rfl, rfl⟩
  | lookup hidle => exact ⟨_, rfl, fun idx => by rw [hidle]; exact ⟨rfl, rfl⟩⟩
  | get hidle => exact ⟨_, rfl, fun idx => by rw [hidle]; exact ⟨rfl, rfl⟩⟩
  | put hidle =>
    cases hc with
    | put ho =>
      have hlast := ho.last_iff ht hrm hmapped
      refine ⟨_, rfl, fun idx => ?_⟩
      dsimp only
      rw [hidle, Pc.puts_afterPut hlast, Pc.frees_afterPut hlast]
      exact ⟨rfl, rfl⟩
  | settle hpc =>
    cases hc with
    | settle ho =>
      have hlast := ho.last_iff ht hrm hmapped
      refine ⟨_, rfl, fun idx => ?_⟩
      dsimp only
      rw [hpc, Pc.puts_afterPut hlast, Pc.frees_afterPut hlast]
      exact ⟨rfl, rfl⟩
  | @free i idx new hpc =>
    refine ⟨_, rfl, fun idx => ?_⟩
    dsimp only
    rw [hpc]
    cases new with
    | true => exact ⟨rfl, rfl⟩
    | false => exact ⟨rfl, rfl⟩
  | invalidate hidle =>
    refine ⟨_, rfl, fun idx => ?_⟩
    obtain ⟨hputs, hfrees⟩ := Pc.puts_toPut _ idx
    dsimp only
    rw [hidle, hputs, hfrees]
    exact ⟨rfl, rfl⟩
  | freeNew hidle =>
    refine ⟨_, rfl, fun idx => ?_⟩
    dsimp only
    rw [hidle]
    exact ⟨rfl, rfl⟩

structure Kept (t : Tally ι) : Prop where
  puts : t.world.cache.ops.on_put = true → ∀ idx,
    t.world.cache.calls.count (.on_put idx) + ∑ i, (t.world.clients i).pc.puts idx = t.drops idx
  frees : t.world.cache.ops.on_free = true → ∀ idx,
    t.world.cache.calls.count (.on_free idx) + ∑ i, (t.world.clients i).pc.frees idx =
      t.drops idx + t.abandons idx

theorem Kept.step {t t' : Tally ι} {b : ι × Event} (hk : Kept t)
    (hc : Change t.world free E R b free' E' R') (hstep : Tally.Step t b t')
    (hrec : Recorded t.world.cache b.2 t'.world.cache)
    (hrm : t.world.cache.has XCACHE_USE_RMTABLE = true) (hmapped : b.2.Mapped t.world.cache)
    (ht : Tables t.world.cache E R) : Kept t' := by
  obtain ⟨hstep, hdrops, habandons⟩ := hstep
  obtain ⟨k, hclients, hbalance⟩ := hc.balance hstep hrm hmapped ht
  constructor
  · intro hset idx
    rw [hrec.ops] at hset
    have hsum := sum_update hclients fun client => client.pc.puts idx
    have hkept := hk.puts hset idx
    have hputs := hrec.puts hset idx
    have hdrops := hdrops idx
    have hbal := (hbalance idx).1
    omega
  · intro hset idx
    rw [hrec.ops] at hset
    have hsum := sum_update hclients fun client => client.pc.frees idx
    have hkept := hk.frees hset idx
    have hfrees := hrec.frees hset idx
    have hdrops := hdrops idx
    have habandons := habandons idx
    have hbal := (hbalance idx).2
    omega

omit [DecidableEq ι] in
theorem Home.free_nodes (hh : Home w free E) (hi : Inv w free E R) :
    ∀ idx, idx.toNat < w.cache.nr_nodes.toNat → (∀ name, ¬ w.cache.Cached name idx) →
      (w.cache.nodes idx).ref = 0 → (∀ i, ¬ (w.clients i).pc.Owns idx) →
      idx ∈ w.cache.free_nodes.elems := by
  intro idx hlow hcached hzero hown
  rw [hi.stored.queue.elems_eq]
  have hE : idx ∉ E := fun hmem =>
    hcached (.node idx) (hi.stored.tables.entries.holds.mpr ⟨hmem, rfl⟩)
  rcases hh idx hlow with h | h | h | ⟨i, h⟩
  · exact h
  · exact absurd h hE
  · have hcount := hi.counted hlow (hi.not_spare (Or.inr (Or.inr h)))
    rw [hzero, if_neg hE] at hcount
    change 0 = _ at hcount
    omega
  · exact absurd h (hown i)

/-- Nodes go back in every run in which each last put finds a mapping in `rm_entries`. -/
theorem run_returned [Builtins] {w₀ : World ι} {t : Tally ι} {as : List (ι × Event)}
    (hs : Start w₀) (hrm : w₀.cache.has XCACHE_USE_RMTABLE = true)
    (hrun : Run (Guarded Tally.Step fun t b => b.2.InTime t.world.cache ∧
      b.2.Named t.world.cache ∧ b.2.Counts t.world.cache ∧ b.2.Mapped t.world.cache)
      (Tally.start w₀) as t) : Returned t := by
  have hinv := hrun.invariant (I := fun t => t.world.cache.flags = w₀.cache.flags ∧ Kept t ∧
    ∃ free E R, Inv t.world free E R ∧ Home t.world free E) ?_ ?_
  · obtain ⟨-, hk, free, E, R, hi, hh⟩ := hinv
    exact ⟨hh.free_nodes hi, hk.puts, hk.frees⟩
  · rintro t b t' ⟨hflags, hk, free, E, R, hi, hh⟩ ⟨⟨htime, hnamed, hcount, hmapped⟩, hstep⟩
    have hrm : t.world.cache.has XCACHE_USE_RMTABLE = true := by rwa [has, hflags]
    obtain ⟨free', E', R', hc, hi', hrec⟩ := hi.step hstep.1 htime hnamed hcount
    exact ⟨hrec.flags.trans hflags, hk.step hc hstep hrec hrm hmapped hi.stored.tables, free', E',
      R', hi', hh.step hi hstep.1 hc hrm hmapped hrec.nr_nodes⟩
  · refine ⟨rfl, ?_, _, _, _, hs.inv, fun idx hlow => Or.inl ?_⟩
    · have hcalls := hs.calls
      have hidle (i : ι) : ((Tally.start w₀).world.clients i).pc = .idle := by
        rw [Tally.start, hs.clients]
      constructor <;>
      · intro _ idx
        rw [Finset.sum_eq_zero fun i _ => by rw [hidle]; rfl]
        change w₀.cache.calls.count _ + 0 = 0
        rw [hcalls]
        rfl
    · exact (Xq.mem_seq (Nat.le_of_lt (UInt32.toNat_lt _))).mpr hlow

omit [Fintype ι] in
theorem tally_of_run {as : List (ι × Event)} {ok : World ι → ι × Event → Prop}
    (hrun : Run (Guarded World.Step ok) w as w') :
    ∃ t, Run (Guarded Tally.Step fun t b => ok t.world b) (Tally.start w) as t ∧ t.world = w' := by
  refine hrun.simulate (R := fun w (t : Tally ι) => t.world = w) ?_ rfl
  rintro w b w' t rfl ⟨hok, hstep⟩
  exact ⟨⟨w', fun idx => t.drops idx + b.2.drops t.world.cache idx,
    fun idx => t.abandons idx + b.2.abandons t.world.cache idx⟩,
    ⟨hok, hstep, fun _ => rfl, fun _ => rfl⟩, rfl⟩

/-- A run with an eviction and the last put of the victim. -/
theorem run_returned_evicted : ∃ (_ : Builtins) (w₀ : World Unit) (t : Tally Unit)
    (as : List (Unit × Event)),
    (Start w₀ ∧ w₀.cache.has XCACHE_USE_RMTABLE = true ∧
      Run (Guarded Tally.Step fun t b => b.2.InTime t.world.cache ∧ b.2.Named t.world.cache ∧
        b.2.Counts t.world.cache ∧ b.2.Mapped t.world.cache) (Tally.start w₀) as t ∧
      .on_free 0 ∈ t.world.cache.calls) ∧ Returned t := by
  let _ : Builtins := ⟨0⟩
  let events : List Event := [.pop 0, .init 0 nameA 0, .insert 0 plenty 0 NoEntry NoEntry, .pop 1,
    .init 1 nameB 0, .insert 1 plenty 1 0 NoEntry, .settle 0 false, .put 0 true, .free 0 false]
  have hsome : (trial (fun w event => w.Early ∧ event.Named w.cache ∧ event.Counts w.cache ∧
      event.Mapped w.cache) 1 (XCACHE_LRU_ARRAY ||| XCACHE_USE_RMTABLE) events).any (fun w =>
        .on_free 0 ∈ w.cache.calls) = true := by decide +kernel
  obtain ⟨w₀, w, hs, hflags, hrun, hcheck⟩ := run_of_trial hsome
  have hrm : w₀.cache.has XCACHE_USE_RMTABLE = true := by rw [has, hflags]; decide
  have hrun : Run (Guarded World.Step fun w b => b.2.InTime w.cache ∧ b.2.Named w.cache ∧
      b.2.Counts w.cache ∧ b.2.Mapped w.cache) w₀ _ w :=
    World.run_guard (fun b _ w hok => ⟨hok.1.inTime b.2, hok.2⟩) hrun
  obtain ⟨t, htally, rfl⟩ := tally_of_run hrun
  exact ⟨_, w₀, t, _, ⟨hs, hrm, htally, of_decide_eq_true hcheck⟩, run_returned hs hrm htally⟩

/-- An invalidated node is in no table, so that its last put finds no mapping and gives up. -/
theorem not_run_returned : ¬ ∀ [Builtins] (w₀ : World Unit) (t : Tally Unit)
    (as : List (Unit × Event)), Start w₀ → w₀.cache.has XCACHE_USE_RMTABLE = true →
    Run (Guarded Tally.Step fun t b => b.2.InTime t.world.cache ∧ b.2.Named t.world.cache ∧
      b.2.Counts t.world.cache) (Tally.start w₀) as t → Returned t := by
  let _ : Builtins := ⟨0⟩
  intro hall
  let events : List Event := [.pop 0, .init 0 nameA 0, .insert 0 plenty 0 NoEntry NoEntry,
    .put 0 false, .invalidate nameA 0 0, .settle 0 false]
  have hsome : (trial (fun w event => w.Early ∧ event.Named w.cache ∧ event.Counts w.cache) 1
      (XCACHE_LRU_ARRAY ||| XCACHE_USE_RMTABLE) events).any (fun w =>
        (¬ ∃ name, w.cache.Cached name 0) ∧ (w.cache.nodes 0).ref = 0 ∧
        (w.clients ()).pc = .idle ∧ 0 ∉ w.cache.free_nodes.elems ∧
        (0 : xqindex).toNat < w.cache.nr_nodes.toNat) = true := by
    decide +kernel
  obtain ⟨w₀, w, hs, hflags, hrun, hcheck⟩ := run_of_trial hsome
  have hrm : w₀.cache.has XCACHE_USE_RMTABLE = true := by rw [has, hflags]; decide
  have hrun : Run (Guarded World.Step fun w b => b.2.InTime w.cache ∧ b.2.Named w.cache ∧
      b.2.Counts w.cache) w₀ _ w :=
    World.run_guard (fun b _ w hok => ⟨hok.1.inTime b.2, hok.2⟩) hrun
  obtain ⟨t, htally, rfl⟩ := tally_of_run hrun
  obtain ⟨hcached, hzero, hidle, hfree, hlow⟩ := of_decide_eq_true hcheck
  refine hfree ((hall w₀ t _ hs hrm htally).home 0 hlow (not_exists.mp hcached) hzero fun i => ?_)
  rw [hidle]
  exact id

end Xcache

end Libxseg
