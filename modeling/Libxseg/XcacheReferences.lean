import Mathlib.Algebra.Order.BigOperators.Group.Finset
import Libxseg.XcacheRuns

/-!
# Reference counts over a run of the cache

`Inv` says where every node is: in the queue, in a table, in the hands of a call, or
referred to by clients. `Inv.locked` has the arithmetic of all the locked sections: a
section keeps the invariant if it changes the count of each node by as much as it
changes the references of its caller and the place of the node in `entries`.
-/

namespace Libxseg

set_option autoImplicit false

namespace Xcache

variable {ι : Type} [Fintype ι] {w w' : World ι} {c c' : Xcache}
  {free : List xqindex} {E R E' R' : Finset xqindex} {i : ι} {idx h : xqindex}

def World.refs (w : World ι) (idx : xqindex) : Nat := ∑ i, (w.clients i).refs idx

theorem sum_update [DecidableEq ι] {β : Type} {f f' : ι → β} {i : ι} {k : β}
    (hf : f' = Function.update f i k) (g : β → Nat) :
    ∑ j, g (f' j) + g (f i) = ∑ j, g (f j) + g k := by
  have hrest : ∑ j ∈ Finset.univ.erase i, g (f' j) = ∑ j ∈ Finset.univ.erase i, g (f j) := by
    refine Finset.sum_congr rfl fun j hj => ?_
    rw [hf, Function.update_of_ne (Finset.ne_of_mem_erase hj)]
  have hself : f' i = k := by rw [hf, Function.update_self]
  rw [← Finset.add_sum_erase _ _ (Finset.mem_univ i),
    ← Finset.add_sum_erase Finset.univ (fun j => g (f j)) (Finset.mem_univ i), hrest, hself]
  omega

theorem World.refs_update [DecidableEq ι] {k : Client}
    (hw : w'.clients = Function.update w.clients i k) (idx : xqindex) :
    w'.refs idx + (w.clients i).refs idx = w.refs idx + k.refs idx :=
  sum_update hw fun client => client.refs idx

theorem World.refs_le (w : World ι) (i : ι) (idx : xqindex) :
    (w.clients i).refs idx ≤ w.refs idx :=
  Finset.single_le_sum (f := fun j => (w.clients j).refs idx) (fun _ _ => Nat.zero_le _)
    (Finset.mem_univ i)

structure Stored (c : Xcache) (free : List xqindex) (E R : Finset xqindex) : Prop where
  queue : c.free_nodes.Repr free
  window : c.nr_nodes.toNat ≤ window c.free_nodes.size
  nodup : free.Nodup
  low : ∀ idx ∈ free, idx.toNat < c.nr_nodes.toNat
  tables : Tables c E R
  ordered : Ordered c E
  entries_free : ∀ idx ∈ E, idx ∉ free
  rm_free : ∀ idx ∈ R, idx ∉ free

def Pc.Unnamed : Pc → xqindex → Prop
  | allocating j, idx => j = idx
  | undoing j, idx => j = idx
  | _, _ => False

def World.Spare (w : World ι) (free : List xqindex) (idx : xqindex) : Prop :=
  idx ∈ free ∨ ∃ i, (w.clients i).pc.Unnamed idx

structure Inv (w : World ι) (free : List xqindex) (E R : Finset xqindex) : Prop where
  stored : Stored w.cache free E R
  out : ∀ {i idx}, (w.clients i).pc.Owns idx →
    idx.toNat < w.cache.nr_nodes.toNat ∧ idx ∉ free ∧ idx ∉ E ∧ idx ∉ R
  owner : ∀ {i j idx}, (w.clients i).pc.Owns idx → (w.clients j).pc.Owns idx → i = j
  known : ∀ {idx}, 0 < w.refs idx → idx.toNat < w.cache.nr_nodes.toNat
  unheld : ∀ {idx}, w.Spare free idx → w.refs idx = 0
  counted : ∀ {idx}, idx.toNat < w.cache.nr_nodes.toNat → ¬ w.Spare free idx →
    (w.cache.nodes idx).ref.toNat = (if idx ∈ E then 1 else 0) + w.refs idx
  freed : ∀ {i idx new}, (w.clients i).pc = .freeing idx new → (w.cache.nodes idx).ref = 0
  zero : ∀ {idx}, w.cache.ops.on_node_init = true ∧ idx ∉ w.failed ∨ idx ∈ w.evicted →
    idx.toNat < w.cache.nr_nodes.toNat → w.Spare free idx → (w.cache.nodes idx).ref = 0
  fresh_out : ∀ {h}, h ∈ w.fresh → h ∉ E ∧ h ∉ R
  fresh_put : ∀ {h i}, h ∈ w.fresh → (w.clients i).pc ≠ .putting h
  fresh_one : ∀ {h i j}, h ∈ w.fresh → 0 < (w.clients i).held h → 0 < (w.clients j).held h → i = j

theorem Pc.owns_allocating {pc : Pc} (h : pc = .allocating idx) : pc.Owns idx := by
  rw [h]
  rfl

theorem Pc.owns_freeing {pc : Pc} {new : Bool} (h : pc = .freeing idx new) : pc.Owns idx := by
  rw [h]
  rfl

theorem Pc.Unnamed.owns {pc : Pc} (h : pc.Unnamed idx) : pc.Owns idx := by
  cases pc with
  | allocating j => exact h
  | undoing j => exact h
  | _ => cases h

theorem Pc.Owns.cases {pc : Pc} (h : pc.Owns idx) :
    pc.Unnamed idx ∨ ∃ new, pc = .freeing idx new := by
  cases pc with
  | allocating j => exact Or.inl h
  | undoing j => exact Or.inl h
  | freeing j new => exact Or.inr ⟨new, congrArg (Pc.freeing · new) h⟩
  | _ => cases h

theorem Pc.not_owns_toPut (h idx : xqindex) : ¬ (Pc.toPut h).Owns idx := by
  unfold Pc.toPut
  split <;> exact id

theorem Pc.pending_toPut (h idx : xqindex) :
    (Pc.toPut h).pending idx = if idx = h ∧ h ≠ NoEntry then 1 else 0 := by
  unfold Pc.toPut
  split
  · rename_i heq
    rw [if_neg (fun hand => hand.2 heq)]
    rfl
  · rename_i hne
    show (if h = idx then 1 else 0) = _
    simp [hne, eq_comm]

theorem hand_apply (held : xqindex → Nat) (ret idx : xqindex) :
    hand held ret idx = held idx + if idx = ret ∧ ret ≠ NoEntry then 1 else 0 := by
  unfold hand
  split
  · rename_i heq
    rw [if_neg (fun hand => hand.2 heq), Nat.add_zero]
  · rename_i hne
    by_cases heq : idx = ret
    · rw [heq, Function.update_self, if_pos ⟨rfl, hne⟩]
    · rw [Function.update_of_ne heq, if_neg (fun hand => heq hand.1), Nat.add_zero]

theorem toNat_succ {r : UInt32} (h : r.toNat + 1 < 2 ^ 32) : (r + 1).toNat = r.toNat + 1 := by
  rw [UInt32.toNat_add, UInt32.toNat_one]
  exact Nat.mod_eq_of_lt h

theorem toNat_pred {r : UInt32} (h : 0 < r.toNat) : (r - 1).toNat + 1 = r.toNat := by
  have hle : (1 : UInt32) ≤ r := by
    rw [UInt32.le_iff_toNat_le, UInt32.toNat_one]
    exact h
  rw [UInt32.toNat_sub_of_le _ _ hle, UInt32.toNat_one]
  omega

theorem refs_of_idle {k : Client} (h : k.pc = .idle) (idx : xqindex) : k.refs idx = k.held idx := by
  rw [Client.refs, h]
  rfl

theorem not_owns_of_idle {k : Client} (h : k.pc = .idle) (idx : xqindex) : ¬ k.pc.Owns idx := by
  rw [h]
  exact id

namespace Inv

theorem used (hi : Inv w free E R) (h : idx ∈ E ∨ idx ∈ R ∨ 0 < w.refs idx) :
    idx.toNat < w.cache.nr_nodes.toNat ∧ idx ∉ free ∧ ∀ i, ¬ (w.clients i).pc.Owns idx := by
  rcases h with hmem | hmem | hpos
  · exact ⟨hi.stored.tables.entries_low idx hmem, hi.stored.entries_free idx hmem,
      fun i hown => (hi.out hown).2.2.1 hmem⟩
  · exact ⟨hi.stored.tables.rm_low idx hmem, hi.stored.rm_free idx hmem,
      fun i hown => (hi.out hown).2.2.2 hmem⟩
  · have hspare : ¬ w.Spare free idx := fun hs => by
      have := hi.unheld hs
      omega
    refine ⟨hi.known hpos, fun hmem => hspare (Or.inl hmem), fun i hown => ?_⟩
    rcases hown.cases with hun | ⟨new, hpc⟩
    · exact hspare (Or.inr ⟨i, hun⟩)
    · have hzero := hi.freed hpc
      have hcount := hi.counted (hi.known hpos) hspare
      rw [hzero] at hcount
      change 0 = _ at hcount
      omega

theorem not_spare (hi : Inv w free E R) (h : idx ∈ E ∨ idx ∈ R ∨ 0 < w.refs idx) :
    ¬ w.Spare free idx := by
  obtain ⟨-, hfree, hown⟩ := hi.used h
  rintro (hmem | ⟨i, hpc⟩)
  · exact hfree hmem
  · exact hown i hpc.owns

theorem locked [DecidableEq ι] (hi : Inv w free E R) {k : Client}
    (hidle : ∀ idx, ¬ (w.clients i).pc.Owns idx) (hk : ∀ idx, ¬ k.pc.Owns idx) (hw : w'.clients = Function.update w.clients i k)
    (hstored : Stored w'.cache free E' R') (hnodes : w'.cache.nr_nodes = w.cache.nr_nodes)
    (hops : w'.cache.ops = w.cache.ops)
    (hsub : ∀ idx, idx ∈ E' ∨ idx ∈ R' ∨ 0 < k.refs idx →
      idx ∈ E ∨ idx ∈ R ∨ 0 < (w.clients i).refs idx)
    (hbal : ∀ idx, (w'.cache.nodes idx).ref.toNat + (if idx ∈ E then 1 else 0) +
        (w.clients i).refs idx =
      (w.cache.nodes idx).ref.toNat + (if idx ∈ E' then 1 else 0) + k.refs idx)
    (hfresh : ∀ h ∈ w'.fresh, h ∈ w.fresh ∧ h ∉ E' ∧ h ∉ R' ∧ k.pc ≠ .putting h ∧
      (0 < k.held h → 0 < (w.clients i).held h))
    (hevicted : ∀ h ∈ w'.evicted, h ∈ w.evicted ∨ h ∈ E) (hfailed : w'.failed = w.failed) :
    Inv w' free E' R' := by
  have hself : w'.clients i = k := by rw [hw, Function.update_self]
  have hother {j : ι} (hj : j ≠ i) : w'.clients j = w.clients j := by
    rw [hw, Function.update_of_ne hj]
  have hsum := World.refs_update hw
  have hown {j : ι} {idx : xqindex} (h : (w'.clients j).pc.Owns idx) :
      j ≠ i ∧ (w.clients j).pc.Owns idx := by
    by_cases hj : j = i
    · rw [hj, hself] at h
      exact absurd h (hk idx)
    · rw [hother hj] at h
      exact ⟨hj, h⟩
  have hspare (idx : xqindex) : w'.Spare free idx ↔ w.Spare free idx := by
    refine or_congr Iff.rfl ⟨?_, ?_⟩
    · rintro ⟨j, hpc⟩
      obtain ⟨hj, -⟩ := hown hpc.owns
      rw [hother hj] at hpc
      exact ⟨j, hpc⟩
    · rintro ⟨j, hpc⟩
      refine ⟨j, ?_⟩
      rwa [hother]
      rintro rfl
      exact hidle idx hpc.owns
  have hused {idx : xqindex} (h : idx ∈ E' ∨ idx ∈ R' ∨ 0 < w'.refs idx) :
      idx ∈ E ∨ idx ∈ R ∨ 0 < w.refs idx := by
    have hle := w.refs_le i idx
    by_cases hpos : 0 < w.refs idx
    · exact Or.inr (Or.inr hpos)
    have hk : idx ∈ E' ∨ idx ∈ R' ∨ 0 < k.refs idx := by
      rcases h with h | h | h
      · exact Or.inl h
      · exact Or.inr (Or.inl h)
      · have := hsum idx
        exact Or.inr (Or.inr (by omega))
    rcases hsub idx hk with h | h | h
    · exact Or.inl h
    · exact Or.inr (Or.inl h)
    · omega
  -- a node that nothing refers to keeps its count
  have hsame {idx : xqindex} (h : ¬ (idx ∈ E ∨ idx ∈ R ∨ 0 < w.refs idx)) :
      (w'.cache.nodes idx).ref = (w.cache.nodes idx).ref := by
    have hE : idx ∉ E := fun hmem => h (Or.inl hmem)
    have hE' : idx ∉ E' := fun hmem => h (hused (Or.inl hmem))
    have hle := w.refs_le i idx
    have hzero : w.refs idx = 0 := by
      by_contra hne
      exact h (Or.inr (Or.inr (Nat.pos_of_ne_zero hne)))
    have hzero' : w'.refs idx = 0 := by
      by_contra hne
      exact h (hused (Or.inr (Or.inr (Nat.pos_of_ne_zero hne))))
    have hb := hbal idx
    have hs := hsum idx
    rw [if_neg hE, if_neg hE'] at hb
    exact UInt32.toNat_inj.mp (by omega)
  have hunused {idx : xqindex} (hs : w.Spare free idx) :
      ¬ (idx ∈ E ∨ idx ∈ R ∨ 0 < w.refs idx) := fun h => hi.not_spare h hs
  refine ⟨hstored, fun {j idx} h => ?_, fun {j j' idx} h h' => ?_, fun {idx} h => ?_,
    fun {idx} h => ?_, fun {idx} hlow h => ?_, fun {j idx new} h => ?_, fun {idx} hinit hlow h => ?_,
    fun {h} hmem => ?_, fun {h j} hmem => ?_, fun {h j j'} hmem hj hj' => ?_⟩
  · obtain ⟨-, h⟩ := hown h
    obtain ⟨hlow, hfree, -, -⟩ := hi.out h
    rw [hnodes]
    refine ⟨hlow, hfree, fun hmem => ?_, fun hmem => ?_⟩
    · exact (hi.used (hused (Or.inl hmem))).2.2 j h
    · exact (hi.used (hused (Or.inr (Or.inl hmem)))).2.2 j h
  · exact hi.owner (hown h).2 (hown h').2
  · rw [hnodes]
    exact (hi.used (hused (Or.inr (Or.inr h)))).1
  · rw [hspare] at h
    by_contra hne
    exact hunused h (hused (Or.inr (Or.inr (Nat.pos_of_ne_zero hne))))
  · rw [hspare] at h
    rw [hnodes] at hlow
    have hc := hi.counted hlow h
    have hb := hbal idx
    have hs := hsum idx
    omega
  · obtain ⟨hj, hown⟩ := hown (Pc.owns_freeing h)
    rw [hother hj] at h
    rw [hsame fun hu => (hi.used hu).2.2 j hown]
    exact hi.freed h
  · rw [hspare] at h
    rw [hnodes] at hlow
    rw [hops, hfailed] at hinit
    rw [hsame (hunused h)]
    have hmem (hmem : idx ∈ w'.evicted) : idx ∈ w.evicted :=
      (hevicted idx hmem).resolve_right fun hE => hunused h (Or.inl hE)
    exact hi.zero (hinit.imp_right hmem) hlow h
  · exact ⟨(hfresh h hmem).2.1, (hfresh h hmem).2.2.1⟩
  · by_cases hj : j = i
    · rw [hj, hself]
      exact (hfresh h hmem).2.2.2.1
    · rw [hother hj]
      exact hi.fresh_put (hfresh h hmem).1
  · have hheld {j : ι} (hj : 0 < (w'.clients j).held h) : 0 < (w.clients j).held h := by
      by_cases hj' : j = i
      · rw [hj', hself] at hj
        rw [hj']
        exact (hfresh h hmem).2.2.2.2 hj
      · rwa [hother hj'] at hj
    exact hi.fresh_one (hfresh h hmem).1 (hheld hj) (hheld hj')

end Inv

theorem Tables.setFree (ht : Tables c E R) (q : Xq) : Tables { c with free_nodes := q } E R :=
  ⟨ht.entries, ht.rm_entries, ht.entries_cap, ht.rm_cap, ht.positive, ht.nodes_le, ht.entries_low,
    ht.rm_low, ht.apart, ht.card_le, ht.unused⟩

theorem Ordered.setFree (hm : Ordered c E) (q : Xq) : Ordered { c with free_nodes := q } E := by
  intro harray
  have hm := hm harray
  exact ⟨hm.array, hm.below, hm.cached, hm.le, hm.inj⟩

theorem Stored.allocCacheEntry (hs : Stored c free E R) :
    free = [] ∧ c.allocCacheEntry = (Noneidx, c) ∨
    ∃ x l q, free = x :: l ∧ x ≠ Noneidx ∧ c.allocCacheEntry = (x, { c with free_nodes := q }) ∧
      Stored { c with free_nodes := q } l E R := by
  cases free with
  | nil =>
    refine Or.inl ⟨rfl, ?_⟩
    rw [Xcache.allocCacheEntry, hs.queue.popHead_nil]
  | cons x l =>
    obtain ⟨q, hpop, hq, hsize⟩ := hs.queue.popHead
    refine Or.inr ⟨x, l, q, rfl, ne_noEntry_of_low (hs.low x List.mem_cons_self), ?_, hq, ?_,
      hs.nodup.of_cons, fun idx hmem => hs.low idx (List.mem_cons_of_mem _ hmem),
      hs.tables.setFree q, hs.ordered.setFree q, fun idx hmem hfree => ?_, fun idx hmem hfree => ?_⟩
    · rw [Xcache.allocCacheEntry, hpop]
    · rw [hsize]
      exact hs.window
    · exact hs.entries_free idx hmem (List.mem_cons_of_mem _ hfree)
    · exact hs.rm_free idx hmem (List.mem_cons_of_mem _ hfree)

theorem Stored.freeCacheEntry (hs : Stored c free E R) (hlow : idx.toNat < c.nr_nodes.toNat)
    (hfree : idx ∉ free) (hE : idx ∉ E) (hR : idx ∉ R) :
    ∃ q, c.freeCacheEntry idx =
        ({ c with free_nodes := q } : Xcache).call c.ops.on_free (.on_free idx) ∧
      Stored (c.freeCacheEntry idx) (idx :: free) E R := by
  have hnodup : (idx :: free).Nodup := List.nodup_cons.mpr ⟨hfree, hs.nodup⟩
  have hlow' : ∀ j ∈ idx :: free, j.toNat < c.nr_nodes.toNat :=
    List.forall_mem_cons.mpr ⟨hlow, hs.low⟩
  have hlen : (idx :: free).length ≤ c.nr_nodes.toNat := by
    rw [← List.toFinset_card_of_nodup hnodup]
    exact card_le_of_low fun j hj => hlow' j (List.mem_toFinset.mp hj)
  obtain ⟨q, happ, hq, hsize⟩ := hs.queue.appendHead
    (Nat.lt_of_lt_of_le (Nat.lt_of_succ_le hlen) hs.window) idx
  have heq : c.freeCacheEntry idx =
      ({ c with free_nodes := q } : Xcache).call c.ops.on_free (.on_free idx) := by
    rw [Xcache.freeCacheEntry, happ]
  refine ⟨q, heq, ?_⟩
  rw [heq]
  refine ⟨hq, ?_, hnodup, hlow', ?_, ?_, fun j hmem hj => ?_, fun j hmem hj => ?_⟩
  · show c.nr_nodes.toNat ≤ Libxseg.window q.size
    rw [hsize]
    exact hs.window
  · exact (hs.tables.setFree q).congr ⟨rfl, rfl, rfl, rfl, rfl, fun _ => rfl⟩ rfl rfl
  · exact (hs.ordered.setFree q).congr ⟨rfl, rfl, rfl, rfl, rfl, fun _ => rfl⟩ rfl rfl
  · rcases List.mem_cons.mp hj with rfl | hj
    · exact hE hmem
    · exact hs.entries_free j hmem hj
  · rcases List.mem_cons.mp hj with rfl | hj
    · exact hR hmem
    · exact hs.rm_free j hmem hj

theorem Stored.of_frame (hs : Stored c free E R) (hf : Frame c c') (ht : Tables c' E' R')
    (hm : Ordered c' E') (hsub : ∀ idx, idx ∈ E' ∨ idx ∈ R' → idx ∉ free) :
    Stored c' free E' R' where
  queue := by
    rw [hf.free_nodes]
    exact hs.queue
  window := by
    rw [hf.free_nodes, hf.nr_nodes]
    exact hs.window
  nodup := hs.nodup
  low idx hmem := by
    rw [hf.nr_nodes]
    exact hs.low idx hmem
  tables := ht
  ordered := hm
  entries_free idx hmem := hsub idx (Or.inl hmem)
  rm_free idx hmem := hsub idx (Or.inr hmem)

theorem Tables.modify (ht : Tables c E R) (hE : idx ∉ E) (hR : idx ∉ R)
    (f : XcacheEntry → XcacheEntry) : Tables (c.modify idx f) E R := by
  have hname {s : Finset xqindex} (hs : idx ∉ s) (j : xqindex) (hj : j ∈ s) :
      ((c.modify idx f).nodes j).name = (c.nodes j).name := by
    rw [modify_nodes_of_ne c f (by rintro rfl; exact hs hj)]
  refine ⟨ht.entries.congr (hname hE), ht.rm_entries.congr (hname hR), ht.entries_cap, ht.rm_cap,
    ht.positive, ht.nodes_le, ht.entries_low, ht.rm_low, fun i hi j hj => ?_, ht.card_le, ht.unused⟩
  rw [hname hE i hi, hname hR j hj]
  exact ht.apart i hi j hj

theorem Ordered.modify (hm : Ordered c E) (f : XcacheEntry → XcacheEntry) :
    Ordered (c.modify idx f) E := by
  intro harray
  have hm := hm harray
  exact ⟨hm.array, hm.below, hm.cached, hm.le, hm.inj⟩

namespace Inv

/-- How the places of the nodes look when only the place of client `i` changes. -/
structure Moved (w : World ι) (i : ι) (k : Client) (w' : World ι) : Prop where
  self : w'.clients i = k
  other : ∀ {j}, j ≠ i → w'.clients j = w.clients j
  refs : ∀ idx, k.refs idx = (w.clients i).refs idx → w'.refs idx = w.refs idx

theorem moved [DecidableEq ι] {k : Client} (hw : w'.clients = Function.update w.clients i k) :
    Moved w i k w' where
  self := by rw [hw, Function.update_self]
  other hj := by rw [hw, Function.update_of_ne hj]
  refs idx hk := by
    have := World.refs_update hw idx
    omega

/-- A call takes the node `x` or gives it away, and nothing else changes. -/
theorem placed [DecidableEq ι] {free' : List xqindex} (hi : Inv w free E R) (x : xqindex) (pc : Pc)
    (hmine : ∀ idx, (w.clients i).pc.Owns idx → idx = x)
    (hown : ∀ j, j ≠ i → ¬ (w.clients j).pc.Owns x) (hlow : x.toNat < w.cache.nr_nodes.toNat)
    (hnone : w.refs x = 0) (hE : x ∉ E) (hR : x ∉ R)
    (hpending : ∀ idx, pc.pending idx = (w.clients i).pc.pending idx)
    (hput : ∀ idx, pc ≠ .putting idx) (hpc : ∀ idx, pc.Owns idx → idx = x ∧ x ∉ free')
    (hplace : x ∈ free' ∨ pc.Owns x) (hfree : ∀ idx, idx ≠ x → (idx ∈ free' ↔ idx ∈ free))
    (hw : w'.clients = Function.update w.clients i ⟨(w.clients i).held, pc⟩)
    (hstored : Stored w'.cache free' E R) (hnodes : w'.cache.nr_nodes = w.cache.nr_nodes)
    (hops : w'.cache.ops = w.cache.ops) (href : ∀ j, j ≠ x → w'.cache.nodes j = w.cache.nodes j)
    (hzero : (w.cache.ops.on_node_init = true ∧ x ∉ w'.failed ∨ x ∈ w'.evicted) ∨
      (∃ new, pc = .freeing x new) → (w'.cache.nodes x).ref = 0)
    (hfresh : w'.fresh = w.fresh) (hevicted : ∀ idx, idx ≠ x → idx ∈ w'.evicted → idx ∈ w.evicted)
    (hfailed : ∀ idx, idx ≠ x → idx ∈ w.failed → idx ∈ w'.failed) : Inv w' free' E R := by
  obtain ⟨hself, hother, hrefs⟩ := moved hw
  have hrefs (idx : xqindex) : w'.refs idx = w.refs idx :=
    hrefs idx (congrArg ((w.clients i).held idx + ·) (hpending idx))
  have hown' {j : ι} {idx : xqindex} (h : (w'.clients j).pc.Owns idx) :
      j = i ∧ idx = x ∧ x ∉ free' ∨ j ≠ i ∧ idx ≠ x ∧ (w.clients j).pc.Owns idx := by
    by_cases hj : j = i
    · rw [hj, hself] at h
      exact Or.inl ⟨hj, hpc idx h⟩
    · rw [hother hj] at h
      refine Or.inr ⟨hj, ?_, h⟩
      rintro rfl
      exact hown j hj h
  have hspare {idx : xqindex} (hne : idx ≠ x) : w'.Spare free' idx ↔ w.Spare free idx := by
    refine or_congr (hfree idx hne) ⟨?_, ?_⟩
    · rintro ⟨j, h⟩
      rcases hown' h.owns with ⟨-, heq, -⟩ | ⟨hj, -, -⟩
      · exact absurd heq hne
      · rw [hother hj] at h
        exact ⟨j, h⟩
    · rintro ⟨j, h⟩
      refine ⟨j, ?_⟩
      rwa [hother]
      rintro rfl
      exact hne (hmine idx h.owns)
  refine ⟨hstored, fun {j idx} h => ?_, fun {j j' idx} h h' => ?_, fun {idx} h => ?_,
    fun {idx} h => ?_, fun {idx} hidx h => ?_, fun {j idx new} h => ?_,
    fun {idx} hinit hidx h => ?_, fun {h} hmem => ?_, fun {h j} hmem => ?_,
    fun {h j j'} hmem hj hj' => ?_⟩
  · rw [hnodes]
    rcases hown' h with ⟨-, rfl, hnot⟩ | ⟨-, hne, h⟩
    · exact ⟨hlow, hnot, hE, hR⟩
    · obtain ⟨hidx, hnot, hE, hR⟩ := hi.out h
      exact ⟨hidx, fun hmem => hnot ((hfree idx hne).mp hmem), hE, hR⟩
  · rcases hown' h with ⟨rfl, heq, -⟩ | ⟨-, hne, h⟩
    · rcases hown' h' with ⟨rfl, -⟩ | ⟨-, hne, -⟩
      · rfl
      · exact absurd heq hne
    · rcases hown' h' with ⟨-, heq, -⟩ | ⟨-, -, h'⟩
      · exact absurd heq hne
      · exact hi.owner h h'
  · rw [hnodes]
    rw [hrefs] at h
    exact hi.known h
  · rw [hrefs]
    by_cases hne : idx = x
    · rw [hne, hnone]
    · exact hi.unheld ((hspare hne).mp h)
  · rw [hrefs]
    by_cases hne : idx = x
    · -- nobody refers to `x`, and a call is freeing it
      rw [hne] at h ⊢
      have hmine := hplace.resolve_left fun hmem => h (Or.inl hmem)
      have hfreeing := hmine.cases.resolve_left fun hun => h (Or.inr ⟨i, by rwa [hself]⟩)
      rw [hzero (Or.inr hfreeing), hnone, if_neg hE]
      rfl
    · rw [hnodes] at hidx
      rw [href idx hne]
      exact hi.counted hidx fun hs => h ((hspare hne).mpr hs)
  · rcases hown' (Pc.owns_freeing h) with ⟨rfl, rfl, -⟩ | ⟨hj, hne, -⟩
    · rw [hself] at h
      exact hzero (Or.inr ⟨new, h⟩)
    · rw [hother hj] at h
      rw [href idx hne]
      exact hi.freed h
  · rw [hops] at hinit
    by_cases hne : idx = x
    · rw [hne] at hinit ⊢
      exact hzero (Or.inl hinit)
    · rw [hnodes] at hidx
      rw [href idx hne]
      refine hi.zero (hinit.imp (And.imp_right fun hnot hmem => ?_) (hevicted idx hne)) hidx
        ((hspare hne).mp h)
      exact hnot (hfailed idx hne hmem)
  · rw [hfresh] at hmem
    exact hi.fresh_out hmem
  · rw [hfresh] at hmem
    by_cases hj : j = i
    · rw [hj, hself]
      exact hput h
    · rw [hother hj]
      exact hi.fresh_put hmem
  · rw [hfresh] at hmem
    have hheld (j : ι) : (w'.clients j).held = (w.clients j).held := by
      by_cases hj : j = i
      · rw [hj, hself]
      · rw [hother hj]
    rw [hheld] at hj hj'
    exact hi.fresh_one hmem hj hj'

theorem pop [DecidableEq ι] {x : xqindex} {l : List xqindex} (hi : Inv w (x :: l) E R)
    (hidle : (w.clients i).pc = .idle)
    (hw : w'.clients = Function.update w.clients i ⟨(w.clients i).held, .allocating x⟩)
    (hstored : Stored w'.cache l E R) (hnodes : w'.cache.nr_nodes = w.cache.nr_nodes)
    (hops : w'.cache.ops = w.cache.ops) (href : w'.cache.nodes = w.cache.nodes)
    (hfresh : w'.fresh = w.fresh) (hevicted : w'.evicted = w.evicted)
    (hfailed : w'.failed = w.failed) : Inv w' l E R := by
  have hmem : x ∈ x :: l := List.mem_cons_self
  have hspare : w.Spare (x :: l) x := Or.inl hmem
  have hxl : x ∉ l := (List.nodup_cons.mp hi.stored.nodup).1
  have hlow := hi.stored.low x hmem
  apply hi.placed x (.allocating x) (fun idx h => absurd h (not_owns_of_idle hidle idx))
    (fun j _ h => (hi.out h).2.1 hmem) hlow (hi.unheld hspare)
    (fun h => hi.stored.entries_free x h hmem) (fun h => hi.stored.rm_free x h hmem)
    (fun idx => by rw [hidle]; rfl) (fun _ => Pc.noConfusion) (fun idx h => ⟨Eq.symm h, hxl⟩)
    (Or.inr rfl) (fun idx hne => ?_) hw hstored hnodes hops (fun j _ => by rw [href]) (fun h => ?_)
    hfresh (fun idx _ h => by rwa [hevicted] at h) (fun idx _ h => by rwa [hfailed])
  · rw [List.mem_cons]
    exact ⟨Or.inr, fun h => h.resolve_left hne⟩
  · rw [href]
    rw [hfailed, hevicted] at h
    rcases h with h | ⟨new, h⟩
    · exact hi.zero h hlow hspare
    · cases h

theorem fail [DecidableEq ι] (hi : Inv w free E R) (hpc : (w.clients i).pc = .allocating idx)
    (hw : w'.clients = Function.update w.clients i ⟨(w.clients i).held, .undoing idx⟩)
    (hstored : Stored w'.cache free E R) (hnodes : w'.cache.nr_nodes = w.cache.nr_nodes)
    (hops : w'.cache.ops = w.cache.ops) (href : ∀ j, j ≠ idx → w'.cache.nodes j = w.cache.nodes j)
    (hfresh : w'.fresh = w.fresh) (hevicted : w'.evicted = w.evicted.erase idx)
    (hfailed : w'.failed = insert idx w.failed) : Inv w' free E R := by
  have hmine := Pc.owns_allocating hpc
  obtain ⟨hlow, hfree, hE, hR⟩ := hi.out hmine
  apply hi.placed idx (.undoing idx) (fun j h => by rw [hpc] at h; exact Eq.symm h)
    (fun j hj h => hj (hi.owner h hmine)) hlow (hi.unheld (Or.inr ⟨i, by rw [hpc]; rfl⟩)) hE hR
    (fun idx => by rw [hpc]; rfl) (fun _ => Pc.noConfusion) (fun j h => ⟨Eq.symm h, hfree⟩)
    (Or.inr rfl) (fun _ _ => Iff.rfl) hw hstored hnodes hops href (fun h => ?_) hfresh
    (fun j _ h => by rw [hevicted] at h; exact Finset.mem_of_mem_erase h)
    (fun j _ h => by rw [hfailed]; exact Finset.mem_insert_of_mem h)
  rw [hfailed, hevicted] at h
  rcases h with (⟨-, h⟩ | h) | ⟨new, h⟩
  · exact absurd (Finset.mem_insert_self idx _) h
  · exact absurd h (Finset.notMem_erase idx _)
  · cases h

theorem release [DecidableEq ι] (hi : Inv w free E R) (hidle : (w.clients i).pc = .idle) {new : Bool}
    (hlow : idx.toNat < w.cache.nr_nodes.toNat) (hfree : idx ∉ free) (hE : idx ∉ E) (hR : idx ∉ R)
    (hown : ∀ j, ¬ (w.clients j).pc.Owns idx) (hzero : (w.cache.nodes idx).ref = 0)
    (hw : w'.clients = Function.update w.clients i ⟨(w.clients i).held, .freeing idx new⟩)
    (hcache : w'.cache = w.cache) (hfresh : w'.fresh = w.fresh)
    (hevicted : w'.evicted = w.evicted) (hfailed : w'.failed = w.failed) : Inv w' free E R := by
  have hnone : w.refs idx = 0 := by
    have hcount := hi.counted hlow fun hs => hs.elim hfree fun ⟨j, h⟩ => hown j h.owns
    rw [hzero] at hcount
    change 0 = _ at hcount
    omega
  exact hi.placed idx (.freeing idx new) (fun j h => absurd h (not_owns_of_idle hidle j))
    (fun j _ => hown j) hlow hnone hE hR (fun j => by rw [hidle]; rfl) (fun _ => Pc.noConfusion)
    (fun j h => ⟨Eq.symm h, hfree⟩)
    (Or.inr rfl) (fun _ _ => Iff.rfl) hw (by rw [hcache]; exact hi.stored) (by rw [hcache])
    (by rw [hcache]) (fun j _ => by rw [hcache]) (fun _ => by rw [hcache]; exact hzero) hfresh
    (fun j _ h => by rwa [hevicted] at h) (fun j _ h => by rwa [hfailed])

theorem freed_refs (hi : Inv w free E R) {new : Bool} (hpc : (w.clients i).pc = .freeing idx new) :
    w.refs idx = 0 := by
  have hown := Pc.owns_freeing hpc
  obtain ⟨hlow, hfree, -, -⟩ := hi.out hown
  have hcount := hi.counted hlow <| by
    rintro (hmem | ⟨j, h⟩)
    · exact hfree hmem
    · obtain rfl := hi.owner hown h.owns
      rw [hpc] at h
      exact h
  rw [hi.freed hpc] at hcount
  change 0 = _ at hcount
  omega

theorem give [DecidableEq ι] (hi : Inv w free E R)
    (hpc : (w.clients i).pc = .undoing idx ∨ ∃ new, (w.clients i).pc = .freeing idx new)
    (hw : w'.clients = Function.update w.clients i ⟨(w.clients i).held, .idle⟩)
    (hstored : Stored w'.cache (idx :: free) E R) (hnodes : w'.cache.nr_nodes = w.cache.nr_nodes)
    (hops : w'.cache.ops = w.cache.ops) (href : w'.cache.nodes = w.cache.nodes)
    (hfresh : w'.fresh = w.fresh) (hevicted : w'.evicted = w.evicted)
    (hfailed : w'.failed = w.failed) : Inv w' (idx :: free) E R := by
  have hmine (j : xqindex) : (w.clients i).pc.Owns j ↔ idx = j := by
    rcases hpc with h | ⟨new, h⟩ <;> rw [h] <;> exact Iff.rfl
  obtain ⟨hlow, hfree, hE, hR⟩ := hi.out ((hmine idx).mpr rfl)
  have hnone : w.refs idx = 0 := by
    rcases hpc with h | ⟨new, h⟩
    · exact hi.unheld (Or.inr ⟨i, by rw [h]; rfl⟩)
    · exact hi.freed_refs h
  apply hi.placed idx .idle (fun j h => ((hmine j).mp h).symm)
    (fun j hj h => hj (hi.owner h ((hmine idx).mpr rfl))) hlow hnone hE hR
    (fun j => by rcases hpc with h | ⟨new, h⟩ <;> rw [h] <;> rfl) (fun _ => Pc.noConfusion)
    (fun j h => absurd h id) (Or.inl List.mem_cons_self) (fun j hne => ?_) hw hstored hnodes hops
    (fun j _ => by rw [href]) (fun h => ?_) hfresh (fun j _ h => by rwa [hevicted] at h)
    (fun j _ h => by rwa [hfailed])
  · rw [List.mem_cons]
    exact ⟨fun h => h.resolve_left hne, Or.inr⟩
  · rw [href]
    rw [hfailed, hevicted] at h
    rcases h with h | ⟨new, h⟩
    · rcases hpc with hpc | ⟨new, hpc⟩
      · exact hi.zero h hlow (Or.inr ⟨i, by rw [hpc]; rfl⟩)
      · exact hi.freed hpc
    · cases h

theorem init [DecidableEq ι] (hi : Inv w free E R) (hpc : (w.clients i).pc = .allocating idx)
    (hw : w'.clients = Function.update w.clients i ⟨hand (w.clients i).held idx, .idle⟩)
    (hstored : Stored w'.cache free E R) (hnodes : w'.cache.nr_nodes = w.cache.nr_nodes)
    (hops : w'.cache.ops = w.cache.ops) (hone : (w'.cache.nodes idx).ref = 1)
    (href : ∀ j, j ≠ idx → w'.cache.nodes j = w.cache.nodes j)
    (hfresh : w'.fresh = insert idx w.fresh) (hevicted : w'.evicted = w.evicted.erase idx)
    (hfailed : w'.failed = w.failed.erase idx) : Inv w' free E R := by
  obtain ⟨hself, hother, -⟩ := moved hw
  have hmine := Pc.owns_allocating hpc
  obtain ⟨hlow, hfree, hE, hR⟩ := hi.out hmine
  have hnone : w.refs idx = 0 := hi.unheld (Or.inr ⟨i, by rw [hpc]; rfl⟩)
  have hne : idx ≠ NoEntry := ne_noEntry_of_low hlow
  have hrefs (j : xqindex) : w'.refs j = w.refs j + if j = idx then 1 else 0 := by
    have hsum := World.refs_update hw j
    simp only [Client.refs, hpc, hand_apply, Pc.pending, hne, ne_eq, not_false_eq_true,
      and_true] at hsum
    omega
  have hown {j : ι} {k : xqindex} (h : (w'.clients j).pc.Owns k) :
      j ≠ i ∧ (w.clients j).pc.Owns k := by
    by_cases hj : j = i
    · rw [hj, hself] at h
      exact absurd h id
    · rw [hother hj] at h
      exact ⟨hj, h⟩
  have hapart {j : ι} (hj : j ≠ i) (h : (w.clients j).pc.Owns idx) : False :=
    hj (hi.owner h hmine)
  have hspare (k : xqindex) : w'.Spare free k ↔ w.Spare free k ∧ k ≠ idx := by
    constructor
    · rintro (hmem | ⟨j, hj⟩)
      · exact ⟨Or.inl hmem, by rintro rfl; exact hfree hmem⟩
      · obtain ⟨hji, howns⟩ := hown hj.owns
        rw [hother hji] at hj
        refine ⟨Or.inr ⟨j, hj⟩, ?_⟩
        rintro rfl
        exact hapart hji howns
    · rintro ⟨hmem | ⟨j, hj⟩, hk⟩
      · exact Or.inl hmem
      · refine Or.inr ⟨j, ?_⟩
        rwa [hother]
        rintro rfl
        rw [hpc] at hj
        exact hk (Eq.symm hj)
  refine ⟨hstored, fun {j k} h => ?_, fun {j j' k} h h' => ?_, fun {k} h => ?_,
    fun {k} h => ?_, fun {k} hk h => ?_, fun {j k new} h => ?_, fun {k} hinit hk h => ?_,
    fun {h} hmem => ?_, fun {h j} hmem => ?_, fun {h j j'} hmem hj hj' => ?_⟩
  · rw [hnodes]
    exact hi.out (hown h).2
  · exact hi.owner (hown h).2 (hown h').2
  · rw [hnodes]
    by_cases hk : k = idx
    · rw [hk]
      exact hlow
    · rw [hrefs, if_neg hk] at h
      exact hi.known h
  · obtain ⟨hs, hk⟩ := (hspare k).mp h
    rw [hrefs, if_neg hk]
    exact hi.unheld hs
  · rw [hnodes] at hk
    by_cases hki : k = idx
    · rw [hrefs, hki, hone, hnone, if_neg hE, if_pos rfl]
      rfl
    · rw [hrefs, if_neg hki, href k hki]
      exact hi.counted hk fun hs => h ((hspare k).mpr ⟨hs, hki⟩)
  · obtain ⟨hj, howns⟩ := hown (Pc.owns_freeing h)
    rw [href k (by rintro rfl; exact hapart hj howns)]
    rw [hother hj] at h
    exact hi.freed h
  · obtain ⟨hs, hki⟩ := (hspare k).mp h
    rw [hnodes] at hk
    rw [hops, hevicted, hfailed] at hinit
    rw [href k hki]
    refine hi.zero (hinit.imp (And.imp_right fun hnot hmem => ?_) Finset.mem_of_mem_erase) hk hs
    exact hnot (Finset.mem_erase.mpr ⟨hki, hmem⟩)
  · rw [hfresh] at hmem
    rcases Finset.mem_insert.mp hmem with rfl | hmem
    · exact ⟨hE, hR⟩
    · exact hi.fresh_out hmem
  · rw [hfresh] at hmem
    by_cases hj : j = i
    · rw [hj, hself]
      exact Pc.noConfusion
    rw [hother hj]
    rcases Finset.mem_insert.mp hmem with rfl | hmem
    · intro hput
      have hle := w.refs_le j h
      rw [hnone, Client.refs, hput] at hle
      simp [Pc.pending] at hle
    · exact hi.fresh_put hmem
  · rw [hfresh] at hmem
    by_cases hh : h = idx
    · -- nobody but the caller has it
      have honly {j : ι} (hj : 0 < (w'.clients j).held h) : j = i := by
        by_contra hji
        rw [hother hji, hh] at hj
        have hle := w.refs_le j idx
        rw [hnone, Client.refs] at hle
        omega
      rw [honly hj, honly hj']
    · have hmem := (Finset.mem_insert.mp hmem).resolve_left hh
      have hheld {j : ι} (hj : 0 < (w'.clients j).held h) : 0 < (w.clients j).held h := by
        by_cases hji : j = i
        · rw [hji, hself] at hj
          dsimp only at hj
          rw [hand_apply, if_neg (fun hand => hh hand.1)] at hj
          rwa [hji]
        · rwa [hother hji] at hj
      exact hi.fresh_one hmem (hheld hj) (hheld hj')

/-- A client is handed one more reference to a node that is cached or that it holds. -/
theorem got [DecidableEq ι] (hi : Inv w free E R) (hidle : (w.clients i).pc = .idle)
    (hhas : idx ∈ E ∨ 0 < (w.clients i).held idx) (hroom : w.cache.RefRoom idx 1)
    (hw : w'.clients = Function.update w.clients i ⟨hand (w.clients i).held idx, .idle⟩)
    (hstored : Stored w'.cache free E R) (hnodes : w'.cache.nr_nodes = w.cache.nr_nodes)
    (hops : w'.cache.ops = w.cache.ops)
    (href : ∀ j, (w'.cache.nodes j).ref = (w.cache.nodes j).ref + if j = idx then 1 else 0)
    (hfresh : ∀ h ∈ w'.fresh, h ∈ w.fresh) (hevicted : ∀ h ∈ w'.evicted, h ∈ w.evicted)
    (hfailed : w'.failed = w.failed) : Inv w' free E R := by
  have hrefs (j : xqindex) := refs_of_idle hidle j
  have hne : idx ≠ NoEntry := by
    refine ne_noEntry_of_low (hi.used (hhas.imp_right fun hpos => Or.inr ?_)).1
    exact Nat.lt_of_lt_of_le (by rwa [hrefs]) (w.refs_le i idx)
  have hk (j : xqindex) : Client.refs ⟨hand (w.clients i).held idx, .idle⟩ j =
      (w.clients i).refs j + if j = idx then 1 else 0 := by
    rw [refs_of_idle rfl, hrefs]
    dsimp only
    rw [hand_apply]
    simp [hne]
  refine hi.locked (not_owns_of_idle hidle) (fun _ => id) hw hstored hnodes hops
    (fun j hj => ?_) (fun j => ?_) (fun h hmem => ?_) (fun h hmem => Or.inl (hevicted h hmem)) hfailed
  · rcases hj with hj | hj | hj
    · exact Or.inl hj
    · exact Or.inr (Or.inl hj)
    · rw [hk] at hj
      by_cases heq : j = idx
      · rw [heq, hrefs]
        exact hhas.imp_right Or.inr
      · rw [if_neg heq] at hj
        exact Or.inr (Or.inr hj)
  · rw [hk, href]
    by_cases hj : j = idx
    · rw [if_pos hj, if_pos hj, hj, toNat_succ hroom]
      omega
    · rw [if_neg hj, if_neg hj, UInt32.add_zero]
      omega
  · have hmem := hfresh h hmem
    obtain ⟨hE, hR⟩ := hi.fresh_out hmem
    refine ⟨hmem, hE, hR, Pc.noConfusion, fun hpos => ?_⟩
    by_cases hh : h = idx
    · rw [hh] at hE ⊢
      exact hhas.resolve_left hE
    · dsimp only at hpos
      rwa [hand_apply, if_neg fun hand => hh hand.1] at hpos

/-- A client gives up a reference to a node, by a call or by the put that was pending. -/
theorem gave [DecidableEq ι] (hi : Inv w free E R) {k : Client} {last : Bool}
    (hidle : ∀ idx, ¬ (w.clients i).pc.Owns idx) (hpos : 0 < (w.clients i).refs idx)
    (hput : w.cache.entryPutRef idx = some (last, c')) (hk : k.pc = .idle)
    (hrefs : ∀ j, k.refs j + (if j = idx then 1 else 0) = (w.clients i).refs j)
    (hheld : ∀ j, k.held j ≤ (w.clients i).held j) :
    ∃ R', PutOutcome w.cache R idx last R' ∧
      Inv (w.act i c' ⟨k.held, .afterPut idx last⟩) free E R' := by
  obtain ⟨last', c1, R', hr, ht, hm, hf, htime, href, -, hcase⟩ :=
    entryPutRef_spec hi.stored.tables hi.stored.ordered idx
  rw [hput] at hr
  cases hr
  have hsub : R' ⊆ R := by
    cases hcase with
    | removed => exact Finset.erase_subset _ _
    | _ => exact Finset.Subset.refl _
  have hwpos : 0 < w.refs idx := Nat.lt_of_lt_of_le hpos (w.refs_le i idx)
  obtain ⟨hlow, hnfree, hnown⟩ := hi.used (Or.inr (Or.inr hwpos))
  have hcount := hi.counted hlow (hi.not_spare (Or.inr (Or.inr hwpos)))
  have hpred : ((w.cache.nodes idx).ref - 1).toNat + 1 = (w.cache.nodes idx).ref.toNat :=
    toNat_pred (by omega)
  have hstored : Stored c' free E R' := hi.stored.of_frame hf ht hm fun j hj =>
    hj.elim (hi.stored.entries_free j) fun hj => hi.stored.rm_free j (hsub hj)
  have hkown : ∀ idx, ¬ k.pc.Owns idx := not_owns_of_idle hk
  have hinv : Inv (w.act i c' k) free E R' := by
    refine hi.locked hidle hkown rfl hstored hf.nr_nodes hf.ops (fun j hj => ?_) (fun j => ?_)
      (fun h hmem => ?_) (fun h hmem => Or.inl hmem) rfl
    · rcases hj with hj | hj | hj
      · exact Or.inl hj
      · exact Or.inr (Or.inl (hsub hj))
      · have := hrefs j
        exact Or.inr (Or.inr (by omega))
    · have hj := hrefs j
      show (c'.nodes j).ref.toNat + _ + _ = _
      rw [href]
      by_cases heq : j = idx
      · rw [if_pos heq] at hj ⊢
        rw [heq] at hj ⊢
        omega
      · rw [if_neg heq] at hj ⊢
        omega
    · obtain ⟨hE, hR⟩ := hi.fresh_out hmem
      refine ⟨hmem, hE, fun hR' => hR (hsub hR'), ?_, fun hpos => Nat.lt_of_lt_of_le hpos (hheld h)⟩
      rw [hk]
      exact Pc.noConfusion
  refine ⟨R', hcase, ?_⟩
  cases hlast : last with
  | false =>
    obtain ⟨held, pc⟩ := k
    obtain rfl : pc = .idle := hk
    exact hinv
  | true =>
    subst hlast
    have hzero : (w.cache.nodes idx).ref - 1 = 0 ∧ idx ∉ R' := by
      cases hcase with
      | last hzero hrm =>
        refine ⟨hzero, ?_⟩
        rw [hi.stored.tables.unused hrm]
        exact Finset.notMem_empty idx
      | removed hzero _ hg hname =>
        refine ⟨hzero, fun hmem => Finset.ne_of_mem_erase hmem ?_⟩
        exact hi.stored.tables.rm_entries.name_inj (Finset.mem_of_mem_erase hmem) hg hname.symm
    have hE : idx ∉ E := by
      intro hmem
      rw [hzero.1] at hpred
      rw [if_pos hmem] at hcount
      change 0 + 1 = _ at hpred
      omega
    have hself : (w.act i c' k).clients i = k := Function.update_self ..
    have hnown' : ∀ j, ¬ ((w.act i c' k).clients j).pc.Owns idx := by
      intro j
      by_cases hj : j = i
      · rw [hj, hself]
        exact hkown idx
      · show ¬ (Function.update w.clients i k j).pc.Owns idx
        rw [Function.update_of_ne hj]
        exact hnown j
    have href0 : ((w.act i c' k).cache.nodes idx).ref = 0 := by
      show (c'.nodes idx).ref = 0
      rw [href, if_pos rfl]
      exact hzero.1
    have hlow' : idx.toNat < (w.act i c' k).cache.nr_nodes.toNat := by
      show idx.toNat < c'.nr_nodes.toNat
      rw [hf.nr_nodes]
      exact hlow
    have hclients : (w.act i c' ⟨k.held, .freeing idx false⟩).clients =
        Function.update (w.act i c' k).clients i
          ⟨((w.act i c' k).clients i).held, .freeing idx false⟩ := by
      rw [hself]
      exact (Function.update_idem _ _ _).symm
    have hidle' : ((w.act i c' k).clients i).pc = .idle := by rw [hself, hk]
    exact hinv.release hidle' hlow' hnfree hE hzero.2 hnown' href0 hclients rfl rfl rfl rfl

end Inv

theorem announced_frame (result : InsertResult) : Frame result.cache result.announced :=
  ⟨rfl, rfl, rfl, rfl, rfl, fun _ => rfl⟩

theorem announced_tables {result : InsertResult} (ht : Tables result.cache E R) :
    Tables result.announced E R := ht.congr (announced_frame result) rfl rfl

theorem announced_ordered {result : InsertResult} (hm : Ordered result.cache E) :
    Ordered result.announced E := hm.congr (announced_frame result) rfl rfl

end Xcache

end Libxseg
