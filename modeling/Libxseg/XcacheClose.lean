import Mathlib.Data.Finset.Max
import Libxseg.XcacheCounts

/-!
# Closing a cache: xcache_close

For each node with references the cache is asked to forget the name of the node, which puts
the reference of the table, and then the node is put once more. A node that was cached and
referred to by nobody else is put twice, so its count wraps. Only a cache in which nothing
is left to do is closed as one would expect.
-/

namespace Libxseg

set_option autoImplicit false

namespace Xcache

def closeTurn (cache : Xcache) (i : Nat) : Option Xcache :=
  let ce := cache.nodes (UInt64.ofNat i)
  if ce.ref = 0 then some cache
  else (cache.invalidate ce.name).bind fun (_, cache) => cache.entryPut (UInt64.ofNat i)

def close (cache : Xcache) : Option Xcache :=
  (List.range cache.nr_nodes.toNat).foldlM closeTurn cache

structure Closed (c c' : Xcache) : Prop where
  free : ∀ idx : xqindex, idx.toNat < c.nr_nodes.toNat → c'.free_nodes.elems.count idx = 1
  ref : ∀ idx : xqindex, idx.toNat < c.nr_nodes.toNat → (c'.nodes idx).ref = 0
  put : c.ops.on_put = true → ∀ idx name, c.Cached name idx →
    c'.calls.count (.on_put idx) = c.calls.count (.on_put idx) + 1
  freed : c.ops.on_free = true → ∀ idx name, c.Cached name idx →
    c'.calls.count (.on_free idx) = c.calls.count (.on_free idx) + 1

/-- `xcache_close` returns and has released everything once. -/
def Closes (c : Xcache) : Prop := ∃ c', c.close = some c' ∧ Closed c c'

structure Emptied (c : Xcache) : Prop where
  cached : ∀ idx name, ¬ c.Cached name idx
  ref : ∀ idx : xqindex, idx.toNat < c.nr_nodes.toNat → (c.nodes idx).ref = 0
  free : ∀ idx : xqindex, idx.toNat < c.nr_nodes.toNat → c.free_nodes.elems.count idx = 1

def World.Left {ι : Type} (w : World ι) : Prop := ∀ i, (w.clients i).pc = .idle ∧
  ∀ idx : xqindex, idx.toNat < w.cache.nr_nodes.toNat → (w.clients i).held idx = 0

section Turns
variable {c c' : Xcache} {E R : Finset xqindex} {idx e : xqindex}

theorem foldlM_closeTurn_zero (n : Nat) (h : ∀ i < n, (c.nodes (UInt64.ofNat i)).ref = 0) :
    (List.range n).foldlM closeTurn c = some c := by
  induction n with
  | zero => rfl
  | succ n ih =>
    rw [List.range_succ, List.foldlM_append, ih fun i hi => h i (Nat.lt_succ_of_lt hi)]
    change (closeTurn c n).bind some = some c
    rw [closeTurn, if_pos (h n (Nat.lt_succ_self n))]
    rfl

theorem close_of_zero
    (h : ∀ idx : xqindex, idx.toNat < c.nr_nodes.toNat → (c.nodes idx).ref = 0) :
    c.close = some c := by
  apply foldlM_closeTurn_zero
  intro i hi
  exact h _ (by rwa [toNat_ofNat_lt hi])

theorem Emptied.closes (h : Emptied c) : c.Closes :=
  ⟨c, close_of_zero h.ref, h.free, h.ref, fun _ idx name hc => absurd hc (h.cached idx name),
    fun _ idx name hc => absurd hc (h.cached idx name)⟩

/-- A node that goes back to the queue leaves the tables and the counts as they are. -/
theorem Tables.entryPutFree (ht : Tables c E R) (hm : Ordered c E) (idx : xqindex) :
    Tables (c.entryPutFree idx) E R ∧ Ordered (c.entryPutFree idx) E ∧
      (c.entryPutFree idx).nodes = c.nodes := by
  refine ⟨?_, ?_, rfl⟩
  · exact (ht.setFree _).congr ⟨rfl, rfl, rfl, rfl, rfl, fun _ => rfl⟩ rfl rfl
  · exact (hm.setFree _).congr ⟨rfl, rfl, rfl, rfl, rfl, fun _ => rfl⟩ rfl rfl

theorem entryPut_tables (ht : Tables c E R) (hm : Ordered c E) (h : c.entryPut idx = some c') :
    ∃ R', Tables c' E R' ∧ Ordered c' E ∧
      ∀ j, (c'.nodes j).ref = if j = idx then (c.nodes idx).ref - 1 else (c.nodes j).ref := by
  obtain ⟨last, c₁, R', hput, ht', hm', -, -, href, -⟩ := entryPutRef_spec ht hm idx
  rw [entryPut, hput] at h
  obtain rfl := Option.some.inj h
  cases last with
  | false => exact ⟨R', ht', hm', href⟩
  | true =>
    obtain ⟨ht'', hm'', hnodes⟩ := ht'.entryPutFree hm' idx
    refine ⟨R', ht'', hm'', fun j => ?_⟩
    rw [← href j]
    exact congrArg (fun nodes => (nodes j).ref) hnodes

def Settled (c : Xcache) (e : xqindex) : Prop :=
  (∃ E R, Tables c E R ∧ Ordered c E ∧ e ∉ E) ∧ (c.nodes e).ref ≠ 0

/-- The turn of a cached node with the one reference of the table puts it twice. -/
theorem closeTurn_settles (ht : Tables c E R) (hm : Ordered c E) {i : Nat}
    (hi : UInt64.ofNat i = e) (hmem : e ∈ E) (hone : (c.nodes e).ref = 1)
    (h : c.closeTurn i = some c') : Settled c' e := by
  obtain ⟨hp, c₁, E₁, R₁, hraw, hquiet, ht₁, hm₁, hout⟩ := invalidateRaw_spec ht hm (c.nodes e).name
  have hcase : hp = e ∧ E₁ = E.erase e := by
    cases hout with
    | cached hidx hname =>
      obtain rfl := ht.entries.name_inj hidx hmem hname
      exact ⟨rfl, rfl⟩
    | removed hno => exact absurd rfl (hno e hmem)
    | unknown hno => exact absurd rfl (hno e hmem)
  obtain ⟨rfl, rfl⟩ := hcase
  have hne := ne_noEntry_of_low (ht.entries_low hp hmem)
  have hnot : (c.nodes hp).ref ≠ 0 := by
    rw [hone]
    decide
  unfold closeTurn at h
  rw [hi] at h
  dsimp only at h
  rw [if_neg hnot, invalidate, hraw, Option.bind_some] at h
  dsimp only at h
  rw [if_pos hne] at h
  obtain ⟨⟨r, c₂⟩, hfirst, hlast⟩ := Option.bind_eq_some_iff.mp h
  obtain ⟨c₃, hput, heq⟩ := Option.map_eq_some_iff.mp hfirst
  obtain ⟨-, rfl⟩ := Prod.mk.inj heq
  obtain ⟨R₂, ht₂, hm₂, href₂⟩ := entryPut_tables ht₁ hm₁ hput
  obtain ⟨R₃, ht₃, hm₃, href₃⟩ := entryPut_tables ht₂ hm₂ hlast
  refine ⟨⟨_, R₃, ht₃, hm₃, Finset.notMem_erase hp E⟩, ?_⟩
  rw [href₃, if_pos rfl, href₂, if_pos rfl, hquiet.ref, hone]
  decide

theorem Settled.entryPut (hs : Settled c e) (hne : idx ≠ e) (h : c.entryPut idx = some c') :
    Settled c' e := by
  obtain ⟨⟨E, R, ht, hm, hmem⟩, href⟩ := hs
  obtain ⟨R', ht', hm', href'⟩ := entryPut_tables ht hm h
  refine ⟨⟨E, R', ht', hm', hmem⟩, ?_⟩
  rw [href', if_neg hne.symm]
  exact href

theorem Settled.invalidate (hs : Settled c e) {name : CString} {r : Int}
    (h : c.invalidate name = some (r, c')) : Settled c' e := by
  obtain ⟨⟨E, R, ht, hm, hmem⟩, href⟩ := hs
  obtain ⟨hp, c₁, E₁, R₁, hraw, hquiet, ht₁, hm₁, hout⟩ := invalidateRaw_spec ht hm name
  have hcase : e ∉ E₁ ∧ (hp ≠ NoEntry → hp ≠ e) := by
    cases hout with
    | cached hidx hname =>
      exact ⟨fun he => hmem (Finset.mem_of_mem_erase he), fun _ heq => hmem (heq ▸ hidx)⟩
    | removed => exact ⟨hmem, fun hne => absurd rfl hne⟩
    | unknown => exact ⟨hmem, fun hne => absurd rfl hne⟩
  have hs₁ : Settled c₁ e := by
    refine ⟨⟨E₁, R₁, ht₁, hm₁, hcase.1⟩, ?_⟩
    rw [hquiet.ref]
    exact href
  unfold Xcache.invalidate at h
  rw [hraw, Option.bind_some] at h
  dsimp only at h
  by_cases hnone : hp = NoEntry
  · rw [if_neg (not_not_intro hnone)] at h
    obtain ⟨-, rfl⟩ := Prod.mk.inj (Option.some.inj h)
    exact hs₁
  · rw [if_pos hnone] at h
    obtain ⟨c₂, hput, heq⟩ := Option.map_eq_some_iff.mp h
    obtain ⟨-, rfl⟩ := Prod.mk.inj heq
    exact hs₁.entryPut (hcase.2 hnone) hput

theorem Settled.closeTurn (hs : Settled c e) {i : Nat} (hi : UInt64.ofNat i ≠ e)
    (h : c.closeTurn i = some c') : Settled c' e := by
  unfold Xcache.closeTurn at h
  dsimp only at h
  by_cases hzero : (c.nodes (UInt64.ofNat i)).ref = 0
  · rw [if_pos hzero] at h
    obtain rfl := Option.some.inj h
    exact hs
  · rw [if_neg hzero] at h
    obtain ⟨⟨r, c₁⟩, hinv, hput⟩ := Option.bind_eq_some_iff.mp h
    exact (hs.invalidate hinv).entryPut hi hput

theorem foldlM_closeTurn (ht : Tables c E R) (hm : Ordered c E)
    (href : ∀ idx : xqindex, idx.toNat < c.nr_nodes.toNat →
      (c.nodes idx).ref = if idx ∈ E then 1 else 0)
    (hmem : e ∈ E) (hfirst : ∀ idx ∈ E, e.toNat ≤ idx.toNat) {n : Nat} (hn : n ≤ c.nr_nodes.toNat)
    (h : (List.range n).foldlM closeTurn c = some c') :
    (n ≤ e.toNat → c' = c) ∧ (e.toNat < n → Settled c' e) := by
  induction n generalizing c' with
  | zero => exact ⟨fun _ => (Option.some.inj h).symm, fun hlt => absurd hlt (Nat.not_lt_zero _)⟩
  | succ n ih =>
    rw [List.range_succ, List.foldlM_append] at h
    obtain ⟨c₁, hrest, hturn⟩ := Option.bind_eq_some_iff.mp h
    have hturn : c₁.closeTurn n = some c' := by
      obtain ⟨c₂, hturn, hlast⟩ := Option.bind_eq_some_iff.mp hturn
      rw [hturn, ← hlast]
      rfl
    obtain ⟨hsame, hsettled⟩ := ih (Nat.le_of_succ_le hn) hrest
    have hnat : (UInt64.ofNat n).toNat = n := toNat_ofNat_lt (Nat.lt_of_succ_le hn)
    rcases Nat.lt_trichotomy n e.toNat with hlt | heq | hgt
    · refine ⟨fun _ => ?_, fun hcon => absurd hcon (by omega)⟩
      obtain rfl := hsame (Nat.le_of_lt hlt)
      have hfree : UInt64.ofNat n ∉ E := fun hE => by
        have := hfirst _ hE
        omega
      have hzero : (c₁.nodes (UInt64.ofNat n)).ref = 0 := by
        rw [href _ (by omega), if_neg hfree]
      rw [closeTurn, if_pos hzero] at hturn
      exact (Option.some.inj hturn).symm
    · refine ⟨fun hcon => absurd hcon (by omega), fun _ => ?_⟩
      obtain rfl := hsame (Nat.le_of_eq heq)
      have he : UInt64.ofNat n = e := UInt64.toNat_inj.mp (hnat.trans heq)
      have hone : (c₁.nodes e).ref = 1 := by
        rw [href e (ht.entries_low e hmem), if_pos hmem]
      exact closeTurn_settles ht hm he hmem hone hturn
    · refine ⟨fun hcon => absurd hcon (by omega), fun _ => ?_⟩
      have hne : UInt64.ofNat n ≠ e := fun heq => by
        rw [heq] at hnat
        omega
      exact (hsettled hgt).closeTurn hne hturn

/-- A cache in which each count is that of the table is not closed as long as it has an entry. -/
theorem not_closes (ht : Tables c E R) (hm : Ordered c E)
    (href : ∀ idx : xqindex, idx.toNat < c.nr_nodes.toNat →
      (c.nodes idx).ref = if idx ∈ E then 1 else 0)
    (hmem : E.Nonempty) : ¬ c.Closes := by
  rintro ⟨c', hclose, hclosed⟩
  obtain ⟨e, he, hfirst⟩ := E.exists_min_image UInt64.toNat hmem
  have hlow := ht.entries_low e he
  have hsettled := (foldlM_closeTurn ht hm href he hfirst (Nat.le_refl _) hclose).2 hlow
  exact hsettled.2 (hclosed.ref e hlow)

end Turns

section Runs
variable {ι : Type} [Fintype ι] {w w₀ : World ι} {as : List (ι × Event)} {free : List xqindex}
  {E R : Finset xqindex}

/-- When nobody has a reference the counts are those of the table. -/
theorem Inv.ref_of_left (hi : Inv w free E R) (hleft : w.Left) (hfailed : w.failed = ∅)
    (hnode : w.cache.ops.on_node_init = true) (idx : xqindex)
    (hlow : idx.toNat < w.cache.nr_nodes.toNat) :
    (w.cache.nodes idx).ref = if idx ∈ E then 1 else 0 := by
  have hrefs : w.refs idx = 0 := by
    apply Finset.sum_eq_zero
    intro i _
    rw [refs_of_idle (hleft i).1]
    exact (hleft i).2 idx hlow
  by_cases hspare : w.Spare free idx
  · have hE : idx ∉ E := fun hE => hi.not_spare (.inl hE) hspare
    rw [if_neg hE]
    exact hi.zero (.inl ⟨hnode, hfailed ▸ Finset.notMem_empty idx⟩) hlow hspare
  · have hcount := hi.counted hlow hspare
    rw [hrefs, Nat.add_zero] at hcount
    apply UInt32.toNat_inj.mp
    rw [hcount]
    split <;> rfl

theorem Inv.closes_iff (hi : Inv w free E R) (hleft : w.Left) (hfailed : w.failed = ∅)
    (hnode : w.cache.ops.on_node_init = true) : w.cache.Closes ↔ w.cache.Emptied := by
  have href := hi.ref_of_left hleft hfailed hnode
  refine ⟨fun hcloses => ?_, Emptied.closes⟩
  have hempty : E = ∅ := by
    by_contra hne
    exact not_closes hi.stored.tables hi.stored.ordered href (Finset.nonempty_iff_ne_empty.mpr hne)
      hcloses
  have hzero (idx : xqindex) (hlow : idx.toNat < w.cache.nr_nodes.toNat) :
      (w.cache.nodes idx).ref = 0 := by
    rw [href idx hlow, hempty]
    exact if_neg (Finset.notMem_empty idx)
  refine ⟨?_, hzero, ?_⟩
  · intro idx name hc
    have hmem := (hi.stored.tables.entries.holds.mp hc).1
    rw [hempty] at hmem
    exact Finset.notMem_empty idx hmem
  · obtain ⟨c', hclose, hclosed⟩ := hcloses
    rw [close_of_zero hzero] at hclose
    obtain rfl := Option.some.inj hclose
    exact hclosed.free

/-- In any state it is enough that there is nothing to close. In the states that a run without
wrapped counts and failing initialisations comes to, it is also necessary. -/
theorem run_closes_iff [DecidableEq ι] [Builtins] (hs : Start w₀)
    (hrun : Run (Guarded World.Step fun w b => b.2.InTime w.cache ∧ b.2.Named w.cache ∧
      b.2.Inits w.cache ∧ b.2.Counts w.cache) w₀ as w)
    (hleft : w.Left) (hnode : w.cache.ops.on_node_init = true) :
    (∀ c : Xcache, c.Emptied → c.Closes) ∧ (w.cache.Closes ↔ w.cache.Emptied) := by
  have hinv : w.failed = ∅ ∧ ∃ free E R, Inv w free E R := by
    apply hrun.invariant (I := fun w => w.failed = ∅ ∧ ∃ free E R, Inv w free E R)
    · rintro w b w' ⟨hfailed, free, E, R, hi⟩ ⟨⟨htime, hnamed, hinit, hcount⟩, hstep⟩
      obtain ⟨free', E', R', -, hi', -⟩ := hi.step hstep htime hnamed hcount
      exact ⟨step_failed hstep hinit hfailed, free', E', R', hi'⟩
    · exact ⟨hs.failed, _, _, _, hs.inv⟩
  obtain ⟨hfailed, free, E, R, hi⟩ := hinv
  exact ⟨fun _ => Emptied.closes, hi.closes_iff hleft hfailed hnode⟩

end Runs

def World.leftBy (w : World Unit) : Bool :=
  (w.clients ()).pc = .idle ∧
    ∀ n < w.cache.nr_nodes.toNat, (w.clients ()).held (UInt64.ofNat n) = 0

theorem World.left_of_leftBy {w : World Unit} (h : w.leftBy = true) : w.Left := by
  obtain ⟨hidle, hheld⟩ := of_decide_eq_true h
  refine fun _ => ⟨hidle, fun idx hlow => ?_⟩
  rw [← UInt64.ofNat_toNat (x := idx)]
  exact hheld _ hlow

/-- An entry that was set up, inserted, invalidated and put. -/
theorem run_closes_iff_invalidated : ∃ (_ : Builtins) (w₀ w : World Unit) (as : List (Unit × Event)),
    (Start w₀ ∧ Run (Guarded World.Step fun w b => b.2.InTime w.cache ∧ b.2.Named w.cache ∧
        b.2.Inits w.cache ∧ b.2.Counts w.cache) w₀ as w ∧
      w.Left ∧ w.cache.ops.on_node_init = true ∧ as.length = 7) ∧
    (∀ c : Xcache, c.Emptied → c.Closes) ∧ (w.cache.Closes ↔ w.cache.Emptied) := by
  let _ : Builtins := ⟨0⟩
  let events : List Event := [.pop 0, .init 0 nameA 0, .insert 0 plenty 0 NoEntry NoEntry,
    .invalidate nameA 0 0, .settle 0 false, .put 0 true, .free 0 false]
  have hsome : (trial (fun w event => w.Early ∧ event.Named w.cache ∧ event.Inits w.cache ∧
      event.Counts w.cache) 1 XCACHE_LRU_ARRAY events).any
        (fun w => w.leftBy && w.cache.ops.on_node_init) = true := by decide +kernel
  obtain ⟨w₀, w, hs, -, hrun, hcheck⟩ := run_of_trial hsome
  obtain ⟨hleft, hnode⟩ := Bool.and_eq_true_iff.mp hcheck
  have hleft : w.Left := World.left_of_leftBy hleft
  have hrun : Run (Guarded World.Step fun w b => b.2.InTime w.cache ∧ b.2.Named w.cache ∧
      b.2.Inits w.cache ∧ b.2.Counts w.cache) w₀ _ w :=
    World.run_guard (fun b _ w hok => ⟨hok.1.inTime b.2, hok.2⟩) hrun
  exact ⟨_, w₀, w, _, ⟨hs, hrun, hleft, hnode, rfl⟩, run_closes_iff hs hrun hleft hnode⟩

/-- An entry that was set up, inserted and put is put twice. -/
theorem not_run_closes : ¬ ∀ [Builtins] (w₀ w : World Unit) (as : List (Unit × Event)),
    Start w₀ → Run World.Step w₀ as w → w.Left → w.cache.Closes := by
  let _ : Builtins := ⟨0⟩
  intro hall
  let events : List Event :=
    [.pop 0, .init 0 nameA 0, .insert 0 plenty 0 NoEntry NoEntry, .put 0 false]
  let check (w : World Unit) : Bool :=
    w.leftBy && decide ((0 : xqindex).toNat < w.cache.nr_nodes.toNat) &&
      w.cache.close.all fun c' => (c'.nodes 0).ref ≠ 0
  have hsome : (trial (fun w _ => w.Early) 1 XCACHE_LRU_ARRAY events).any check = true := by
    decide +kernel
  obtain ⟨w₀, w, hs, -, hrun, hcheck⟩ := run_of_trial hsome
  obtain ⟨hcheck, hclose⟩ := Bool.and_eq_true_iff.mp hcheck
  obtain ⟨hleft, hlow⟩ := Bool.and_eq_true_iff.mp hcheck
  obtain ⟨c', hc', hclosed⟩ :=
    hall w₀ w _ hs (hrun.mono fun h => h.2) (World.left_of_leftBy hleft)
  rw [hc', Option.all_some] at hclose
  exact of_decide_eq_true hclose (hclosed.ref 0 (of_decide_eq_true hlow))

end Xcache

end Libxseg
