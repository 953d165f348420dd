import Libxseg.Recency
import Libxseg.XcacheCapacity
import Libxseg.XcacheInversion
import Libxseg.XcacheLosses

/-!
# The victims of a cache with the array

What the cache knows of the past are the times in its array. A section that accesses no
node leaves them or takes them away (`Restamped`), and an access gives its node the new
time (`Accessed`), so the times are in the order of the last accesses, over any history
and however the nodes are used again. The scan takes the smallest.

`CacheCall` has the calls of `Event` and `xcache_remove`, whose caller takes the reference
of the table over.
-/

namespace Libxseg

set_option autoImplicit false

namespace Xcache

variable {ι : Type} {c c' c'' : Xcache} {E R E' R' : Finset xqindex} {idx g h v z : xqindex}
  {r : Int} {mem : InsertMemory} {result : InsertResult}

structure Restamped (c c' : Xcache) : Prop where
  flags : c'.flags = c.flags
  time : c'.time = c.time
  times : ∀ idx, c'.times idx = c.times idx ∨ c'.times idx = XCACHE_LRU_MAX

structure Accessed (c : Xcache) (z : xqindex) (c' : Xcache) : Prop where
  self : z ≠ NoEntry → c'.times z = c'.time
  other : ∀ idx, idx ≠ z → c'.times idx = c.times idx ∨ c'.times idx = XCACHE_LRU_MAX

theorem Restamped.of_times (hflags : c'.flags = c.flags) (htime : c'.time = c.time)
    (htimes : c'.times = c.times) : Restamped c c' :=
  ⟨hflags, htime, fun idx => Or.inl (congrFun htimes idx)⟩

theorem Restamped.refl (c : Xcache) : Restamped c c := .of_times rfl rfl rfl

theorem Restamped.trans (h : Restamped c c') (h' : Restamped c' c'') : Restamped c c'' := by
  refine ⟨h'.flags.trans h.flags, h'.time.trans h.time, fun idx => ?_⟩
  rcases h'.times idx with heq | hmax
  · rw [heq]
    exact h.times idx
  · exact Or.inr hmax

theorem Restamped.accessed (h : Restamped c c') : Accessed c NoEntry c' :=
  ⟨fun hne => absurd rfl hne, fun idx _ => h.times idx⟩

theorem Restamped.touch (h : Restamped c c') (harray : c.has XCACHE_LRU_ARRAY = true)
    (hbelow : c.TimeBelow) (z : xqindex) : Accessed c z (c'.entryGetAndUpdate z) := by
  have harray' : c'.has XCACHE_LRU_ARRAY = true := by rwa [has, h.flags]
  have hbelow' : c'.TimeBelow := by rwa [TimeBelow, h.time]
  rw [entryGetAndUpdate_eq harray' hbelow']
  constructor
  · intro _
    exact Function.update_self ..
  · intro idx hne
    have hsame : Function.update c'.times z (c'.time + 1) idx = c'.times idx :=
      Function.update_of_ne hne _ _
    rcases h.times idx with heq | hmax
    · exact Or.inl (hsame.trans heq)
    · exact Or.inr (hsame.trans hmax)

theorem restamped_removeEntries (harray : c.has XCACHE_LRU_ARRAY = true)
    (hrun : c.removeEntries h = some (r, c')) : Restamped c c' := by
  obtain ⟨r₁, entries, -, ⟨-, -, rfl⟩ | ⟨-, -, rfl⟩⟩ := removeEntries_inv hrun
  · exact .of_times rfl rfl rfl
  · have hforget : forget { c with entries := entries } h =
        { c with entries := entries, times := Function.update c.times h XCACHE_LRU_MAX } :=
      if_pos harray
    rw [hforget]
    refine ⟨rfl, rfl, fun idx => ?_⟩
    by_cases hidx : idx = h
    · rw [hidx]
      exact Or.inr (Function.update_self ..)
    · exact Or.inl (Function.update_of_ne hidx _ _)

theorem restamped_removeRm (hrun : c.removeRm h = some (r, c')) : Restamped c c' := by
  obtain ⟨rm_entries, -, rfl⟩ := removeRm_inv hrun
  exact .of_times rfl rfl rfl

theorem restamped_insertRm {table : TableMemory} (hrun : c.insertRm h table = some (r, c')) :
    Restamped c c' := by
  obtain ⟨rm_entries, -, rfl⟩ := insertRm_inv hrun
  exact .of_times rfl rfl rfl

theorem restamped_insertEntries {table : TableMemory}
    (hrun : c.insertEntries h table = some (r, c')) : Restamped c c' := by
  obtain ⟨entries, -, rfl⟩ := insertEntries_inv hrun
  exact .of_times rfl rfl rfl

theorem restamped_reinsertRm (hrun : c.reinsertRm h = some (r, c')) : Restamped c c' := by
  obtain ⟨c₁, hremove, hc'⟩ := reinsertRm_inv hrun
  have hfirst := restamped_removeRm hremove
  rcases hc' with ⟨-, rfl⟩ | ⟨-, rfl⟩
  · exact hfirst
  · exact hfirst.trans (.of_times rfl rfl rfl)

theorem restamped_evict {table : TableMemory} (harray : c.has XCACHE_LRU_ARRAY = true)
    (hrun : c.evict h table = some (r, c')) : Restamped c c' := by
  obtain ⟨r₁, c₁, hremove, hrest⟩ := evict_inv hrun
  have hfirst := restamped_removeEntries harray hremove
  rcases hrest with ⟨-, -, rfl⟩ | ⟨-, -, -, rfl⟩ | ⟨-, -, r₂, c₂, hinsert, hc'⟩
  · exact hfirst
  · exact hfirst
  · have hstate : Restamped c₁ (c₁.modify h fun ce => { ce with state := .NODE_EVICTED }) :=
      .of_times rfl rfl rfl
    have hsecond := (hfirst.trans hstate).trans (restamped_insertRm hinsert)
    rcases hc' with ⟨-, -, rfl⟩ | ⟨-, -, rfl⟩
    · exact hsecond.trans (.of_times rfl rfl rfl)
    · exact hsecond

theorem restamped_evictLru {table : TableMemory} {lru : xcache_handler}
    (harray : c.has XCACHE_LRU_ARRAY = true) (hrun : c.evictLru table = some (lru, c')) :
    Restamped c c' := by
  have hsame : c.lru.2 = c := (ranked_lru c).2.2 harray
  rcases evictLru_inv hrun with ⟨-, -, rfl⟩ | ⟨-, r, hevict, -⟩
  · rw [hsame]
    exact .refl c
  · rw [hsame] at hevict
    exact restamped_evict harray hevict

theorem Restamped.insertDone (h : Restamped c c') (harray : c.has XCACHE_LRU_ARRAY = true)
    (hbelow : c.TimeBelow) (z lru reinsert : xcache_handler) (r : Int) :
    Accessed c (c'.insertDone z lru reinsert r).ret (c'.insertDone z lru reinsert r).cache := by
  unfold Xcache.insertDone
  split
  · exact h.touch harray hbelow z
  · exact h.accessed

theorem accessed_insertNew {reinsert : xcache_handler} (harray : c.has XCACHE_LRU_ARRAY = true)
    (hbelow : c.TimeBelow) (hrun : c.insertNew g reinsert mem = some result) :
    Accessed c result.ret result.cache := by
  obtain ⟨r₁, c₁, hfirst, hrest⟩ := insertNew_inv hrun
  have h₁ := restamped_insertEntries hfirst
  rcases hrest with ⟨-, rfl⟩ | ⟨-, lru, c₂, hevict, hrest⟩
  · exact h₁.insertDone harray hbelow ..
  · have h₂ := h₁.trans (restamped_evictLru (by rwa [has, h₁.flags]) hevict)
    rcases hrest with ⟨-, rfl⟩ | ⟨-, r₃, c₃, hsecond, rfl⟩
    · exact h₂.accessed
    · exact (h₂.trans (restamped_insertEntries hsecond)).insertDone harray hbelow ..

theorem accessed_lookup {name : NamePtr} {ret : xcache_handler}
    (harray : c.has XCACHE_LRU_ARRAY = true) (hbelow : c.TimeBelow)
    (hrun : c.lookupAndGetEntries name = some (ret, c')) : Accessed c ret c' := by
  obtain ⟨-, ⟨-, rfl⟩ | ⟨rfl, rfl⟩⟩ := lookupAndGetEntries_inv hrun
  · exact (Restamped.refl c).touch harray hbelow ret
  · exact (Restamped.refl c').accessed

theorem Restamped.before (h : Restamped c c') (h' : Accessed c' z c'') : Accessed c z c'' := by
  refine ⟨h'.self, fun idx hne => ?_⟩
  rcases h'.other idx hne with heq | hmax
  · rw [heq]
    exact h.times idx
  · exact Or.inr hmax

theorem accessed_insertRaw (harray : c.has XCACHE_LRU_ARRAY = true) (hbelow : c.TimeBelow)
    (hrun : c.insertRaw h mem = some result) : Accessed c result.ret result.cache := by
  rcases insertRaw_inv hrun with ⟨g, -, -, rfl⟩ | ⟨-, hnew | ⟨g, -, -, -, r, c₁, hreinsert, hrest⟩⟩
  · exact (Restamped.refl c).touch harray hbelow g
  · exact accessed_insertNew harray hbelow hnew
  · have h₁ := restamped_reinsertRm hreinsert
    rcases hrest with ⟨-, rfl⟩ | ⟨-, hnew⟩
    · exact h₁.accessed
    · exact h₁.before
        (accessed_insertNew (by rwa [has, h₁.flags]) (by rwa [TimeBelow, h₁.time]) hnew)

theorem restamped_entryPutRef {last : Bool} (hrun : c.entryPutRef h = some (last, c')) :
    Restamped c c' := by
  obtain ⟨c₁, hc₁, hrest⟩ := entryPutRef_inv hrun
  have hfirst : Restamped c c₁ := hc₁ ▸ .of_times rfl rfl rfl
  rcases hrest with rfl | ⟨-, rfl⟩ | ⟨r, hremove, -⟩
  · exact hfirst
  · exact hfirst.trans (.of_times rfl rfl rfl)
  · have hcall : Restamped c₁ (c₁.call c₁.ops.on_finalize (.on_finalize h)) :=
      .of_times rfl rfl rfl
    exact (hfirst.trans hcall).trans (restamped_removeRm hremove)

theorem restamped_invalidateRaw {name : CString} (harray : c.has XCACHE_LRU_ARRAY = true)
    (hrun : c.invalidateRaw name = some (r, h, c')) : Restamped c c' := by
  rcases invalidateRaw_inv hrun with ⟨g, -, -, hremove, -⟩ | ⟨-, ⟨g, -, -, hremove⟩ | ⟨-, rfl⟩⟩
  · exact restamped_removeEntries harray hremove
  · exact restamped_removeRm hremove
  · exact .refl c'

/-- The calls of `Event`, and `xcache_remove` with what it returns. -/
inductive CacheCall where
  | base (event : Event)
  | remove (h : xcache_handler) (r : Int)

namespace CacheCall

def accessed : CacheCall → xcache_handler
  | base (.lookup _ ret) => ret
  | base (.insert _ _ ret _ _) => ret
  | _ => NoEntry

def Roomy (c : Xcache) : CacheCall → Prop
  | base event => event.Roomy c
  | remove _ _ => True

variable [DecidableEq ι]

/-- A handle is removed while it is cached, and the reference of the table is then the caller's. -/
inductive Step (w : World ι) : ι × CacheCall → World ι → Prop
  | base {i event w'} : World.Step w (i, event) w' → Step w (i, .base event) w'
  | remove {i h r cache} :
      (w.clients i).pc = .idle → (∃ name, w.cache.Cached name h) →
      w.cache.remove h = some (r, cache) →
      Step w (i, .remove h r)
        (w.act i cache ⟨if r < 0 then (w.clients i).held else hand (w.clients i).held h, .idle⟩)

end CacheCall

theorem CacheCall.Step.accessed [DecidableEq ι] {w w' : World ι} {b : ι × CacheCall}
    (hstep : CacheCall.Step w b w') (harray : w.cache.has XCACHE_LRU_ARRAY = true)
    (hbelow : w.cache.TimeBelow) : Accessed w.cache b.2.accessed w'.cache := by
  have hsame {c' : Xcache} (hflags : c'.flags = w.cache.flags) (htime : c'.time = w.cache.time)
      (htimes : c'.times = w.cache.times) : Accessed w.cache NoEntry c' :=
    (Restamped.of_times hflags htime htimes).accessed
  cases hstep with
  | remove _ _ hrun => exact (restamped_removeEntries harray hrun).accessed
  | base hstep =>
    cases hstep with
    | full _ hpop =>
      obtain rfl := (Prod.ext_iff.mp hpop).2
      exact hsame rfl rfl rfl
    | pop _ hpop _ =>
      obtain rfl := (Prod.ext_iff.mp hpop).2
      exact hsame rfl rfl rfl
    | init _ hrun _ =>
      obtain rfl := (Prod.ext_iff.mp hrun).2
      exact hsame rfl rfl rfl
    | fail _ hrun _ =>
      obtain rfl := (Prod.ext_iff.mp hrun).2
      exact hsame rfl rfl rfl
    | undo _ => exact hsame rfl rfl rfl
    | insert _ _ _ hrun =>
      have ha := accessed_insertRaw harray hbelow hrun
      exact ⟨ha.self, ha.other⟩
    | lookup _ hrun => exact accessed_lookup harray hbelow hrun
    | get _ _ => exact hsame rfl rfl rfl
    | put _ _ hput => exact (restamped_entryPutRef hput).accessed
    | settle _ hput => exact (restamped_entryPutRef hput).accessed
    | @free _ _ new _ =>
      cases new with
      | true => exact hsame rfl rfl rfl
      | false => exact hsame rfl rfl rfl
    | invalidate _ hrun => exact (restamped_invalidateRaw harray hrun).accessed
    | freeNew _ _ _ => exact hsame rfl rfl rfl

def Uses (b : ι × CacheCall) (idx : xqindex) : Prop := b.2.accessed = idx

def HasEntry (c : Xcache) (idx : xqindex) : Prop := ∃ name, c.Cached name idx

/-- What an insertion does to the other entries, and which one it reports to have evicted: it takes
out at most the one that was accessed least recently. -/
structure EvictsOldest (as : List (ι × CacheCall)) (c c' : Xcache) (lru : xcache_handler) :
    Prop where
  reported : lru ≠ NoEntry → c.HasEntry lru ∧ ¬ c'.HasEntry lru
  used : ∀ idx, c.HasEntry idx → ∃ b ∈ as, Uses b idx
  oldest : ∀ v idx, c.HasEntry v → ¬ c'.HasEntry v → c.HasEntry idx → idx ≠ v →
    UsedAfter Uses as idx v
  stays : ∀ v idx name, c.HasEntry v → ¬ c'.HasEntry v → c.Cached (.arg name) idx → idx ≠ v →
    c'.Cached (.arg name) idx

theorem InsertOutcome.frame (ho : InsertOutcome c E R h mem result E' R') (hbelow : c.TimeBelow) :
    Frame c result.cache := by
  cases ho with
  | found => exact frame_entryGetAndUpdate c _
  | fresh _ _ _ hent => exact (hent hbelow).frame
  | back _ _ _ hf _ _ _ hent => exact hf.trans (hent hbelow).frame
  | refused _ _ _ _ _ _ hq => exact hq.toFrame

/-- Only the node that the scan names leaves the entries, and only then is it reported. -/
structure Spares (c : Xcache) (E E' : Finset xqindex) (lru : xcache_handler) : Prop where
  stays : ∀ idx ∈ E, idx ≠ c.lru.1 → idx ∈ E'
  reported : lru ≠ NoEntry → lru ∈ E ∧ lru ∉ E'

theorem Victim.spares {R₀ A : Finset xqindex} (hv : v = NoEntry ∧ R' = R₀ ∨ Victim c E R₀ R' v)
    (ht : Tables c E R) (hA : ∀ idx ∈ A, idx ∉ E) : Spares c E (A ∪ E.erase v) v := by
  have hcases : v = NoEntry ∨ v = c.lru.1 ∧ v ∈ E := by
    rcases hv with ⟨rfl, -⟩ | ⟨-, rfl, -⟩ | ⟨-, hlru, hmem, -⟩
    · exact Or.inl rfl
    · exact Or.inl rfl
    · exact Or.inr ⟨hlru, hmem⟩
  constructor
  · intro idx hidx hne
    apply Finset.mem_union_right
    refine Finset.mem_erase.mpr ⟨?_, hidx⟩
    rintro rfl
    rcases hcases with rfl | ⟨hlru, -⟩
    · exact ht.noEntry_notMem hidx
    · exact hne hlru
  · intro hne
    obtain ⟨-, hmem⟩ := hcases.resolve_left hne
    refine ⟨hmem, fun hmem' => ?_⟩
    rcases Finset.mem_union.mp hmem' with hmem' | hmem'
    · exact hA v hmem' hmem
    · exact Finset.notMem_erase v E hmem'

theorem InsertOutcome.spares (ho : InsertOutcome c E R h mem result E' R') (ht : Tables c E R) :
    Spares c E E' result.lru := by
  cases ho with
  | found => exact ⟨fun idx hidx _ => hidx, fun hne => absurd rfl hne⟩
  | fresh hE _ hv _ =>
    rw [Finset.insert_eq]
    apply Victim.spares (Or.inr hv) ht
    intro idx hidx hmem
    rw [Finset.mem_singleton.mp hidx] at hmem
    exact hE h hmem rfl
  | @back g _ _ _ _ hE hg hname _ _ _ hv _ =>
    rw [Finset.insert_eq]
    apply Victim.spares (Or.inr hv) ht
    intro idx hidx hmem
    rw [Finset.mem_singleton.mp hidx] at hmem
    exact hE g hmem hname
  | @refused v _ _ _ _ _ hv _ _ _ =>
    rw [← Finset.empty_union (E.erase v)]
    apply Victim.spares hv ht
    intro idx hidx
    cases hidx

theorem LostOutcome.spares (ho : LostOutcome c E R h mem result E' R') (ht : Tables c E R) :
    Spares c E E' result.lru := by
  have hdropped : Spares c E (E.erase c.lru.1) NoEntry :=
    ⟨fun idx hidx hne => Finset.mem_erase.mpr ⟨hne, hidx⟩, fun hne => absurd rfl hne⟩
  cases ho with
  | victim => exact hdropped
  | @back g v _ _ _ _ _ _ hv _ _ _ =>
    rw [← Finset.empty_union (E.erase v)]
    apply Victim.spares hv ht
    intro idx hidx
    cases hidx
  | both => exact hdropped

theorem Timed.lru_lt (hm : Timed c E) (ht : Tables c E R) (hv : c.lru.1 ∈ E) (hidx : idx ∈ E)
    (hne : idx ≠ c.lru.1) : c.times c.lru.1 < c.times idx := by
  rcases hm.lru ht.entries_low with ⟨v, hlru, hold⟩ | ⟨hlru, -⟩
  · rw [hlru] at hne ⊢
    refine UInt64.lt_of_le_of_ne (hold.le idx hidx) ?_
    intro heq
    exact hne (hm.inj v hold.mem idx hidx heq).symm
  · rw [hlru] at hv
    exact absurd hv ht.noEntry_notMem

theorem Timed.stamped {b : ι × CacheCall} {as : List (ι × CacheCall)} (hm : Timed c E)
    (hm' : Timed c' E') (hnone : NoEntry ∉ E') (ha : Accessed c b.2.accessed c')
    (hs : Stamped Uses as (· ∈ E) c.times) : Stamped Uses (as ++ [b]) (· ∈ E') c'.times := by
  apply hs.snoc
  · intro x hx hnot
    rcases ha.other x (Ne.symm hnot) with heq | hmax
    · refine ⟨?_, heq⟩
      rw [← hm.cached, ← heq]
      exact (hm'.cached x).mpr hx
    · exact absurd hmax ((hm'.cached x).mpr hx)
  · intro x y hx hy huses
    have hne : y ≠ NoEntry := fun heq => hnone (heq ▸ hy)
    obtain rfl : b.2.accessed = y := huses
    rw [ha.self hne]
    exact UInt64.not_lt.mpr (hm'.le x hx)

variable [Fintype ι] [DecidableEq ι] {w w' : World ι} {free : List xqindex} {i : ι}
  {lost : xqindex → Nat} {b : ι × CacheCall} {as : List (ι × CacheCall)}

namespace Inv

/-- The reference of the table goes to the client that removes the entry. -/
theorem removed (hi : Inv w free E R) (hidle : (w.clients i).pc = .idle) (hmem : h ∈ E)
    (hrun : w.cache.remove h = some (r, c')) :
    r = 0 ∧ c'.flags = w.cache.flags ∧
      Inv (w.act i c' ⟨hand (w.clients i).held h, .idle⟩) free (E.erase h) R := by
  obtain ⟨c1, hr, ht, hm, hq⟩ := removeEntries_mem hi.stored.tables hi.stored.ordered hmem
  rw [Xcache.remove, hr, Option.some.injEq, Prod.mk.injEq] at hrun
  obtain ⟨rfl, rfl⟩ := hrun
  have hrefs (j : xqindex) := refs_of_idle hidle j
  have hne : h ≠ NoEntry := ne_noEntry_of_low (hi.stored.tables.entries_low h hmem)
  have hk (j : xqindex) : Client.refs ⟨hand (w.clients i).held h, .idle⟩ j =
      (w.clients i).refs j + if j = h then 1 else 0 := by
    rw [refs_of_idle rfl, hrefs]
    dsimp only
    rw [hand_apply]
    simp [hne]
  refine ⟨rfl, hq.flags, ?_⟩
  apply hi.locked (not_owns_of_idle hidle) (not_owns_of_idle rfl) rfl
  · apply hi.stored.of_frame hq.toFrame ht hm
    intro j hj
    exact hj.elim (fun hj => hi.stored.entries_free j (Finset.mem_of_mem_erase hj))
      (hi.stored.rm_free j)
  · exact hq.nr_nodes
  · exact hq.ops
  · intro j hj
    rcases hj with hj | hj | hj
    · exact Or.inl (Finset.mem_of_mem_erase hj)
    · exact Or.inr (Or.inl hj)
    · rw [hk] at hj
      by_cases heq : j = h
      · rw [heq]
        exact Or.inl hmem
      · rw [if_neg heq] at hj
        exact Or.inr (Or.inr hj)
  · intro j
    rw [hk]
    change (c1.nodes j).ref.toNat + _ + _ = _
    rw [hq.ref]
    by_cases heq : j = h
    · rw [if_pos heq, heq, if_pos hmem, if_neg (Finset.notMem_erase h E)]
      omega
    · rw [if_neg heq, if_congr (Finset.mem_erase.trans (and_iff_right heq)) rfl rfl]
      omega
  · intro j hj
    obtain ⟨hE, hR⟩ := hi.fresh_out hj
    refine ⟨hj, fun hmem => hE (Finset.mem_of_mem_erase hmem), hR, Pc.noConfusion, ?_⟩
    intro hpos
    dsimp only at hpos
    rwa [hand_apply, if_neg fun hand : j = h ∧ _ => hE (hand.1 ▸ hmem)] at hpos
  · exact fun j hj => Or.inl hj
  · rfl

theorem step_call (hi : Inv (w.haunted lost) free E R)
    (harray : w.cache.has XCACHE_LRU_ARRAY = true) (hstep : CacheCall.Step w b w')
    (hearly : w.Early) (hroomy : b.2.Roomy w.cache) :
    ∃ lost' free' E' R', Inv (w'.haunted lost') free' E' R' ∧
      w'.cache.flags = w.cache.flags := by
  cases hstep with
  | base hstep => exact hi.step_lossy harray hstep (hearly.inTime _) hroomy
  | @remove i h r cache hidle hcached hrun =>
    have hmem : h ∈ E := (hi.stored.tables.cached_iff h).mp hcached
    obtain ⟨rfl, hflags, hi'⟩ := hi.removed (i := some i) hidle hmem hrun
    refine ⟨lost, free, E.erase h, R, ?_, hflags⟩
    rw [if_neg (Int.lt_irrefl 0), World.haunted_act]
    exact hi'

end Inv

theorem run_stamped [Builtins] {w₀ : World ι} (hs : Start w₀)
    (harray : w₀.cache.has XCACHE_LRU_ARRAY = true)
    (hrun : Run (Guarded CacheCall.Step fun w b => w.Early ∧ b.2.Roomy w.cache) w₀ as w) :
    w.cache.has XCACHE_LRU_ARRAY = true ∧ ∃ lost free E R, Inv (w.haunted lost) free E R ∧
      Stamped Uses as (· ∈ E) w.cache.times := by
  apply hrun.history (I := fun as w => w.cache.has XCACHE_LRU_ARRAY = true ∧
    ∃ lost free E R, Inv (w.haunted lost) free E R ∧ Stamped Uses as (· ∈ E) w.cache.times)
  · rintro as w b w' ⟨harray, lost, free, E, R, hi, hst⟩ ⟨⟨hearly, hroomy⟩, hstep⟩
    obtain ⟨lost', free', E', R', hi', hflags⟩ := hi.step_call harray hstep hearly hroomy
    have harray' : w'.cache.has XCACHE_LRU_ARRAY = true := by rwa [has, hflags]
    exact ⟨harray', lost', free', E', R', hi', (hi.stored.ordered harray).stamped
      (hi'.stored.ordered harray') hi'.stored.tables.noEntry_notMem
      (hstep.accessed harray hearly.timeBelow) hst⟩
  · have hstart : Start (w₀.haunted fun _ => 0) := by
      refine ⟨hs.cache, fun j => ?_, hs.fresh, hs.evicted, hs.failed⟩
      cases j with
      | none => rfl
      | some j => exact hs.clients j
    exact ⟨harray, _, _, _, _, hstart.inv, .nil fun x hx => by cases hx⟩

/-- In every run in which no reference count wraps, an insertion takes out no entry but the one
that was accessed least recently. -/
theorem run_evicts_oldest [Builtins] {w₀ : World ι} {mem : InsertMemory}
    {ret lru reinsert : xcache_handler} (hs : Start w₀)
    (harray : w₀.cache.has XCACHE_LRU_ARRAY = true)
    (hrun : Run (Guarded CacheCall.Step fun w b => w.Early ∧ b.2.Roomy w.cache) w₀ as w)
    (hstep : Guarded CacheCall.Step (fun w b => w.Early ∧ b.2.Roomy w.cache) w
      (i, .base (.insert h mem ret lru reinsert)) w') :
    EvictsOldest as w.cache w'.cache lru := by
  obtain ⟨harray, lost, free, E, R, hi, hst⟩ := run_stamped hs harray hrun
  obtain ⟨⟨hearly, hroomy⟩, hstep⟩ := hstep
  cases hstep with
  | base hstep =>
    obtain ⟨result, E', R', lost', hr, rfl, rfl, hcache, ho, hne, hflags, hi'⟩ :=
      hi.step_insert harray hstep (hearly.inTime _) hroomy
    have ht := hi.stored.tables
    have ht' : Tables w'.cache E' R' := hi'.stored.tables
    have hm := hi.stored.ordered harray
    have hspares : Spares w.cache E E' result.lru := ho.elim (·.spares ht) (·.spares ht)
    have hframe : Frame w.cache w'.cache := by
      rw [hcache]
      exact (ho.elim (·.frame hearly.timeBelow) (·.frame)).trans (announced_frame result)
    have hiff (idx : xqindex) : w.cache.HasEntry idx ↔ idx ∈ E := ht.cached_iff idx
    have hiff' (idx : xqindex) : w'.cache.HasEntry idx ↔ idx ∈ E' := ht'.cached_iff idx
    have hvictim {v : xqindex} (hv : w.cache.HasEntry v) (hv' : ¬ w'.cache.HasEntry v) :
        v = w.cache.lru.1 := by
      by_contra hne
      rw [hiff] at hv
      exact hv' ((hiff' v).mpr (hspares.stays v hv hne))
    constructor
    · rw [hiff, hiff']
      exact hspares.reported
    · intro idx hidx
      exact hst.used idx ((hiff idx).mp hidx)
    · intro v idx hv hv' hidx hne
      obtain rfl := hvictim hv hv'
      rw [hiff] at hv hidx
      exact hst.after idx _ hidx hv (hm.lru_lt ht hv hidx hne)
    · intro v idx name hv hv' hc hne
      obtain rfl := hvictim hv hv'
      obtain ⟨hidx, hname⟩ := ht.entries.holds.mp hc
      refine ht'.entries.holds.mpr ⟨hspares.stays idx hidx hne, ?_⟩
      rw [hframe.name]
      exact hname

omit [Fintype ι] in
theorem run_base (ok : World ι → Event → Prop) {ok' : World ι → ι × CacheCall → Prop}
    (hok : ∀ w i event, ok w event → ok' w (i, .base event)) {bs : List (ι × Event)}
    (hrun : Run (Guarded World.Step fun w b => ok w b.2) w bs w') :
    Run (Guarded CacheCall.Step ok') w (bs.map fun b => (b.1, .base b.2)) w' :=
  hrun.map _ fun {w b w'} (h : ok w b.2 ∧ World.Step w b w') => ⟨hok w b.1 b.2 h.1, .base h.2⟩

instance (c : Xcache) (idx : xqindex) : Decidable (c.HasEntry idx) :=
  inferInstanceAs (Decidable (∃ name, c.Cached name idx))

def nameD : CString := ⟨[99], by decide, by decide⟩

def nameE : CString := ⟨[100], by decide, by decide⟩

/-- A run in which the older of two entries is looked up before the eviction. -/
theorem run_evicts_oldest_looked_up : ∃ (_ : Builtins) (w₀ w w' : World Unit)
    (as : List (Unit × CacheCall)), (Start w₀ ∧ w₀.cache.has XCACHE_LRU_ARRAY = true ∧
      Run (Guarded CacheCall.Step fun w b => w.Early ∧ b.2.Roomy w.cache) w₀ as w ∧
      Guarded CacheCall.Step (fun w b => w.Early ∧ b.2.Roomy w.cache) w
        ((), .base (.insert 2 plenty 2 3 NoEntry)) w') ∧ EvictsOldest as w.cache w'.cache 3 := by
  let _ : Builtins := ⟨0⟩
  let events : List Event := [.pop 0, .init 0 nameA 0, .insert 0 plenty 0 NoEntry NoEntry, .pop 3,
    .init 3 nameD 0, .insert 3 plenty 3 NoEntry NoEntry, .lookup nameA 0, .pop 2, .init 2 nameE 0]
  let event : Event := .insert 2 plenty 2 3 NoEntry
  have hsome : (trial (fun w event => w.Early ∧ event.Roomy w.cache) 2 XCACHE_LRU_ARRAY events).any
      (fun w => w.Early ∧ event.Roomy w.cache ∧ (w.perform () event).isSome = true) = true := by
    decide +kernel
  obtain ⟨w₀, w, hs, hflags, hrun, hcheck⟩ := run_of_trial hsome
  have harray : w₀.cache.has XCACHE_LRU_ARRAY = true := by rw [has, hflags]; decide
  obtain ⟨hearly, hroomy, hsome⟩ := of_decide_eq_true hcheck
  obtain ⟨w', hperform⟩ := Option.isSome_iff_exists.mp hsome
  have hrun : Run (Guarded CacheCall.Step fun w b => w.Early ∧ b.2.Roomy w.cache) w₀ _ w :=
    run_base (fun w event => w.Early ∧ event.Roomy w.cache) (fun _ _ _ hok => hok) hrun
  have hstep : Guarded CacheCall.Step (fun w b => w.Early ∧ b.2.Roomy w.cache) w
      ((), .base event) w' := ⟨⟨hearly, hroomy⟩, .base (World.step_of_perform hperform)⟩
  exact ⟨_, w₀, w, w', _, ⟨hs, harray, hrun, hstep⟩, run_evicts_oldest hs harray hrun hstep⟩

/-- After 2^32 references a node is freed under the table, which has its new name as well from then
on. Once that is invalidated the node has no time but still an entry, and the eviction takes one
that was accessed later. -/
theorem not_run_evicts_oldest : ¬ ∀ [Builtins] (w₀ w w' : World Unit)
    (as : List (Unit × CacheCall)) (h : xcache_handler) (mem : InsertMemory)
    (ret lru reinsert : xcache_handler), Start w₀ → w₀.cache.has XCACHE_LRU_ARRAY = true →
    Run (Guarded CacheCall.Step fun w _ => w.Early) w₀ as w →
    Guarded CacheCall.Step (fun w _ => w.Early) w ((), .base (.insert h mem ret lru reinsert)) w' →
    EvictsOldest as w.cache w'.cache lru := by
  let _ : Builtins := ⟨0⟩
  intro hall
  let events : List Event := [.pop 0, .init 0 nameA 0, .insert 0 plenty 0 NoEntry NoEntry]
  let before : List Event := [.put 0 true, .free 0 false, .pop 0, .init 0 nameB 0,
    .insert 0 plenty 0 NoEntry NoEntry, .invalidate nameB 0 0, .settle 0 false, .pop 3,
    .init 3 nameD 0]
  let after : List Event := [.pop 2, .init 2 nameE 0]
  let last : Event := .insert 3 plenty 3 NoEntry NoEntry
  let event : Event := .insert 2 plenty 2 3 NoEntry
  have hsome : (trial (fun w _ => w.Early) 2 XCACHE_LRU_ARRAY events).any (fun w =>
      (w.clients ()).pc = .idle ∧ 0 < (w.clients ()).held 0 ∧ w.Early ∧
        ((w.gotten () 0 (2 ^ 32 - 1)).performAll (fun w _ => w.Early) ()
          (before ++ last :: after)).any fun w => w.Early ∧ w.cache.HasEntry 0 ∧
            w.cache.HasEntry 3 ∧ (w.perform () event).any fun w' => ¬ w'.cache.HasEntry 3) =
      true := by
    decide +kernel
  obtain ⟨w₀, w, hs, hflags, hrun, hcheck⟩ := run_of_trial_gets hsome
  have harray : w₀.cache.has XCACHE_LRU_ARRAY = true := by rw [has, hflags]; decide
  obtain ⟨hearly, hold, hin, hcheck⟩ := of_decide_eq_true hcheck
  obtain ⟨w', hperform, hout⟩ := (Option.any_eq_true _ _).mp hcheck
  have hrun : Run (Guarded CacheCall.Step fun w _ => w.Early) w₀ _ w :=
    run_base (fun w _ => w.Early) (fun _ _ _ hok => hok) hrun
  have hevicts := hall w₀ w w' _ _ _ _ _ _ hs harray hrun
    ⟨hearly, .base (World.step_of_perform hperform)⟩
  have hlater := hevicts.oldest 3 0 hin (of_decide_eq_true hout) hold (by decide)
  refine hlater.asymm ⟨((events.map fun event => ((), .base event)) ++
    List.replicate (2 ^ 32 - 1) ((), .base (.get 0)) ++ before.map fun event => ((), .base event)),
    ((), .base last), after.map fun event => ((), .base event), ?_, rfl, ?_⟩
  · simp only [trialGets, List.map_append, List.map_map, List.map_replicate, List.append_assoc]
    rfl
  · intro b hb
    simp only [after, List.map_cons, List.map_nil, List.mem_cons, List.not_mem_nil, or_false] at hb
    rcases hb with rfl | rfl | rfl <;> simp [Uses, CacheCall.accessed, last, NoEntry, Noneidx]

end Xcache

end Libxseg
