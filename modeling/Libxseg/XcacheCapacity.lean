import Mathlib.Data.Set.Card
import Libxseg.XcacheCounts

/-!
# How much the cache holds, and that insertions succeed

`Serves` is the promise of `xcache_insert`: the names in `entries` are never more than
`size`, and a new handle is let in, at the cost of one other entry if there is no room.
The counting of nodes is in `Tables.rm_room`; here the outcomes of a section are read
off, and the branches that the source calls bugs turn out to be dead as long as no
reference count wraps.
-/

namespace Libxseg

set_option autoImplicit false

namespace Xcache

variable {ι : Type} {w w' : World ι} {c : Xcache} {free : List xqindex}
  {E R E' R' : Finset xqindex} {h : xqindex} {mem : InsertMemory} {result : InsertResult}

def cachedNames (c : Xcache) : Set CString := {name | ∃ idx, c.Cached (.arg name) idx}

def InsertMemory.Allocates (mem : InsertMemory) : Prop :=
  mem.first ≠ none ∧ mem.victim ≠ none ∧ mem.second ≠ none

def Event.Allocates : Event → Prop
  | insert _ mem _ _ _ => mem.Allocates
  | _ => True

structure Admitted (c : Xcache) (h : xcache_handler) (result : InsertResult) : Prop where
  ret_ne : result.ret ≠ NoEntry
  ret : c.Cached (.node h) result.ret ∨ (∀ idx, ¬ c.Cached (.node h) idx) ∧
    (c.Removed (.node h) result.ret ∨ (∀ idx, ¬ c.Removed (.node h) idx) ∧ result.ret = h)
  cached : result.cache.Cached (.node h) result.ret
  evicts : result.lru ≠ NoEntry ↔
    (∀ idx, ¬ c.Cached (.node h) idx) ∧ c.cachedNames.encard = c.size.toNat
  left : result.lru ≠ NoEntry → (∃ name, c.Cached name result.lru) ∧ result.lru ≠ result.ret
  stays : ∀ idx, (∃ name, result.cache.Cached name idx) ↔
    idx = result.ret ∨ (∃ name, c.Cached name idx) ∧ idx ≠ result.lru
  removed : result.lru ≠ NoEntry → c.has XCACHE_USE_RMTABLE = true →
    result.cache.Removed (.node result.lru) result.lru

/-- The names fit, and a client that inserts a handle it has just set up gets in. -/
structure Serves (w : World ι) : Prop where
  fits : w.cache.cachedNames.encard ≤ w.cache.size.toNat
  admits : ∀ i h mem, (w.clients i).pc = .idle → h ∈ w.fresh → 0 < (w.clients i).held h →
    mem.Allocates → ∃ result, w.cache.insertRaw h mem = some result ∧ Admitted w.cache h result

theorem Tables.cachedNames_eq (ht : Tables c E R) :
    c.cachedNames = (fun idx => (c.nodes idx).name) '' (E : Set xqindex) := by
  ext name
  constructor
  · rintro ⟨idx, hc⟩
    obtain ⟨hmem, hname⟩ := ht.entries.holds.mp hc
    exact ⟨idx, Finset.mem_coe.mpr hmem, hname⟩
  · rintro ⟨idx, hmem, rfl⟩
    exact ⟨idx, ht.entries.holds.mpr ⟨Finset.mem_coe.mp hmem, rfl⟩⟩

theorem Tables.encard_cachedNames (ht : Tables c E R) : c.cachedNames.encard = E.card := by
  rw [ht.cachedNames_eq, Set.InjOn.encard_image, Set.encard_coe_eq_coe_finsetCard]
  intro i hi j hj hname
  exact ht.entries.name_inj (Finset.mem_coe.mp hi) (Finset.mem_coe.mp hj) hname

theorem Timed.enough (hm : Timed c E) (ht : Tables c E R) (htime : c.time < XCACHE_LRU_MAX - 1)
    (hmem : mem.Allocates) : mem.Enough c := by
  refine ⟨hmem.1, hmem.2.2, ?_⟩
  intro hfull hnone
  rw [ht.entries.used] at hfull
  obtain ⟨idx, hidx⟩ := Finset.card_pos.mp (Nat.lt_of_lt_of_le ht.positive hfull)
  rcases hm.lru ht.entries_low with ⟨v, hlru, hold⟩ | ⟨-, hlate⟩
  · rw [hlru] at hnone
    exact ne_noEntry_of_low (ht.entries_low v hold.mem) hnone
  · exact UInt64.not_le.mpr (UInt64.lt_of_le_of_lt (hm.le idx hidx) htime) (hlate idx hidx)

theorem Victim.admitted {R₀ : Finset xqindex} (hv : Victim c E R₀ R' result.lru) (ht : Tables c E R)
    (hno : ∀ idx, ¬ c.Cached (.node h) idx) (hret : result.ret.toNat < c.nr_nodes.toNat)
    (hnot : result.ret ∉ E)
    (hname : c.Cached (.node h) result.ret ∨ (∀ idx, ¬ c.Cached (.node h) idx) ∧
      (c.Removed (.node h) result.ret ∨ (∀ idx, ¬ c.Removed (.node h) idx) ∧ result.ret = h))
    (hcached : result.cache.Cached (.node h) result.ret)
    (ht' : Tables result.cache (insert result.ret (E.erase result.lru)) R') :
    Admitted c h result := by
  have hstays (idx : xqindex) : (∃ name, result.cache.Cached name idx) ↔
      idx = result.ret ∨ (∃ name, c.Cached name idx) ∧ idx ≠ result.lru := by
    rw [ht'.cached_iff, ht.cached_iff, Finset.mem_insert, Finset.mem_erase]
    exact or_congr Iff.rfl and_comm
  have hleft (hne : result.lru ≠ NoEntry) : result.lru ∈ E ∧ E.card = c.size.toNat ∧
      R' = c.rmAfter R₀ result.lru := by
    rcases hv with ⟨-, hnone, -⟩ | ⟨hcard, -, hmem, hR⟩
    · exact absurd hnone hne
    · exact ⟨hmem, hcard, hR⟩
  refine ⟨ne_noEntry_of_low hret, hname, hcached, ?_, ?_, hstays, ?_⟩
  · rw [ht.encard_cachedNames, Nat.cast_inj]
    constructor
    · intro hne
      exact ⟨hno, (hleft hne).2.1⟩
    · rintro ⟨-, hcard⟩
      rcases hv with ⟨hlt, -, -⟩ | ⟨-, -, hmem, -⟩
      · omega
      · exact ne_noEntry_of_low (ht.entries_low _ hmem)
  · intro hne
    obtain ⟨hmem, -, -⟩ := hleft hne
    refine ⟨(ht.cached_iff _).mpr hmem, ?_⟩
    intro heq
    exact hnot (heq ▸ hmem)
  · intro hne hrm
    obtain ⟨-, -, rfl⟩ := hleft hne
    apply ht'.rm_entries.holds.mpr
    rw [rmAfter, if_pos hrm]
    exact ⟨Finset.mem_insert_self _ _, rfl⟩

theorem InsertOutcome.admitted (ho : InsertOutcome c E R h mem result E' R') (ht : Tables c E R)
    (hh : h.toNat < c.nr_nodes.toNat) (henough : mem.Enough c)
    (hbelow : c.TimeBelow) (hE : h ∉ E) : Admitted c h result := by
  have hnone {S : Finset xqindex} {table : Xhash NamePtr} (hx : Indexes c.nodes table S)
      (hno : ∀ idx ∈ S, (c.nodes idx).name ≠ (c.nodes h).name) (idx : xqindex) :
      ¬ table.Holds (nameFunctions c.nodes) (.node h) idx := by
    rw [hx.holds]
    exact fun hand => hno idx hand.1 hand.2
  cases ho with
  | @found idx hidx hname =>
    have hc : c.Cached (.node h) idx := ht.entries.holds.mpr ⟨hidx, hname⟩
    have hframe : Frame c (c.entryGetAndUpdate idx) := frame_entryGetAndUpdate c idx
    have ht' : Tables (c.entryGetAndUpdate idx) E R := ht.touch idx
    refine ⟨ne_noEntry_of_low (ht.entries_low idx hidx), Or.inl hc, ?_, ?_, ?_, ?_, ?_⟩
    · apply ht'.entries.holds.mpr
      refine ⟨hidx, ?_⟩
      change ((c.entryGetAndUpdate idx).nodes idx).name = ((c.entryGetAndUpdate idx).nodes h).name
      rw [hframe.name, hframe.name, hname]
    · exact iff_of_false (not_not_intro rfl) fun hand => hand.1 idx hc
    · exact fun hne => absurd rfl hne
    · intro j
      dsimp only
      rw [ht'.cached_iff, ht.cached_iff]
      constructor
      · intro hj
        exact Or.inr ⟨hj, ne_noEntry_of_low (ht.entries_low j hj)⟩
      · rintro (rfl | ⟨hj, -⟩)
        · exact hidx
        · exact hj
    · exact fun hne => absurd rfl hne
  | @fresh v R' c' hnoE hnoR hv hent =>
    have hent := hent hbelow
    have hno := hnone ht.entries hnoE
    have hcached : c'.Cached (.node h) h :=
      hent.tables.entries.holds.mpr ⟨Finset.mem_insert_self _ _, rfl⟩
    exact hv.admitted ht hno hh hE (Or.inr ⟨hno, Or.inr ⟨hnone ht.rm_entries hnoR, rfl⟩⟩) hcached
      hent.tables
  | @back g v R' c1 c' hnoE hg hname hf href hcalls hv hent =>
    have hent := hent hbelow
    have hno := hnone ht.entries hnoE
    have hgE : g ∉ E := fun hmem => Finset.disjoint_left.mp ht.disjoint hmem hg
    have hremoved : c.Removed (.node h) g := ht.rm_entries.holds.mpr ⟨hg, hname⟩
    have hcached : c'.Cached (.node h) g := by
      apply hent.tables.entries.holds.mpr
      refine ⟨Finset.mem_insert_self _ _, ?_⟩
      change (c'.nodes g).name = (c'.nodes h).name
      rw [hent.frame.name, hent.frame.name, hf.name, hf.name, hname]
    exact hv.admitted ht hno (ht.rm_low g hg) hgE (Or.inr ⟨hno, Or.inl hremoved⟩) hcached
      hent.tables
  | @refused v R' c' hnoE hnoR hwhy hv ht' hm' hq =>
    exact absurd hwhy (henough.not_refused ht)

variable [Fintype ι]

theorem Inv.serves (hi : Inv w free E R) (harray : w.cache.has XCACHE_LRU_ARRAY = true)
    (hearly : w.Early) : Serves w := by
  have ht := hi.stored.tables
  have hm := hi.stored.ordered harray
  constructor
  · rw [ht.encard_cachedNames]
    exact Nat.cast_le.mpr ht.card_le
  · intro i h mem hidle hmem hpos hall
    have henough := hm.enough ht hearly hall
    have hlow : h.toNat < w.cache.nr_nodes.toNat := by
      apply hi.known
      apply Nat.lt_of_lt_of_le hpos
      rw [hi.fresh_refs hidle hmem hpos]
    obtain ⟨result, E', R', hr, ho⟩ := insertRaw_spec ht hi.stored.ordered hlow
      (fun _ _ => hm.victimCached ht.entries_low) (fun _ _ => hall.2.1) fun _ _ _ => henough
    exact ⟨result, hr, ho.admitted ht hlow henough hearly.timeBelow (hi.fresh_out hmem).1⟩

variable [DecidableEq ι]

/-- In every run in which no count wraps, the cache keeps its promise. -/
theorem run_serves [Builtins] {w₀ : World ι} {as : List (ι × Event)} (hs : Start w₀)
    (harray : w₀.cache.has XCACHE_LRU_ARRAY = true)
    (hrun : Run (Guarded World.Step fun w b => w.Early ∧ b.2.Allocates ∧ b.2.Roomy w.cache) w₀ as w)
    (hearly : w.Early) : Serves w := by
  obtain ⟨hflags, free, E, R, hi⟩ := run_inv_array hs harray (fun {w free E R b} hi harray hb => by
    obtain ⟨hearly, hall, hroomy⟩ := hb
    refine ⟨hearly.inTime b.2, hroomy, ?_⟩
    cases hb : b.2 with
    | insert h mem =>
      rw [hb] at hall
      exact ⟨fun _ _ => (hi.stored.ordered harray).enough hi.stored.tables hearly hall,
        fun _ _ => hall.2.1⟩
    | _ => trivial) hrun
  exact hi.serves (by rwa [has, hflags]) hearly

def nameB : CString := ⟨[98, 49], by decide, by decide⟩

/-- A run with an insertion into a cache that is full. -/
theorem run_serves_full : ∃ (_ : Builtins) (w₀ w : World Unit) (as : List (Unit × Event)),
    (Start w₀ ∧ w₀.cache.has XCACHE_LRU_ARRAY = true ∧
      Run (Guarded World.Step fun w b => w.Early ∧ b.2.Allocates ∧ b.2.Roomy w.cache) w₀ as w ∧
      w.Early ∧ 0 ∈ w.evicted) ∧ Serves w := by
  let _ : Builtins := ⟨0⟩
  let events : List Event := [.pop 0, .init 0 nameA 0, .insert 0 plenty 0 NoEntry NoEntry, .pop 1,
    .init 1 nameB 0, .insert 1 plenty 1 0 NoEntry]
  have hsome : (trial (fun w event => w.Early ∧ event.Roomy w.cache) 1 XCACHE_LRU_ARRAY events).any
      (fun w => w.Early ∧ 0 ∈ w.evicted) = true := by decide +kernel
  obtain ⟨w₀, w, hs, hflags, hrun, hcheck⟩ := run_of_trial hsome
  have harray : w₀.cache.has XCACHE_LRU_ARRAY = true := by rw [has, hflags]; decide
  have hall : ∀ b ∈ events.map fun event => ((), event), b.2.Allocates := by
    simp [events, Event.Allocates, InsertMemory.Allocates, plenty]
  have hrun : Run (Guarded World.Step fun w b => w.Early ∧ b.2.Allocates ∧ b.2.Roomy w.cache)
      w₀ _ w := World.run_guard (fun b hb w hok => ⟨hok.1, hall b hb, hok.2⟩) hrun
  obtain ⟨hearly, hmem⟩ := of_decide_eq_true hcheck
  exact ⟨_, w₀, w, _, ⟨hs, harray, hrun, hearly, hmem⟩, run_serves hs harray hrun hearly⟩

/-- After 2^32 references one put frees a node that is cached and referred to, and the next name
takes the node away from under the table. -/
theorem not_run_serves : ¬ ∀ [Builtins] (w₀ w : World Unit) (as : List (Unit × Event)), Start w₀ →
    w₀.cache.has XCACHE_LRU_ARRAY = true →
    Run (Guarded World.Step fun w b => w.Early ∧ b.2.Allocates) w₀ as w → w.Early → Serves w := by
  let _ : Builtins := ⟨0⟩
  intro hall
  let events : List Event := [.pop 0, .init 0 nameA 0, .insert 0 plenty 0 NoEntry NoEntry]
  let more : List Event := [.put 0 true, .free 0 false, .pop 0, .init 0 nameB 0]
  have hsome : (trial (fun w _ => w.Early) 1 XCACHE_LRU_ARRAY events).any (fun w =>
      (w.clients ()).pc = .idle ∧ 0 < (w.clients ()).held 0 ∧ w.Early ∧
        ((w.gotten () 0 (2 ^ 32 - 1)).performAll (fun w _ => w.Early) () more).any fun w =>
          w.Early ∧ (w.clients ()).pc = .idle ∧ 0 ∈ w.fresh ∧ 0 < (w.clients ()).held 0 ∧
            (w.cache.insertRaw 0 plenty).all fun result => result.ret = NoEntry) = true := by
    decide +kernel
  obtain ⟨w₀, w, hs, hflags, hrun, hcheck⟩ := run_of_trial_gets hsome
  have harray : w₀.cache.has XCACHE_LRU_ARRAY = true := by rw [Xcache.has, hflags]; decide
  obtain ⟨hearly, hidle, hfresh, hpos, hnone⟩ := of_decide_eq_true hcheck
  have hplenty : plenty.Allocates :=
    ⟨Option.some_ne_none _, Option.some_ne_none _, Option.some_ne_none _⟩
  have hall' : ∀ b ∈ trialGets events (2 ^ 32 - 1) more, b.2.Allocates := by
    intro b hb
    have hb := mem_trialGets hb
    simp only [events, more, List.mem_cons, List.not_mem_nil, or_false] at hb
    rcases hb with (h | h | h) | h | h | h | h | h <;> rw [h]
    case inl.inr.inr => exact hplenty
    all_goals exact trivial
  have hrun : Run (Guarded World.Step fun w b => w.Early ∧ b.2.Allocates) w₀ _ w :=
    World.run_guard (fun b hb w he => ⟨he, hall' b hb⟩) hrun
  obtain ⟨result, hr, hadm⟩ :=
    (hall w₀ w _ hs harray hrun hearly).admits () 0 plenty hidle hfresh hpos hplenty
  rw [hr] at hnone
  exact hadm.ret_ne (of_decide_eq_true hnone)

end Xcache

end Libxseg
