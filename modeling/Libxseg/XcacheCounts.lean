import Libxseg.XcacheSteps

/-!
# The reference counts are exact

`Counted` is what the counts are for, in terms of the cache itself. It holds in every run
in which no count wraps and no insertion is left half done; a count does wrap after 2^32
references to one node.
-/

namespace Libxseg

set_option autoImplicit false

namespace Xcache

variable {ι : Type} [Fintype ι] {w w' : World ι} {c : Xcache} {free : List xqindex}
  {E R : Finset xqindex}

theorem shiftOne_toNat (n : UInt64) : (shiftOne n).toNat = 2 ^ (n.toNat % 32) := by
  have hlt : n.toNat % 32 < 32 := Nat.mod_lt _ (by decide)
  have hpow : 2 ^ (n.toNat % 32) < 2 ^ 32 := Nat.pow_lt_pow_right (by decide) hlt
  have htoNat : (shiftOne n).toNat = (1#32 <<< (n.toNat % 32)).toNat := by
    rw [← one_shift_toBitVec]
    rfl
  rw [htoNat, BitVec.toNat_shiftLeft, Nat.shiftLeft_eq]
  exact (congrArg (· % 2 ^ 32) (Nat.one_mul _)).trans (Nat.mod_eq_of_lt hpow)

theorem roundSize_toNat [Builtins] (xcache_size : UInt32) :
    ∃ k < 32, (roundSize xcache_size).toNat = 2 ^ k := by
  unfold roundSize
  dsimp only
  split
  · exact ⟨_, Nat.mod_lt _ (by decide), shiftOne_toNat _⟩
  · exact ⟨_, Nat.mod_lt _ (by decide), shiftOne_toNat _⟩

theorem tableShift_toNat [Builtins] {k : Nat} (hk : k < 32) :
    (tableShift (UInt32.ofNat (2 ^ k))).toNat = if k < 31 then k + 4 else 34 := by
  have hne : 3 * UInt32.ofNat (2 ^ k) / 2 ≠ 0 := by
    revert k
    decide
  unfold tableShift
  dsimp only
  rw [builtinClz, if_neg hne]
  revert k
  decide

theorem tableShift_roomy [Builtins] {size : UInt32} {k : Nat} (hk : k < 32)
    (hsize : size.toNat = 2 ^ k) :
    2 ≤ (tableShift size).toNat ∧ size.toNat / 2 + size.toNat < 2 ^ (tableShift size).toNat := by
  have heq : size = UInt32.ofNat (2 ^ k) := by
    rw [← hsize, UInt32.ofNat_toNat]
  have hle : k + 3 ≤ (tableShift size).toNat := by
    rw [heq, tableShift_toNat hk]
    split <;> omega
  refine ⟨by omega, ?_⟩
  apply Nat.lt_of_lt_of_le _ (Nat.pow_le_pow_right (by decide) hle)
  have hpos := Nat.two_pow_pos k
  rw [hsize, Nat.pow_add]
  omega

theorem nr_nodes_toNat {size : UInt32} {k : Nat} (hk : k < 32) (hsize : size.toNat = 2 ^ k) :
    (size * 2).toNat = if k < 31 then 2 ^ (k + 1) else 0 := by
  rw [UInt32.toNat_mul, hsize]
  split
  · rename_i hk'
    exact Nat.mod_eq_of_lt (Nat.pow_lt_pow_right (by decide : 1 < 2) (show k + 1 < 32 by omega))
  · obtain rfl : k = 31 := by omega
    rfl

theorem repr_free_nodes [Builtins] {size : UInt32} {k : Nat} (hk : k < 32)
    (hsize : size.toNat = 2 ^ k) (mem : xqindex → xqindex) :
    (Xq.initSeq (size * 2).toUInt64 (size * 2).toUInt64 mem).Repr (Xq.seq (size * 2).toNat) := by
  have hn := nr_nodes_toNat hk hsize
  split at hn
  · rename_i hk'
    exact Xq.repr_initSeq (n := (size * 2).toUInt64) (k := k + 1) hn (by omega) mem
  · have hzero : (size * 2).toUInt64 = 0 := UInt64.toNat_inj.mp hn
    rw [hzero, hn]
    exact Xq.repr_initSeq_zero mem

theorem init_stored [Builtins] {xcache_size flags : UInt32} {ops : XcacheOps} {mem : InitMemory}
    (h : init xcache_size ops flags mem = some c) :
    Stored c (Xq.seq c.nr_nodes.toNat) ∅ ∅ := by
  unfold init at h
  split at h
  · cases h
  obtain ⟨k, hk, hsize⟩ := roundSize_toNat xcache_size
  obtain ⟨hshift, hroomy⟩ := tableShift_roomy hk hsize
  have hn := nr_nodes_toNat hk hsize
  have hrepr := repr_free_nodes hk hsize mem.queue
  have hle : (roundSize xcache_size * 2).toNat ≤ 2 ^ 32 := Nat.le_of_lt (UInt32.toNat_lt _)
  have hlen : (Xq.seq (roundSize xcache_size * 2).toNat).length = (roundSize xcache_size * 2).toNat := by
    rw [Xq.seq, List.length_map, List.length_range]
  obtain rfl := Option.some.inj h
  refine ⟨hrepr, ?_, Xq.nodup_seq hle, fun idx => (Xq.mem_seq hle).mp,
    ⟨indexes_init hshift _, indexes_init hshift _, ⟨rfl, rfl, hroomy⟩, ⟨rfl, rfl, hroomy⟩, ?_, ?_,
      ?_, ?_, ?_, Nat.zero_le _, fun _ => rfl⟩, ?_, ?_, ?_⟩
  · exact hlen ▸ hrepr.fits
  · show 0 < (roundSize xcache_size).toNat
    rw [hsize]
    exact Nat.two_pow_pos k
  · show (roundSize xcache_size * 2).toNat ≤ 2 * (roundSize xcache_size).toNat
    rw [hn, hsize]
    split
    · rw [Nat.pow_succ]
      omega
    · exact Nat.zero_le _
  · intro idx hmem
    cases hmem
  · intro idx hmem
    cases hmem
  · intro i hmem
    cases hmem
  · intro harray
    have hzero : (0 : UInt64) ≠ XCACHE_LRU_MAX := by decide
    refine ⟨harray, hzero, ?_, ?_, ?_⟩
    · intro idx
      exact iff_of_false (not_not_intro rfl) (Finset.notMem_empty idx)
    · intro idx hmem
      cases hmem
    · intro i hmem
      cases hmem
  · intro idx hmem
    cases hmem
  · intro idx hmem
    cases hmem

theorem Start.refs_eq_zero [Builtins] (hs : Start w) (idx : xqindex) : w.refs idx = 0 := by
  apply Finset.sum_eq_zero
  intro i _
  rw [hs.clients]
  rfl

theorem Start.inv [Builtins] (hs : Start w) : Inv w (Xq.seq w.cache.nr_nodes.toNat) ∅ ∅ := by
  obtain ⟨xcache_size, ops, flags, mem, hinit⟩ := hs.cache
  have hle : w.cache.nr_nodes.toNat ≤ 2 ^ 32 := Nat.le_of_lt (UInt32.toNat_lt _)
  have hpc (i : ι) : (w.clients i).pc = .idle := by rw [hs.clients]
  have hfresh (idx : xqindex) : idx ∉ w.fresh := by
    rw [hs.fresh]
    exact Finset.notMem_empty idx
  have hspare {idx : xqindex} (hlow : idx.toNat < w.cache.nr_nodes.toNat) :
      w.Spare (Xq.seq w.cache.nr_nodes.toNat) idx := Or.inl ((Xq.mem_seq hle).mpr hlow)
  refine ⟨init_stored hinit, ?_, ?_, ?_, ?_, ?_, ?_, ?_, ?_, ?_, ?_⟩
  · intro i idx hown
    exact absurd hown (not_owns_of_idle (hpc i) idx)
  · intro i j idx hown
    exact absurd hown (not_owns_of_idle (hpc i) idx)
  · intro idx hpos
    rw [hs.refs_eq_zero] at hpos
    cases hpos
  · exact fun _ => hs.refs_eq_zero _
  · intro idx hlow hnot
    exact absurd (hspare hlow) hnot
  · intro i idx new hfreeing
    rw [hpc] at hfreeing
    cases hfreeing
  · intro idx hnode _ _
    rw [hs.evicted] at hnode
    have hnode := (hnode.resolve_right (Finset.notMem_empty idx)).1
    unfold init at hinit
    split at hinit
    · cases hinit
    · rw [← Option.some.inj hinit] at hnode ⊢
      dsimp only at hnode ⊢
      rw [hnode]
      rfl
  · exact fun hmem => absurd hmem (hfresh _)
  · exact fun hmem => absurd hmem (hfresh _)
  · exact fun hmem => absurd hmem (hfresh _)

/-- The node is out of the queue, and `xcache_alloc_init` has written its count. -/
def World.Taken (w : World ι) (idx : xqindex) : Prop :=
  idx ∉ w.cache.free_nodes.elems ∧
    (w.cache.ops.on_node_init = true ∨ ∀ i, ¬ (w.clients i).pc.Unnamed idx)

open Classical in
/-- A free node is free once and nobody's; the count of any other node is the number of its
references. -/
structure Counted (w : World ι) : Prop where
  once : w.cache.free_nodes.elems.Nodup
  unused : ∀ idx ∈ w.cache.free_nodes.elems,
    (∀ name, ¬ w.cache.Cached name idx ∧ ¬ w.cache.Removed name idx) ∧
      ∀ i, (w.clients i).held idx = 0 ∧ (w.clients i).pc ≠ .putting idx
  exact : ∀ idx, idx.toNat < w.cache.nr_nodes.toNat → w.Taken idx →
    (w.cache.nodes idx).ref.toNat =
      (if ∃ name, w.cache.Cached name idx then 1 else 0) +
        ∑ i, ((w.clients i).held idx + (w.clients i).pc.pending idx)

open Classical in
theorem Inv.counted_world (hi : Inv w free E R) (hfailed : w.failed = ∅) : Counted w := by
  have helems : w.cache.free_nodes.elems = free := hi.stored.queue.elems_eq
  constructor
  · rw [helems]
    exact hi.stored.nodup
  · intro idx hmem
    rw [helems] at hmem
    refine ⟨fun name => ⟨fun hc => ?_, fun hc => ?_⟩, fun i => ?_⟩
    · exact hi.stored.entries_free idx (hi.stored.tables.entries.holds.mp hc).1 hmem
    · exact hi.stored.rm_free idx (hi.stored.tables.rm_entries.holds.mp hc).1 hmem
    · have hle := w.refs_le i idx
      rw [hi.unheld (Or.inl hmem), Client.refs] at hle
      refine ⟨by omega, fun hput => ?_⟩
      rw [hput] at hle
      simp [Pc.pending] at hle
  · intro idx hlow htaken
    rw [World.Taken, helems] at htaken
    obtain ⟨hfree, htaken⟩ := htaken
    rw [if_congr (hi.stored.tables.cached_iff idx) rfl rfl]
    by_cases hspare : w.Spare free idx
    · obtain ⟨i, hpc⟩ := hspare.resolve_left hfree
      have hE : idx ∉ E := (hi.out hpc.owns).2.2.1
      have hinit := htaken.resolve_right fun hno => hno i hpc
      rw [hi.zero (Or.inl ⟨hinit, hfailed ▸ Finset.notMem_empty idx⟩) hlow hspare, if_neg hE,
        Nat.zero_add]
      exact (hi.unheld hspare).symm
    · exact hi.counted hlow hspare

variable [DecidableEq ι]

theorem run_inv [Builtins] {w₀ : World ι} {as : List (ι × Event)} (hs : Start w₀)
    (hrun : Run (Guarded World.Step fun w b =>
      b.2.InTime w.cache ∧ b.2.Named w.cache ∧ b.2.Counts w.cache) w₀ as w) :
    w.cache.flags = w₀.cache.flags ∧ ∃ free E R, Inv w free E R := by
  apply hrun.invariant (I := fun w => w.cache.flags = w₀.cache.flags ∧ ∃ free E R, Inv w free E R)
  · rintro w b w' ⟨hflags, free, E, R, hi⟩ ⟨⟨htime, hnamed, hcount⟩, hstep⟩
    obtain ⟨free', E', R', -, hi', hrec⟩ := hi.step hstep htime hnamed hcount
    exact ⟨hrec.flags.trans hflags, free', E', R', hi'⟩
  · exact ⟨rfl, _, _, _, hs.inv⟩

theorem run_inv_array [Builtins] {w₀ : World ι} {as : List (ι × Event)} (hs : Start w₀)
    (harray : w₀.cache.has XCACHE_LRU_ARRAY = true)
    {ok : World ι → ι × Event → Prop} (hok : ∀ {w free E R b}, Inv w free E R →
      w.cache.has XCACHE_LRU_ARRAY = true → ok w b → b.2.InTime w.cache ∧ b.2.Counts w.cache)
    (hrun : Run (Guarded World.Step ok) w₀ as w) :
    w.cache.flags = w₀.cache.flags ∧ ∃ free E R, Inv w free E R := by
  apply hrun.invariant (I := fun w => w.cache.flags = w₀.cache.flags ∧ ∃ free E R, Inv w free E R)
  · rintro w b w' ⟨hflags, free, E, R, hi⟩ ⟨hb, hstep⟩
    have harray : w.cache.has XCACHE_LRU_ARRAY = true := by rwa [has, hflags]
    obtain ⟨htime, hcount⟩ := hok hi harray hb
    obtain ⟨free', E', R', -, hi', hrec⟩ := hi.step hstep htime (hi.named harray b.2) hcount
    exact ⟨hrec.flags.trans hflags, free', E', R', hi'⟩
  · exact ⟨rfl, _, _, _, hs.inv⟩

omit [Fintype ι] in
theorem step_failed {b : ι × Event} (hstep : World.Step w b w') (hinit : b.2.Inits w.cache)
    (hfailed : w.failed = ∅) : w'.failed = ∅ := by
  cases hstep with
  | init =>
    rw [← hfailed]
    exact Finset.erase_eq_of_notMem (hfailed ▸ Finset.notMem_empty _)
  | fail _ hrun hr =>
    rw [Event.Inits, hrun] at hinit
    exact absurd hr (Int.not_lt.mpr hinit)
  | _ => exact hfailed

/-- Every interleaving keeps the counts, if no count wraps and no insertion is left half done. -/
theorem run_counted [Builtins] {w₀ : World ι} {as : List (ι × Event)} (hs : Start w₀)
    (harray : w₀.cache.has XCACHE_LRU_ARRAY = true)
    (hrun : Run (Guarded World.Step fun w b =>
      b.2.InTime w.cache ∧ b.2.Inits w.cache ∧ b.2.Counts w.cache) w₀ as w) : Counted w := by
  obtain ⟨-, free, E, R, hi⟩ := run_inv_array hs harray (fun _ _ hb => ⟨hb.1, hb.2.2⟩) hrun
  apply hi.counted_world
  apply hrun.invariant (I := fun w => w.failed = ∅)
  · rintro w b w' hfailed ⟨⟨-, hinit, -⟩, hstep⟩
    exact step_failed hstep hinit hfailed
  · exact hs.failed

def allHooks : XcacheOps := ⟨true, true, true, true, true, true, true⟩

def nameA : CString := ⟨[97], by decide, by decide⟩

def blankMemory : InitMemory where
  queue _ := 0
  entries _ := .node 0
  rm_entries _ := .node 0
  nodes _ := ⟨0, .NODE_ACTIVE, nameA, NoNode⟩
  indexes _ := 0
  heapNodes _ := ⟨0, 0, 0⟩

def plenty : InsertMemory := ⟨some fun _ => .node 0, some fun _ => .node 0, some fun _ => .node 0⟩

/-- The world in which one client of a new cache has made these calls, if they meet a condition. -/
def trial [Builtins] (ok : World Unit → Event → Prop) [∀ w event, Decidable (ok w event)]
    (xcache_size flags : UInt32) (events : List Event) : Option (World Unit) :=
  (init xcache_size allHooks flags blankMemory).bind fun cache =>
    (World.start cache).performAll ok () events

theorem run_of_trial [Builtins] {ok : World Unit → Event → Prop}
    [∀ w event, Decidable (ok w event)] {xcache_size flags : UInt32} {events : List Event}
    {check : World Unit → Bool} (h : (trial ok xcache_size flags events).any check = true) :
    ∃ w₀ w, Start w₀ ∧ w₀.cache.flags = flags ∧ Run (Guarded World.Step fun w b => ok w b.2) w₀
      (events.map fun event => ((), event)) w ∧ check w = true := by
  cases htrial : trial ok xcache_size flags events with
  | none =>
    rw [htrial] at h
    cases h
  | some w =>
    rw [htrial] at h
    obtain ⟨cache, hinit, hrun⟩ := Option.bind_eq_some_iff.mp htrial
    refine ⟨World.start cache, w, ⟨⟨_, _, _, _, hinit⟩, fun _ => rfl, rfl, rfl, rfl⟩, ?_,
      World.run_of_performAll hrun, h⟩
    unfold init at hinit
    split at hinit
    · cases hinit
    · rw [← Option.some.inj hinit]
      rfl

/-- These calls of one client with `n` calls of `xcache_get` in between. -/
def trialGets (events : List Event) (n : Nat) (more : List Event) : List (Unit × Event) :=
  (events.map fun event => ((), event)) ++ List.replicate n ((), .get 0) ++
    more.map fun event => ((), event)

theorem mem_trialGets {events more : List Event} {n : Nat} {b : Unit × Event}
    (hb : b ∈ trialGets events n more) : b.2 ∈ events ∨ b.2 = .get 0 ∨ b.2 ∈ more := by
  rcases List.mem_append.mp hb with hb | hb
  · rcases List.mem_append.mp hb with hb | hb
    · obtain ⟨event, hmem, rfl⟩ := List.mem_map.mp hb
      exact Or.inl hmem
    · rw [List.eq_of_mem_replicate hb]
      exact Or.inr (Or.inl rfl)
  · obtain ⟨event, hmem, rfl⟩ := List.mem_map.mp hb
    exact Or.inr (Or.inr hmem)

theorem run_of_trial_gets [Builtins] {xcache_size flags : UInt32} {events more : List Event}
    {n : Nat} {check : World Unit → Bool}
    (h : (trial (fun w _ => w.Early) xcache_size flags events).any (fun w =>
      (w.clients ()).pc = .idle ∧ 0 < (w.clients ()).held 0 ∧ w.Early ∧
        ((w.gotten () 0 n).performAll (fun w _ => w.Early) () more).any check) = true) :
    ∃ w₀ w, Start w₀ ∧ w₀.cache.flags = flags ∧
      Run (Guarded World.Step fun w _ => w.Early) w₀ (trialGets events n more) w ∧
      check w = true := by
  obtain ⟨w₀, w, hs, hflags, hrun, hcheck⟩ := run_of_trial h
  obtain ⟨hidle, hpos, hearly, hcheck⟩ := of_decide_eq_true hcheck
  have hgets := World.run_gets hidle hpos (by decide : (0 : xqindex) ≠ NoEntry) hearly n
  cases hlast : (w.gotten () 0 n).performAll (fun w _ => w.Early) () more with
  | none =>
    rw [hlast] at hcheck
    cases hcheck
  | some w' =>
    rw [hlast] at hcheck
    exact ⟨w₀, w', hs, hflags, (hrun.trans hgets).trans (World.run_of_performAll hlast), hcheck⟩

/-- A run with an insertion, a lookup, an invalidation and the last put of the node. -/
theorem run_counted_put : ∃ (_ : Builtins) (w₀ w : World Unit) (as : List (Unit × Event)),
    (Start w₀ ∧ w₀.cache.has XCACHE_LRU_ARRAY = true ∧
      Run (Guarded World.Step fun w b =>
        b.2.InTime w.cache ∧ b.2.Inits w.cache ∧ b.2.Counts w.cache) w₀ as w ∧
      as.length = 8) ∧ Counted w := by
  let _ : Builtins := ⟨0⟩
  let events : List Event := [.pop 0, .init 0 nameA 0, .insert 0 plenty 0 NoEntry NoEntry,
    .lookup nameA 0, .put 0 false, .invalidate nameA 0 0, .settle 0 false, .put 0 true]
  have hsome : (trial (fun w event => w.Early ∧ event.Inits w.cache ∧ event.Counts w.cache) 1
      XCACHE_LRU_ARRAY events).any (fun _ => true) = true := by decide +kernel
  obtain ⟨w₀, w, hs, hflags, hrun, -⟩ := run_of_trial hsome
  have harray : w₀.cache.has XCACHE_LRU_ARRAY = true := by rw [has, hflags]; decide
  have hrun : Run (Guarded World.Step fun w b =>
      b.2.InTime w.cache ∧ b.2.Inits w.cache ∧ b.2.Counts w.cache) w₀ _ w :=
    World.run_guard (fun b _ w hok => ⟨hok.1.inTime b.2, hok.2⟩) hrun
  exact ⟨_, w₀, w, _, ⟨hs, harray, hrun, rfl⟩, run_counted hs harray hrun⟩

/-- The count of a node wraps to 0 while it has 2^32 references. -/
theorem not_run_counted : ¬ ∀ [Builtins] (w₀ w : World Unit) (as : List (Unit × Event)),
    Start w₀ → w₀.cache.has XCACHE_LRU_ARRAY = true →
    Run (Guarded World.Step fun w b => b.2.InTime w.cache ∧ b.2.Inits w.cache) w₀ as w → Counted w := by
  let _ : Builtins := ⟨0⟩
  intro hall
  let events : List Event := [.pop 0, .init 0 nameA 0]
  let check (w : World Unit) : Bool :=
    (w.clients ()).pc = .idle ∧ 0 < (w.clients ()).held 0 ∧ (w.cache.nodes 0).ref = 0 ∧
      (0 : xqindex).toNat < w.cache.nr_nodes.toNat ∧ 0 ∉ w.cache.free_nodes.elems
  have hsome : (trial (fun w _ => w.Early) 1 XCACHE_LRU_ARRAY events).any (fun w =>
      (w.clients ()).pc = .idle ∧ 0 < (w.clients ()).held 0 ∧ w.Early ∧
        ((w.gotten () 0 (2 ^ 32 - 1)).performAll (fun w _ => w.Early) () []).any check) = true := by
    decide +kernel
  obtain ⟨w₀, w, hs, hflags, hrun, hcheck⟩ := run_of_trial_gets hsome
  have harray : w₀.cache.has XCACHE_LRU_ARRAY = true := by rw [has, hflags]; decide
  obtain ⟨hidle, hpos, href, hlow, hfree⟩ := of_decide_eq_true hcheck
  have hinits : ∀ b ∈ trialGets events (2 ^ 32 - 1) [], ∀ c, b.2.Inits c := by
    intro b hb c
    have hb := mem_trialGets hb
    simp only [events, List.mem_cons, List.not_mem_nil, or_false] at hb
    rcases hb with (hb | hb) | hb <;> rw [hb]
    case inl.inr =>
      change 0 ≤ (if c.ops.on_init = true then (0 : Int) else 0)
      rw [ite_self]
    all_goals exact trivial
  have hrun : Run (Guarded World.Step fun w b => b.2.InTime w.cache ∧ b.2.Inits w.cache) w₀ _ w :=
    World.run_guard (fun b hb w he => ⟨he.inTime b.2, hinits b hb w.cache⟩) hrun
  have hexact := (hall w₀ w _ hs harray hrun).exact 0 hlow ⟨hfree, Or.inr fun i => by
    rw [hidle]
    exact id⟩
  rw [href, Fintype.sum_unique] at hexact
  change 0 = _ + ((w.clients ()).held 0 + _) at hexact
  omega

end Xcache

end Libxseg
