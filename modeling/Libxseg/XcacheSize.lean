import Libxseg.TwoPowers
import Libxseg.XcacheCounts

/-!
# The sizes that xcache_init chooses

The size of the cache is the power of two nearest to the one asked for, the nodes are twice as
many, and the tables are large enough for as many names as the cache may hold. All of this is
computed in 32 bits: from three quarters of 2^31 on there are no nodes, and from three quarters
of 2^32 on the cache holds a single entry.
-/

namespace Libxseg

set_option autoImplicit false

universe u

namespace Xhash
variable {κ : Type u} {tf : TypesFunctions κ} {table : Xhash κ} {entries : List (κ × xhashidx)}
  {key : κ} {val : xhashidx} {size : Nat}

def AcceptsAll (tf : TypesFunctions κ) : Xhash κ → List (κ × xhashidx) → Prop
  | _, [] => True
  | table, (key, val) :: entries =>
    ∃ new, table.insert tf key val = some (0, new) ∧ AcceptsAll tf new entries

structure Spacious (tf : TypesFunctions κ) (table : Xhash κ) (size : Nat) : Prop where
  wf : table.Wf tf
  dummies : table.dummies = 0
  limit : table.limit = size
  roomy : size / 2 + size < 2 ^ table.size_shift

theorem spacious_init {shift : Nat} (hs : 2 ≤ shift) (hroomy : size / 2 + size < 2 ^ shift)
    (kvs0 : Nat → κ) : (init shift size kvs0).Spacious tf size :=
  ⟨wf_initRaw kvs0 hs hs, rfl, rfl, hroomy⟩

theorem Spacious.insert (h : table.Spacious tf size) (hlt : table.used < size)
    (hval : NotMark val) (key : κ) :
    ∃ new, table.insert tf key val = some (0, new) ∧ new.Spacious tf size ∧
      new.used ≤ table.used + 1 := by
  have hroomy := h.roomy
  have hlimit : ¬ (table.limit ≠ 0 ∧ table.used ≥ table.limit) := by
    rw [h.limit]
    omega
  have hgrow : table.growCheck = false := by
    rw [growCheck, h.dummies, Nat.one_shiftLeft, decide_eq_false_iff_not]
    omega
  have hroom := h.wf.room_of_not_growCheck hgrow
  have hinsert : table.insert tf key val = (table.insertRaw tf key val).map ((0, ·)) := by
    rw [Xhash.insert, if_neg hlimit, hgrow]
    rfl
  obtain ⟨i, ⟨hmatch, hins⟩ | ⟨hfree, hins⟩⟩ := h.wf.insertRaw key val
  · refine ⟨table.setVal i key val, by rw [hinsert, hins]; rfl,
      ⟨h.wf.setVal hmatch hval, h.dummies, h.limit, h.roomy⟩, Nat.le_succ _⟩
  · refine ⟨table.updSet i key val, by rw [hinsert, hins]; rfl,
      ⟨h.wf.updSet hfree hval hroom, ?_, h.limit, h.roomy⟩, Nat.le_refl _⟩
    show (if table.itemDummy i then table.dummies - 1 else table.dummies) = 0
    rw [h.dummies, Nat.zero_sub, ite_self]

theorem Spacious.acceptsAll (h : table.Spacious tf size) (hvals : ∀ e ∈ entries, NotMark e.2)
    (hfit : table.used + entries.length ≤ size) : AcceptsAll tf table entries := by
  induction entries generalizing table with
  | nil => trivial
  | cons e entries ih =>
    rw [List.length_cons] at hfit
    obtain ⟨new, hins, hnew, hused⟩ := h.insert (by omega) (hvals e List.mem_cons_self) e.1
    exact ⟨new, hins, ih hnew (fun e' he => hvals e' (List.mem_cons_of_mem e he)) (by omega)⟩

end Xhash

namespace Xcache

theorem sub_lt_sub_iff {low n high : UInt32} (hlow : low.toNat ≤ n.toNat)
    (hhigh : n.toNat ≤ high.toNat) :
    n - low < high - n ↔ 2 * n.toNat < low.toNat + high.toNat := by
  rw [UInt32.lt_iff_toNat_lt, UInt32.toNat_sub_of_le _ _ (UInt32.le_iff_toNat_le.mpr hlow),
    UInt32.toNat_sub_of_le _ _ (UInt32.le_iff_toNat_le.mpr hhigh)]
  omega

section Init
variable [Builtins] {c : Xcache} {xcache_size flags : UInt32} {ops : XcacheOps}
  {mem : InitMemory}

/-- The table takes as many names as the cache has entries, whatever the nodes are called. -/
def Takes (c : Xcache) (table : Xhash NamePtr) : Prop :=
  ∀ (nodes : xqindex → XcacheEntry) (entries : List (NamePtr × xqindex)),
    entries.Pairwise (fun a b => a.1.read nodes ≠ b.1.read nodes) →
    (∀ e ∈ entries, Xhash.NotMark e.2) → entries.length = c.size.toNat →
    Xhash.AcceptsAll (nameFunctions nodes) table entries

/-- What `xcache_init` is to make of the size that it is given. -/
structure Sized (xcache_size : UInt32) (c : Xcache) : Prop where
  nearest : NearestPower xcache_size.toNat c.size.toNat
  nr_nodes : c.nr_nodes.toNat = 2 * c.size.toNat
  free : ∀ idx, c.free_nodes.elems.count idx = if idx.toNat < c.nr_nodes.toNat then 1 else 0
  entries : c.Takes c.entries
  rm_entries : c.Takes c.rm_entries

/-- Both powers of two that `xcache_init` chooses from, when the larger one fits into 32 bits. -/
theorem roundSize_of_lt (hpos : 0 < xcache_size.toNat) (hlt : xcache_size.toNat < 2 ^ 31) :
    (roundSize xcache_size).toNat =
      if 2 * xcache_size.toNat < 3 * 2 ^ xcache_size.toNat.log2 then
        2 ^ xcache_size.toNat.log2
      else 2 ^ (xcache_size.toNat.log2 + 1) := by
  have hne : xcache_size ≠ 0 := by
    rintro rfl
    cases hpos
  have hlog : xcache_size.toNat.log2 < 31 := (Nat.log2_lt hpos.ne').mpr hlt
  have hfloor := Nat.log2_self_le hpos.ne'
  have hceil := Nat.lt_log2_self (n := xcache_size.toNat)
  have hcounts : ∀ l < 31, (32 - (31 - UInt64.ofNat l) - 1).toNat % 32 = l ∧
      (32 - (31 - UInt64.ofNat l)).toNat % 32 = l + 1 := by decide
  obtain ⟨hcount, hcount'⟩ := hcounts _ hlog
  have hfloorWord := shiftOne_toNat (32 - builtinClz xcache_size - 1)
  have hceilWord := shiftOne_toNat (32 - builtinClz xcache_size)
  rw [builtinClz, if_neg hne] at hfloorWord hceilWord
  rw [hcount] at hfloorWord
  rw [hcount'] at hceilWord
  unfold roundSize
  rw [builtinClz, if_neg hne]
  dsimp only
  generalize shiftOne (32 - (31 - UInt64.ofNat xcache_size.toNat.log2) - 1) = floor_size at *
  generalize shiftOne (32 - (31 - UInt64.ofNat xcache_size.toNat.log2)) = ceil_size at *
  have hcompare : xcache_size - floor_size < ceil_size - xcache_size ↔
      2 * xcache_size.toNat < 3 * 2 ^ xcache_size.toNat.log2 := by
    rw [sub_lt_sub_iff (hfloorWord ▸ hfloor) (hceilWord ▸ hceil.le), hfloorWord, hceilWord,
      Nat.pow_succ]
    omega
  simp only [hcompare]
  split
  · exact hfloorWord
  · exact hceilWord

theorem nearest_roundSize (hpos : 0 < xcache_size.toNat) (hlt : xcache_size.toNat < 2 ^ 31) :
    NearestPower xcache_size.toNat (roundSize xcache_size).toNat := by
  have hfloor := Nat.log2_self_le hpos.ne'
  have hceil := Nat.lt_log2_self (n := xcache_size.toNat)
  rw [roundSize_of_lt hpos hlt]
  split
  · rw [nearestPower_iff hpos]
    omega
  · rw [nearestPower_iff hpos, Nat.pow_succ]
    rw [Nat.pow_succ] at hceil
    omega

theorem init_eq (h : init xcache_size ops flags mem = some c) :
    0 < xcache_size.toNat ∧ c.size = roundSize xcache_size ∧ c.nr_nodes = c.size * 2 ∧
      c.entries = Xhash.init (tableShift c.size).toNat c.size.toNat mem.entries ∧
      c.rm_entries = Xhash.init (tableShift c.size).toNat c.size.toNat mem.rm_entries := by
  unfold init at h
  split at h
  · cases h
  · rename_i hne
    obtain rfl := Option.some.inj h
    refine ⟨Nat.pos_of_ne_zero fun hzero => hne (UInt32.toNat_inj.mp hzero), rfl, rfl, rfl, rfl⟩

theorem takes_init {k : Nat} (hk : k < 32) (hsize : c.size.toNat = 2 ^ k) (kvs0 : Nat → NamePtr) :
    c.Takes (Xhash.init (tableShift c.size).toNat c.size.toNat kvs0) := by
  obtain ⟨hshift, hroomy⟩ := tableShift_roomy hk hsize
  intro nodes entries _ hvals hlength
  apply (Xhash.spacious_init hshift hroomy kvs0).acceptsAll hvals
  rw [hlength]
  exact Nat.le_of_eq (Nat.zero_add _)

theorem count_free_nodes (h : init xcache_size ops flags mem = some c) (idx : xqindex) :
    c.free_nodes.elems.count idx = if idx.toNat < c.nr_nodes.toNat then 1 else 0 := by
  have hle : c.nr_nodes.toNat ≤ 2 ^ 32 := Nat.le_of_lt (UInt32.toNat_lt _)
  rw [(init_stored h).queue.elems_eq, (Xq.nodup_seq hle).count]
  simp only [Xq.mem_seq hle]

/-- The sizes fit together exactly for requests below three quarters of 2^31. -/
theorem init_sized_iff (hinit : init xcache_size ops flags mem = some c) :
    Sized xcache_size c ↔ xcache_size.toNat < 3 * 2 ^ 29 := by
  obtain ⟨hpos, hsize, hnr, hentries, hrm⟩ := init_eq hinit
  obtain ⟨k, hk, hpow⟩ := roundSize_toNat xcache_size
  rw [← hsize] at hpow
  have hnodes := nr_nodes_toNat hk hpow
  rw [← hnr] at hnodes
  constructor
  · intro h
    have hk' : k < 31 := by
      by_contra hge
      have hdouble := h.nr_nodes
      have hpos := Nat.two_pow_pos k
      rw [hnodes, if_neg hge, hpow] at hdouble
      omega
    have hnearest := h.nearest
    rw [hpow, nearestPower_iff hpos] at hnearest
    have hle : 2 ^ k ≤ 2 ^ 30 := Nat.pow_le_pow_right (by decide) (Nat.le_of_lt_succ hk')
    omega
  · intro hlt
    have hnearest : NearestPower xcache_size.toNat c.size.toNat := by
      rw [hsize]
      exact nearest_roundSize hpos (by omega)
    have hk' : k < 31 := by
      by_contra hge
      obtain rfl : k = 31 := by omega
      rw [hpow, nearestPower_iff hpos] at hnearest
      omega
    refine ⟨hnearest, ?_, count_free_nodes hinit, hentries ▸ takes_init hk hpow mem.entries,
      hrm ▸ takes_init hk hpow mem.rm_entries⟩
    rw [hnodes, if_pos hk', hpow, Nat.pow_succ, Nat.mul_comm]

theorem init_eq_some (hne : xcache_size ≠ 0) (ops : XcacheOps) (flags : UInt32)
    (mem : InitMemory) : ∃ c, init xcache_size ops flags mem = some c := ⟨_, if_neg hne⟩

omit [Builtins] in
/-- Three lies between two powers of two. -/
theorem init_sized_iff_three : ∃ (_ : Builtins) (c : Xcache),
    init 3 allHooks XCACHE_LRU_ARRAY blankMemory = some c ∧
      (Sized 3 c ↔ (3 : UInt32).toNat < 3 * 2 ^ 29) := by
  let _ : Builtins := ⟨0⟩
  obtain ⟨c, hinit⟩ := init_eq_some (show 3 ≠ 0 by decide) allHooks XCACHE_LRU_ARRAY blankMemory
  exact ⟨_, c, hinit, init_sized_iff hinit⟩

omit [Builtins] in
/-- For more than three thousand million entries the cache is made with room for one. -/
theorem not_init_sized : ¬ ∀ [Builtins] (xcache_size flags : UInt32) (ops : XcacheOps)
    (mem : InitMemory) (c : Xcache), init xcache_size ops flags mem = some c →
      Sized xcache_size c := by
  intro hall
  let _ : Builtins := ⟨0⟩
  obtain ⟨c, hinit⟩ := init_eq_some (show 0xC0000001 ≠ 0 by decide) allHooks XCACHE_LRU_ARRAY
    blankMemory
  have hnearest := (hall _ _ _ _ c hinit).nearest
  have hone : (roundSize 0xC0000001).toNat = 2 ^ 0 := by decide +kernel
  rw [(init_eq hinit).2.1, hone, nearestPower_iff (by decide)] at hnearest
  exact absurd hnearest.2 (by decide)

end Init

end Xcache

end Libxseg
