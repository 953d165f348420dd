import Libxseg.Transition
import Libxseg.XbinheapOrder

/-!
# Whole runs of an xbinheap against a priority queue with handles

The priority queue is a map from handles to entries. Its steps are a relation:
which free handle an insertion hands out, and which of several best entries leaves
first, is up to the heap.
-/

namespace Libxseg

set_option autoImplicit false

structure XbinheapEntry where
  key : xbinheapidx
  value : xbinheapidx
  deriving DecidableEq, Repr

inductive XbinheapEvent where
  | insert (key value : xbinheapidx) (ret : Nat)
  | extract (ret : xbinheapidx)
  | peak (ret : xbinheapidx)
  | empty (ret : Bool)
  | increasekey (idx : Nat) (newkey : xbinheapidx)
  | decreasekey (idx : Nat) (newkey : xbinheapidx)
  | getkey (idx : Nat) (ret : xbinheapidx)
  deriving DecidableEq, Repr

def Precedes (flags : UInt32) (a b : xbinheapidx) : Prop :=
  if flags &&& XBINHEAP_MAX ≠ 0 then b ≤ a else a ≤ b

def BestEntry (flags : UInt32) (s : Nat → Option XbinheapEntry) (hd : Nat) (e : XbinheapEntry) :
    Prop :=
  s hd = some e ∧ ∀ hd' e', s hd' = some e' → Precedes flags e.key e'.key

inductive PriorityStep (size : Nat) (flags : UInt32) :
    (Nat → Option XbinheapEntry) → XbinheapEvent → (Nat → Option XbinheapEntry) → Prop where
  | insert {s : Nat → Option XbinheapEntry} {hd : Nat} (key value : xbinheapidx) :
      hd < size → s hd = none →
      PriorityStep size flags s (.insert key value hd) (Function.update s hd (some ⟨key, value⟩))
  | insertFull {s : Nat → Option XbinheapEntry} (key value : xbinheapidx) :
      (∀ hd, hd < size → s hd ≠ none) → PriorityStep size flags s (.insert key value NoNode) s
  | extract {s : Nat → Option XbinheapEntry} {hd : Nat} {e : XbinheapEntry} :
      BestEntry flags s hd e →
      PriorityStep size flags s (.extract e.value) (Function.update s hd none)
  | extractEmpty {s : Nat → Option XbinheapEntry} :
      (∀ hd, s hd = none) → PriorityStep size flags s (.extract (.ofNat NoNode)) s
  | peak {s : Nat → Option XbinheapEntry} {hd : Nat} {e : XbinheapEntry} :
      BestEntry flags s hd e → PriorityStep size flags s (.peak e.value) s
  | peakEmpty {s : Nat → Option XbinheapEntry} :
      (∀ hd, s hd = none) → PriorityStep size flags s (.peak (.ofNat NoNode)) s
  | empty {s : Nat → Option XbinheapEntry} {ret : Bool} :
      (ret = true ↔ ∀ hd, s hd = none) → PriorityStep size flags s (.empty ret) s
  | increasekey {s : Nat → Option XbinheapEntry} {hd : Nat} {e : XbinheapEntry}
      {newkey : xbinheapidx} : s hd = some e → e.key ≤ newkey →
      PriorityStep size flags s (.increasekey hd newkey)
        (Function.update s hd (some { e with key := newkey }))
  | decreasekey {s : Nat → Option XbinheapEntry} {hd : Nat} {e : XbinheapEntry}
      {newkey : xbinheapidx} : s hd = some e → newkey ≤ e.key →
      PriorityStep size flags s (.decreasekey hd newkey)
        (Function.update s hd (some { e with key := newkey }))
  | getkey {s : Nat → Option XbinheapEntry} {hd : Nat} {e : XbinheapEntry} :
      s hd = some e → PriorityStep size flags s (.getkey hd e.key) s

namespace Xbinheap
variable {h h' : Xbinheap} {n hd : Nat}

def liveBelow (n : Nat) (h : Xbinheap) (hd : Nat) : Option XbinheapEntry :=
  if hd < h.size ∧ h.indexes hd < n then
    some ⟨(h.nodes (h.indexes hd)).key, (h.nodes (h.indexes hd)).value⟩
  else none

def live (h : Xbinheap) : Nat → Option XbinheapEntry := h.liveBelow h.count

def Step (h : Xbinheap) : XbinheapEvent → Xbinheap → Prop
  | .insert key value ret, h' => h.insert key value = (ret, h')
  | .extract ret, h' => h.extract = (ret, h')
  | .peak ret, h' => h.peak = ret ∧ h' = h
  | .empty ret, h' => h.empty = ret ∧ h' = h
  | .increasekey idx newkey, h' => h.increasekey idx newkey = h'
  | .decreasekey idx newkey, h' => h.decreasekey idx newkey = h'
  | .getkey idx ret, h' => h.getkey idx = ret ∧ h' = h

/-- Handles that are passed are live, and a key changes in the direction that the call says. -/
def Admissible (h : Xbinheap) : XbinheapEvent → Prop
  | .increasekey idx newkey => ∃ e, h.live idx = some e ∧ e.key ≤ newkey
  | .decreasekey idx newkey => ∃ e, h.live idx = some e ∧ newkey ≤ e.key
  | .getkey idx _ => ∃ e, h.live idx = some e
  | _ => True

structure Wf (h : Xbinheap) : Prop where
  perm : h.Perm
  count_le : h.count ≤ h.size
  ordered : HeapOrdered h.rank h.count

structure Placed (h : Xbinheap) : Prop where
  perm : h.Perm
  count_le : h.count ≤ h.size

theorem Wf.placed (hw : h.Wf) : h.Placed := ⟨hw.perm, hw.count_le⟩

theorem wf_init (size : xbinheapidx) (flags : UInt32) (indexes0 : Nat → Nat)
    (nodes0 : Nat → XbinheapNode) : (init size flags indexes0 nodes0).Wf where
  perm := by constructor <;> intro i hi <;> simp_all [init]
  count_le := Nat.zero_le _
  ordered := fun i _ hi => absurd hi (Nat.not_lt_zero i)

theorem liveBelow_some {e : XbinheapEntry} : h.liveBelow n hd = some e ↔
    (hd < h.size ∧ h.indexes hd < n) ∧
      e = ⟨(h.nodes (h.indexes hd)).key, (h.nodes (h.indexes hd)).value⟩ := by
  rw [liveBelow]
  split <;> simp_all [eq_comm]

theorem liveBelow_none : h.liveBelow n hd = none ↔ ¬ (hd < h.size ∧ h.indexes hd < n) := by
  simp [liveBelow]

theorem Perm.index_eq_iff (hp : h.Perm) {p : Nat} (hd_lt : hd < h.size) (hpl : p < h.size) :
    h.indexes hd = p ↔ hd = (h.nodes p).h := by
  constructor
  · rintro rfl
    exact (hp.handle_index hd hd_lt).symm
  · rintro rfl
    exact hp.index_handle p hpl

theorem Perm.liveBelow_handle (hp : h.Perm) {p : Nat} (hpn : p < n) (hpl : p < h.size) :
    h.liveBelow n (h.nodes p).h = some ⟨(h.nodes p).key, (h.nodes p).value⟩ := by
  rw [liveBelow_some, hp.index_handle p hpl]
  exact ⟨⟨hp.handle_lt p hpl, hpn⟩, rfl⟩

theorem Perm.liveBelow_self (hp : h.Perm) (hn : n < h.size) :
    h.liveBelow n (h.nodes n).h = none := by
  rw [liveBelow_none, hp.index_handle n hn]
  omega

theorem Perm.liveBelow_succ (hp : h.Perm) (hn : n < h.size) :
    h.liveBelow (n + 1) = Function.update (h.liveBelow n) (h.nodes n).h
      (some ⟨(h.nodes n).key, (h.nodes n).value⟩) := by
  funext hd
  rw [Function.update_apply]
  split
  · subst hd
    exact hp.liveBelow_handle (by omega) hn
  · rename_i hne
    by_cases hhd : hd < h.size
    · have hidx : h.indexes hd ≠ n := fun heq => hne ((hp.index_eq_iff hhd hn).mp heq)
      have : h.indexes hd < n + 1 ↔ h.indexes hd < n := by omega
      simp only [liveBelow, this]
    · simp [liveBelow, hhd]

theorem Rearranged.liveBelow (hr : Rearranged n h h') : h'.liveBelow n = h.liveBelow n := by
  funext hd
  by_cases hhd : hd < h.size
  · simp only [Xbinheap.liveBelow, hr.size, hr.near hd hhd, hr.node hd hhd]
  · simp [Xbinheap.liveBelow, hr.size, hhd]

theorem Placed.live_eq_none_iff (hp : h.Placed) : (∀ hd, h.live hd = none) ↔ h.count = 0 := by
  have hle := hp.count_le
  constructor
  · intro hnone
    by_contra hc
    have := hp.perm.liveBelow_handle (p := 0) (n := h.count) (by omega) (by omega)
    rw [← live, hnone] at this
    exact absurd this (by simp)
  · intro hc hd
    rw [live, liveBelow_none]
    omega

theorem precedes_iff {k1 k2 : xbinheapidx} :
    Precedes h.flags k1 k2 ↔ h.rankOf k1 ≤ h.rankOf k2 := by
  rw [rankOf_le, Precedes]
  simp [isMaxHeap]

theorem Wf.bestEntry (hw : h.Wf) (hc : h.count ≠ 0) :
    BestEntry h.flags h.live (h.nodes 0).h ⟨(h.nodes 0).key, (h.nodes 0).value⟩ := by
  have hle := hw.count_le
  refine ⟨hw.perm.liveBelow_handle (by omega) (by omega), fun hd e he => ?_⟩
  obtain ⟨⟨-, hlt⟩, rfl⟩ := liveBelow_some.mp he
  rw [precedes_iff]
  exact hw.ordered.first_le _ hlt

section SetNode
variable (h : Xbinheap) (i : Nat) (key value : xbinheapidx)

@[simp] theorem setNode_size : (h.setNode i key value).size = h.size := rfl
@[simp] theorem setNode_count : (h.setNode i key value).count = h.count := rfl
@[simp] theorem setNode_flags : (h.setNode i key value).flags = h.flags := rfl
@[simp] theorem setNode_indexes : (h.setNode i key value).indexes = h.indexes := rfl
@[simp] theorem setNode_isMaxHeap : (h.setNode i key value).isMaxHeap = h.isMaxHeap := rfl

theorem setNode_nodes_self :
    (h.setNode i key value).nodes i = { h.nodes i with key := key, value := value } := by
  simp [setNode]

theorem setNode_nodes_of_ne {p : Nat} (hp : p ≠ i) :
    (h.setNode i key value).nodes p = h.nodes p := by
  simp [setNode, hp]

theorem setNode_handle (p : Nat) : ((h.setNode i key value).nodes p).h = (h.nodes p).h := by
  by_cases hp : p = i
  · rw [hp, setNode_nodes_self]
  · rw [setNode_nodes_of_ne h i key value hp]

theorem setNode_rank_self : (h.setNode i key value).rank i = h.rankOf key := by
  rw [rank, setNode_nodes_self]
  rfl

theorem setNode_rank_of_ne {p : Nat} (hp : p ≠ i) :
    (h.setNode i key value).rank p = h.rank p := by
  rw [rank, setNode_nodes_of_ne h i key value hp]
  rfl

theorem setNode_perm (hp : h.Perm) : (h.setNode i key value).Perm where
  index_lt := hp.index_lt
  handle_lt p := by rw [setNode_handle]; exact hp.handle_lt p
  handle_index hd := by rw [setNode_handle]; exact hp.handle_index hd
  index_handle p := by rw [setNode_handle]; exact hp.index_handle p

theorem setNode_liveBelow (hp : h.Perm) (hi : i < n) (hn : n ≤ h.size) :
    (h.setNode i key value).liveBelow n =
      Function.update (h.liveBelow n) (h.nodes i).h (some ⟨key, value⟩) := by
  funext hd
  rw [Function.update_apply]
  split
  · subst hd
    have := (setNode_perm h i key value hp).liveBelow_handle hi (by simp; omega)
    rwa [setNode_handle, setNode_nodes_self] at this
  · rename_i hne
    by_cases hhd : hd < h.size
    · have hidx : h.indexes hd ≠ i := fun heq => hne ((hp.index_eq_iff hhd (by omega)).mp heq)
      simp only [liveBelow, setNode_size, setNode_indexes, setNode_nodes_of_ne h i key value hidx]
    · simp [liveBelow, hhd]

end SetNode

theorem insert_full (hc : h.size ≤ h.count) (key value : xbinheapidx) :
    h.insert key value = (NoNode, h) := if_pos (by omega)

/-- What an insertion hands out and leaves, whatever the order of the nodes. -/
theorem Placed.insert (hp : h.Placed) (hc : h.count < h.size) (key value : xbinheapidx) :
    ∃ hd h', h.insert key value = (hd, h') ∧ h'.Placed ∧ h'.size = h.size ∧ h'.flags = h.flags ∧
      hd < h.size ∧ h.live hd = none ∧ h'.live = Function.update h.live hd (some ⟨key, value⟩) := by
  have hperm := setNode_perm h h.count key value hp.perm
  have hr := heapifyUp_rearranged (n := h.count + 1) _ h.count hperm (by omega) (by simp; omega)
  have hlive := hr.liveBelow
  generalize hup : (h.setNode h.count key value).heapifyUp h.count = up at hr hlive
  have hcount : up.count = h.count := hr.count
  refine ⟨(h.nodes h.count).h, { up with count := up.count + 1 }, ?_, ⟨?_, ?_⟩, hr.size,
    hr.flags, hp.perm.handle_lt _ hc, hp.perm.liveBelow_self hc, ?_⟩
  · rw [Xbinheap.insert, if_neg (by omega), hup]
  · exact ⟨hr.perm.index_lt, hr.perm.handle_lt, hr.perm.handle_index, hr.perm.index_handle⟩
  · show up.count + 1 ≤ up.size
    rw [hr.size, setNode_size]
    omega
  · show up.liveBelow (up.count + 1) = _
    rw [hcount, hlive, setNode_liveBelow h _ key value hp.perm (by omega) hc,
      hp.perm.liveBelow_succ hc, Function.update_idem]
    rfl

theorem Wf.insert (hw : h.Wf) (hc : h.count < h.size) (key value : xbinheapidx) :
    ∃ hd h', h.insert key value = (hd, h') ∧ h'.Wf ∧ h'.size = h.size ∧ h'.flags = h.flags ∧
      hd < h.size ∧ h.live hd = none ∧ h'.live = Function.update h.live hd (some ⟨key, value⟩) := by
  obtain ⟨hd, h', hins, hp, hsize, hflags, hlt, hfree, hlive⟩ := hw.placed.insert hc key value
  refine ⟨hd, h', hins, ⟨hp.perm, hp.count_le, ?_⟩, hsize, hflags, hlt, hfree, hlive⟩
  have hord := heapifyUp_ordered (n := h.count + 1) _ h.count
    (hw.ordered.append fun j hj => setNode_rank_of_ne h h.count key value hj) (by omega)
  have hcount : ((h.setNode h.count key value).heapifyUp h.count).count = h.count :=
    (heapifyUp_rearranged (n := h.count + 1) _ h.count
      (setNode_perm h h.count key value hw.perm) (by omega) (by simp; omega)).count
  rw [Xbinheap.insert, if_neg (by omega), Prod.mk.injEq] at hins
  obtain ⟨-, rfl⟩ := hins
  rw [hcount]
  exact hord

theorem extract_empty (hc : h.count = 0) : h.extract = (.ofNat NoNode, h) := by
  simp [extract, empty, hc]

theorem extract_eq {n : Nat} (hn : h.count = n + 1) : h.extract =
    ((h.nodes 0).value, (({ h with count := n } : Xbinheap).swapNodes 0 n).heapifyDown 0) := by
  have hpred : h.count - 1 = n := by omega
  rw [Xbinheap.extract, if_neg (by simp [empty, hn])]
  simp only [hpred]

/-- The last node comes to the root, and the old root behind the last live position. -/
theorem Placed.extract_rearranged (hp : h.Placed) {n : Nat} (hn : h.count = n + 1) :
    let h1 : Xbinheap := { h with count := n }
    Rearranged (n + 1) h1 (h1.swapNodes 0 n) ∧
      Rearranged n (h1.swapNodes 0 n) ((h1.swapNodes 0 n).heapifyDown 0) := by
  intro h1
  have hle : n < h.size := by
    have := hp.count_le
    omega
  have hperm : h1.Perm :=
    ⟨hp.perm.index_lt, hp.perm.handle_lt, hp.perm.handle_index, hp.perm.index_handle⟩
  have hs : Rearranged (n + 1) h1 (h1.swapNodes 0 n) :=
    swapNodes_rearranged hperm (by omega) (by omega) hle
  exact ⟨hs, heapifyDown_rearranged (h1.swapNodes 0 n) 0 hs.perm (Nat.le_of_lt hle)⟩

/-- What an extraction takes out and leaves, whatever the order of the nodes. -/
theorem Placed.extract (hp : h.Placed) (hc : h.count ≠ 0) :
    ∃ h', h.extract = ((h.nodes 0).value, h') ∧ h'.Placed ∧ h'.size = h.size ∧
      h'.flags = h.flags ∧ h'.live = Function.update h.live (h.nodes 0).h none := by
  obtain ⟨n, hn⟩ := Nat.exists_eq_succ_of_ne_zero hc
  have hle : n < h.size := by have := hp.count_le; omega
  obtain ⟨hs, hd⟩ := hp.extract_rearranged hn
  have hlive : ({ h with count := n } : Xbinheap).liveBelow (n + 1) = h.live := by
    rw [live, hn]
    rfl
  generalize hh1 : ({ h with count := n } : Xbinheap) = h1 at hs hd hlive
  have hsize : h1.size = h.size := by rw [← hh1]
  have hcount : h1.count = n := by rw [← hh1]
  refine ⟨(h1.swapNodes 0 n).heapifyDown 0, hh1 ▸ extract_eq hn, ⟨hd.perm, ?_⟩, ?_, ?_, ?_⟩
  · rw [hd.count, hd.size, swapNodes_count, swapNodes_size]
    omega
  · rw [hd.size, swapNodes_size, hsize]
  · rw [hd.flags, swapNodes_flags, ← hh1]
  · have hlast := hs.perm.liveBelow_succ (n := n) (by simp; omega)
    have hself := hs.perm.liveBelow_self (n := n) (by simp; omega)
    have hroot : ((h1.swapNodes 0 n).nodes n).h = (h.nodes 0).h := by
      rw [swapNodes_nodes, Equiv.swap_apply_right, ← hh1]
    rw [hs.liveBelow, hlive, hroot] at hlast
    rw [hroot] at hself
    rw [live, hd.count, swapNodes_count, hcount, hd.liveBelow, hlast, Function.update_idem,
      ← hself, Function.update_eq_self]

theorem Wf.extract (hw : h.Wf) (hc : h.count ≠ 0) :
    ∃ h', h.extract = ((h.nodes 0).value, h') ∧ h'.Wf ∧ h'.size = h.size ∧
      h'.flags = h.flags ∧ h'.live = Function.update h.live (h.nodes 0).h none := by
  obtain ⟨h', hext, hp, hsize, hflags, hlive⟩ := hw.placed.extract hc
  refine ⟨h', hext, ⟨hp.perm, hp.count_le, ?_⟩, hsize, hflags, hlive⟩
  obtain ⟨n, hn⟩ := Nat.exists_eq_succ_of_ne_zero hc
  rw [extract_eq hn, Prod.mk.injEq] at hext
  obtain ⟨-, rfl⟩ := hext
  rw [(hw.placed.extract_rearranged hn).2.count]
  apply heapifyDown_ordered
  rw [swapNodes_rank, swapNodes_count]
  apply HeapOrdered.removeRoot
  have ho := hw.ordered
  rw [hn] at ho
  exact ho

theorem peak_live (hc : h.count ≠ 0) : h.peak = (h.nodes 0).value := by
  simp [peak, empty, hc]

theorem peak_empty (hc : h.count = 0) : h.peak = .ofNat NoNode := by
  simp [peak, empty, hc]

theorem getkey_live {e : XbinheapEntry} (he : h.live hd = some e) : h.getkey hd = e.key := by
  obtain ⟨⟨-, hlt⟩, rfl⟩ := liveBelow_some.mp he
  exact if_neg (by omega)

structure KeyChanged (h : Xbinheap) (hd : Nat) (e : XbinheapEntry) (newkey : xbinheapidx)
    (h' : Xbinheap) : Prop where
  wf : h'.Wf
  size : h'.size = h.size
  flags : h'.flags = h.flags
  live : h'.live = Function.update h.live hd (some { e with key := newkey })

section KeyChange
variable {e : XbinheapEntry} {newkey : xbinheapidx}

theorem setKey_live (hp : h.Placed) (he : h.live hd = some e) :
    (h.setKey (h.indexes hd) newkey).live =
      Function.update h.live hd (some { e with key := newkey }) := by
  obtain ⟨⟨hhd, hlt⟩, rfl⟩ := liveBelow_some.mp he
  rw [setKey, live, setNode_count, setNode_liveBelow h _ _ _ hp.perm hlt hp.count_le,
    hp.perm.handle_index hd hhd]
  rfl

theorem KeyChanged.of_rearranged (hw : h.Wf) (he : h.live hd = some e)
    (hr : Rearranged h.count (h.setKey (h.indexes hd) newkey) h')
    (ho : HeapOrdered h'.rank h.count) : KeyChanged h hd e newkey h' where
  wf := by
    refine ⟨hr.perm, ?_, ?_⟩
    · rw [hr.count, hr.size]
      exact hw.count_le
    · rw [hr.count]
      exact ho
  size := hr.size
  flags := hr.flags
  live := by
    rw [← setKey_live hw.placed he, Xbinheap.live, hr.count]
    exact hr.liveBelow

theorem Wf.keyUp (hw : h.Wf) (he : h.live hd = some e) (hle : h.rankOf newkey ≤ h.rankOf e.key) :
    KeyChanged h hd e newkey ((h.setKey (h.indexes hd) newkey).heapifyUp (h.indexes hd)) := by
  obtain ⟨⟨hhd, hlt⟩, rfl⟩ := liveBelow_some.mp he
  apply KeyChanged.of_rearranged hw he
  · exact heapifyUp_rearranged _ _ (setNode_perm h _ _ _ hw.perm) hlt hw.count_le
  · apply heapifyUp_ordered _ _ ?_ hlt
    refine hw.ordered.upOrder ?_ (fun j hj => setNode_rank_of_ne h _ _ _ hj) hlt
    rw [setKey, setNode_rank_self]
    exact hle

theorem Wf.keyDown (hw : h.Wf) (he : h.live hd = some e) (hle : h.rankOf e.key ≤ h.rankOf newkey) :
    KeyChanged h hd e newkey ((h.setKey (h.indexes hd) newkey).heapifyDown (h.indexes hd)) := by
  obtain ⟨⟨hhd, hlt⟩, rfl⟩ := liveBelow_some.mp he
  apply KeyChanged.of_rearranged hw he
  · exact heapifyDown_rearranged _ _ (setNode_perm h _ _ _ hw.perm) hw.count_le
  · apply heapifyDown_ordered
    refine hw.ordered.downOrder ?_ (fun j hj => setNode_rank_of_ne h _ _ _ hj) hlt
    rw [setKey, setNode_rank_self]
    exact hle

theorem Wf.increasekey (hw : h.Wf) (he : h.live hd = some e) (hle : e.key ≤ newkey) :
    KeyChanged h hd e newkey (h.increasekey hd newkey) := by
  rw [Xbinheap.increasekey]
  by_cases hmax : h.isMaxHeap = true
  · simp only [hmax, if_true]
    exact hw.keyUp he (rankOf_le.mpr (by rwa [if_pos hmax]))
  · simp only [hmax]
    exact hw.keyDown he (rankOf_le.mpr (by rwa [if_neg hmax]))

theorem Wf.decreasekey (hw : h.Wf) (he : h.live hd = some e) (hle : newkey ≤ e.key) :
    KeyChanged h hd e newkey (h.decreasekey hd newkey) := by
  rw [Xbinheap.decreasekey]
  by_cases hmax : h.isMaxHeap = true
  · simp only [hmax, if_true]
    exact hw.keyDown he (rankOf_le.mpr (by rwa [if_pos hmax]))
  · simp only [hmax]
    exact hw.keyUp he (rankOf_le.mpr (by rwa [if_neg hmax]))

end KeyChange

/-- One admissible step of the heap is a step of the priority queue. -/
theorem Wf.step (hw : h.Wf) {ev : XbinheapEvent} (hadm : h.Admissible ev) (hs : h.Step ev h') :
    PriorityStep h.size h.flags h.live ev h'.live ∧ h'.Wf ∧ h'.size = h.size ∧
      h'.flags = h.flags := by
  cases ev with
  | insert key value ret =>
    rw [Step] at hs
    by_cases hc : h.count < h.size
    · obtain ⟨hd, h2, hins, hw2, hsz, hfl, hlt, hfree, hlive⟩ := hw.insert hc key value
      rw [hins, Prod.mk.injEq] at hs
      obtain ⟨rfl, rfl⟩ := hs
      exact ⟨hlive ▸ .insert key value hlt hfree, hw2, hsz, hfl⟩
    · rw [insert_full (by omega), Prod.mk.injEq] at hs
      obtain ⟨rfl, rfl⟩ := hs
      refine ⟨.insertFull key value fun hd hhd hnone => ?_, hw, rfl, rfl⟩
      exact liveBelow_none.mp hnone ⟨hhd, (hw.perm.index_lt hd hhd).trans_le (by omega)⟩
  | extract ret =>
    rw [Step] at hs
    by_cases hc : h.count = 0
    · rw [extract_empty hc, Prod.mk.injEq] at hs
      obtain ⟨rfl, rfl⟩ := hs
      exact ⟨.extractEmpty (hw.placed.live_eq_none_iff.mpr hc), hw, rfl, rfl⟩
    · obtain ⟨h2, hext, hw2, hsz, hfl, hlive⟩ := hw.extract hc
      rw [hext, Prod.mk.injEq] at hs
      obtain ⟨rfl, rfl⟩ := hs
      exact ⟨hlive ▸ .extract (hw.bestEntry hc), hw2, hsz, hfl⟩
  | peak ret =>
    obtain ⟨rfl, rfl⟩ := hs
    refine ⟨?_, hw, rfl, rfl⟩
    by_cases hc : h'.count = 0
    · rw [peak_empty hc]
      exact .peakEmpty (hw.placed.live_eq_none_iff.mpr hc)
    · rw [peak_live hc]
      exact .peak (hw.bestEntry hc)
  | empty ret =>
    obtain ⟨rfl, rfl⟩ := hs
    exact ⟨.empty (by rw [hw.placed.live_eq_none_iff]; simp [empty]), hw, rfl, rfl⟩
  | increasekey idx newkey =>
    obtain ⟨e, he, hle⟩ := hadm
    obtain rfl := hs
    have hk := hw.increasekey he hle
    exact ⟨hk.live ▸ .increasekey he hle, hk.wf, hk.size, hk.flags⟩
  | decreasekey idx newkey =>
    obtain ⟨e, he, hle⟩ := hadm
    obtain rfl := hs
    have hk := hw.decreasekey he hle
    exact ⟨hk.live ▸ .decreasekey he hle, hk.wf, hk.size, hk.flags⟩
  | getkey idx ret =>
    obtain ⟨e, he⟩ := hadm
    obtain ⟨rfl, rfl⟩ := hs
    exact ⟨getkey_live he ▸ .getkey he, hw, rfl, rfl⟩

/-- Every run of a heap is a run of the priority queue with the same calls and results, and in
the end each live handle designates its own entry. -/
theorem init_priority (size : xbinheapidx) (flags : UInt32) (indexes0 : Nat → Nat)
    (nodes0 : Nat → XbinheapNode) {evs : List XbinheapEvent}
    (hrun : Run (Guarded Step Admissible) (init size flags indexes0 nodes0) evs h) :
    Run (PriorityStep size.toNat flags) (fun _ => none) evs h.live := by
  obtain ⟨s, hs, rfl, -⟩ := hrun.simulate (T := PriorityStep size.toNat flags)
    (R := fun h s => h.live = s ∧ h.Wf ∧ h.size = size.toNat ∧ h.flags = flags)
    (by
      rintro h ev h' s ⟨rfl, hw, hsz, hfl⟩ ⟨hadm, hstep⟩
      obtain ⟨hp, hw', hsz', hfl'⟩ := hw.step hadm hstep
      rw [hsz, hfl] at hp
      exact ⟨h'.live, hp, rfl, hw', hsz'.trans hsz, hfl'.trans hfl⟩)
    (x := fun _ => none)
    ⟨by funext hd; simp [live, liveBelow, init], wf_init size flags indexes0 nodes0, rfl, rfl⟩
  exact hs

theorem init_priority_insert_extract :
    let h0 := init 2 XBINHEAP_MAX (fun _ => 0) (fun _ => ⟨0, 0, 0⟩)
    let h1 := (h0.insert 5 50).2
    Run (PriorityStep 2 XBINHEAP_MAX) (fun _ => none)
      [.insert 5 50 (h0.insert 5 50).1, .extract h1.extract.1] h1.extract.2.live := by
  intro h0 h1
  have hins : Run (Guarded Step Admissible) h0 [.insert 5 50 (h0.insert 5 50).1] h1 :=
    .single ⟨trivial, rfl⟩
  exact init_priority 2 XBINHEAP_MAX (fun _ => 0) (fun _ => ⟨0, 0, 0⟩)
    (hins.snoc ⟨trivial, rfl⟩)

end Xbinheap

end Libxseg
