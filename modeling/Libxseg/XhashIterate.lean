import Libxseg.XhashUpdate

/-!
# Iterating over an xhash

`xhash_iterate` stops when it has returned `used` keys, so it is complete because `used`
counts the occupied slots on every reachable table. Updates between the calls change no
slot from occupied to free or back.
-/

namespace Libxseg

set_option autoImplicit false

universe u

structure XhashIter where
  loc : Nat
  cnt : Nat

inductive XhashIterEvent (κ : Type u) where
  | iterate (ret : Int) (item : Option (κ × xhashidx))
  | update (key : κ) (val : xhashidx)

namespace Xhash
variable {κ : Type u} {tf : TypesFunctions κ} {xhash cur new : Xhash κ} {key : κ}
  {val : xhashidx} {pi : XhashIter} {i loc cnt : Nat}

def iterInit : XhashIter where
  loc := 0
  cnt := 0

def iterateFrom (xhash : Xhash κ) (cnt idx : Nat) : Option Nat :=
  if xhash.used = cnt ∨ idx ≥ xhash.size then none
  else if xhash.itemValid idx then some idx
  else xhash.iterateFrom cnt (idx + 1)
termination_by xhash.size - idx

def iterateRaw (xhash : Xhash κ) (pi : XhashIter) : Int × XhashIter × Option (κ × Nat) :=
  match xhash.iterateFrom pi.cnt pi.loc with
  | none => (0, pi, none)
  | some idx => (1, { loc := idx + 1, cnt := pi.cnt + 1 }, some (xhash.kvs idx, idx))

/-- The key and the value are written only when there is one. -/
def iterate (xhash : Xhash κ) (pi : XhashIter) : Int × XhashIter × Option (κ × xhashidx) :=
  match xhash.iterateRaw pi with
  | (ret, pi, item) => (ret, pi, item.map fun (key, idx) => (key, xhash.vals idx))

def occupiedFrom (xhash : Xhash κ) (loc : Nat) : List Nat :=
  (List.range' loc (xhash.size - loc)).filter xhash.itemValid

def occupied (xhash : Xhash κ) : List Nat := xhash.occupiedFrom 0

theorem occupied_eq (xhash : Xhash κ) :
    xhash.occupied = (List.range xhash.size).filter xhash.itemValid := by
  rw [occupied, occupiedFrom, Nat.sub_zero, List.range_eq_range']

theorem occupiedFrom_of_le (h : xhash.size ≤ loc) : xhash.occupiedFrom loc = [] := by
  rw [occupiedFrom, Nat.sub_eq_zero_of_le h]
  rfl

theorem occupiedFrom_of_lt (h : loc < xhash.size) :
    xhash.occupiedFrom loc =
      if xhash.itemValid loc then loc :: xhash.occupiedFrom (loc + 1)
      else xhash.occupiedFrom (loc + 1) := by
  obtain ⟨n, hn⟩ := Nat.exists_eq_add_of_lt h
  have hsub : xhash.size - loc = n + 1 := by omega
  have hsub' : xhash.size - (loc + 1) = n := by omega
  simp only [occupiedFrom, hsub, hsub', List.range'_succ, List.filter_cons]

theorem length_occupied (ht : xhash.Tracked tf) : xhash.occupied.length = xhash.used := by
  rw [ht.used, occupied_eq, Nat.count, List.countP_eq_length_filter]
  simp

theorem iterateFrom_eq (xhash : Xhash κ) (cnt idx : Nat) :
    xhash.iterateFrom cnt idx =
      if xhash.used = cnt then none else (xhash.occupiedFrom idx).head? := by
  fun_induction iterateFrom xhash cnt idx with
  | case1 idx hstop =>
    rcases hstop with hused | hsize
    · rw [if_pos hused]
    · rw [occupiedFrom_of_le hsize]
      simp
  | case2 idx hstop hv =>
    push Not at hstop
    rw [if_neg hstop.1, occupiedFrom_of_lt hstop.2, if_pos hv]
    rfl
  | case3 idx hstop hv ih =>
    push Not at hstop
    rw [ih, occupiedFrom_of_lt hstop.2, if_neg hv]

theorem occupiedFrom_tail {rest : List Nat} (h : xhash.occupiedFrom loc = i :: rest) :
    xhash.occupiedFrom (i + 1) = rest := by
  induction hn : xhash.size - loc generalizing loc with
  | zero =>
    rw [occupiedFrom_of_le (Nat.le_of_sub_eq_zero hn)] at h
    cases h
  | succ n ih =>
    rw [occupiedFrom_of_lt (by omega)] at h
    split at h
    · cases h
      rfl
    · exact ih h (by omega)

theorem mem_occupied : i ∈ xhash.occupied ↔ i < xhash.size ∧ xhash.itemValid i = true := by
  rw [occupied_eq, List.mem_filter, List.mem_range]

theorem nodup_occupied (xhash : Xhash κ) : xhash.occupied.Nodup := by
  rw [occupied_eq]
  exact List.nodup_range.filter _

structure Remaining (xhash : Xhash κ) (pi : XhashIter) (rest : List Nat) : Prop where
  slots : xhash.occupiedFrom pi.loc = rest
  count : pi.cnt + rest.length = xhash.used

theorem Tracked.remaining (ht : xhash.Tracked tf) : xhash.Remaining iterInit xhash.occupied :=
  ⟨rfl, (Nat.zero_add _).trans (length_occupied ht)⟩

theorem Remaining.iterateFrom {rest : List Nat} (h : xhash.Remaining pi rest) :
    xhash.iterateFrom pi.cnt pi.loc = rest.head? := by
  have hcount := h.count
  rw [iterateFrom_eq, h.slots]
  split
  · rw [List.length_eq_zero_iff.mp (show rest.length = 0 by omega)]
    rfl
  · rfl

theorem Remaining.iterate_nil (h : xhash.Remaining pi []) : xhash.iterate pi = (0, pi, none) := by
  unfold iterate iterateRaw
  rw [h.iterateFrom]
  rfl

theorem Remaining.iterate_cons {rest : List Nat} (h : xhash.Remaining pi (i :: rest)) :
    xhash.iterate pi =
        (1, { loc := i + 1, cnt := pi.cnt + 1 }, some (xhash.kvs i, xhash.vals i)) ∧
      xhash.Remaining { loc := i + 1, cnt := pi.cnt + 1 } rest := by
  have hcount := h.count
  rw [List.length_cons] at hcount
  constructor
  · unfold iterate iterateRaw
    rw [h.iterateFrom]
    rfl
  · exact ⟨occupiedFrom_tail h.slots, show pi.cnt + 1 + rest.length = xhash.used by omega⟩

def IterStep (tf : TypesFunctions κ) (s : Xhash κ × XhashIter) :
    XhashIterEvent κ → Xhash κ × XhashIter → Prop
  | .iterate ret item, t => s.1.iterate s.2 = (ret, t.2, item) ∧ t.1 = s.1
  | .update key val, t => NotMark val ∧ ¬ s.1.Absent tf key ∧
      (∃ ret, s.1.update tf key val = some (ret, t.1)) ∧ t.2 = s.2

def calls (evs : List (XhashIterEvent κ)) : Nat :=
  evs.countP fun ev =>
    match ev with
    | .iterate _ _ => true
    | .update _ _ => false

structure Iterating (tf : TypesFunctions κ) (xhash : Xhash κ) (n : Nat)
    (s : Xhash κ × XhashIter) : Prop where
  occupied : s.1.occupied = xhash.occupied
  keys : ∀ i, tf.cmp_fun (xhash.kvs i) (s.1.kvs i) = true
  used : s.1.used = xhash.occupied.length
  remaining : s.1.Remaining s.2 (xhash.occupied.drop n)

/-- The next call returns the next occupied slot with its current value. -/
theorem Iterating.iterate {n : Nat} {s : Xhash κ × XhashIter} (h : xhash.Iterating tf n s) :
    s.1.iterate s.2 = match xhash.occupied[n]? with
      | some i => (1, { loc := i + 1, cnt := n + 1 }, some (s.1.kvs i, s.1.vals i))
      | none => (0, s.2, none) := by
  have hrest := h.remaining
  cases hslot : xhash.occupied[n]? with
  | none =>
    rw [List.drop_eq_nil_of_le (List.getElem?_eq_none_iff.mp hslot)] at hrest
    exact hrest.iterate_nil
  | some i =>
    obtain ⟨hlt, hget⟩ := List.getElem?_eq_some_iff.mp hslot
    have hcount := hrest.count
    rw [h.used, List.length_drop] at hcount
    have hn : s.2.cnt = n := by omega
    rw [List.drop_eq_getElem_cons hlt, hget] at hrest
    rw [hrest.iterate_cons.1, hn]

theorem Iterating.step {n : Nat} {s t : Xhash κ × XhashIter} {ev : XhashIterEvent κ}
    (h : xhash.Iterating tf n s) (hstep : IterStep tf s ev t) :
    xhash.Iterating tf (n + calls [ev]) t := by
  obtain ⟨cur, pi⟩ := s
  obtain ⟨new, pi'⟩ := t
  have hrest : cur.Remaining pi (xhash.occupied.drop n) := h.remaining
  cases ev with
  | iterate ret item =>
    obtain ⟨hcall, rfl⟩ := hstep
    refine ⟨h.occupied, h.keys, h.used, ?_⟩
    change new.Remaining pi' (xhash.occupied.drop (n + 1))
    dsimp only at hcall
    rw [← List.drop_drop]
    cases hdrop : xhash.occupied.drop n with
    | nil =>
      rw [hdrop] at hrest
      rw [hrest.iterate_nil] at hcall
      cases hcall
      exact hrest
    | cons i rest =>
      rw [hdrop] at hrest
      obtain ⟨hnext, hrest'⟩ := hrest.iterate_cons
      rw [hnext] at hcall
      cases hcall
      exact hrest'
  | update key val =>
    obtain ⟨hval, -, ⟨ret, hupdate⟩, heq⟩ := hstep
    dsimp only at heq hupdate
    subst heq
    obtain ⟨i, hfirst, rfl, -⟩ := update_cases hupdate
    have hfrom (loc : Nat) :
        (cur.setVal i key val).occupiedFrom loc = cur.occupiedFrom loc := by
      unfold occupiedFrom
      apply List.filter_congr
      intro j _
      by_cases hj : j = i
      · rw [hj, setVal_itemValid_self hval, hfirst.1.2.1]
      · exact setVal_itemValid_of_ne hj
    refine ⟨(hfrom 0).trans h.occupied, fun j => ?_, h.used, (hfrom _).trans hrest.slots,
      hrest.count⟩
    by_cases hj : j = i
    · rw [hj, setVal_kvs_self]
      exact tf.cmp_trans (h.keys i) hfirst.1.2.2
    · rw [setVal_kvs_of_ne hj]
      exact h.keys j

theorem iterating_run (ht : xhash.Tracked tf) {evs : List (XhashIterEvent κ)}
    {s : Xhash κ × XhashIter} (hrun : Run (IterStep tf) (xhash, iterInit) evs s) :
    xhash.Iterating tf (calls evs) s := by
  refine hrun.history (I := fun evs s => xhash.Iterating tf (calls evs) s) ?_
    ⟨rfl, fun i => tf.cmp_refl _, (length_occupied ht).symm, ht.remaining⟩
  intro evs s ev t h hstep
  have hcalls : calls (evs ++ [ev]) = calls evs + calls [ev] := List.countP_append
  rw [hcalls]
  exact h.step hstep

/-- On every reachable table the calls return the occupied slots one by one, each with the value
that it has at the call, and 0 ever after. -/
theorem run_iterate (type : XhashType) (minsize_shift limit : Nat) (kvs0 : Nat → type.Key)
    {as : List (XhashCall type.Key × Int)} {xhash : Xhash type.Key}
    (hrun : Run (Guarded (Step (typesFun type))
      fun xhash a => xhash.StoresPlain (typesFun type) a.1)
      (init minsize_shift limit kvs0) as xhash)
    {evs : List (XhashIterEvent type.Key)} {cur : Xhash type.Key} {pi : XhashIter}
    (hiter : Run (IterStep (typesFun type)) (xhash, iterInit) evs (cur, pi)) :
    xhash.occupied.Nodup ∧ (∀ i, i ∈ xhash.occupied ↔ i < xhash.size ∧ xhash.itemValid i = true) ∧
      cur.occupied = xhash.occupied ∧
      (∀ i, (typesFun type).cmp_fun (xhash.kvs i) (cur.kvs i) = true) ∧
      cur.iterate pi = match xhash.occupied[calls evs]? with
        | some i => (1, { loc := i + 1, cnt := calls evs + 1 }, some (cur.kvs i, cur.vals i))
        | none => (0, pi, none) := by
  have ht := tracked_run hrun
  have h := iterating_run ht hiter
  exact ⟨nodup_occupied xhash, fun _ => mem_occupied, h.occupied, h.keys, h.iterate⟩

/-- Two entries, the second of which is updated when the first has been returned. -/
theorem run_iterate_two :
    ∃ (xhash cur : Xhash xhashidx) (pi : XhashIter), Run (Guarded (Step integerFunctions)
        fun xhash a => xhash.StoresPlain integerFunctions a.1)
        (init 2 0 fun _ => 0) [(.insert 7 70, 0), (.insert 9 90, 0)] xhash ∧
      Run (IterStep integerFunctions) (xhash, iterInit) [.iterate 1 (some (9, 90)), .update 7 71]
        (cur, pi) ∧
      cur.iterate pi = (1, { loc := 4, cnt := 2 }, some (7, 71)) := by
  have hexec : ((init 2 0 fun _ => 0).insert integerFunctions 7 70).any (fun a => a.1 = 0 ∧
      (a.2.insert integerFunctions 9 90).any (fun b => b.1 = 0 ∧ b.2.occupied = [1, 3] ∧
        b.2.kvs 1 = 9 ∧ b.2.vals 1 = 90 ∧ (b.2.itemValid 3 = true ∧ b.2.kvs 3 = 7) ∧
        (b.2.update integerFunctions 7 71).any (fun c => c.2.kvs 3 = 7 ∧ c.2.vals 3 = 71))) =
      true := by
    decide +kernel
  obtain ⟨⟨r, first⟩, hfirst, hcheck⟩ := (Option.any_eq_true _ _).mp hexec
  obtain ⟨hr, hcheck⟩ := of_decide_eq_true hcheck
  obtain ⟨⟨r', xhash⟩, hsecond, hcheck⟩ := (Option.any_eq_true _ _).mp hcheck
  obtain ⟨hr', hoccupied, hkey, hval, ⟨hvalid, hseven⟩, hcheck⟩ := of_decide_eq_true hcheck
  obtain ⟨⟨r'', cur⟩, hupdate, hcheck⟩ := (Option.any_eq_true _ _).mp hcheck
  obtain ⟨hkey', hval'⟩ := of_decide_eq_true hcheck
  obtain rfl : r = 0 := hr
  obtain rfl : r' = 0 := hr'
  have hrun : Run (Guarded (Step integerFunctions)
      fun xhash a => xhash.StoresPlain integerFunctions a.1)
      (init 2 0 fun _ => 0) [(.insert 7 70, 0), (.insert 9 90, 0)] xhash :=
    .cons ⟨show NotMark 70 by decide, hfirst⟩ (.single ⟨show NotMark 90 by decide, hsecond⟩)
  have hcall := (run_iterate .integer 2 0 (fun _ => 0) hrun (.refl _)).2.2.2.2
  have hone : xhash.iterate iterInit = (1, { loc := 2, cnt := 1 }, some (9, 90)) := by
    rw [hcall, hoccupied, ← hkey, ← hval]
    rfl
  have hpresent : ¬ xhash.Absent integerFunctions 7 := by
    intro habsent
    have hthree : 3 ∈ xhash.occupied := by
      rw [hoccupied]
      decide
    have hother := habsent 3 (mem_occupied.mp hthree).1 hvalid
    rw [hseven] at hother
    exact absurd hother (by decide)
  have hiter : Run (IterStep integerFunctions) (xhash, iterInit)
      [.iterate 1 (some (9, 90)), .update 7 71] (cur, { loc := 2, cnt := 1 }) :=
    .cons (t := (xhash, { loc := 2, cnt := 1 })) ⟨hone, rfl⟩
      (.single ⟨by decide, hpresent, ⟨r'', hupdate⟩, rfl⟩)
  have hnext := (run_iterate .integer 2 0 (fun _ => 0) hrun hiter).2.2.2.2
  refine ⟨xhash, cur, _, hrun, hiter, ?_⟩
  rw [hnext, hoccupied, ← hkey', ← hval']
  rfl

end Xhash

end Libxseg
