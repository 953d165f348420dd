import Libxseg.LinkedRing
import Libxseg.Transition
import Libxseg.Xpool

/-!
# The pool is a cyclic sequence

The abstract pool is a list of handles and data, in the order of the cycle from the cursor
on. `Repr` reads such a list off the links; every function does to the links what a step
of the abstract pool does to the list.
-/

namespace Libxseg

set_option autoImplicit false

namespace Xpool

inductive Event where
  | add (data : xpool_data) (ret : xpool_index)
  | remove (idx ret : xpool_index) (data : Option xpool_data)
  | peek (ret : xpool_index) (data : Option xpool_data)
  | peekIdx (idx ret : xpool_index) (data : Option xpool_data)
  | peekAndFwd (ret : xpool_index) (data : Option xpool_data)
  | setIdx (idx : xpool_index) (data : xpool_data) (ret : xpool_index)
  | clear

inductive Step (xp : Xpool) : Event → Xpool → Prop
  | add {data ret xp'} : xp.add data = (ret, xp') → Step xp (.add data ret) xp'
  | remove {idx ret data xp'} : xp.remove idx = (ret, data, xp') →
      Step xp (.remove idx ret data) xp'
  | peek {ret data} : xp.peek = (ret, data) → Step xp (.peek ret data) xp
  | peekIdx {idx ret data} : xp.peekIdx idx = (ret, data) → Step xp (.peekIdx idx ret data) xp
  | peekAndFwd {ret data xp'} : xp.peekAndFwd = (ret, data, xp') →
      Step xp (.peekAndFwd ret data) xp'
  | setIdx {idx data ret xp'} : xp.setIdx idx data = (ret, xp') →
      Step xp (.setIdx idx data ret) xp'
  | clear : Step xp .clear xp.clear

/-- The pairs of a pool in the order of the cycle, from the cursor on. -/
abbrev Pairs := List (xpool_index × xpool_data)

def Pairs.handles (l : Pairs) : List xpool_index := l.map Prod.fst

/-- What the calls are to do. Taking out the first pair leaves the cursor at the next one. -/
inductive Cyclic (size : Nat) : Pairs → Event → Pairs → Prop
  | add {l : Pairs} {data idx} : l.length < size → idx ∉ l.handles → idx ≠ NoIndex →
      Cyclic size l (.add data idx) (l ++ [(idx, data)])
  | full {l : Pairs} {data} : l.length = size → Cyclic size l (.add data NoIndex) l
  | remove {l₁ l₂ : Pairs} {idx data} :
      Cyclic size (l₁ ++ (idx, data) :: l₂) (.remove idx idx (some data)) (l₁ ++ l₂)
  | notRemoved {l : Pairs} {idx} : idx ∉ l.handles →
      Cyclic size l (.remove idx NoIndex none) l
  | peek {l : Pairs} {idx data} :
      Cyclic size ((idx, data) :: l) (.peek idx (some data)) ((idx, data) :: l)
  | notPeeked : Cyclic size [] (.peek NoIndex none) []
  | peekIdx {l : Pairs} {idx data} : (idx, data) ∈ l →
      Cyclic size l (.peekIdx idx idx (some data)) l
  | notPeekedIdx {l : Pairs} {idx} : idx ∉ l.handles →
      Cyclic size l (.peekIdx idx NoIndex none) l
  | peekAndFwd {l : Pairs} {idx data} :
      Cyclic size ((idx, data) :: l) (.peekAndFwd idx (some data)) (l ++ [(idx, data)])
  | notForwarded : Cyclic size [] (.peekAndFwd NoIndex none) []
  | setIdx {l₁ l₂ : Pairs} {idx old data} :
      Cyclic size (l₁ ++ (idx, old) :: l₂) (.setIdx idx data idx) (l₁ ++ (idx, data) :: l₂)
  | notSet {l : Pairs} {idx data} : idx ∉ l.handles →
      Cyclic size l (.setIdx idx data NoIndex) l
  | clear {l : Pairs} : Cyclic size l .clear []

def next (xp : Xpool) (idx : xpool_index) : xpool_index := (xp.mem idx).next

def prev (xp : Xpool) (idx : xpool_index) : xpool_index := (xp.mem idx).prev

def Pairs.cursor : Pairs → xpool_index
  | [] => NoIndex
  | (idx, _) :: _ => idx

/-- The pool has the pairs `l` in its ring, and the nodes `free` are free. -/
structure Repr (xp : Xpool) (l : Pairs) (free : List xpool_index) : Prop where
  ring : Ring xp.next xp.prev l.handles
  cursor : xp.list = l.cursor
  data : ∀ p ∈ l, (xp.mem p.1).data = p.2
  threaded : Threaded xp.next NoIndex xp.free free
  dead : ∀ idx ∈ free, xp.prev idx = NoIndex
  nodup : free.Nodup
  apart : ∀ idx ∈ free, idx ∉ l.handles
  mem_iff : ∀ idx, idx ∈ l.handles ∨ idx ∈ free ↔ idx < xp.size
  length : l.length + free.length = xp.size.toNat

variable {xp xp' : Xpool} {l : Pairs} {free : List xpool_index} {idx : xpool_index}
  {data : xpool_data}

theorem ne_noIndex (h : idx < xp.size) : idx ≠ NoIndex := by
  rintro rfl
  have hlt := UInt64.lt_iff_toNat_lt.mp h
  have hmax : NoIndex.toNat = 2 ^ 64 - 1 := rfl
  have hsize := xp.size.toNat_lt
  omega

namespace Repr

theorem low (hr : Repr xp l free) (h : idx ∈ l.handles) : idx ≠ NoIndex :=
  ne_noIndex ((hr.mem_iff idx).mp (Or.inl h))

theorem validateIdx (hr : Repr xp l free) (idx : xpool_index) :
    xp.validateIdx idx = true ↔ idx ∈ l.handles := by
  rw [Xpool.validateIdx, Bool.and_eq_true, decide_eq_true_iff, bne_iff_ne]
  constructor
  · rintro ⟨hlt, hprev⟩
    exact ((hr.mem_iff idx).mpr hlt).resolve_right fun hmem => hprev (hr.dead idx hmem)
  · intro hmem
    exact ⟨(hr.mem_iff idx).mp (Or.inl hmem), hr.low (hr.ring.mem hmem).2⟩

theorem list_eq_noIndex (hr : Repr xp l free) : xp.list = NoIndex ↔ l = [] := by
  rw [hr.cursor]
  cases l with
  | nil => exact iff_of_true rfl rfl
  | cons p l => exact iff_of_false (hr.low List.mem_cons_self) (List.cons_ne_nil p l)

theorem free_eq_noIndex (hr : Repr xp l free) : xp.free = NoIndex ↔ l.length = xp.size.toNat := by
  have hlength := hr.length
  have ht := hr.threaded
  cases free with
  | nil =>
    rw [List.length_nil] at hlength
    exact iff_of_true ht (by omega)
  | cons x free =>
    rw [List.length_cons] at hlength
    refine iff_of_false ?_ (by omega)
    rw [ht.1]
    exact ht.2.1

theorem peek (hr : Repr xp l free) {ret : xpool_index} {data : Option xpool_data}
    (hrun : xp.peek = (ret, data)) : Cyclic xp.size.toNat l (.peek ret data) l := by
  unfold Xpool.peek at hrun
  split at hrun
  · rename_i hnone
    obtain rfl := hr.list_eq_noIndex.mp hnone
    cases hrun
    exact .notPeeked
  · rename_i hne
    cases hrun
    cases l with
    | nil => exact absurd hr.cursor hne
    | cons p l =>
      rw [hr.cursor, Pairs.cursor, hr.data p List.mem_cons_self]
      exact .peek

theorem peekIdx (hr : Repr xp l free) {ret : xpool_index} {data : Option xpool_data}
    (hrun : xp.peekIdx idx = (ret, data)) : Cyclic xp.size.toNat l (.peekIdx idx ret data) l := by
  unfold Xpool.peekIdx at hrun
  split at hrun
  · rename_i hvalid
    cases hrun
    obtain ⟨p, hp, rfl⟩ := List.mem_map.mp ((hr.validateIdx idx).mp hvalid)
    rw [hr.data p hp]
    exact .peekIdx hp
  · rename_i hvalid
    cases hrun
    exact .notPeekedIdx fun hmem => hvalid ((hr.validateIdx idx).mpr hmem)

theorem peekAndFwd (hr : Repr xp l free) {ret : xpool_index} {data : Option xpool_data}
    (hrun : xp.peekAndFwd = (ret, data, xp')) :
    ∃ l', Cyclic xp.size.toNat l (.peekAndFwd ret data) l' ∧ Repr xp' l' free ∧
      xp'.size = xp.size := by
  unfold Xpool.peekAndFwd at hrun
  split at hrun
  · rename_i hnone
    obtain rfl := hr.list_eq_noIndex.mp hnone
    cases hrun
    exact ⟨[], .notForwarded, hr, rfl⟩
  · rename_i hne
    cases hrun
    cases l with
    | nil => exact absurd hr.cursor hne
    | cons p l =>
      have hlist : xp.list = p.1 := hr.cursor
      have hrot : Pairs.handles (p :: l) ~r Pairs.handles (l ++ [p]) := by
        rw [Pairs.handles, Pairs.handles, List.map_append]
        exact List.isRotated_append (l := [p.1])
      have hmem (idx : xpool_index) : idx ∈ Pairs.handles (l ++ [p]) ↔ idx ∈ Pairs.handles (p :: l) :=
        hrot.mem_iff.symm
      rw [hlist, hr.data p List.mem_cons_self]
      refine ⟨l ++ [p], .peekAndFwd, ?_, rfl⟩
      refine ⟨hr.ring.rotated hrot, ?_, ?_, hr.threaded, hr.dead, hr.nodup, ?_, ?_, ?_⟩
      · cases l with
        | nil => exact hr.ring.next_single
        | cons q l => exact hr.ring.next_head
      · intro q hq
        exact hr.data q (by rwa [List.mem_append, List.mem_singleton, or_comm, ← List.mem_cons] at hq)
      · intro idx hidx
        rw [hmem]
        exact hr.apart idx hidx
      · intro idx
        rw [hmem]
        exact hr.mem_iff idx
      · have hlength := hr.length
        rw [List.length_append]
        rw [List.length_cons] at hlength
        exact hlength

theorem others {l₁ l₂ : Pairs} {old : xpool_data} (hr : Repr xp (l₁ ++ (idx, old) :: l₂) free)
    {p : xpool_index × xpool_data} (hp : p ∈ l₁ ++ (idx, data) :: l₂) :
    p.1 = idx ∧ p.2 = data ∨ p.1 ≠ idx ∧ (p ∈ l₁ ∨ p ∈ l₂) := by
  have hn := hr.ring.nodup
  rw [Pairs.handles, List.map_append, List.map_cons, List.nodup_middle, List.nodup_cons,
    ← List.map_append] at hn
  have hother {p : xpool_index × xpool_data} (hp : p ∈ l₁ ∨ p ∈ l₂) : p.1 ≠ idx := by
    have hmem := List.mem_map_of_mem (f := Prod.fst) (List.mem_append.mpr hp)
    rintro rfl
    exact hn.1 hmem
  rw [List.mem_append, List.mem_cons] at hp
  rcases hp with hp | rfl | hp
  · exact Or.inr ⟨hother (Or.inl hp), Or.inl hp⟩
  · exact Or.inl ⟨rfl, rfl⟩
  · exact Or.inr ⟨hother (Or.inr hp), Or.inr hp⟩

theorem setIdx (hr : Repr xp l free) {ret : xpool_index}
    (hrun : xp.setIdx idx data = (ret, xp')) :
    ∃ l', Cyclic xp.size.toNat l (.setIdx idx data ret) l' ∧ Repr xp' l' free ∧
      xp'.size = xp.size := by
  unfold Xpool.setIdx at hrun
  split at hrun
  · rename_i hvalid
    cases hrun
    obtain ⟨⟨j, old⟩, hp, rfl⟩ := List.mem_map.mp ((hr.validateIdx idx).mp hvalid)
    obtain ⟨l₁, l₂, rfl⟩ := List.append_of_mem hp
    refine ⟨l₁ ++ (j, data) :: l₂, .setIdx, ?_, rfl⟩
    have hhandles : Pairs.handles (l₁ ++ (j, data) :: l₂) = Pairs.handles (l₁ ++ (j, old) :: l₂) := by
      rw [Pairs.handles, Pairs.handles, List.map_append, List.map_append]
      rfl
    refine ⟨?_, ?_, ?_, ?_, ?_, hr.nodup, ?_, ?_, ?_⟩
    · rw [hhandles]
      exact hr.ring.congr (fun _ _ => setData_next data) fun _ _ => setData_prev data
    · have hcursor : Pairs.cursor (l₁ ++ (j, data) :: l₂) = Pairs.cursor (l₁ ++ (j, old) :: l₂) := by
        cases l₁ <;> rfl
      rw [hcursor]
      exact hr.cursor
    · intro p hp
      rw [setData_data]
      rcases hr.others hp with ⟨rfl, rfl⟩ | ⟨hne, hp⟩
      · exact if_pos rfl
      · rw [if_neg hne]
        exact hr.data p (List.mem_append.mpr (hp.imp_right (List.mem_cons_of_mem _)))
    · exact hr.threaded.congr fun _ _ => setData_next data
    · intro idx hidx
      exact (setData_prev data).trans (hr.dead idx hidx)
    · rw [hhandles]
      exact hr.apart
    · rw [hhandles]
      exact hr.mem_iff
    · have hlength := hr.length
      rw [List.length_append] at hlength ⊢
      exact hlength
  · rename_i hvalid
    cases hrun
    exact ⟨l, .notSet fun hmem => hvalid ((hr.validateIdx idx).mpr hmem), hr, rfl⟩

end Repr

structure Unlinked (xp : Xpool) (idx : xpool_index) (xp' : Xpool) : Prop where
  size : xp'.size = xp.size
  free : xp'.free = idx
  list : xp'.list = if idx = xp.list then (if idx = xp.next idx then NoIndex else xp.next idx)
    else xp.list
  next : ∀ j, xp'.next j =
    if j = idx then xp.free else if j = xp.prev idx then xp.next idx else xp.next j
  prev : ∀ j, xp'.prev j =
    if j = idx then NoIndex else if j = xp.next idx then xp.prev idx else xp.prev j
  data : ∀ j, (xp'.mem j).data = (xp.mem j).data

theorem remove_unlinked (hvalid : xp.validateIdx idx = true) :
    ∃ xp', xp.remove idx = (idx, some (xp.mem idx).data, xp') ∧ Unlinked xp idx xp' := by
  -- the cursor is the only difference between the two branches
  have hrest (xp₁ : Xpool) (hmem : xp₁.mem = xp.mem) (hfree : xp₁.free = xp.free)
      (hsize : xp₁.size = xp.size)
      (hlist : xp₁.list = if idx = xp.list then (if idx = xp.next idx then NoIndex else xp.next idx)
        else xp.list) :
      Unlinked xp idx
        { (((xp₁.setNext (xp₁.mem idx).prev (xp₁.mem idx).next).setPrev
            ((xp₁.setNext (xp₁.mem idx).prev (xp₁.mem idx).next).mem idx).next
            ((xp₁.setNext (xp₁.mem idx).prev (xp₁.mem idx).next).mem idx).prev).setPrev idx
              NoIndex).setNext idx xp₁.free with free := idx } := by
    refine ⟨hsize, rfl, hlist, fun j => ?_, fun j => ?_, fun j => ?_⟩
    · simp only [Xpool.next, setNext_next, setPrev_next, hmem, hfree]
      rfl
    · simp only [Xpool.prev, Xpool.next, setNext_prev, setPrev_prev, setNext_next, hmem, ite_self]
      rfl
    · simp only [setNext_data, setPrev_data, hmem]
  unfold Xpool.remove
  rw [if_pos hvalid]
  by_cases hcur : idx = xp.list
  · refine ⟨_, ?_, hrest { xp with list := if idx = xp.next idx then NoIndex else xp.next idx }
      rfl rfl rfl (if_pos hcur).symm⟩
    rw [if_pos hcur]
    rfl
  · refine ⟨_, ?_, hrest xp rfl rfl rfl (if_neg hcur).symm⟩
    rw [if_neg hcur]
    rfl

theorem Repr.unlink {l₁ l₂ : Pairs} (hr : Repr xp (l₁ ++ (idx, data) :: l₂) free)
    (hu : Unlinked xp idx xp') : Repr xp' (l₁ ++ l₂) (idx :: free) := by
  have hrot : Pairs.handles (l₁ ++ (idx, data) :: l₂) ~r idx :: Pairs.handles (l₂ ++ l₁) := by
    rw [Pairs.handles, Pairs.handles, List.map_append, List.map_append]
    exact List.isRotated_append
  have hback : Pairs.handles (l₂ ++ l₁) ~r Pairs.handles (l₁ ++ l₂) := by
    rw [Pairs.handles, Pairs.handles, List.map_append, List.map_append]
    exact List.isRotated_append
  have hring := hr.ring.rotated hrot
  have hout := (List.nodup_cons.mp hring.nodup).1
  have hmem (j : xpool_index) :
      j ∈ Pairs.handles (l₁ ++ (idx, data) :: l₂) ↔ j = idx ∨ j ∈ Pairs.handles (l₁ ++ l₂) := by
    rw [hrot.mem_iff, List.mem_cons, hback.mem_iff]
  have hidx : idx ∈ Pairs.handles (l₁ ++ (idx, data) :: l₂) := (hmem idx).mpr (Or.inl rfl)
  have hnext := hr.ring.mem hidx
  have hapart {j : xpool_index} (hj : j ∈ free) :
      j ≠ idx ∧ j ≠ xp.next idx ∧ j ≠ xp.prev idx := by
    refine ⟨?_, ?_, ?_⟩ <;> rintro rfl
    · exact hr.apart _ hj hidx
    · exact hr.apart _ hj hnext.1
    · exact hr.apart _ hj hnext.2
  constructor
  · refine Ring.rotated ?_ hback
    cases hm : Pairs.handles (l₂ ++ l₁) with
    | nil => exact .nil
    | cons h m =>
      rw [hm] at hring hout
      have hne {j : xpool_index} (hj : j ∈ h :: m) : j ≠ idx := fun heq => hout (heq ▸ hj)
      have hprev : xp.prev idx ∈ h :: m := by
        rw [hring.prev_head]
        exact List.getLast_mem (List.cons_ne_nil h m)
      have hnext : xp.next idx ∈ h :: m := by
        rw [hring.next_head]
        exact List.mem_cons_self
      apply hring.remove
      · rw [hu.next, if_neg (hne hprev), if_pos rfl]
      · rw [hu.prev, if_neg (hne hnext), if_pos rfl]
      · intro y hy hy'
        rw [hu.next, if_neg (hne hy), if_neg hy']
      · intro y hy hy'
        rw [hu.prev, if_neg (hne hy), if_neg hy']
  · rw [hu.list]
    cases l₁ with
    | nil =>
      rw [List.nil_append] at hr
      have hcur : xp.list = idx := hr.cursor
      rw [if_pos hcur.symm, List.nil_append]
      cases l₂ with
      | nil => exact if_pos hr.ring.next_single.symm
      | cons q l₂ =>
        have hq : xp.next idx = q.1 := hr.ring.next_head
        rw [if_neg, hq]
        · rfl
        · rw [hq]
          rintro rfl
          exact hout (List.mem_map_of_mem (List.mem_append_left _ List.mem_cons_self))
    | cons q l₁ =>
      have hcur : xp.list = q.1 := hr.cursor
      rw [if_neg, hcur]
      · rfl
      · rw [hcur]
        rintro rfl
        exact hout (List.mem_map_of_mem (List.mem_append_right _ List.mem_cons_self))
  · intro p hp
    rw [hu.data]
    apply hr.data p
    rw [List.mem_append] at hp ⊢
    exact hp.imp_right (List.mem_cons_of_mem _)
  · rw [hu.free]
    refine ⟨rfl, hr.low hidx, ?_⟩
    rw [hu.next, if_pos rfl]
    apply hr.threaded.congr
    intro j hj
    rw [hu.next, if_neg (hapart hj).1, if_neg (hapart hj).2.2]
  · intro j hj
    rw [hu.prev]
    rcases List.mem_cons.mp hj with rfl | hj
    · exact if_pos rfl
    · rw [if_neg (hapart hj).1, if_neg (hapart hj).2.1]
      exact hr.dead j hj
  · exact List.nodup_cons.mpr ⟨fun hj => (hapart hj).1 rfl, hr.nodup⟩
  · intro j hj hmem'
    rcases List.mem_cons.mp hj with rfl | hj
    · exact hout (hback.mem_iff.mpr hmem')
    · exact hr.apart j hj ((hmem j).mpr (Or.inr hmem'))
  · intro j
    rw [hu.size, ← hr.mem_iff, hmem, List.mem_cons]
    tauto
  · have hlength := hr.length
    rw [hu.size, ← hlength, List.length_append, List.length_append, List.length_cons,
      List.length_cons]
    omega

theorem Repr.remove (hr : Repr xp l free) {ret : xpool_index} {data : Option xpool_data}
    (hrun : xp.remove idx = (ret, data, xp')) :
    ∃ l' free', Cyclic xp.size.toNat l (.remove idx ret data) l' ∧ Repr xp' l' free' ∧
      xp'.size = xp.size := by
  by_cases hvalid : xp.validateIdx idx = true
  · obtain ⟨xp₁, hr₁, hu⟩ := remove_unlinked hvalid
    rw [hrun] at hr₁
    cases hr₁
    obtain ⟨⟨j, old⟩, hp, rfl⟩ := List.mem_map.mp ((hr.validateIdx idx).mp hvalid)
    obtain ⟨l₁, l₂, rfl⟩ := List.append_of_mem hp
    rw [hr.data _ hp]
    exact ⟨l₁ ++ l₂, j :: free, .remove, hr.unlink hu, hu.size⟩
  · unfold Xpool.remove at hrun
    rw [if_neg hvalid] at hrun
    cases hrun
    exact ⟨l, free, .notRemoved fun hmem => hvalid ((hr.validateIdx idx).mpr hmem), hr, rfl⟩

/-- What an addition writes, at the end of the ring whose first node is `xp.list`. -/
structure Appended (xp : Xpool) (data : xpool_data) (xp' : Xpool) : Prop where
  size : xp'.size = xp.size
  free : xp'.free = xp.next xp.free
  list : xp'.list = xp.list
  next : ∀ j, xp'.next j =
    if j = xp.prev xp.list then xp.free else if j = xp.free then xp.list else xp.next j
  prev : ∀ j, xp'.prev j =
    if j = xp.list then xp.free else if j = xp.free then xp.prev xp.list else xp.prev j
  data : ∀ j, (xp'.mem j).data = if j = xp.free then data else (xp.mem j).data

theorem add_appended (data : xpool_data) (hfree : xp.free ≠ NoIndex) (hlist : xp.list ≠ NoIndex) :
    ∃ xp', xp.add data = (xp.free, xp') ∧ Appended xp data xp' := by
  unfold Xpool.add
  rw [if_neg hfree]
  refine ⟨_, if_pos hlist, rfl, rfl, rfl, fun j => ?_, fun j => ?_, fun j => ?_⟩
  · simp only [Xpool.next, Xpool.prev, setNext_next, setPrev_next, setPrev_prev, setNext_prev,
      setData_prev, setData_next, ite_self]
    rfl
  · simp only [Xpool.prev, setPrev_prev, setNext_prev, setData_prev]
    rfl
  · simp only [setPrev_data, setNext_data, setData_data]

theorem Repr.append {p : xpool_index × xpool_data} {free' : List xpool_index}
    (hr : Repr xp (p :: l) (idx :: free')) (ha : Appended xp data xp') :
    Repr xp' (p :: l ++ [(idx, data)]) free' := by
  obtain ⟨hfirst, hidx, hthread⟩ := hr.threaded
  have hlist : xp.list = p.1 := hr.cursor
  have hout := hr.apart idx List.mem_cons_self
  have hprev := (hr.ring.mem (x := p.1) List.mem_cons_self).2
  have hne {j : xpool_index} (hj : j ∈ Pairs.handles (p :: l)) : j ≠ idx := fun heq => hout (heq ▸ hj)
  have hfree {j : xpool_index} (hj : j ∈ free') : j ≠ idx ∧ j ≠ p.1 ∧ j ≠ xp.prev p.1 := by
    refine ⟨?_, ?_, ?_⟩ <;> rintro rfl
    · exact (List.nodup_cons.mp hr.nodup).1 hj
    · exact hr.apart _ (List.mem_cons_of_mem _ hj) List.mem_cons_self
    · exact hr.apart _ (List.mem_cons_of_mem _ hj) hprev
  have hmem (j : xpool_index) : j ∈ Pairs.handles (p :: l ++ [(idx, data)]) ↔
      j ∈ Pairs.handles (p :: l) ∨ j = idx := by
    rw [Pairs.handles, List.map_append, List.mem_append]
    exact or_congr Iff.rfl List.mem_singleton
  have hnext (j : xpool_index) : xp'.next j =
      if j = xp.prev p.1 then idx else if j = idx then p.1 else xp.next j := by
    rw [ha.next, hlist, hfirst]
  have hprev' (j : xpool_index) : xp'.prev j =
      if j = p.1 then idx else if j = idx then xp.prev p.1 else xp.prev j := by
    rw [ha.prev, hlist, hfirst]
  constructor
  · rw [Pairs.handles, List.map_append]
    apply hr.ring.insert hout
    · rw [hnext, if_neg (hne hprev).symm, if_pos rfl]
    · rw [hprev', if_neg (hne List.mem_cons_self).symm, if_pos rfl]
    · rw [hnext, if_pos rfl]
    · rw [hprev', if_pos rfl]
    · intro y hy hy'
      rw [hnext, if_neg hy', if_neg (hne hy)]
    · intro y hy hy'
      rw [hprev', if_neg hy', if_neg (hne hy)]
  · exact ha.list.trans hlist
  · intro q hq
    rw [ha.data, hfirst]
    rcases List.mem_append.mp hq with hq | hq
    · rw [if_neg (hne (List.mem_map_of_mem hq))]
      exact hr.data q hq
    · rw [List.mem_singleton.mp hq]
      exact if_pos rfl
  · rw [ha.free, hfirst]
    apply hthread.congr
    intro j hj
    rw [hnext, if_neg (hfree hj).2.2, if_neg (hfree hj).1]
  · intro j hj
    rw [hprev', if_neg (hfree hj).2.1, if_neg (hfree hj).1]
    exact hr.dead j (List.mem_cons_of_mem _ hj)
  · exact (List.nodup_cons.mp hr.nodup).2
  · intro j hj hmem'
    rcases (hmem j).mp hmem' with hmem' | heq
    · exact hr.apart j (List.mem_cons_of_mem _ hj) hmem'
    · exact (hfree hj).1 heq
  · intro j
    rw [ha.size, ← hr.mem_iff, hmem, List.mem_cons, or_assoc]
  · have hlength := hr.length
    rw [ha.size, ← hlength, List.length_append, List.length_cons (a := idx)]
    rw [List.length_singleton]
    omega

structure Started (xp : Xpool) (data : xpool_data) (xp' : Xpool) : Prop where
  size : xp'.size = xp.size
  free : xp'.free = xp.next xp.free
  list : xp'.list = xp.free
  next : ∀ j, xp'.next j = if j = xp.free then xp.free else xp.next j
  prev : ∀ j, xp'.prev j = if j = xp.free then xp.free else xp.prev j
  data : ∀ j, (xp'.mem j).data = if j = xp.free then data else (xp.mem j).data

theorem add_started (data : xpool_data) (hfree : xp.free ≠ NoIndex) (hlist : xp.list = NoIndex) :
    ∃ xp', xp.add data = (xp.free, xp') ∧ Started xp data xp' := by
  unfold Xpool.add
  rw [if_neg hfree]
  refine ⟨_, if_neg (not_not.mpr hlist), rfl, rfl, rfl, fun j => ?_, fun j => ?_, fun j => ?_⟩
  · simp only [Xpool.next, setNext_next, setPrev_next, setData_next]
  · simp only [Xpool.prev, setPrev_prev, setNext_prev, setData_prev]
  · simp only [setPrev_data, setNext_data, setData_data]

theorem Repr.start {free' : List xpool_index} (hr : Repr xp [] (idx :: free'))
    (ha : Started xp data xp') : Repr xp' [(idx, data)] free' := by
  obtain ⟨hfirst, hidx, hthread⟩ := hr.threaded
  have hne {j : xpool_index} (hj : j ∈ free') : j ≠ idx := by
    rintro rfl
    exact (List.nodup_cons.mp hr.nodup).1 hj
  constructor
  · apply Ring.single
    · rw [ha.next, hfirst, if_pos rfl]
    · rw [ha.prev, hfirst, if_pos rfl]
  · exact ha.list.trans hfirst
  · intro q hq
    rw [List.mem_singleton.mp hq, ha.data, hfirst]
    exact if_pos rfl
  · rw [ha.free, hfirst]
    apply hthread.congr
    intro j hj
    rw [ha.next, hfirst, if_neg (hne hj)]
  · intro j hj
    rw [ha.prev, hfirst, if_neg (hne hj)]
    exact hr.dead j (List.mem_cons_of_mem _ hj)
  · exact (List.nodup_cons.mp hr.nodup).2
  · intro j hj hmem
    exact hne hj (List.mem_singleton.mp hmem)
  · intro j
    rw [ha.size, ← hr.mem_iff, List.mem_cons]
    refine ⟨?_, ?_⟩
    · rintro (hj | hj)
      · exact Or.inr (Or.inl (List.mem_singleton.mp hj))
      · exact Or.inr (Or.inr hj)
    · rintro (hj | hj | hj)
      · cases hj
      · exact Or.inl (List.mem_singleton.mpr hj)
      · exact Or.inr hj
  · have hlength := hr.length
    rw [ha.size, ← hlength, List.length_cons (a := idx)]
    rw [List.length_singleton, List.length_nil]
    omega

theorem Repr.add (hr : Repr xp l free) {ret : xpool_index} (hrun : xp.add data = (ret, xp')) :
    ∃ l' free', Cyclic xp.size.toNat l (.add data ret) l' ∧ Repr xp' l' free' ∧
      xp'.size = xp.size := by
  by_cases hfull : xp.free = NoIndex
  · unfold Xpool.add at hrun
    rw [if_pos hfull] at hrun
    cases hrun
    exact ⟨l, free, .full (hr.free_eq_noIndex.mp hfull), hr, rfl⟩
  · obtain ⟨idx, free', rfl⟩ : ∃ idx free', free = idx :: free' := by
      cases free with
      | nil => exact absurd hr.threaded hfull
      | cons idx free' => exact ⟨idx, free', rfl⟩
    have hfirst := hr.threaded.1
    have hlength := hr.length
    rw [List.length_cons] at hlength
    have hcyclic : Cyclic xp.size.toNat l (.add data idx) (l ++ [(idx, data)]) :=
      .add (by omega) (hr.apart idx List.mem_cons_self) (hfirst ▸ hfull)
    cases l with
    | nil =>
      obtain ⟨xp₁, hr₁, ha⟩ := add_started data hfull hr.cursor
      rw [hrun, hfirst] at hr₁
      cases hr₁
      exact ⟨_, free', hcyclic, hr.start ha, ha.size⟩
    | cons p l =>
      have hlist : xp.list ≠ NoIndex := fun h => List.cons_ne_nil p l (hr.list_eq_noIndex.mp h)
      obtain ⟨xp₁, hr₁, ha⟩ := add_appended data hfull hlist
      rw [hrun, hfirst] at hr₁
      cases hr₁
      exact ⟨_, free', hcyclic, hr.append ha, ha.size⟩

theorem clear_loop (xp : Xpool) {n : Nat} (hn : n < 2 ^ 64) :
    let xp' := (List.range' 1 n).foldl clearTurn xp
    xp'.list = xp.list ∧ xp'.size = xp.size ∧
      ∀ j : xpool_index, j.toNat < n → xp'.next j = j + 1 ∧ xp'.prev j = NoIndex := by
  induction n with
  | zero => exact ⟨rfl, rfl, fun j hj => absurd hj (Nat.not_lt_zero _)⟩
  | succ n ih =>
    obtain ⟨hlist, hsize, hnodes⟩ := ih (by omega)
    rw [List.range'_1_concat, List.foldl_append]
    refine ⟨hlist, hsize, fun j hj => ?_⟩
    have hi : (UInt64.ofNat (1 + n)).toNat = 1 + n :=
      UInt64.toNat_ofNat_of_lt' (show 1 + n < 2 ^ 64 by omega)
    have hpos : (1 : UInt64) ≤ UInt64.ofNat (1 + n) := UInt64.le_iff_toNat_le.mpr (by
      rw [hi]
      exact Nat.le_add_right 1 n)
    have hk : (UInt64.ofNat (1 + n) - 1).toNat = n := by
      rw [UInt64.toNat_sub_of_le _ _ hpos, hi]
      exact Nat.add_sub_cancel_left 1 n
    rw [List.foldl_cons, List.foldl_nil]
    simp only [Xpool.next, Xpool.prev, clearTurn, setNext_next, setNext_prev, setPrev_next,
      setPrev_prev]
    by_cases heq : j = UInt64.ofNat (1 + n) - 1
    · rw [if_pos heq, if_pos heq, heq]
      exact ⟨(UInt64.sub_add_cancel _ _).symm, rfl⟩
    · rw [if_neg heq, if_neg heq]
      apply hnodes j
      have hne : j.toNat ≠ n := fun h => heq (UInt64.toNat_inj.mp (h.trans hk.symm))
      omega

def indices (size : Nat) : List xpool_index := (List.range size).map UInt64.ofNat

theorem threaded_range {size : UInt64} (next : xpool_index → xpool_index)
    (hnext : ∀ j : xpool_index, j.toNat + 1 < size.toNat → next j = j + 1)
    (hlast : ∀ j : xpool_index, j.toNat + 1 = size.toNat → next j = NoIndex) {n k : Nat}
    (hk : k + n = size.toNat) :
    Threaded next NoIndex (if n = 0 then NoIndex else UInt64.ofNat k)
      ((List.range' k n).map UInt64.ofNat) := by
  have hsize := size.toNat_lt
  induction n generalizing k with
  | zero => exact rfl
  | succ n ih =>
    have hkn : (UInt64.ofNat k).toNat = k :=
      UInt64.toNat_ofNat_of_lt' (show k < 2 ^ 64 by omega)
    rw [List.range'_succ, List.map_cons]
    refine ⟨if_neg (Nat.succ_ne_zero n), ?_, ?_⟩
    · intro heq
      have hmax := congrArg UInt64.toNat heq
      rw [hkn] at hmax
      change k = 2 ^ 64 - 1 at hmax
      omega
    · have ih := ih (k := k + 1) (by omega)
      by_cases hn : n = 0
      · rw [if_pos hn] at ih
        rwa [hlast _ (by rw [hkn]; omega)]
      · rw [if_neg hn] at ih
        rw [hnext _ (by rw [hkn]; omega)]
        rwa [UInt64.ofNat_add] at ih

theorem mem_indices {size : Nat} (hsize : size ≤ 2 ^ 64) (idx : xpool_index) :
    idx ∈ indices size ↔ idx.toNat < size := by
  rw [indices, List.mem_map]
  constructor
  · rintro ⟨i, hi, rfl⟩
    have hi := List.mem_range.mp hi
    rwa [UInt64.toNat_ofNat_of_lt' (show i < 2 ^ 64 by omega)]
  · intro hlt
    exact ⟨idx.toNat, List.mem_range.mpr hlt, UInt64.ofNat_toNat⟩

theorem nodup_indices {size : Nat} (hsize : size ≤ 2 ^ 64) : (indices size).Nodup := by
  apply List.Nodup.map_on _ List.nodup_range
  intro i hi j hj heq
  have hi := List.mem_range.mp hi
  have hj := List.mem_range.mp hj
  have heq := congrArg UInt64.toNat heq
  rwa [UInt64.toNat_ofNat_of_lt' (show i < 2 ^ 64 by omega),
    UInt64.toNat_ofNat_of_lt' (show j < 2 ^ 64 by omega)] at heq

theorem Repr.clear (xp : Xpool) (hsize : 0 < xp.size) :
    Repr xp.clear [] (indices xp.size.toNat) ∧ xp.clear.size = xp.size := by
  have hlt := xp.size.toNat_lt
  have hpos : 0 < xp.size.toNat := UInt64.lt_iff_toNat_lt.mp hsize
  obtain ⟨hlist, hsame, hnodes⟩ := clear_loop { xp with list := NoIndex }
    (show xp.size.toNat - 1 < 2 ^ 64 by omega)
  have hlast : (xp.size - 1).toNat = xp.size.toNat - 1 :=
    UInt64.toNat_sub_of_le _ _ (UInt64.le_iff_toNat_le.mpr hpos)
  have hnodes' (j : xpool_index) (hj : j.toNat < xp.size.toNat) :
      xp.clear.prev j = NoIndex ∧ (j.toNat + 1 < xp.size.toNat → xp.clear.next j = j + 1) ∧
        (j.toNat + 1 = xp.size.toNat → xp.clear.next j = NoIndex) := by
    simp only [Xpool.next, Xpool.prev, Xpool.clear, hsame, setNext_next, setNext_prev,
      setPrev_next, setPrev_prev]
    by_cases heq : j = xp.size - 1
    · rw [if_pos heq, if_pos heq, heq]
      exact ⟨rfl, fun h => by omega, fun _ => rfl⟩
    · have hne : j.toNat ≠ xp.size.toNat - 1 := fun h =>
        heq (UInt64.toNat_inj.mp (h.trans hlast.symm))
      obtain ⟨hnext, hprev⟩ := hnodes j (by omega)
      rw [if_neg heq, if_neg heq]
      exact ⟨hprev, fun _ => hnext, fun h => by omega⟩
  have hmem := mem_indices (Nat.le_of_lt hlt)
  refine ⟨⟨.nil, ?_, fun p hp => ?_, ?_, fun j hj => ?_, nodup_indices (Nat.le_of_lt hlt),
    fun j _ hj => ?_, fun j => ?_, ?_⟩, hsame⟩
  · exact hlist
  · cases hp
  · have hthread := threaded_range xp.clear.next (n := xp.size.toNat) (k := 0)
      (fun j hj => (hnodes' j (by omega)).2.1 hj) (fun j hj => (hnodes' j (by omega)).2.2 hj)
      (Nat.zero_add _)
    rw [if_neg (Nat.ne_of_gt hpos)] at hthread
    rwa [indices, List.range_eq_range']
  · exact (hnodes' j ((hmem j).mp hj)).1
  · cases hj
  · have hsame : xp.clear.size = xp.size := hsame
    rw [hmem, hsame, UInt64.lt_iff_toNat_lt]
    exact ⟨fun h => h.resolve_left List.not_mem_nil, Or.inr⟩
  · have hsame : xp.clear.size = xp.size := hsame
    rw [hsame, indices, List.length_map, List.length_range]
    exact Nat.zero_add _

theorem Repr.step (hr : Repr xp l free) {event : Event} (hsize : 0 < xp.size)
    (hstep : Step xp event xp') :
    ∃ l' free', Cyclic xp.size.toNat l event l' ∧ Repr xp' l' free' ∧ xp'.size = xp.size := by
  cases hstep with
  | add hrun => exact hr.add hrun
  | remove hrun => exact hr.remove hrun
  | peek hrun => exact ⟨l, free, hr.peek hrun, hr, rfl⟩
  | peekIdx hrun => exact ⟨l, free, hr.peekIdx hrun, hr, rfl⟩
  | peekAndFwd hrun =>
    obtain ⟨l', hc, hr', hsame⟩ := hr.peekAndFwd hrun
    exact ⟨l', free, hc, hr', hsame⟩
  | setIdx hrun =>
    obtain ⟨l', hc, hr', hsame⟩ := hr.setIdx hrun
    exact ⟨l', free, hc, hr', hsame⟩
  | clear =>
    obtain ⟨hr', hsame⟩ := Repr.clear xp hsize
    exact ⟨[], _, .clear, hr', hsame⟩

/-- What `n` calls of `xpool_peek_and_fwd` in a row return. -/
def peeks (xp : Xpool) : Nat → List (xpool_index × Option xpool_data)
  | 0 => []
  | n + 1 => (xp.peekAndFwd.1, xp.peekAndFwd.2.1) :: xp.peekAndFwd.2.2.peeks n

theorem Cyclic.forwarded {size : Nat} {m l' : Pairs} {p : xpool_index × xpool_data}
    {ret : xpool_index} {data : Option xpool_data} (hc : Cyclic size m (.peekAndFwd ret data) l')
    (hm : m = p :: l) : ret = p.1 ∧ data = some p.2 ∧ l' = l ++ [p] := by
  cases hc with
  | peekAndFwd =>
    cases hm
    exact ⟨rfl, rfl, rfl⟩
  | notForwarded => cases hm

theorem Repr.peeks {l₁ l₂ : Pairs} (hr : Repr xp (l₁ ++ l₂) free) :
    xp.peeks l₁.length = l₁.map fun p => (p.1, some p.2) := by
  induction l₁ generalizing xp l₂ with
  | nil => rfl
  | cons p l₁ ih =>
    obtain ⟨idx, data⟩ := p
    rcases hrun : xp.peekAndFwd with ⟨ret, out, xp'⟩
    obtain ⟨l', hc, hr', -⟩ := hr.peekAndFwd hrun
    rw [List.length_cons, Xpool.peeks, List.map_cons, hrun]
    obtain ⟨rfl, rfl, rfl⟩ := hc.forwarded (List.cons_append ..)
    rw [List.append_assoc] at hr'
    exact congrArg _ (ih hr')

/-- Every sequence of calls is one of the cyclic sequence. -/
theorem run_cyclic {size : UInt64} {mem : xpool_index → XpoolNode} {as : List Event} {xp : Xpool}
    (hsize : 1 ≤ size) (hrun : Run Step (init size mem) as xp) :
    ∃ l : Pairs, Run (Cyclic size.toNat) [] as l ∧ l.handles.Nodup ∧
      xp.peeks l.length = l.map fun p => (p.1, some p.2) := by
  have hpos : 0 < size := UInt64.lt_iff_toNat_lt.mpr (UInt64.le_iff_toNat_le.mp hsize)
  obtain ⟨hinit, hinit'⟩ := Repr.clear { list := NoIndex, free := NoIndex, size := size, mem := mem }
    hpos
  have hsim := hrun.simulate (T := Cyclic size.toNat)
    (R := fun xp l => xp.size = size ∧ ∃ free, Repr xp l free) ?_ ⟨hinit', _, hinit⟩
  · obtain ⟨l, hcyclic, -, free, hr⟩ := hsim
    rw [← List.append_nil l] at hr
    exact ⟨l, hcyclic, (List.append_nil l ▸ hr.ring.nodup), hr.peeks⟩
  · rintro xp event xp' l ⟨hsame, free, hr⟩ hstep
    rw [← hsame] at hpos ⊢
    obtain ⟨l', free', hc, hr', hsame'⟩ := hr.step hpos hstep
    exact ⟨l', hc, hsame', free', hr'⟩

/-- A ring of two, in which the cursor is taken out. -/
theorem run_cyclic_remove : ∃ (as : List Event) (xp : Xpool),
    (1 ≤ (2 : UInt64) ∧ Run Step (init 2 fun _ => ⟨0, 0, 0⟩) as xp ∧ as.length = 4) ∧
      ∃ l : Pairs, Run (Cyclic (2 : UInt64).toNat) [] as l ∧ l.handles.Nodup ∧
        xp.peeks l.length = l.map fun p => (p.1, some p.2) := by
  have hrun : Run Step (init 2 fun _ => ⟨0, 0, 0⟩)
      [.add 5 0, .add 6 1, .remove 0 0 (some 5), .peek 1 (some 6)] _ :=
    .cons (.add rfl) (.cons (.add rfl) (.cons (.remove rfl) (.cons (.peek rfl) (.refl _))))
  exact ⟨_, _, ⟨by decide, hrun, rfl⟩, run_cyclic (by decide) hrun⟩

end Xpool

end Libxseg
