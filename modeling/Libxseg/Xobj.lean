import Mathlib.Data.List.Nodup
import Libxseg.Xq

/-!
# xobj: the object handler of xtypes/xobj.c

A handler cuts heap chunks into objects of one size. The free objects are linked
through their `next` fields; here the chain is the list `list`. What the heap
answers to a request for a chunk is an argument: nothing, or the start and the
size of the chunk. Locks are left out, as every function runs under `obj_h->lock`.
-/

namespace Libxseg

set_option autoImplicit false

abbrev xptr := UInt64

def X_ALLOC : UInt32 := (1 : UInt32) <<< 0
def X_LOCAL : UInt32 := (1 : UInt32) <<< 1
def X_NONBLOCK : UInt32 := (1 : UInt32) <<< 2

structure XobjectH where
  objSize : UInt64
  /-- The chunks recorded in the `allocated` table, with their sizes. -/
  allocated : List (xptr × UInt64)
  nrAllocated : UInt64
  allocatedSpace : UInt64
  list : List xptr
  nrFree : UInt64

/-- The loop of `xobj_alloc_obj` that cuts a chunk at `mem`; `used` bytes are already cut. -/
def carve (objSize bytes : Nat) (mem : xptr) (used : Nat) : List xptr :=
  if 0 < objSize ∧ used + objSize < bytes then
    (mem + UInt64.ofNat used) :: carve objSize bytes mem (used + objSize)
  else []
termination_by bytes - used

namespace XobjectH

def chunkObjects (h : XobjectH) (chunk : xptr × UInt64) : List xptr :=
  carve h.objSize.toNat chunk.2.toNat chunk.1 0

def objects (h : XobjectH) : List xptr := h.allocated.flatMap h.chunkObjects

/-- `xobj_alloc_obj`; `none` is the result `-1`. The chunk is a request for 64 objects, and a
chunk that cannot be recorded in `allocated` is given back, which is the answer `none` too. -/
def allocObj (h : XobjectH) (mem : Option (xptr × UInt64)) : Option XobjectH :=
  match mem with
  | none => none
  | some (mem, bytes) =>
    match h.chunkObjects (mem, bytes) with
    | [] => none
    | obj :: objs => some
      { h with
        allocated := (mem, bytes) :: h.allocated
        allocatedSpace := h.allocatedSpace + bytes
        nrFree := h.nrFree + bytes / h.objSize
        nrAllocated := h.nrAllocated + bytes / h.objSize
        list := (obj :: objs) ++ h.list }

def putObj (h : XobjectH) (ptr : xptr) : XobjectH :=
  { h with list := ptr :: h.list, nrFree := h.nrFree + 1 }

/-- The part of `xobj_get_obj` that unlinks the first object of the list. -/
def popObj (h : XobjectH) : Option xptr × XobjectH :=
  match h.list with
  | [] => (none, h)
  | obj :: list => (some obj, { h with list := list, nrFree := h.nrFree - 1 })

def getObj (h : XobjectH) (flags : UInt32) (mem : Option (xptr × UInt64)) :
    Option xptr × XobjectH :=
  match h.list with
  | _ :: _ => h.popObj
  | [] =>
    if flags &&& X_ALLOC = 0 then (none, h)
    else
      match h.allocObj mem with
      | none => (none, h)
      | some h => h.popObj

def Apart (c d : xptr × UInt64) : Prop :=
  c.1.toNat + c.2.toNat ≤ d.1.toNat ∨ d.1.toNat + d.2.toNat ≤ c.1.toNat

/-- What the heap promises of a chunk it hands out: it lies in the address space, apart from
the chunks the handler still has. -/
def HeapChunk (h : XobjectH) (c : xptr × UInt64) : Prop :=
  c.1.toNat + c.2.toNat < 2 ^ 64 ∧ ∀ d ∈ h.allocated, Apart c d

structure Wf (h : XobjectH) : Prop where
  size : 0 < h.objSize.toNat
  bound : ∀ c ∈ h.allocated, c.1.toNat + c.2.toNat < 2 ^ 64
  apart : h.allocated.Pairwise Apart

end XobjectH

theorem mem_carve {objSize bytes : Nat} {mem x : xptr} {used : Nat}
    (hb : mem.toNat + bytes < 2 ^ 64) (hx : x ∈ carve objSize bytes mem used) :
    mem.toNat + used ≤ x.toNat ∧ x.toNat + objSize < mem.toNat + bytes := by
  induction used using carve.induct objSize bytes with
  | case1 used hlt ih =>
    rw [carve, if_pos hlt] at hx
    rcases List.mem_cons.mp hx with rfl | hx
    · have : (mem + UInt64.ofNat used).toNat = mem.toNat + used := by
        rw [UInt64.toNat_add, UInt64.toNat_ofNat_of_lt' (show used < 2 ^ 64 by omega)]
        exact Nat.mod_eq_of_lt (by omega)
      omega
    · have := ih hx
      omega
  | case2 used hlt =>
    rw [carve, if_neg hlt] at hx
    exact absurd hx List.not_mem_nil

theorem nodup_carve {objSize bytes : Nat} {mem : xptr} (hb : mem.toNat + bytes < 2 ^ 64)
    (used : Nat) : (carve objSize bytes mem used).Nodup := by
  induction used using carve.induct objSize bytes with
  | case1 used hlt ih =>
    rw [carve, if_pos hlt, List.nodup_cons]
    refine ⟨fun hmem => ?_, ih⟩
    have hfirst : mem + UInt64.ofNat used ∈ carve objSize bytes mem used := by
      rw [carve, if_pos hlt]
      exact List.mem_cons_self
    have h1 := mem_carve hb hmem
    have : (mem + UInt64.ofNat used).toNat = mem.toNat + used := by
      rw [UInt64.toNat_add, UInt64.toNat_ofNat_of_lt' (show used < 2 ^ 64 by omega)]
      exact Nat.mod_eq_of_lt (by omega)
    omega
  | case2 used hlt =>
    rw [carve, if_neg hlt]
    exact List.nodup_nil

namespace XobjectH
variable {h h' : XobjectH} {c d : xptr × UInt64} {x : xptr}

theorem ne_noneidx (hc : c.1.toNat + c.2.toNat < 2 ^ 64) (hx : x ∈ h.chunkObjects c) :
    x ≠ Noneidx := by
  rintro rfl
  have := mem_carve hc hx
  have hn : (Noneidx : xptr).toNat = 2 ^ 64 - 1 := by decide
  omega

theorem not_mem_of_apart (hc : c.1.toNat + c.2.toNat < 2 ^ 64)
    (hd : d.1.toNat + d.2.toNat < 2 ^ 64) (hcd : Apart c d) (hx : x ∈ h.chunkObjects c) :
    x ∉ h.chunkObjects d := by
  intro hx'
  have h1 := mem_carve hc hx
  have h2 := mem_carve hd hx'
  unfold Apart at hcd
  omega

theorem Wf.nodup (hw : h.Wf) : h.objects.Nodup := by
  rw [objects, List.nodup_flatMap]
  refine ⟨fun c hc => nodup_carve (hw.bound c hc) 0, ?_⟩
  refine List.Pairwise.imp_of_mem ?_ hw.apart
  intro c d hc hd hcd x hx hx'
  exact not_mem_of_apart (hw.bound c hc) (hw.bound d hd) hcd hx hx'

theorem Wf.ne_noneidx (hw : h.Wf) (hx : x ∈ h.objects) : x ≠ Noneidx := by
  obtain ⟨c, hc, hx⟩ := List.mem_flatMap.mp hx
  exact XobjectH.ne_noneidx (hw.bound c hc) hx

theorem HeapChunk.fresh (hc : h.HeapChunk c) (hw : h.Wf) (hx : x ∈ h.chunkObjects c) :
    x ∉ h.objects := by
  intro hx'
  obtain ⟨d, hd, hx'⟩ := List.mem_flatMap.mp hx'
  exact not_mem_of_apart hc.1 (hw.bound d hd) (hc.2 d hd) hx hx'

theorem allocObj_inv {mem : Option (xptr × UInt64)} (halloc : h.allocObj mem = some h') :
    ∃ c x l, mem = some c ∧ h.chunkObjects c = x :: l ∧ h'.objSize = h.objSize ∧
      h'.allocated = c :: h.allocated ∧ h'.list = x :: l ++ h.list ∧
      h'.objects = x :: l ++ h.objects := by
  cases mem with
  | none => cases halloc
  | some c =>
    simp only [allocObj] at halloc
    cases hobjs : h.chunkObjects (c.1, c.2) with
    | nil =>
      rw [hobjs] at halloc
      cases halloc
    | cons x l =>
      rw [hobjs] at halloc
      obtain rfl := Option.some.inj halloc
      exact ⟨c, x, l, rfl, hobjs, rfl, rfl, rfl,
        List.flatMap_cons.trans (congrArg (· ++ h.objects) hobjs)⟩

theorem allocObj_spec {mem : Option (xptr × UInt64)} (hw : h.Wf)
    (hmem : ∀ c, mem = some c → h.HeapChunk c) (halloc : h.allocObj mem = some h') :
    h'.Wf ∧ ∃ x l, (x :: l).Nodup ∧ (∀ y ∈ x :: l, y ∉ h.objects) ∧
      h'.list = x :: l ++ h.list ∧ h'.objects = x :: l ++ h.objects := by
  obtain ⟨c, x, l, hc, hobjs, hsize, hallocated, hlist, hobjects⟩ := allocObj_inv halloc
  have hc := hmem c hc
  refine ⟨⟨hsize ▸ hw.size, ?_, ?_⟩, x, l, ?_, ?_, hlist, hobjects⟩
  · rw [hallocated]
    intro d hd
    rcases List.mem_cons.mp hd with rfl | hd
    · exact hc.1
    · exact hw.bound d hd
  · rw [hallocated]
    exact List.pairwise_cons.mpr ⟨hc.2, hw.apart⟩
  · exact hobjs ▸ nodup_carve hc.1 0
  · intro y hy
    exact hc.fresh hw (hobjs ▸ hy)

theorem popObj_cons {list : List xptr} (hl : h.list = x :: list) :
    h.popObj = (some x, { h with list := list, nrFree := h.nrFree - 1 }) := by
  simp [popObj, hl]

/-- What `xobj_get_obj` can do: nothing, or hand out an object of the list, which a new chunk
may have extended before. -/
theorem getObj_spec (flags : UInt32) {mem : Option (xptr × UInt64)} (hw : h.Wf)
    (hmem : ∀ c, mem = some c → h.HeapChunk c) :
    h.getObj flags mem = (none, h) ∨
    ∃ x fresh list h', h.getObj flags mem = (some x, h') ∧ h'.Wf ∧ h'.list = list ∧
      x :: list = fresh ++ h.list ∧ h'.objects = fresh ++ h.objects ∧ fresh.Nodup ∧
      ∀ y ∈ fresh, y ∉ h.objects := by
  unfold getObj
  cases hl : h.list with
  | cons x list =>
    right
    refine ⟨x, [], list, _, popObj_cons hl, ?_, rfl, rfl, rfl, List.nodup_nil, ?_⟩
    · exact ⟨hw.size, hw.bound, hw.apart⟩
    · simp
  | nil =>
    dsimp only
    by_cases hflag : flags &&& X_ALLOC = 0
    · left
      exact if_pos hflag
    rw [if_neg hflag]
    cases halloc : h.allocObj mem with
    | none => exact .inl rfl
    | some h' =>
      right
      obtain ⟨hw', x, l, hnd, hfresh, hlist, hobjs⟩ := allocObj_spec hw hmem halloc
      refine ⟨x, x :: l, l ++ h.list, _, popObj_cons hlist, ?_, rfl, by simp [hl], hobjs, hnd,
        hfresh⟩
      exact ⟨hw'.size, hw'.bound, hw'.apart⟩

end XobjectH

end Libxseg
