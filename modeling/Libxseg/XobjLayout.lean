import Mathlib.Data.List.Pairwise
import Libxseg.XobjMemory

/-!
# The chunks and the free list of xobj in memory

A handler has its chunks apart from one another (`Layout`), each of them in its table
(`Recorded`), and cut into the objects that are linked and those that are outstanding
(`Divided`). What `xobj_get_obj` and `xobj_put_obj` do to the bytes, the table and the chunks
keeps all three, and so does whatever is written inside outstanding objects (`Divided.frame`).
-/

namespace Libxseg

set_option autoImplicit false

theorem xptrMake_eq {ptrval base : Nat} (hbase : base ≤ ptrval) (hlt : ptrval < 2 ^ 64) :
    xptrMake ptrval base = ptrval - base := by
  unfold xptrMake sub64
  omega

theorem xptrTake_eq {xptrval base : Nat} (hlt : base + xptrval < 2 ^ 64) :
    xptrTake xptrval base = base + xptrval := Nat.mod_eq_of_lt hlt

namespace LiveChunk

/-- The bytes of the chunk with its header. -/
def Covers (c : LiveChunk) (a : Nat) : Prop := c.ptr - sizeofHeader ≤ a ∧ a < c.ptr + c.size

def Apart (c d : LiveChunk) : Prop :=
  c.ptr + c.size + sizeofHeader ≤ d.ptr ∨ d.ptr + d.size + sizeofHeader ≤ c.ptr

/-- The chunk with its header lies in the container, behind its start. -/
def Within (container : Nat) (c : LiveChunk) : Prop :=
  container + sizeofHeader < c.ptr ∧ c.ptr + c.size < 2 ^ 63

variable {c d : LiveChunk}

theorem Apart.symm (h : c.Apart d) : d.Apart c := Or.symm h

instance : Std.Symm Apart := ⟨fun _ _ h => h.symm⟩

theorem Apart.ptr_ne (h : c.Apart d) : c.ptr ≠ d.ptr := by
  unfold Apart sizeofHeader at h
  omega

end LiveChunk

/-- What the handler is promised of the heap. -/
structure HeapCalls.Lawful (heap : HeapCalls) (container : Nat) : Prop where
  within : ∀ m bytes c, (heap.allocate m bytes).1 = some c → c.Within container
  /-- A chunk that is asked for a table has room for it. -/
  room : ∀ m shift c, (heap.allocate m (Xhash.getAllocSize shift)).1 = some c →
    (Xhash.getAllocSize shift).toNat ≤ c.size
  header : ∀ m bytes c, (heap.allocate m bytes).1 = some c →
    Xheap.getChunkSize (heap.allocate m bytes).2 c.ptr = c.size
  apart : ∀ m bytes c, (heap.allocate m bytes).1 = some c → ∀ d ∈ m.live, c.Apart d
  allocate_keeps : ∀ m bytes a, (∃ d ∈ m.live, d.Covers a) → (heap.allocate m bytes).2 a = m.bytes a
  free_keeps : ∀ m ptr a, (∃ d ∈ m.live, d.ptr ≠ ptr ∧ d.Covers a) → heap.free m ptr a = m.bytes a

namespace ObjMemory
variable [Overwriting] {m : ObjMemory} {a n v obj : Nat}

def Clear (m : ObjMemory) (a n : Nat) : Prop :=
  m.allocated + m.table.bytes ≤ a ∨ a + n ≤ m.allocated

theorem store_eq (h : m.Clear a n) :
    m.store a n v = { m with bytes := m.bytes.storeBytes a n v } := by
  have hout : ¬ (m.allocated < a + n ∧ a < m.allocated + m.table.bytes) := by
    unfold Clear at h
    omega
  rw [store, if_neg hout]

theorem writeObject_eq (h : m.Clear obj 24) (magic : UInt32) (size : UInt64) (next : Nat) :
    ∃ bytes, m.writeObject obj magic size next = { m with bytes := bytes } ∧
      (∀ a, a < obj ∨ obj + 24 ≤ a → bytes a = m.bytes a) ∧
      (next < 2 ^ 64 → bytes.load64 (obj + 16) = next) := by
  have hmagic : m.Clear obj 4 := by
    unfold Clear at h ⊢
    omega
  have hsize : m.Clear (obj + 8) 8 := by
    unfold Clear at h ⊢
    omega
  have hnext : m.Clear (obj + 16) 8 := by
    unfold Clear at h ⊢
    omega
  refine ⟨((m.bytes.storeBytes obj 4 magic.toNat).storeBytes (obj + 8) 8 size.toNat).store64
    (obj + 16) next, ?_, fun a ha => ?_, Memory.load64_store64_same⟩
  · rw [writeObject, store_eq hmagic]
    rw [store_eq (m := { m with bytes := m.bytes.storeBytes obj 4 magic.toNat }) hsize]
    exact store_eq hnext
  · rw [Memory.store64_outside (by omega), Memory.storeBytes_outside (by omega),
      Memory.storeBytes_outside (by omega)]

end ObjMemory

/-- So many objects, one behind the other. -/
def objectsFrom (size : Nat) : Nat → Nat → List Nat
  | _, 0 => []
  | p, n + 1 => p :: objectsFrom size (p + size) n

theorem mem_objectsFrom {size p n x : Nat} :
    x ∈ objectsFrom size p n ↔ ∃ i < n, x = p + i * size := by
  induction n generalizing p with
  | zero => simp [objectsFrom]
  | succ n ih =>
    rw [objectsFrom, List.mem_cons, ih]
    constructor
    · rintro (rfl | ⟨i, hi, rfl⟩)
      · exact ⟨0, Nat.succ_pos n, by omega⟩
      · exact ⟨i + 1, by omega, by rw [Nat.succ_mul]; omega⟩
    · rintro ⟨i, hi, rfl⟩
      cases i with
      | zero => exact Or.inl (by omega)
      | succ i => exact Or.inr ⟨i, by omega, by rw [Nat.succ_mul]; omega⟩

/-- Two objects of this size have no byte in common. -/
def ObjectsApart (size x y : Nat) : Prop := x + size ≤ y ∨ y + size ≤ x

theorem ObjectsApart.symm {size x y : Nat} (h : ObjectsApart size x y) : ObjectsApart size y x :=
  Or.symm h

theorem objectsFrom_apart (size p n : Nat) :
    (objectsFrom size p n).Pairwise (ObjectsApart size) := by
  induction n generalizing p with
  | zero => exact List.Pairwise.nil
  | succ n ih =>
    refine List.pairwise_cons.mpr ⟨fun x hx => Or.inl ?_, ih (p + size)⟩
    obtain ⟨i, -, rfl⟩ := mem_objectsFrom.mp hx
    exact Nat.le_add_right _ _

/-- The objects of a chunk. The last one does not end where the chunk does. -/
def LiveChunk.objects (size : Nat) (c : LiveChunk) : List Nat :=
  objectsFrom size c.ptr ((c.size - 1) / size)

def LiveChunk.key (container : Nat) (c : LiveChunk) : xhashidx := .ofNat (xptrMake c.ptr container)

theorem LiveChunk.mem_objects {c : LiveChunk} {size x : Nat} (hx : x ∈ c.objects size) :
    c.ptr ≤ x ∧ x + size < c.ptr + c.size := by
  obtain ⟨i, hi, rfl⟩ := mem_objectsFrom.mp hx
  have hpos : 0 < c.size - 1 := by
    by_contra hzero
    rw [Nat.eq_zero_of_not_pos hzero, Nat.zero_div] at hi
    exact absurd hi (Nat.not_lt_zero i)
  have hle : (i + 1) * size ≤ c.size - 1 :=
    (Nat.mul_le_mul_right size hi).trans (Nat.div_mul_le_self _ _)
  rw [Nat.succ_mul] at hle
  omega

/-- Where the chunks of a handler are: `t` is that of its table. -/
structure Layout (container : Nat) (m : ObjMemory) (t : LiveChunk) (chunks : List LiveChunk) :
    Prop where
  live : ∀ d, d ∈ m.live ↔ d ∈ t :: chunks
  within : ∀ d ∈ t :: chunks, d.Within container
  apart : (t :: chunks).Pairwise LiveChunk.Apart
  allocated : m.allocated = t.ptr
  room : m.table.bytes ≤ t.size

structure Recorded (container : Nat) (table : Xhash xhashidx) (chunks : List LiveChunk) : Prop where
  dict : table.Dict integerFunctions
  holds : ∀ k v, table.Holds integerFunctions k v ↔ v = k ∧ k ∈ chunks.map (·.key container)

/-- The free objects are linked, and with the outstanding ones they are all that was cut. -/
structure Divided (h : XobjHandler) (out : List Nat) (chunks : List LiveChunk)
    (free : List Nat) : Prop where
  size : sizeofObject.toNat ≤ h.objSize.toNat
  header : ∀ c ∈ chunks, Xheap.getChunkSize h.memory.bytes c.ptr = c.size
  linked : h.memory.bytes.Linked (h.container + 16) h.list (free.map (· + 16))
  parts : (free ++ out).Perm (chunks.flatMap (·.objects h.objSize.toNat))

theorem objects_apart {chunks : List LiveChunk} (size : Nat)
    (hapart : chunks.Pairwise LiveChunk.Apart) :
    (chunks.flatMap (·.objects size)).Pairwise (ObjectsApart size) := by
  rw [List.pairwise_flatMap]
  refine ⟨fun c _ => objectsFrom_apart .., hapart.imp fun {c d} h x hx y hy => ?_⟩
  have hx := LiveChunk.mem_objects hx
  have hy := LiveChunk.mem_objects hy
  unfold LiveChunk.Apart at h
  unfold ObjectsApart
  omega

/-- The size of a chunk is read from its header. -/
theorem getChunkSize_congr {b b' : Memory} {ptr : Nat} (hptr : sizeofHeader ≤ ptr)
    (hsame : ∀ a, ptr - sizeofHeader ≤ a → a < ptr → b' a = b a) :
    Xheap.getChunkSize b' ptr = Xheap.getChunkSize b ptr := by
  unfold sizeofHeader at hptr hsame
  refine Memory.load64_congr fun a ha ha' => hsame a ?_ ?_
  · unfold sizeofHeader at ha
    omega
  · unfold sizeofHeader at ha'
    omega

section Inv
variable {h : XobjHandler} {out free : List Nat} {chunks : List LiveChunk} {t : LiveChunk}
  {m : ObjMemory} {x y a : Nat}

theorem Layout.chunks_within {container : Nat} (hl : Layout container m t chunks) :
    ∀ d ∈ chunks, d.Within container := fun d hd => hl.within d (List.mem_cons_of_mem t hd)

theorem Layout.chunks_apart {container : Nat} (hl : Layout container m t chunks) :
    chunks.Pairwise LiveChunk.Apart := (List.pairwise_cons.mp hl.apart).2

theorem Divided.apart (ht : Divided h out chunks free) (hl : Layout h.container m t chunks) :
    (free ++ out).Pairwise (ObjectsApart h.objSize.toNat) :=
  (ht.parts.pairwise_iff fun hxy => hxy.symm).mpr (objects_apart _ hl.chunks_apart)

theorem Divided.owned (ht : Divided h out chunks free) (hx : x ∈ free ++ out) :
    ∃ c ∈ chunks, c.ptr ≤ x ∧ x + h.objSize.toNat < c.ptr + c.size := by
  obtain ⟨c, hc, hx⟩ := List.mem_flatMap.mp (ht.parts.mem_iff.mp hx)
  exact ⟨c, hc, LiveChunk.mem_objects hx⟩

theorem Divided.size_le (ht : Divided h out chunks free) : 24 ≤ h.objSize.toNat := ht.size

/-- Only what is in the chunks and not in outstanding objects counts. -/
theorem Divided.frame (ht : Divided h out chunks free) (hl : Layout h.container h.memory t chunks)
    (hsame : ∀ a, (∃ c ∈ chunks, c.Covers a) →
      (∀ x ∈ out, ¬ (x ≤ a ∧ a < x + h.objSize.toNat)) → m.bytes a = h.memory.bytes a) :
    Divided { h with memory := m } out chunks free := by
  have hsize := ht.size_le
  refine ⟨ht.size, fun c hc => ?_, ht.linked.congr fun p hp => ?_, ht.parts⟩
  · rw [← ht.header c hc]
    have hin := hl.chunks_within c hc
    unfold LiveChunk.Within at hin
    refine getChunkSize_congr (by omega) fun a ha ha' => hsame a ⟨c, hc, ?_⟩ fun x hx hxa => ?_
    · unfold LiveChunk.Covers
      omega
    · obtain ⟨d, hd, hd1, hd2⟩ := ht.owned (List.mem_append_right free hx)
      unfold sizeofHeader at ha
      by_cases hcd : c = d
      · rw [← hcd] at hd1
        omega
      · have happart := hl.chunks_apart.forall hc hd hcd
        unfold LiveChunk.Apart sizeofHeader at happart
        omega
  · obtain ⟨x, hx, rfl⟩ := List.mem_map.mp hp
    obtain ⟨c, hc, hc1, hc2⟩ := ht.owned (List.mem_append_left out hx)
    refine Memory.load64_congr fun a ha ha' => hsame a ⟨c, hc, ?_⟩ fun y hy hya => ?_
    · unfold LiveChunk.Covers
      omega
    · have happart := (List.pairwise_append.mp (ht.apart hl)).2.2 x hx y hy
      unfold ObjectsApart at happart
      omega

theorem Layout.clear {container n : Nat} {c : LiveChunk} (hl : Layout container m t chunks)
    (hc : c ∈ chunks) (ha : c.ptr ≤ a) (hn : a + n ≤ c.ptr + c.size) : m.Clear a n := by
  have happart := (List.pairwise_cons.mp hl.apart).1 c hc
  have hroom := hl.room
  unfold LiveChunk.Apart at happart
  rw [ObjMemory.Clear, hl.allocated]
  omega

theorem Layout.of_bytes {container : Nat} (hl : Layout container m t chunks) (bytes : Memory) :
    Layout container { m with bytes := bytes } t chunks :=
  ⟨hl.live, hl.within, hl.apart, hl.allocated, hl.room⟩

theorem Divided.list_lt (ht : Divided h out chunks free) (hl : Layout h.container m t chunks) :
    h.list < 2 ^ 64 := by
  cases hfree : free with
  | nil =>
    have hlinked := ht.linked
    rw [hfree] at hlinked
    have hzero : h.list = 0 := hlinked
    omega
  | cons x rest =>
    have hlinked := ht.linked
    rw [hfree] at hlinked
    obtain ⟨-, hx, -⟩ := hlinked
    have hx : h.container + 16 + h.list = x + 16 := hx
    obtain ⟨c, hc, -, hlt⟩ := ht.owned (x := x) (by simp [hfree])
    have hin := (hl.chunks_within c hc).2
    omega

/-- The first free object becomes an outstanding one. -/
theorem Divided.pop (ht : Divided h out chunks free) (hl : Layout h.container m t chunks)
    (hne : h.list ≠ 0) : ∃ rest, free = h.popObj.1 :: rest ∧
      Divided h.popObj.2 (h.popObj.1 :: out) chunks rest := by
  have hlinked := ht.linked
  cases hfree : free with
  | nil =>
    rw [hfree] at hlinked
    exact absurd hlinked hne
  | cons x rest =>
    rw [hfree] at hlinked
    obtain ⟨-, hx, hrest⟩ := hlinked
    have hx : h.container + 16 + h.list = x + 16 := hx
    obtain ⟨c, hc, -, hlt⟩ := ht.owned (x := x) (by simp [hfree])
    have hin := (hl.chunks_within c hc).2
    have hobj : xptrTake h.list h.container = x := (xptrTake_eq (by omega)).trans (by omega)
    have hpop : h.popObj = (x, { h with list := h.nextOf x, nrFree := h.nrFree - 1 }) := by
      rw [XobjHandler.popObj, hobj]
    have hparts := ht.parts
    rw [hfree] at hparts
    rw [hpop]
    exact ⟨rest, rfl, ht.size, ht.header, hrest, List.perm_middle.trans hparts⟩

section Stores
variable [Overwriting]

/-- An outstanding object becomes the first free one. -/
theorem Divided.put (ht : Divided h out chunks free) (hl : Layout h.container h.memory t chunks)
    (hx : x ∈ out) : Divided (h.putObj x) (out.erase x) chunks (x :: free) ∧
      Layout h.container (h.putObj x).memory t chunks ∧
      (h.putObj x).memory.table = h.memory.table := by
  have hsize := ht.size_le
  obtain ⟨c, hc, hc1, hc2⟩ := ht.owned (List.mem_append_right free hx)
  have hin := hl.chunks_within c hc
  unfold LiveChunk.Within at hin
  have hlist := ht.list_lt hl
  have hclear : h.memory.Clear x 24 := hl.clear hc hc1 (by omega)
  obtain ⟨bytes, hwrite, hother, hnext⟩ :=
    ObjMemory.writeObject_eq hclear h.magic h.objSize h.list
  have hmemory : (h.putObj x).memory = { h.memory with bytes := bytes } := hwrite
  have hframe : Divided { h with memory := (h.putObj x).memory } out chunks free := by
    refine ht.frame hl fun a _ hout => ?_
    rw [hmemory]
    have ha := hout x hx
    exact hother a (by omega)
  refine ⟨⟨ht.size, hframe.header, ?_, ?_⟩, ?_, ?_⟩
  · have hword : xptrMake x h.container = x - h.container := xptrMake_eq (by omega) (by omega)
    refine ⟨?_, ?_, ?_⟩
    · change xptrMake x h.container ≠ 0
      omega
    · change h.container + 16 + xptrMake x h.container = x + 16
      omega
    · change ((h.putObj x).memory.bytes).Linked (h.container + 16)
        ((h.putObj x).memory.bytes.load64 (x + 16)) (free.map (· + 16))
      have hload : (h.putObj x).memory.bytes.load64 (x + 16) = h.list := by
        rw [hmemory]
        exact hnext hlist
      rw [hload]
      exact hframe.linked
  · have herase := (List.perm_cons_erase hx).append_left free
    exact (List.perm_middle.symm.trans herase.symm).trans ht.parts
  · rw [hmemory]
    exact hl.of_bytes bytes
  · rw [hmemory]

end Stores

section Heap
variable {container : Nat} {heap : HeapCalls} {c n : LiveChunk} {bytes : UInt64}

/-- The heap has no memory, or gives a chunk apart from all others, and leaves those alone. -/
theorem Layout.allocate (hl : Layout container m t chunks) (hlaw : heap.Lawful container)
    (bytes : UInt64) :
    ∃ m', (m.allocate heap bytes = (none, m') ∧ Layout container m' t chunks ∨
        ∃ c, m.allocate heap bytes = (some c.ptr, m') ∧ Layout container m' t (c :: chunks) ∧
          (∀ shift, bytes = Xhash.getAllocSize shift → bytes.toNat ≤ c.size) ∧
          Xheap.getChunkSize m'.bytes c.ptr = c.size) ∧
      m'.table = m.table ∧ ∀ a, (∃ d ∈ t :: chunks, d.Covers a) → m'.bytes a = m.bytes a := by
  refine ⟨(m.allocate heap bytes).2, ?_, rfl, fun a ⟨d, hd, ha⟩ =>
    hlaw.allocate_keeps m.toLiveHeap bytes a ⟨d, (hl.live d).mpr hd, ha⟩⟩
  unfold ObjMemory.allocate
  dsimp only
  cases hchunk : (heap.allocate m.toLiveHeap bytes).1 with
  | none => exact Or.inl ⟨rfl, hl.live, hl.within, hl.apart, hl.allocated, hl.room⟩
  | some c =>
    have hapart (d : LiveChunk) (hd : d ∈ t :: chunks) : c.Apart d :=
      hlaw.apart _ _ _ hchunk d ((hl.live d).mpr hd)
    have hold := List.pairwise_cons.mp hl.apart
    refine Or.inr ⟨c, rfl, ⟨fun d => ?_, fun d hd => ?_, ?_, hl.allocated, hl.room⟩,
      fun shift hbytes => ?_, hlaw.header _ _ _ hchunk⟩
    · change d ∈ c :: m.live ↔ _
      rw [List.mem_cons, hl.live, List.mem_cons, List.mem_cons, List.mem_cons]
      exact or_left_comm
    · rcases List.mem_cons.mp hd with rfl | hd
      · exact hl.within d List.mem_cons_self
      · rcases List.mem_cons.mp hd with rfl | hd
        · exact hlaw.within _ _ _ hchunk
        · exact hl.chunks_within d hd
    · refine List.pairwise_cons.mpr ⟨fun d hd => ?_,
        List.pairwise_cons.mpr ⟨fun d hd => ?_, hold.2⟩⟩
      · rcases List.mem_cons.mp hd with rfl | hd
        · exact (hapart t List.mem_cons_self).symm
        · exact hold.1 d hd
      · exact hapart d (List.mem_cons_of_mem t hd)
    · rw [hbytes] at hchunk ⊢
      exact hlaw.room _ _ _ hchunk

theorem mem_free (hlive : ∀ d, d ∈ m.live ↔ d ∈ c :: chunks) (hapart : ∀ d ∈ chunks, c.Apart d)
    (d : LiveChunk) : d ∈ (m.free heap c.ptr).live ↔ d ∈ chunks := by
  change d ∈ m.live.filter (·.ptr ≠ c.ptr) ↔ _
  rw [List.mem_filter, hlive, List.mem_cons, decide_eq_true_eq]
  constructor
  · rintro ⟨rfl | hd, hne⟩
    · exact absurd rfl hne
    · exact hd
  · exact fun hd => ⟨Or.inr hd, (hapart d hd).ptr_ne.symm⟩

theorem free_bytes (hlaw : heap.Lawful container) (hlive : ∀ d, d ∈ m.live ↔ d ∈ c :: chunks)
    (hapart : ∀ d ∈ chunks, c.Apart d) (ha : ∃ d ∈ chunks, d.Covers a) :
    (m.free heap c.ptr).bytes a = m.bytes a := by
  obtain ⟨d, hd, ha⟩ := ha
  exact hlaw.free_keeps m.toLiveHeap c.ptr a
    ⟨d, (hlive d).mpr (List.mem_cons_of_mem c hd), (hapart d hd).ptr_ne.symm, ha⟩

/-- A chunk that is not in the table yet is given back. -/
theorem Layout.giveBack (hl : Layout container m t (c :: chunks)) (hlaw : heap.Lawful container) :
    Layout container (m.free heap c.ptr) t chunks ∧
      ∀ a, (∃ d ∈ t :: chunks, d.Covers a) → (m.free heap c.ptr).bytes a = m.bytes a := by
  have hlive (d : LiveChunk) : d ∈ m.live ↔ d ∈ c :: t :: chunks := by
    rw [hl.live, List.mem_cons, List.mem_cons, List.mem_cons, List.mem_cons]
    exact or_left_comm
  have hcons := List.pairwise_cons.mp hl.apart
  have hcons' := List.pairwise_cons.mp hcons.2
  have hapart (d : LiveChunk) (hd : d ∈ t :: chunks) : c.Apart d := by
    rcases List.mem_cons.mp hd with rfl | hd
    · exact (hcons.1 c List.mem_cons_self).symm
    · exact hcons'.1 d hd
  refine ⟨⟨mem_free hlive hapart, fun d hd => ?_, ?_, hl.allocated, hl.room⟩,
    fun a ha => free_bytes hlaw hlive hapart ha⟩
  · rcases List.mem_cons.mp hd with rfl | hd
    · exact hl.within d List.mem_cons_self
    · exact hl.chunks_within d (List.mem_cons_of_mem c hd)
  · exact List.pairwise_cons.mpr ⟨fun d hd => hcons.1 d (List.mem_cons_of_mem c hd), hcons'.2⟩

/-- The table moves to another chunk, and its old one is given back. -/
theorem Layout.retable {table : Xhash xhashidx} (hl : Layout container m t (n :: chunks))
    (hlaw : heap.Lawful container) (hroom : table.bytes ≤ n.size) :
    Layout container
        ({ m with allocated := n.ptr, table := table }.free heap m.allocated) n chunks ∧
      ∀ a, (∃ d ∈ n :: chunks, d.Covers a) →
        ({ m with allocated := n.ptr, table := table }.free heap m.allocated).bytes a =
          m.bytes a := by
  have hcons := List.pairwise_cons.mp hl.apart
  have hlive (d : LiveChunk) :
      d ∈ ({ m with allocated := n.ptr, table := table } : ObjMemory).live ↔
        d ∈ t :: n :: chunks := hl.live d
  rw [hl.allocated]
  exact ⟨⟨mem_free hlive hcons.1, fun d hd => hl.chunks_within d hd, hcons.2, rfl, hroom⟩,
    fun a ha => free_bytes hlaw hlive hcons.1 ha⟩

theorem key_toNat (hc : c.Within container) : (c.key container).toNat = c.ptr - container := by
  unfold LiveChunk.Within sizeofHeader at hc
  have hlt : c.ptr - container < 2 ^ 64 := by omega
  rw [LiveChunk.key, xptrMake_eq (by omega) (by omega), UInt64.toNat_ofNat_of_lt' hlt]

theorem key_ne {d : LiveChunk} (hc : c.Within container) (hd : d.Within container)
    (h : c.Apart d) : c.key container ≠ d.key container := by
  intro heq
  have hnat := congrArg UInt64.toNat heq
  rw [key_toNat hc, key_toNat hd] at hnat
  unfold LiveChunk.Within sizeofHeader at hc hd
  exact h.ptr_ne (by omega)

/-- The chunk starts where no other chunk does, and not at a mark. -/
theorem Recorded.new_key {table : Xhash xhashidx} (hr : Recorded container table chunks)
    (hl : Layout container m t (c :: chunks)) :
    Xhash.NotMark (c.key container) ∧ table.Absent integerFunctions (c.key container) := by
  have hc := hl.chunks_within c List.mem_cons_self
  constructor
  · have hkey := key_toNat hc
    have hlt := hc.2
    constructor
    · intro heq
      have hmark : DUMMY.toNat = 2 ^ 64 - 2 := by decide
      rw [heq, hmark] at hkey
      omega
    · intro heq
      have hmark : UNUSED.toNat = 2 ^ 64 - 1 := by decide
      rw [heq, hmark] at hkey
      omega
  · rw [Xhash.absent_iff_not_holds]
    intro v hheld
    obtain ⟨d, hd, heq⟩ := List.mem_map.mp ((hr.holds _ _).mp hheld).2
    exact key_ne hc (hl.chunks_within d (List.mem_cons_of_mem c hd))
      ((List.pairwise_cons.mp hl.chunks_apart).1 d hd) heq.symm

theorem Recorded.cons {table new : Xhash xhashidx} (hr : Recorded container table chunks)
    (hdict : new.Dict integerFunctions)
    (hholds : ∀ k v, new.Holds integerFunctions k v ↔
      if integerFunctions.cmp_fun (c.key container) k = true then v = c.key container
      else table.Holds integerFunctions k v) : Recorded container new (c :: chunks) := by
  refine ⟨hdict, fun k v => ?_⟩
  rw [hholds, hr.holds, List.map_cons, List.mem_cons]
  by_cases hk : c.key container = k
  · subst hk
    simp [integerFunctions, cmpInt]
  · rw [if_neg (by simpa [integerFunctions, cmpInt] using hk)]
    simp [Ne.symm hk]

/-- There is room for the table of the next size, as there is for the present one. -/
theorem Layout.alloc_size {table : Xhash xhashidx} (hl : Layout container m t chunks)
    (ht : table.bytes = m.table.bytes) {shift : Nat} (hs : shift ≤ table.size_shift + 1) :
    Xhash.sizeofXhash.toNat + 16 * 2 ^ shift ≤ (Xhash.getAllocSize (.ofNat shift)).toNat := by
  have hroom := hl.room
  have hlt := (hl.within t List.mem_cons_self).2
  rw [← ht, Xhash.bytes] at hroom
  have hpow : 2 ^ table.size_shift < 2 ^ 59 := by omega
  have hshift : table.size_shift < 59 := (Nat.pow_lt_pow_iff_right (by omega)).mp hpow
  have hnat : (UInt64.ofNat shift).toNat = shift :=
    UInt64.toNat_ofNat_of_lt' (show shift < 2 ^ 64 by omega)
  have h64 : UInt64.ofNat shift < 64 := by
    rw [UInt64.lt_iff_toNat_lt, hnat]
    exact show shift < 64 by omega
  have h60 : ¬ 60 ≤ UInt64.ofNat shift := by
    rw [UInt64.le_iff_toNat_le, hnat]
    exact show ¬ 60 ≤ shift by omega
  have hsize := (Xhash.getAllocSize_lt_iff h64).not.mpr h60
  rw [hnat] at hsize
  omega

/-- The table takes the chunk, moved to another one if it has to grow, or it stays as it is. -/
theorem insertChunk_spec (hl : Layout container m t (c :: chunks))
    (hr : Recorded container m.table chunks) (hlaw : heap.Lawful container)
    (kvs0 : Nat → xhashidx) :
    ∃ r m' t', m.insertChunk heap kvs0 (c.key container) = some (r, m') ∧
      Layout container m' t' (c :: chunks) ∧
      (∀ a, (∃ d ∈ c :: chunks, d.Covers a) → m'.bytes a = m.bytes a) ∧
      (r < 0 ∧ Recorded container m'.table chunks ∨
        r = 0 ∧ Recorded container m'.table (c :: chunks)) := by
  obtain ⟨hval, habsent⟩ := hr.new_key hl
  unfold ObjMemory.insertChunk
  cases hgrow : m.table.growCheck with
  | false =>
    -- an absent key is not shadowed
    have hdirect : m.table.Direct integerFunctions (c.key container) := fun i hmatch =>
      absurd ⟨i, hmatch⟩ (Xhash.absent_iff.mp habsent)
    obtain ⟨new, hins, hdict, hdone⟩ := hr.dict.insert hgrow hdirect hval
    refine ⟨0, { m with table := new }, t, ?_, ?_, fun _ _ => rfl,
      Or.inr ⟨rfl, hr.cons hdict hdone.holds⟩⟩
    · rw [hins, Option.bind_some]
      exact if_neg (by decide)
    · have hbytes : new.bytes = m.table.bytes := by rw [Xhash.bytes, hdone.size_shift, Xhash.bytes]
      exact ⟨hl.live, hl.within, hl.apart, hl.allocated, hbytes.trans_le hl.room⟩
  | true =>
    have hasks : m.table.insert integerFunctions (c.key container) (c.key container) =
        some (-XHASH_ERESIZE, m.table) := hr.dict.insert_asks hgrow
    rw [hasks, Option.bind_some]
    dsimp only
    rw [if_pos rfl]
    have hshift : m.table.growSizeShift ≤ m.table.size_shift + 1 := by
      unfold Xhash.growSizeShift
      dsimp only
      split <;> omega
    have hsize := hl.alloc_size rfl hshift
    obtain ⟨m₁, hcall, htable, hkept⟩ := hl.allocate hlaw
      (Xhash.getAllocSize (.ofNat m.table.growSizeShift))
    rcases hcall with ⟨hcall, hl'⟩ | ⟨n, hcall, hl', hroom, -⟩
    · rw [hcall]
      exact ⟨_, _, t, rfl, hl', fun a ⟨d, hd, ha⟩ => hkept a ⟨d, List.mem_cons_of_mem t hd, ha⟩,
        Or.inl ⟨by decide, htable ▸ hr⟩⟩
    · rw [hcall]
      obtain ⟨mid, hmid, hdict, hbuilt⟩ :=
        hr.dict.rebuild hr.dict.wf.growSizeShift.1 hr.dict.wf.growSizeShift.2 kvs0
      obtain ⟨new, hins, hnew, hdone⟩ := hdict.insert (hbuilt.not_growCheck hr.dict.wf)
        (hbuilt.wf.direct_of_dummies_eq_zero hbuilt.dummies _) hval
      have hfits : mid.bytes ≤ n.size := by
        rw [Xhash.bytes, hbuilt.size_shift]
        exact hsize.trans (hroom _ rfl)
      obtain ⟨hl₂, hsame⟩ := hl'.retable hlaw hfits
      refine ⟨0, { ({ m₁ with allocated := n.ptr, table := mid }.free heap m₁.allocated) with
        table := new }, n, ?_, ?_, fun a ha => ?_, Or.inr ⟨rfl, hr.cons hnew fun k v => ?_⟩⟩
      · dsimp only
        rw [htable, hmid, Option.bind_some]
        exact congrArg (Option.map _) hins
      · have hbytes : new.bytes = mid.bytes := by rw [Xhash.bytes, hdone.size_shift, Xhash.bytes]
        exact ⟨hl₂.live, hl₂.within, hl₂.apart, rfl, hbytes.trans_le hfits⟩
      · obtain ⟨d, hd, ha⟩ := ha
        exact (hsame a ⟨d, List.mem_cons_of_mem n hd, ha⟩).trans
          (hkept a ⟨d, List.mem_cons_of_mem t hd, ha⟩)
      · rw [hdone.holds]
        simp only [hbuilt.holds]

end Heap

section Carving
variable [Overwriting] {mem n : Nat} {bytes used : UInt64}

/-- One turn of the loop. -/
theorem carveLoop_next (h : XobjHandler) (hmem : h.container ≤ mem)
    (hend : mem + bytes.toNat < 2 ^ 63) (turns : Nat) (obj : Option Nat) (m : ObjMemory)
    (hmore : used.toNat + h.objSize.toNat < bytes.toNat) :
    (used + h.objSize).toNat = used.toNat + h.objSize.toNat ∧
      h.carveLoop mem bytes (turns + 1) used obj m =
        h.carveLoop mem bytes turns (used + h.objSize) (some (mem + used.toNat))
          (m.writeObject (mem + used.toNat) h.magic h.objSize
            (mem + used.toNat + h.objSize.toNat - h.container)) := by
  have hsum : (used + h.objSize).toNat = used.toNat + h.objSize.toNat := by
    rw [UInt64.toNat_add]
    exact Nat.mod_eq_of_lt (by omega)
  have hgo : used + h.objSize < bytes := by
    rw [UInt64.lt_iff_toNat_lt, hsum]
    exact hmore
  have hobj : xptrTake (xptrMake (mem + used.toNat) h.container) h.container =
      mem + used.toNat := by
    rw [xptrMake_eq (by omega) (by omega), xptrTake_eq (by omega)]
    omega
  have hnext : xptrMake (mem + (used + h.objSize).toNat) h.container =
      mem + used.toNat + h.objSize.toNat - h.container := by
    rw [xptrMake_eq (by omega) (by omega), hsum, Nat.add_assoc]
  refine ⟨hsum, ?_⟩
  rw [XobjHandler.carveLoop, if_pos hgo]
  dsimp only
  rw [hobj, hnext]

/-- The objects from `used` on that the loop cuts, all but the link of the last one. -/
theorem carveLoop_spec (h : XobjHandler) (hsize : 24 ≤ h.objSize.toNat)
    (hmem : h.container ≤ mem) (hend : mem + bytes.toNat < 2 ^ 63) (turns : Nat) (obj : Option Nat)
    (hclear : m.Clear (mem + used.toNat) (bytes.toNat - used.toNat))
    (hwrap : used.toNat + h.objSize.toNat < 2 ^ 64)
    (hn : (bytes.toNat - used.toNat - 1) / h.objSize.toNat = n) (hturns : n < turns) :
    ∃ memory : Memory, h.carveLoop mem bytes turns used obj m =
        some (if n = 0 then obj else some (mem + used.toNat + (n - 1) * h.objSize.toNat),
          { m with bytes := memory }) ∧
      (∀ a, a < mem + used.toNat ∨ mem + bytes.toNat ≤ a → memory a = m.bytes a) ∧
      ∀ i < n, memory.load64 (mem + used.toNat + i * h.objSize.toNat + 16) =
        mem + used.toNat + (i + 1) * h.objSize.toNat - h.container := by
  induction n generalizing used obj m turns with
  | zero =>
    obtain ⟨turns, rfl⟩ := Nat.exists_eq_add_one_of_ne_zero (show turns ≠ 0 by omega)
    have hstop : ¬ used + h.objSize < bytes := by
      have hsmall := (Nat.div_eq_zero_iff_lt (by omega)).mp hn
      rw [UInt64.lt_iff_toNat_lt, UInt64.toNat_add, Nat.mod_eq_of_lt hwrap]
      omega
    rw [XobjHandler.carveLoop, if_neg hstop]
    exact ⟨m.bytes, rfl, fun _ _ => rfl, fun i hi => absurd hi (Nat.not_lt_zero i)⟩
  | succ n ih =>
    obtain ⟨turns, rfl⟩ := Nat.exists_eq_add_one_of_ne_zero (show turns ≠ 0 by omega)
    have hmore : used.toNat + h.objSize.toNat < bytes.toNat := by
      have hle := Nat.div_mul_le_self (bytes.toNat - used.toNat - 1) h.objSize.toNat
      rw [hn, Nat.succ_mul] at hle
      omega
    obtain ⟨hsum, hturn⟩ := carveLoop_next h hmem hend turns obj m hmore
    have hroom : m.Clear (mem + used.toNat) 24 := by
      unfold ObjMemory.Clear at hclear ⊢
      omega
    obtain ⟨memory₁, hwrite, hother₁, hload₁⟩ := ObjMemory.writeObject_eq hroom h.magic h.objSize
      (mem + used.toNat + h.objSize.toNat - h.container)
    have hrest : ({ m with bytes := memory₁ } : ObjMemory).Clear
        (mem + (used + h.objSize).toNat) (bytes.toNat - (used + h.objSize).toNat) := by
      unfold ObjMemory.Clear at hclear ⊢
      dsimp only
      omega
    have hcount : (bytes.toNat - (used + h.objSize).toNat - 1) / h.objSize.toNat = n := by
      have hdiv := Nat.add_div_right (bytes.toNat - (used + h.objSize).toNat - 1)
        (show 0 < h.objSize.toNat by omega)
      have heq : bytes.toNat - (used + h.objSize).toNat - 1 + h.objSize.toNat =
          bytes.toNat - used.toNat - 1 := by omega
      rw [heq, hn] at hdiv
      omega
    obtain ⟨memory, hloop, hother, hload⟩ := ih turns (some (mem + used.toNat)) hrest
      (by omega) hcount (by omega)
    refine ⟨memory, ?_, fun a ha => ?_, fun i hi => ?_⟩
    · rw [hturn, hwrite, hloop, if_neg (Nat.succ_ne_zero n), hsum, Nat.add_sub_cancel]
      cases n with
      | zero => rw [if_pos rfl, Nat.zero_mul, Nat.add_zero]
      | succ n =>
        rw [if_neg (Nat.succ_ne_zero n), Nat.add_sub_cancel, Nat.succ_mul]
        congr 3
        omega
    · rw [hother a (by omega)]
      exact hother₁ a (by omega)
    · cases i with
      | zero =>
        rw [Nat.zero_mul, Nat.add_zero, Nat.zero_add, Nat.one_mul, ← hload₁ (by omega)]
        exact Memory.load64_congr fun a ha ha' => hother a (by omega)
      | succ i =>
        have hfrom := hload i (by omega)
        have hstart : mem + (used + h.objSize).toNat + i * h.objSize.toNat =
            mem + used.toNat + (i + 1) * h.objSize.toNat := by
          rw [hsum, Nat.succ_mul]
          omega
        have hstop : mem + (used + h.objSize).toNat + (i + 1) * h.objSize.toNat =
            mem + used.toNat + (i + 1 + 1) * h.objSize.toNat := by
          rw [hsum, Nat.succ_mul (i + 1)]
          omega
        rw [hstart, hstop] at hfrom
        exact hfrom

end Carving

theorem linked_objectsFrom {b : Memory} {container size w : Nat} {rest : List Nat} (p n : Nat)
    (hp : container < p)
    (hnext : ∀ i < n + 1, b.load64 (p + i * size + 16) =
      if i = n then w else p + (i + 1) * size - container)
    (hrest : b.Linked (container + 16) w (rest.map (· + 16))) :
    b.Linked (container + 16) (p - container)
      ((objectsFrom size p (n + 1) ++ rest).map (· + 16)) := by
  have hbase : container + 16 + (p - container) = p + 16 := by omega
  have hfirst := hnext 0 (Nat.succ_pos n)
  rw [Nat.zero_mul, Nat.add_zero] at hfirst
  induction n generalizing p with
  | zero =>
    refine ⟨by omega, hbase, ?_⟩
    rw [hfirst, if_pos rfl]
    exact hrest
  | succ n ih =>
    refine ⟨by omega, hbase, ?_⟩
    rw [hfirst, if_neg (Nat.succ_ne_zero n).symm, Nat.zero_add, Nat.one_mul]
    have hnext' (i : Nat) (hi : i < n + 1) : b.load64 (p + size + i * size + 16) =
        if i = n then w else p + size + (i + 1) * size - container := by
      have hi' := hnext (i + 1) (by omega)
      have hstart : p + (i + 1) * size = p + size + i * size := by
        rw [Nat.succ_mul]
        omega
      have hstop : p + (i + 1 + 1) * size = p + size + (i + 1) * size := by
        rw [Nat.succ_mul (i + 1)]
        omega
      rw [hstart, hstop] at hi'
      rw [hi']
      by_cases hin : i = n
      · rw [if_pos hin, if_pos (congrArg (· + 1) hin)]
      · rw [if_neg hin, if_neg fun heq => hin (Nat.succ_injective heq)]
    have hfirst' := hnext' 0 (Nat.succ_pos n)
    rw [Nat.zero_mul, Nat.add_zero] at hfirst'
    exact ih (p + size) (by omega) hnext' (by omega) hfirst'

/-- A handler whose chunks are its own, recorded, and cut into the objects on its list and the
outstanding ones. -/
structure Pool (h : XobjHandler) (out : List Nat) (t : LiveChunk) (chunks : List LiveChunk)
    (free : List Nat) : Prop where
  layout : Layout h.container h.memory t chunks
  recorded : Recorded h.container h.memory.table chunks
  divided : Divided h out chunks free

section Alloc
variable {heap : HeapCalls} {c : LiveChunk}

/-- The chunk of a request that fails is given back. -/
theorem Pool.giveBack (hp : Pool h out t chunks free) (hlaw : heap.Lawful h.container)
    {t' : LiveChunk} (hl : Layout h.container m t' (c :: chunks))
    (hr : Recorded h.container m.table chunks)
    (hsame : ∀ a, (∃ d ∈ chunks, d.Covers a) → m.bytes a = h.memory.bytes a) :
    Pool { h with memory := m.free heap c.ptr } out t' chunks free := by
  obtain ⟨hl', hkept⟩ := hl.giveBack hlaw
  refine ⟨hl', hr, hp.divided.frame hp.layout fun a ha _ => ?_⟩
  obtain ⟨d, hd, hda⟩ := ha
  exact (hkept a ⟨d, List.mem_cons_of_mem t' hd, hda⟩).trans (hsame a ⟨d, hd, hda⟩)

variable [Overwriting]

/-- The chunk is in the table, and its last object is linked to the list there was. -/
theorem Pool.addChunk (hp : Pool h out t chunks free) {t' : LiveChunk} {k : Nat}
    (hl : Layout h.container m t' (c :: chunks)) (hr : Recorded h.container m.table (c :: chunks))
    (hsame : ∀ a, (∃ d ∈ chunks, d.Covers a) → m.bytes a = h.memory.bytes a)
    (hheader : Xheap.getChunkSize m.bytes c.ptr = c.size)
    (hk : (c.size - 1) / h.objSize.toNat = k + 1)
    (hnext : ∀ i < k, m.bytes.load64 (c.ptr + i * h.objSize.toNat + 16) =
      c.ptr + (i + 1) * h.objSize.toNat - h.container)
    {allocatedSpace nrFree nrAllocated : UInt64} :
    Pool { h with
      memory := m.store (c.ptr + k * h.objSize.toNat + 16) 8 h.list
      allocatedSpace := allocatedSpace
      nrFree := nrFree
      nrAllocated := nrAllocated
      list := xptrMake c.ptr h.container } out t' (c :: chunks)
        (c.objects h.objSize.toNat ++ free) := by
  have hsize := hp.divided.size_le
  have hin := hl.chunks_within c List.mem_cons_self
  unfold LiveChunk.Within sizeofHeader at hin
  have hobjects : c.objects h.objSize.toNat = objectsFrom h.objSize.toNat c.ptr (k + 1) := by
    rw [LiveChunk.objects, hk]
  have hlast : c.ptr + k * h.objSize.toNat ∈ c.objects h.objSize.toNat := by
    rw [hobjects]
    exact mem_objectsFrom.mpr ⟨k, Nat.lt_succ_self k, rfl⟩
  obtain ⟨-, hend⟩ := LiveChunk.mem_objects hlast
  have hclear : m.Clear (c.ptr + k * h.objSize.toNat + 16) 8 :=
    hl.clear List.mem_cons_self (by omega) (by omega)
  rw [ObjMemory.store_eq hclear]
  have hstored (a : Nat) (ha : a < c.ptr ∨ c.ptr + c.size ≤ a) :
      (m.bytes.store64 (c.ptr + k * h.objSize.toNat + 16) h.list) a = m.bytes a :=
    Memory.store64_outside (by omega)
  have hold : Divided { h with memory := { m with
      bytes := m.bytes.store64 (c.ptr + k * h.objSize.toNat + 16) h.list } } out chunks free := by
    refine hp.divided.frame hp.layout fun a ha _ => ?_
    rw [← hsame a ha]
    obtain ⟨d, hd, hda⟩ := ha
    have happart := (List.pairwise_cons.mp hl.chunks_apart).1 d hd
    unfold LiveChunk.Apart sizeofHeader at happart
    unfold LiveChunk.Covers sizeofHeader at hda
    exact hstored a (by omega)
  refine ⟨hl.of_bytes _, hr, hp.divided.size, fun d hd => ?_, ?_, ?_⟩
  · rcases List.mem_cons.mp hd with rfl | hd
    · rw [← hheader]
      exact getChunkSize_congr (by unfold sizeofHeader; omega) fun a _ ha => hstored a (Or.inl ha)
    · exact hold.header d hd
  · have hword : xptrMake c.ptr h.container = c.ptr - h.container :=
      xptrMake_eq (by omega) (by omega)
    dsimp only
    rw [hword, hobjects]
    refine linked_objectsFrom c.ptr k (by omega) (fun i hi => ?_) hold.linked
    by_cases hik : i = k
    · rw [if_pos hik, hik]
      exact Memory.load64_store64_same (hp.divided.list_lt hp.layout)
    · rw [if_neg hik, ← hnext i (by omega)]
      have hle : (i + 1) * h.objSize.toNat ≤ k * h.objSize.toNat :=
        Nat.mul_le_mul_right _ (by omega)
      rw [Nat.succ_mul] at hle
      exact Memory.load64_store64_other (by omega)
  · dsimp only
    rw [List.append_assoc, List.flatMap_cons]
    exact hp.divided.parts.append_left _

/-- The loop on a whole chunk. -/
theorem Layout.carve {n : Nat} {bytes : UInt64} (hl : Layout h.container m t (c :: chunks))
    (hsize : 24 ≤ h.objSize.toNat) (hbytes : bytes.toNat = c.size)
    (hn : (c.size - 1) / h.objSize.toNat = n) :
    ∃ memory : Memory, h.carveLoop c.ptr bytes (bytes.toNat + 1) 0 none m =
        some (if n = 0 then none else some (c.ptr + (n - 1) * h.objSize.toNat),
          { m with bytes := memory }) ∧
      (∀ a, a < c.ptr ∨ c.ptr + c.size ≤ a → memory a = m.bytes a) ∧
      ∀ i < n, memory.load64 (c.ptr + i * h.objSize.toNat + 16) =
        c.ptr + (i + 1) * h.objSize.toNat - h.container := by
  have hin := hl.chunks_within c List.mem_cons_self
  unfold LiveChunk.Within at hin
  have hlt := h.objSize.toNat_lt
  have hzero : (0 : UInt64).toNat = 0 := rfl
  have hclear : m.Clear (c.ptr + (0 : UInt64).toNat) (bytes.toNat - (0 : UInt64).toNat) :=
    hl.clear List.mem_cons_self (by omega) (by omega)
  have hcount : (bytes.toNat - (0 : UInt64).toNat - 1) / h.objSize.toNat = n := by
    rw [hbytes, hzero, Nat.sub_zero, hn]
  have hle : n ≤ c.size - 1 := by
    rw [← hn]
    exact Nat.div_le_self _ _
  obtain ⟨memory, hloop, hother, hnext⟩ := carveLoop_spec h hsize (by omega) (by omega)
    (bytes.toNat + 1) none hclear (by omega) hcount (by omega)
  rw [hzero, Nat.add_zero] at hloop hother hnext
  rw [hbytes] at hother
  exact ⟨memory, hloop, hother, hnext⟩

theorem Pool.allocObj (hp : Pool h out t chunks free) (hlaw : heap.Lawful h.container)
    (kvs0 : Nat → xhashidx) (nr : UInt64) :
    ∃ r h' t' chunks' free', h.allocObj heap kvs0 nr = some (r, h') ∧
      Pool h' out t' chunks' free' ∧ chunks ⊆ chunks' ∧ h'.container = h.container ∧
      h'.objSize = h.objSize ∧ (0 ≤ r → h'.list ≠ 0) := by
  obtain ⟨m₁, hcall, htable, hallocated⟩ := hp.layout.allocate hlaw (nr * h.objSize)
  have hkept (a : Nat) (ha : ∃ d ∈ chunks, d.Covers a) : m₁.bytes a = h.memory.bytes a := by
    obtain ⟨d, hd, ha⟩ := ha
    exact hallocated a ⟨d, List.mem_cons_of_mem t hd, ha⟩
  unfold XobjHandler.allocObj
  rcases hcall with ⟨hcall, hl⟩ | ⟨c, hcall, hl, -, hheader⟩
  · rw [hcall]
    exact ⟨-1, _, t, chunks, free, rfl, ⟨hl, htable ▸ hp.recorded,
      hp.divided.frame hp.layout fun a ha _ => hkept a ha⟩, List.Subset.refl _, rfl, rfl,
      fun hr => absurd hr (by decide)⟩
  rw [hcall]
  dsimp only
  have hsize := hp.divided.size_le
  have hbytes : (UInt64.ofNat (Xheap.getChunkSize m₁.bytes c.ptr)).toNat = c.size := by
    have hin := (hl.chunks_within c List.mem_cons_self).2
    rw [hheader]
    exact UInt64.toNat_ofNat_of_lt' (show c.size < 2 ^ 64 by omega)
  generalize UInt64.ofNat (Xheap.getChunkSize m₁.bytes c.ptr) = bytes at hbytes
  obtain ⟨n, hn⟩ : ∃ n, (c.size - 1) / h.objSize.toNat = n := ⟨_, rfl⟩
  obtain ⟨memory, hloop, hother, hnext⟩ := hl.carve hsize hbytes hn
  have hl₂ := hl.of_bytes memory
  have hcut (a : Nat) (ha : ∃ d ∈ chunks, d.Covers a) : memory a = h.memory.bytes a := by
    rw [← hkept a ha]
    obtain ⟨d, hd, hda⟩ := ha
    have happart := (List.pairwise_cons.mp hl.chunks_apart).1 d hd
    unfold LiveChunk.Apart sizeofHeader at happart
    unfold LiveChunk.Covers sizeofHeader at hda
    exact hother a (by omega)
  have hr₂ : Recorded h.container ({ m₁ with bytes := memory } : ObjMemory).table chunks :=
    htable ▸ hp.recorded
  rw [hloop, Option.bind_some]
  dsimp only
  cases n with
  | zero =>
    rw [if_pos rfl]
    exact ⟨-1, _, t, chunks, free, rfl, hp.giveBack hlaw hl₂ hr₂ hcut, List.Subset.refl _, rfl, rfl,
      fun hr => absurd hr (by decide)⟩
  | succ k =>
    rw [if_neg (Nat.succ_ne_zero k), Nat.add_sub_cancel]
    obtain ⟨r, m₃, t₃, hinsert, hl₃, hsame₃, hout⟩ := insertChunk_spec hl₂ hr₂ hlaw kvs0
    have hinsert' : ({ m₁ with bytes := memory } : ObjMemory).insertChunk heap kvs0
        (.ofNat (xptrMake c.ptr h.container)) = some (r, m₃) := hinsert
    have hsame (a : Nat) (ha : ∃ d ∈ chunks, d.Covers a) : m₃.bytes a = h.memory.bytes a := by
      rw [← hcut a ha]
      obtain ⟨d, hd, hda⟩ := ha
      exact hsame₃ a ⟨d, List.mem_cons_of_mem c hd, hda⟩
    dsimp only
    rw [hinsert', Option.map_some]
    rcases hout with ⟨hneg, hr₃⟩ | ⟨rfl, hr₃⟩
    · rw [if_pos hneg]
      exact ⟨-1, _, t₃, chunks, free, rfl, hp.giveBack hlaw hl₃ hr₃ hsame, List.Subset.refl _, rfl,
        rfl, fun hr => absurd hr (by decide)⟩
    · have hin := hl.chunks_within c List.mem_cons_self
      unfold LiveChunk.Within sizeofHeader at hin
      have hown (a : Nat) (ha : c.Covers a) : m₃.bytes a = memory a :=
        hsame₃ a ⟨c, List.mem_cons_self, ha⟩
      have hheader₃ : Xheap.getChunkSize m₃.bytes c.ptr = c.size := by
        rw [← hheader]
        refine getChunkSize_congr (by unfold sizeofHeader; omega) fun a ha ha' => ?_
        rw [hown a (by unfold LiveChunk.Covers; omega), hother a (Or.inl ha')]
      have hnext₃ (i : Nat) (hi : i < k) : m₃.bytes.load64 (c.ptr + i * h.objSize.toNat + 16) =
          c.ptr + (i + 1) * h.objSize.toNat - h.container := by
        rw [← hnext i (by omega)]
        have hobj : c.ptr + i * h.objSize.toNat ∈ c.objects h.objSize.toNat :=
          mem_objectsFrom.mpr ⟨i, by omega, rfl⟩
        have hend := LiveChunk.mem_objects hobj
        refine Memory.load64_congr fun a ha ha' => hown a ?_
        unfold LiveChunk.Covers sizeofHeader
        omega
      have hword : xptrMake c.ptr h.container = c.ptr - h.container :=
        xptrMake_eq (by omega) (by omega)
      refine ⟨0, _, t₃, c :: chunks, _, rfl, hp.addChunk hl₃ hr₃ hsame hheader₃ hn hnext₃,
        List.subset_cons_self c chunks, rfl, rfl, fun _ => ?_⟩
      change xptrMake c.ptr h.container ≠ 0
      omega

end Alloc

end Inv

end Libxseg
