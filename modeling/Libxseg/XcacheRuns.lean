import Mathlib.Algebra.BigOperators.Group.Finset.Basic
import Libxseg.Transition
import Libxseg.XcacheSections
import Libxseg.XqDeque

/-!
# Clients of one cache

Any number of clients call the cache at the same time. A step is one atomic part of a
call: a locked section, an atomic change of a reference count, or a node that moves to
or from the queue of free nodes. The callbacks do nothing to the cache; `fresh`,
`evicted` and `failed` are no part of it and only remember where a node has been.
-/

namespace Libxseg

set_option autoImplicit false

namespace Xcache

variable {ι : Type}

inductive Pc where
  | idle
  /-- `xcache_alloc_init` has a node from the queue that it has still to set up. -/
  | allocating (idx : xqindex)
  /-- `on_init` has failed and the node goes back to the queue. -/
  | undoing (idx : xqindex)
  /-- The victim of an insertion or an invalidated node is still to be put. -/
  | putting (idx : xqindex)
  /-- The node goes back to the queue, after its last put or from `xcache_free_new`. -/
  | freeing (idx : xqindex) (new : Bool)
  deriving DecidableEq

def Pc.Owns : Pc → xqindex → Prop
  | allocating j, idx => j = idx
  | undoing j, idx => j = idx
  | freeing j _, idx => j = idx
  | _, _ => False

def Pc.pending : Pc → xqindex → Nat
  | putting j, idx => if j = idx then 1 else 0
  | _, _ => 0

structure Client where
  held : xqindex → Nat
  pc : Pc

def Client.refs (client : Client) (idx : xqindex) : Nat := client.held idx + client.pc.pending idx

/-- `fresh` has the nodes that were set up and not inserted since, `evicted` those that were
evicted and neither inserted again nor invalidated since, `failed` those that were last set up
with an `on_init` that failed. -/
structure World (ι : Type) where
  cache : Xcache
  clients : ι → Client
  fresh : Finset xqindex
  evicted : Finset xqindex
  failed : Finset xqindex

inductive Event where
  | full
  | pop (idx : xqindex)
  | init (idx : xqindex) (name : CString) (r : Int)
  | undo (idx : xqindex)
  | insert (h : xcache_handler) (mem : InsertMemory) (ret lru reinsert : xcache_handler)
  | lookup (name : CString) (ret : xcache_handler)
  | get (h : xcache_handler)
  | put (h : xcache_handler) (last : Bool)
  | settle (idx : xqindex) (last : Bool)
  | free (idx : xqindex) (new : Bool)
  | invalidate (name : CString) (r : Int) (h : xcache_handler)
  | freeNew (h : xcache_handler)

def hand (held : xqindex → Nat) (ret : xcache_handler) : xqindex → Nat :=
  if ret = NoEntry then held else Function.update held ret (held ret + 1)

def Pc.toPut (h : xcache_handler) : Pc := if h = NoEntry then .idle else .putting h

def Pc.afterPut (idx : xqindex) (last : Bool) : Pc := if last then .freeing idx false else .idle

/-- The node whose mapping in `rm_entries` an invalidation of this name takes out. -/
def detached (cache : Xcache) (name : CString) : xcache_handler :=
  if cache.lookupEntries (.arg name) = some NoEntry then
    (cache.lookupRm (.arg name)).getD NoEntry
  else NoEntry

/-- The calls of the hooks that `xcache_insert` makes itself. -/
def InsertResult.announced (result : InsertResult) : Xcache :=
  let cache := result.cache.call (result.cache.ops.on_evict && result.lru != NoEntry)
    (.on_evict result.lru)
  cache.call (cache.ops.on_reinsert && result.reinsert != NoEntry) (.on_reinsert result.reinsert)

namespace World
variable [DecidableEq ι]

def act (w : World ι) (i : ι) (cache : Xcache) (client : Client) : World ι :=
  { w with cache := cache, clients := Function.update w.clients i client }

/-- One atomic part of a call of client `i`. A client passes only handles that it holds
references to. -/
inductive Step (w : World ι) : ι × Event → World ι → Prop
  | full {i cache} :
      (w.clients i).pc = .idle → w.cache.allocCacheEntry = (Noneidx, cache) →
      Step w (i, .full) (w.act i cache (w.clients i))
  | pop {i idx cache} :
      (w.clients i).pc = .idle → w.cache.allocCacheEntry = (idx, cache) → idx ≠ Noneidx →
      Step w (i, .pop idx) (w.act i cache ⟨(w.clients i).held, .allocating idx⟩)
  | init {i idx name r r' cache} :
      (w.clients i).pc = .allocating idx → w.cache.entryInit idx name r = (r', cache) → 0 ≤ r' →
      Step w (i, .init idx name r)
        { w.act i cache ⟨hand (w.clients i).held idx, .idle⟩ with
          fresh := Insert.insert idx w.fresh
          evicted := w.evicted.erase idx
          failed := w.failed.erase idx }
  | fail {i idx name r r' cache} :
      (w.clients i).pc = .allocating idx → w.cache.entryInit idx name r = (r', cache) → r' < 0 →
      Step w (i, .init idx name r)
        { w.act i cache ⟨(w.clients i).held, .undoing idx⟩ with
          evicted := w.evicted.erase idx
          failed := Insert.insert idx w.failed }
  | undo {i idx} :
      (w.clients i).pc = .undoing idx →
      Step w (i, .undo idx) (w.act i (w.cache.freeCacheEntry idx) ⟨(w.clients i).held, .idle⟩)
  | insert {i h mem result} :
      (w.clients i).pc = .idle → h ∈ w.fresh → 0 < (w.clients i).held h →
      w.cache.insertRaw h mem = some result →
      Step w (i, .insert h mem result.ret result.lru result.reinsert)
        { w.act i result.announced
            ⟨if result.ret = h then (w.clients i).held else hand (w.clients i).held result.ret,
              .toPut result.lru⟩ with
          fresh := w.fresh.erase result.ret
          evicted := (if result.lru = NoEntry then w.evicted
            else Insert.insert result.lru w.evicted).erase result.reinsert }
  | lookup {i name ret cache} :
      (w.clients i).pc = .idle → w.cache.lookup name = some (ret, cache) →
      Step w (i, .lookup name ret) (w.act i cache ⟨hand (w.clients i).held ret, .idle⟩)
  | get {i h} :
      (w.clients i).pc = .idle → 0 < (w.clients i).held h →
      Step w (i, .get h) (w.act i (w.cache.get h) ⟨hand (w.clients i).held h, .idle⟩)
  | put {i h last cache} :
      (w.clients i).pc = .idle → 0 < (w.clients i).held h →
      w.cache.entryPutRef h = some (last, cache) →
      Step w (i, .put h last)
        (w.act i cache ⟨Function.update (w.clients i).held h ((w.clients i).held h - 1),
          .afterPut h last⟩)
  | settle {i idx last cache} :
      (w.clients i).pc = .putting idx → w.cache.entryPutRef idx = some (last, cache) →
      Step w (i, .settle idx last) (w.act i cache ⟨(w.clients i).held, .afterPut idx last⟩)
  | free {i idx new} :
      (w.clients i).pc = .freeing idx new →
      Step w (i, .free idx new)
        (w.act i (if new then w.cache.freeCacheEntry idx else w.cache.entryPutFree idx)
          ⟨(w.clients i).held, .idle⟩)
  | invalidate {i name r h cache} :
      (w.clients i).pc = .idle → w.cache.invalidateRaw name = some (r, h, cache) →
      Step w (i, .invalidate name r h)
        { w.act i cache ⟨(w.clients i).held, .toPut h⟩ with
          evicted := w.evicted.erase (w.cache.detached name) }
  | freeNew {i h} :
      (w.clients i).pc = .idle → h ∈ w.fresh → 0 < (w.clients i).held h →
      Step w (i, .freeNew h)
        (w.act i (w.cache.dropNew h) ⟨Function.update (w.clients i).held h 0, .freeing h true⟩)

end World

structure Start [Builtins] (w : World ι) : Prop where
  cache : ∃ xcache_size ops flags mem, Xcache.init xcache_size ops flags mem = some w.cache
  clients : ∀ i, w.clients i = ⟨fun _ => 0, .idle⟩
  fresh : w.fresh = ∅
  evicted : w.evicted = ∅
  failed : w.failed = ∅

theorem Start.calls [Builtins] {w : World ι} (hs : Start w) : w.cache.calls = [] := by
  obtain ⟨xcache_size, ops, flags, mem, hinit⟩ := hs.cache
  unfold init at hinit
  split at hinit
  · cases hinit
  · rw [← Option.some.inj hinit]

/-- The calls of `on_put` for a node that an event makes, if the hook is set. -/
def Event.puts (idx : xqindex) : Event → Nat
  | free j false => if j = idx then 1 else 0
  | _ => 0

def Event.frees (idx : xqindex) : Event → Nat
  | free j _ => if j = idx then 1 else 0
  | undo j => if j = idx then 1 else 0
  | _ => 0

def Cached (c : Xcache) (key : NamePtr) (idx : xqindex) : Prop :=
  c.entries.Holds (nameFunctions c.nodes) key idx

def Removed (c : Xcache) (key : NamePtr) (idx : xqindex) : Prop :=
  c.rm_entries.Holds (nameFunctions c.nodes) key idx

/-- `cache->time` does not come to its maximum: where the call succeeds, it is an access. -/
def Event.InTime (c : Xcache) : Event → Prop
  | insert _ _ ret _ _ => ret ≠ NoEntry → c.TimeBelow
  | lookup _ ret => ret ≠ NoEntry → c.TimeBelow
  | _ => True

def Event.Inits (c : Xcache) : Event → Prop
  | init idx name r => 0 ≤ (c.entryInit idx name r).1
  | _ => True

def RefRoom (c : Xcache) (idx : xqindex) (n : Nat) : Prop := (c.nodes idx).ref.toNat + n < 2 ^ 32

def Event.Roomy (c : Xcache) : Event → Prop
  | get h => c.RefRoom h 1
  | lookup name _ => ∀ idx, c.Cached (.arg name) idx → c.RefRoom idx 1
  | insert h _ _ _ _ =>
    (∀ idx, c.Cached (.node h) idx → c.RefRoom idx 1) ∧
      (∀ idx, c.Removed (.node h) idx → c.RefRoom idx 2) ∧
      ((∀ idx, ¬ c.Cached (.node h) idx ∧ ¬ c.Removed (.node h) idx) → c.RefRoom h 1)
  | _ => True

/-- An insertion that has to take an entry back from `rm_entries` or to put one there can do so. -/
def Event.Completes (c : Xcache) : Event → Prop
  | insert h mem _ _ _ =>
    (∀ idx, c.Removed (.node h) idx → mem.Enough c) ∧
      (c.has XCACHE_USE_RMTABLE = true → c.size.toNat ≤ c.entries.used → mem.victim ≠ none)
  | _ => True

/-- An insertion that needs a victim is given a cached node, if any. With the array it always is. -/
def Event.Named (c : Xcache) : Event → Prop
  | insert h _ _ _ _ => (∀ idx, ¬ c.Cached (.node h) idx) → c.size.toNat ≤ c.entries.used →
      c.lru.1 = NoEntry ∨ ∃ name, c.Cached name c.lru.1
  | _ => True

def Event.Counts (c : Xcache) (event : Event) : Prop := event.Roomy c ∧ event.Completes c

/-- `cache->time` is below its maximum, by more than one access. -/
def World.Early (w : World ι) : Prop := w.cache.time < XCACHE_LRU_MAX - 1

instance (w : World ι) : Decidable w.Early :=
  inferInstanceAs (Decidable (w.cache.time < XCACHE_LRU_MAX - 1))

theorem World.Early.timeBelow {w : World ι} (h : w.Early) : w.cache.TimeBelow := by
  intro heq
  rw [World.Early, UInt64.lt_iff_toNat_lt] at h
  have hnat := congrArg UInt64.toNat heq
  rw [UInt64.toNat_add] at hnat
  have hmax : XCACHE_LRU_MAX.toNat = 2 ^ 64 - 1 := rfl
  have hmax' : (XCACHE_LRU_MAX - 1).toNat = 2 ^ 64 - 2 := rfl
  have hone : (1 : UInt64).toNat = 1 := rfl
  omega

theorem World.Early.inTime {w : World ι} (h : w.Early) (event : Event) :
    event.InTime w.cache := by
  cases event with
  | insert => exact fun _ => h.timeBelow
  | lookup => exact fun _ => h.timeBelow
  | _ => trivial

instance decidableForallHolds {κ : Type} {tf : TypesFunctions κ} {xhash : Xhash κ} {key : κ}
    {p : xqindex → Prop} [DecidablePred p] : Decidable (∀ idx, xhash.Holds tf key idx → p idx) :=
  decidable_of_iff (∀ i < xhash.size, xhash.itemValid i = true →
      tf.cmp_fun (xhash.kvs i) key = true → p (xhash.vals i)) <| by
    constructor
    · rintro h idx ⟨i, ⟨hlt, hvalid, hcmp⟩, rfl⟩
      exact h i hlt hvalid hcmp
    · intro h i hlt hvalid hcmp
      exact h _ ⟨i, ⟨hlt, hvalid, hcmp⟩, rfl⟩

instance (c : Xcache) (key : NamePtr) {p : xqindex → Prop} [DecidablePred p] :
    Decidable (∀ idx, c.Cached key idx → p idx) := decidableForallHolds

instance (c : Xcache) (key : NamePtr) {p : xqindex → Prop} [DecidablePred p] :
    Decidable (∀ idx, c.Removed key idx → p idx) := decidableForallHolds

instance (c : Xcache) (idx : xqindex) (n : Nat) : Decidable (c.RefRoom idx n) :=
  inferInstanceAs (Decidable (_ < _))

instance (c : Xcache) (key : NamePtr) : Decidable (∀ idx, ¬ c.Cached key idx ∧ ¬ c.Removed key idx) :=
  decidable_of_iff ((∀ idx, c.Cached key idx → False) ∧ ∀ idx, c.Removed key idx → False) forall_and.symm

instance (c : Xcache) (mem : InsertMemory) : Decidable (mem.Enough c) :=
  decidable_of_iff (mem.first ≠ none ∧ mem.second ≠ none ∧
      (c.size.toNat ≤ c.entries.used → c.lru.1 ≠ NoEntry))
    ⟨fun ⟨first, second, victim⟩ => ⟨first, second, victim⟩,
      fun h => ⟨h.first, h.second, h.victim⟩⟩

instance (c : Xcache) : (event : Event) → Decidable (event.Inits c)
  | .init idx name r => inferInstanceAs (Decidable (0 ≤ (c.entryInit idx name r).1))
  | .full | .pop _ | .undo _ | .insert .. | .lookup .. | .get _ | .put .. | .settle .. | .free .. |
    .invalidate .. | .freeNew _ => isTrue trivial

theorem exists_cached_iff (c : Xcache) (idx : xqindex) :
    (∃ name, c.Cached name idx) ↔
      ∃ i < c.entries.size, c.entries.itemValid i = true ∧ c.entries.vals i = idx := by
  constructor
  · rintro ⟨name, i, ⟨hlt, hvalid, -⟩, hval⟩
    exact ⟨i, hlt, hvalid, hval⟩
  · rintro ⟨i, hlt, hvalid, hval⟩
    exact ⟨c.entries.kvs i, i, ⟨hlt, hvalid, decide_eq_true rfl⟩, hval⟩

instance (c : Xcache) (idx : xqindex) : Decidable (∃ name, c.Cached name idx) :=
  decidable_of_iff _ (c.exists_cached_iff idx).symm

instance (c : Xcache) : (event : Event) → Decidable (event.Named c)
  | .insert h _ _ _ _ => decidable_of_iff
    ((∀ idx, c.Cached (.node h) idx → False) → c.size.toNat ≤ c.entries.used →
      c.lru.1 = NoEntry ∨ ∃ name, c.Cached name c.lru.1) Iff.rfl
  | .full | .pop _ | .init .. | .undo _ | .lookup .. | .get _ | .put .. | .settle .. | .free .. |
    .invalidate .. | .freeNew _ => isTrue trivial

instance (c : Xcache) : (event : Event) → Decidable (event.Roomy c)
  | .get h => inferInstanceAs (Decidable (c.RefRoom h 1))
  | .lookup name _ => inferInstanceAs (Decidable (∀ idx, c.Cached (.arg name) idx → c.RefRoom idx 1))
  | .insert h _ _ _ _ => inferInstanceAs (Decidable
    ((∀ idx, c.Cached (.node h) idx → c.RefRoom idx 1) ∧
      (∀ idx, c.Removed (.node h) idx → c.RefRoom idx 2) ∧
      ((∀ idx, ¬ c.Cached (.node h) idx ∧ ¬ c.Removed (.node h) idx) → c.RefRoom h 1)))
  | .full | .pop _ | .init .. | .undo _ | .put .. | .settle .. | .free .. | .invalidate .. |
    .freeNew _ => isTrue trivial

instance (c : Xcache) : (event : Event) → Decidable (event.Completes c)
  | .insert h mem _ _ _ => inferInstanceAs (Decidable
    ((∀ idx, c.Removed (.node h) idx → mem.Enough c) ∧
      (c.has XCACHE_USE_RMTABLE = true → c.size.toNat ≤ c.entries.used → mem.victim ≠ none)))
  | .full | .pop _ | .init .. | .undo _ | .lookup .. | .get _ | .put .. | .settle .. | .free .. |
    .invalidate .. | .freeNew _ => isTrue trivial

instance (c : Xcache) (event : Event) : Decidable (event.Counts c) :=
  inferInstanceAs (Decidable (event.Roomy c ∧ event.Completes c))

namespace World
variable [DecidableEq ι]

/-- What the event does, if client `i` can take the step and it goes as the event says. -/
def perform (w : World ι) (i : ι) : Event → Option (World ι)
  | .full =>
    if (w.clients i).pc = .idle ∧ w.cache.allocCacheEntry.1 = Noneidx then
      some (w.act i w.cache.allocCacheEntry.2 (w.clients i))
    else none
  | .pop idx =>
    if (w.clients i).pc = .idle ∧ w.cache.allocCacheEntry.1 = idx ∧ idx ≠ Noneidx then
      some (w.act i w.cache.allocCacheEntry.2 ⟨(w.clients i).held, .allocating idx⟩)
    else none
  | .init idx name r =>
    if (w.clients i).pc = .allocating idx then
      some (if 0 ≤ (w.cache.entryInit idx name r).1 then
        { w.act i (w.cache.entryInit idx name r).2 ⟨hand (w.clients i).held idx, .idle⟩ with
          fresh := Insert.insert idx w.fresh
          evicted := w.evicted.erase idx
          failed := w.failed.erase idx }
      else
        { w.act i (w.cache.entryInit idx name r).2 ⟨(w.clients i).held, .undoing idx⟩ with
          evicted := w.evicted.erase idx
          failed := Insert.insert idx w.failed })
    else none
  | .undo idx =>
    if (w.clients i).pc = .undoing idx then
      some (w.act i (w.cache.freeCacheEntry idx) ⟨(w.clients i).held, .idle⟩)
    else none
  | .insert h mem ret lru reinsert =>
    (w.cache.insertRaw h mem).bind fun result =>
      if (w.clients i).pc = .idle ∧ h ∈ w.fresh ∧ 0 < (w.clients i).held h ∧ result.ret = ret ∧
          result.lru = lru ∧ result.reinsert = reinsert then
        some { w.act i result.announced
            ⟨if result.ret = h then (w.clients i).held else hand (w.clients i).held result.ret,
              .toPut result.lru⟩ with
          fresh := w.fresh.erase result.ret
          evicted := (if result.lru = NoEntry then w.evicted
            else Insert.insert result.lru w.evicted).erase result.reinsert }
      else none
  | .lookup name ret =>
    (w.cache.lookup name).bind fun (ret', cache) =>
      if (w.clients i).pc = .idle ∧ ret' = ret then
        some (w.act i cache ⟨hand (w.clients i).held ret', .idle⟩)
      else none
  | .get h =>
    if (w.clients i).pc = .idle ∧ 0 < (w.clients i).held h then
      some (w.act i (w.cache.get h) ⟨hand (w.clients i).held h, .idle⟩)
    else none
  | .put h last =>
    (w.cache.entryPutRef h).bind fun (last', cache) =>
      if (w.clients i).pc = .idle ∧ 0 < (w.clients i).held h ∧ last' = last then
        some (w.act i cache ⟨Function.update (w.clients i).held h ((w.clients i).held h - 1),
          .afterPut h last'⟩)
      else none
  | .settle idx last =>
    (w.cache.entryPutRef idx).bind fun (last', cache) =>
      if (w.clients i).pc = .putting idx ∧ last' = last then
        some (w.act i cache ⟨(w.clients i).held, .afterPut idx last'⟩)
      else none
  | .free idx new =>
    if (w.clients i).pc = .freeing idx new then
      some (w.act i (if new then w.cache.freeCacheEntry idx else w.cache.entryPutFree idx)
        ⟨(w.clients i).held, .idle⟩)
    else none
  | .invalidate name r h =>
    (w.cache.invalidateRaw name).bind fun (r', h', cache) =>
      if (w.clients i).pc = .idle ∧ r' = r ∧ h' = h then
        some { w.act i cache ⟨(w.clients i).held, .toPut h'⟩ with
          evicted := w.evicted.erase (w.cache.detached name) }
      else none
  | .freeNew h =>
    if (w.clients i).pc = .idle ∧ h ∈ w.fresh ∧ 0 < (w.clients i).held h then
      some (w.act i (w.cache.dropNew h)
        ⟨Function.update (w.clients i).held h 0, .freeing h true⟩)
    else none

theorem step_of_perform {w w' : World ι} {i : ι} {event : Event}
    (h : w.perform i event = some w') : Step w (i, event) w' := by
  cases event with
  | full =>
    obtain ⟨⟨hpc, hret⟩, rfl⟩ := of_ite_some h
    exact .full hpc (Prod.ext hret rfl)
  | pop idx =>
    obtain ⟨⟨hpc, hret, hne⟩, rfl⟩ := of_ite_some h
    exact .pop hpc (Prod.ext hret rfl) hne
  | init idx name r =>
    obtain ⟨hpc, rfl⟩ := of_ite_some h
    split
    · rename_i hr
      exact .init hpc rfl hr
    · rename_i hr
      exact .fail hpc rfl (Int.lt_of_not_ge hr)
  | undo idx =>
    obtain ⟨hpc, rfl⟩ := of_ite_some h
    exact .undo hpc
  | insert hd mem ret lru reinsert =>
    obtain ⟨result, hrun, h⟩ := Option.bind_eq_some_iff.mp h
    obtain ⟨⟨hpc, hmem, hpos, rfl, rfl, rfl⟩, rfl⟩ := of_ite_some h
    exact .insert hpc hmem hpos hrun
  | lookup name ret =>
    obtain ⟨⟨ret', cache⟩, hrun, h⟩ := Option.bind_eq_some_iff.mp h
    obtain ⟨⟨hpc, rfl⟩, rfl⟩ := of_ite_some h
    exact .lookup hpc hrun
  | get hd =>
    obtain ⟨⟨hpc, hpos⟩, rfl⟩ := of_ite_some h
    exact .get hpc hpos
  | put hd last =>
    obtain ⟨⟨last', cache⟩, hrun, h⟩ := Option.bind_eq_some_iff.mp h
    obtain ⟨⟨hpc, hpos, rfl⟩, rfl⟩ := of_ite_some h
    exact .put hpc hpos hrun
  | settle idx last =>
    obtain ⟨⟨last', cache⟩, hrun, h⟩ := Option.bind_eq_some_iff.mp h
    obtain ⟨⟨hpc, rfl⟩, rfl⟩ := of_ite_some h
    exact .settle hpc hrun
  | free idx new =>
    obtain ⟨hpc, rfl⟩ := of_ite_some h
    exact .free hpc
  | invalidate name r hd =>
    obtain ⟨⟨r', h', cache⟩, hrun, h⟩ := Option.bind_eq_some_iff.mp h
    obtain ⟨⟨hpc, rfl, rfl⟩, rfl⟩ := of_ite_some h
    exact .invalidate hpc hrun
  | freeNew hd =>
    obtain ⟨⟨hpc, hmem, hpos⟩, rfl⟩ := of_ite_some h
    exact .freeNew hpc hmem hpos

def performAll (ok : World ι → Event → Prop) [∀ w event, Decidable (ok w event)] (w : World ι)
    (i : ι) : List Event → Option (World ι)
  | [] => some w
  | event :: events =>
    if ok w event then (w.perform i event).bind fun w => performAll ok w i events else none

theorem run_of_performAll {ok : World ι → Event → Prop} [∀ w event, Decidable (ok w event)]
    {w w' : World ι} {i : ι} {events : List Event} (h : w.performAll ok i events = some w') :
    Run (Guarded Step fun w b => ok w b.2) w (events.map fun event => (i, event)) w' := by
  induction events generalizing w with
  | nil =>
    obtain rfl := Option.some.inj h
    exact .refl w
  | cons event events ih =>
    obtain ⟨hok, h⟩ := Option.ite_none_right_eq_some.mp h
    obtain ⟨w₁, hstep, h⟩ := Option.bind_eq_some_iff.mp h
    exact .cons ⟨hok, step_of_perform hstep⟩ (ih h)

/-- A condition that the events themselves meet is met in any run. -/
theorem run_guard {w w' : World ι} {as : List (ι × Event)} {ok ok' : World ι → ι × Event → Prop}
    (hok : ∀ b ∈ as, ∀ w : World ι, ok w b → ok' w b) (hrun : Run (Guarded Step ok) w as w') :
    Run (Guarded Step ok') w as w' := by
  induction hrun with
  | refl => exact .refl w
  | snoc _ hstep ih =>
    refine (ih fun b hb => hok b (List.mem_append_left _ hb)).snoc ⟨?_, hstep.2⟩
    exact hok _ (List.mem_append_right _ List.mem_cons_self) _ hstep.1

def start (cache : Xcache) : World ι := ⟨cache, fun _ => ⟨fun _ => 0, .idle⟩, ∅, ∅, ∅⟩

def gotten (w : World ι) (i : ι) (h : xcache_handler) (n : Nat) : World ι :=
  w.act i (w.cache.modify h fun ce => { ce with ref := ce.ref + UInt32.ofNat n })
    ⟨Function.update (w.clients i).held h ((w.clients i).held h + n), .idle⟩

theorem gotten_client (w : World ι) (i : ι) (h : xcache_handler) (n : Nat) :
    (w.gotten i h n).clients i =
      ⟨Function.update (w.clients i).held h ((w.clients i).held h + n), .idle⟩ :=
  Function.update_self ..

theorem gotten_zero {w : World ι} {i : ι} (h : xcache_handler) (hidle : (w.clients i).pc = .idle) :
    w.gotten i h 0 = w := by
  have hcache : (w.cache.modify h fun ce => { ce with ref := ce.ref + UInt32.ofNat 0 }) =
      w.cache := by
    have hentry : { w.cache.nodes h with ref := (w.cache.nodes h).ref + UInt32.ofNat 0 } =
        w.cache.nodes h := congrArg (fun r => { w.cache.nodes h with ref := r }) (UInt32.add_zero _)
    rw [modify, hentry, Function.update_eq_self]
  have hclient : (⟨Function.update (w.clients i).held h ((w.clients i).held h + 0), .idle⟩ :
      Client) = w.clients i := by
    rw [Nat.add_zero, Function.update_eq_self, ← hidle]
  rw [gotten, hcache, hclient, act, Function.update_eq_self]

theorem gotten_succ {w : World ι} {i : ι} {h : xcache_handler} (hne : h ≠ NoEntry) (n : Nat) :
    w.gotten i h (n + 1) = (w.gotten i h n).act i ((w.gotten i h n).cache.get h)
      ⟨hand ((w.gotten i h n).clients i).held h, .idle⟩ := by
  have hheld : hand ((w.gotten i h n).clients i).held h =
      Function.update (w.clients i).held h ((w.clients i).held h + (n + 1)) := by
    rw [gotten_client, hand, if_neg hne]
    dsimp only
    rw [Function.update_self, Function.update_idem, Nat.add_assoc]
  have hcache : (w.gotten i h n).cache.get h =
      w.cache.modify h fun ce => { ce with ref := ce.ref + UInt32.ofNat (n + 1) } := by
    simp only [gotten, act, get, entryGet, modify, Function.update_self, Function.update_idem,
      UInt32.add_assoc, UInt32.ofNat_add, UInt32.ofNat_one]
  rw [hheld, hcache]
  simp only [gotten, act, Function.update_idem]

theorem run_gets {w : World ι} {i : ι} {h : xcache_handler} (hidle : (w.clients i).pc = .idle)
    (hpos : 0 < (w.clients i).held h) (hne : h ≠ NoEntry) (hearly : w.Early) (n : Nat) :
    Run (Guarded Step fun w _ => w.Early) w (List.replicate n (i, .get h)) (w.gotten i h n) := by
  induction n with
  | zero =>
    rw [gotten_zero h hidle]
    exact .refl w
  | succ n ih =>
    rw [List.replicate_succ', gotten_succ hne]
    refine ih.snoc ⟨hearly, .get ?_ ?_⟩
    · rw [gotten_client]
    · rw [gotten_client]
      dsimp only
      rw [Function.update_self]
      omega

end World

end Xcache

end Libxseg
