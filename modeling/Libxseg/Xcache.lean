import Libxseg.Xbinheap
import Libxseg.Xhash
import Libxseg.Xq

/-!
# xcache

The cache of `xcache.c`. The two hash tables hold pointers to the names inside the
nodes, so a table's keys are `NamePtr`s and are read through the nodes as they are at
the time of the call. `none` is for a probe loop that does not end, as in `Xhash`.

The hooks in `ops` run outside the cache: which of them are set and the calls that were
made are kept, what they do is not. Messages to the log are left out. `Raw` in a name
is for the source's two underscores, and what another allocation holds before it is
written comes in as an argument.
-/

namespace Libxseg

set_option autoImplicit false

universe u v

def XCACHE_LRU_ARRAY : UInt32 := (1 : UInt32) <<< 0
def XCACHE_LRU_HEAP : UInt32 := (1 : UInt32) <<< 1
def XCACHE_USE_RMTABLE : UInt32 := (1 : UInt32) <<< 2

def XCACHE_LRU_MAX : UInt64 := 0xFFFFFFFFFFFFFFFF

def XSEG_MAX_TARGETLEN : Nat := 256

abbrev xcache_handler := xqindex

def NoEntry : xcache_handler := Noneidx

inductive NodeState where
  | NODE_ACTIVE
  | NODE_EVICTED
  deriving DecidableEq, Repr

/-- What `strncpy` leaves of a string in a buffer with room for `n` characters and the NUL. -/
def CString.take (string : CString) (n : Nat) : CString where
  chars := string.chars.take n
  noNul h := string.noNul (List.mem_of_mem_take h)
  short := Nat.lt_of_le_of_lt (List.length_take_le' n _) string.short

structure XcacheEntry where
  ref : UInt32
  state : NodeState
  name : CString
  h : Nat

/-- A `char *`: the name of a node, or a string of the caller. -/
inductive NamePtr where
  | node (idx : xqindex)
  | arg (name : CString)

def NamePtr.read (nodes : xqindex → XcacheEntry) : NamePtr → CString
  | .node idx => (nodes idx).name
  | .arg name => name

def TypesFunctions.comap {κ : Type u} {α : Type v} (tf : TypesFunctions κ) (read : α → κ) :
    TypesFunctions α where
  cmp_fun a b := tf.cmp_fun (read a) (read b)
  hash_fun a := tf.hash_fun (read a)
  cmp_refl _ := tf.cmp_refl _
  cmp_symm := tf.cmp_symm
  cmp_trans := tf.cmp_trans
  hash_eq := tf.hash_eq

abbrev nameFunctions (nodes : xqindex → XcacheEntry) : TypesFunctions NamePtr :=
  stringFunctions.comap (NamePtr.read nodes)

/-- The memory that `xtypes_malloc` finds for a table, if any. -/
abbrev TableMemory := Option (Nat → NamePtr)

def tableLookup (nodes : xqindex → XcacheEntry) (table : Xhash NamePtr) (name : NamePtr) :
    Option xcache_handler :=
  (table.lookup (nameFunctions nodes) name).map fun (r, xqi) =>
    if r < 0 then NoEntry else xqi.getD Noneidx

def tableInsert (nodes : xqindex → XcacheEntry) (table : Xhash NamePtr) (h : xcache_handler)
    (mem : TableMemory) : Option (Int × Xhash NamePtr) :=
  (table.insert (nameFunctions nodes) (.node h) h).bind fun (r, table) =>
    if r = -XHASH_ERESIZE then
      mem.elim (some (-1, table)) fun kvs0 =>
        (table.resize (nameFunctions nodes) table.size_shift table.limit kvs0).bind fun new =>
          (new.insert (nameFunctions nodes) (.node h) h).map fun (r, new) =>
            (if r = -XHASH_ERESIZE then -1 else r, new)
    else some (r, table)

def tableRemove (nodes : xqindex → XcacheEntry) (table : Xhash NamePtr) (name : NamePtr) :
    Option (Int × Xhash NamePtr) :=
  table.delete (nameFunctions nodes) name

/-- Which hooks are not NULL. -/
structure XcacheOps where
  on_init : Bool
  on_evict : Bool
  on_finalize : Bool
  on_reinsert : Bool
  on_put : Bool
  on_free : Bool
  on_node_init : Bool

inductive HookCall where
  | on_init (idx : xqindex)
  | on_evict (idx : xqindex)
  | on_finalize (idx : xqindex)
  | on_reinsert (idx : xqindex)
  | on_put (idx : xqindex)
  | on_free (idx : xqindex)
  deriving DecidableEq, Repr

structure Xcache where
  size : UInt32
  nr_nodes : UInt32
  free_nodes : Xq
  entries : Xhash NamePtr
  rm_entries : Xhash NamePtr
  nodes : xqindex → XcacheEntry
  time : UInt64
  times : xqindex → UInt64
  binheap : Xbinheap
  flags : UInt32
  ops : XcacheOps
  /-- Newest first. -/
  calls : List HookCall

namespace Xcache

def has (cache : Xcache) (flag : UInt32) : Bool := cache.flags &&& flag != 0

def modify (cache : Xcache) (idx : xqindex) (f : XcacheEntry → XcacheEntry) : Xcache :=
  { cache with nodes := Function.update cache.nodes idx (f (cache.nodes idx)) }

def call (cache : Xcache) (set : Bool) (hook : HookCall) : Xcache :=
  { cache with calls := if set then hook :: cache.calls else cache.calls }

def allocCacheEntry (cache : Xcache) : xqindex × Xcache :=
  let (idx, free_nodes) := cache.free_nodes.popHead
  (idx, { cache with free_nodes := free_nodes })

def freeCacheEntry (cache : Xcache) (idx : xqindex) : Xcache :=
  let (_, free_nodes) := cache.free_nodes.appendHead idx
  { cache with free_nodes := free_nodes }.call cache.ops.on_free (.on_free idx)

/-- One turn of the loop of `__reset_times` for `XCACHE_LRU_ARRAY`. -/
def resetTime (cache : Xcache) (i : Nat) : Xcache :=
  let idx := UInt64.ofNat i
  if cache.times idx ≠ XCACHE_LRU_MAX then
    { cache with times := Function.update cache.times idx cache.time, time := cache.time + 1 }
  else cache

/-- One turn of the loop of `__reset_times` for `XCACHE_LRU_HEAP`. -/
def resetKey (cache : Xcache) (i : Nat) : Xcache :=
  let ce := cache.nodes (UInt64.ofNat i)
  if ce.h = NoNode then cache
  else if cache.binheap.getkey ce.h < cache.time then
    { cache with binheap := cache.binheap.increasekey ce.h cache.time }
  else { cache with binheap := cache.binheap.decreasekey ce.h cache.time }

def resetTimes (cache : Xcache) : Xcache :=
  if cache.has XCACHE_LRU_ARRAY then (List.range cache.size.toNat).foldl resetTime cache
  else if cache.has XCACHE_LRU_HEAP then (List.range cache.size.toNat).foldl resetKey cache
  else cache

def updateAccessTime (cache : Xcache) (idx : xqindex) : Xcache :=
  let cache := { cache with time := cache.time + 1 }
  if cache.time = XCACHE_LRU_MAX then { cache with time := 0 }.resetTimes
  else if cache.has XCACHE_LRU_ARRAY then
    { cache with times := Function.update cache.times idx cache.time }
  else if cache.has XCACHE_LRU_HEAP then
    let ce := cache.nodes idx
    if ce.h ≠ NoNode then { cache with binheap := cache.binheap.increasekey ce.h cache.time }
    else
      let (h, binheap) := cache.binheap.insert cache.time idx
      { cache with binheap := binheap }.modify idx fun ce => { ce with h := h }
  else cache

def entryGet (cache : Xcache) (idx : xqindex) : Xcache :=
  cache.modify idx fun ce => { ce with ref := ce.ref + 1 }

def entryGetAndUpdate (cache : Xcache) (idx : xqindex) : Xcache :=
  (cache.entryGet idx).updateAccessTime idx

/-- What `__xcache_remove_entries` does once the name is out of the table. In the heap it
raises the key of the node and then takes out the smallest. -/
def forget (cache : Xcache) (h : xcache_handler) : Xcache :=
  let ce := cache.nodes h
  if cache.has XCACHE_LRU_ARRAY then
    { cache with times := Function.update cache.times h XCACHE_LRU_MAX }
  else if cache.has XCACHE_LRU_HEAP then
    if ce.h ≠ NoNode then
      let (_, binheap) := (cache.binheap.increasekey ce.h XCACHE_LRU_MAX).extract
      { cache with binheap := binheap }.modify h fun ce => { ce with h := NoNode }
    else cache
  else cache

def removeEntries (cache : Xcache) (h : xcache_handler) : Option (Int × Xcache) :=
  (tableRemove cache.nodes cache.entries (.node h)).map fun (r, entries) =>
    let cache := { cache with entries := entries }
    if r < 0 then (r, cache) else (0, cache.forget h)

def removeRm (cache : Xcache) (h : xcache_handler) : Option (Int × Xcache) :=
  (tableRemove cache.nodes cache.rm_entries (.node h)).map fun (r, rm_entries) =>
    (r, { cache with rm_entries := rm_entries })

def lookupRm (cache : Xcache) (name : NamePtr) : Option xcache_handler :=
  tableLookup cache.nodes cache.rm_entries name

def lookupEntries (cache : Xcache) (name : NamePtr) : Option xcache_handler :=
  tableLookup cache.nodes cache.entries name

def lookupAndGetEntries (cache : Xcache) (name : NamePtr) : Option (xcache_handler × Xcache) :=
  (cache.lookupEntries name).map fun h =>
    (h, if h ≠ NoEntry then cache.entryGetAndUpdate h else cache)

def insertRm (cache : Xcache) (h : xcache_handler) (mem : TableMemory) : Option (Int × Xcache) :=
  (tableInsert cache.nodes cache.rm_entries h mem).map fun (r, rm_entries) =>
    (r, { cache with rm_entries := rm_entries })

def insertEntries (cache : Xcache) (h : xcache_handler) (mem : TableMemory) :
    Option (Int × Xcache) :=
  (tableInsert cache.nodes cache.entries h mem).map fun (r, entries) =>
    (r, { cache with entries := entries })

/-- `xcache_entry_put` up to its last unlock: whether the node is to be freed. -/
def entryPutRef (cache : Xcache) (idx : xqindex) : Option (Bool × Xcache) :=
  let cache := cache.modify idx fun ce => { ce with ref := ce.ref - 1 }
  if (cache.nodes idx).ref > 0 then some (false, cache)
  else if cache.has XCACHE_USE_RMTABLE then
    let cache := cache.call cache.ops.on_finalize (.on_finalize idx)
    if (cache.nodes idx).ref ≠ 0 then some (false, cache)
    else (cache.removeRm idx).map fun (r, cache) => (decide (0 ≤ r), cache)
  else some (true, cache)

/-- The rest of `xcache_entry_put` for a node that is to be freed. -/
def entryPutFree (cache : Xcache) (idx : xqindex) : Xcache :=
  (cache.call cache.ops.on_put (.on_put idx)).freeCacheEntry idx

def entryPut (cache : Xcache) (idx : xqindex) : Option Xcache :=
  (cache.entryPutRef idx).map fun (last, cache) => if last then cache.entryPutFree idx else cache

/-- `r` is what `on_init` returns if it is set. -/
def entryInit (cache : Xcache) (idx : xqindex) (name : CString) (r : Int) : Int × Xcache :=
  let cache := cache.modify idx fun _ =>
    { ref := 1, state := .NODE_ACTIVE, name := name.take XSEG_MAX_TARGETLEN, h := NoNode }
  (if cache.ops.on_init then r else 0, cache.call cache.ops.on_init (.on_init idx))

def lruScan (times : xqindex → UInt64) (best : UInt64 × xqindex) (i : Nat) : UInt64 × xqindex :=
  let idx := UInt64.ofNat i
  if best.1 > times idx then (times idx, idx) else best

def lru (cache : Xcache) : xqindex × Xcache :=
  if cache.has XCACHE_LRU_ARRAY then
    (((List.range cache.nr_nodes.toNat).foldl (lruScan cache.times) (-2, Noneidx)).2, cache)
  else if cache.has XCACHE_LRU_HEAP then
    let (lru, binheap) := cache.binheap.extract
    let cache := { cache with binheap := binheap }
    if lru = .ofNat NoNode then (Noneidx, cache)
    else (lru, cache.modify lru fun ce => { ce with h := NoNode })
  else (Noneidx, cache)

def evict (cache : Xcache) (h : xcache_handler) (mem : TableMemory) : Option (Int × Xcache) :=
  (cache.removeEntries h).bind fun (r, cache) =>
    if r < 0 then some (-1, cache)
    else if !cache.has XCACHE_USE_RMTABLE then some (0, cache)
    else
      ((cache.modify h fun ce => { ce with state := .NODE_EVICTED }).insertRm h mem).map
        fun (r, cache) =>
          if r < 0 then (-1, cache.modify h fun ce => { ce with state := .NODE_ACTIVE })
          else (0, cache)

def evictLru (cache : Xcache) (mem : TableMemory) : Option (xcache_handler × Xcache) :=
  let (lru, cache) := cache.lru
  if lru = NoEntry then some (NoEntry, cache)
  else (cache.evict lru mem).map fun (r, cache) => (if r < 0 then NoEntry else lru, cache)

/-- What the rebuilds during one insertion find: of `entries` at first, of `rm_entries` for the
victim, of `entries` after the eviction. -/
structure InsertMemory where
  first : TableMemory
  victim : TableMemory
  second : TableMemory

/-- What `__xcache_insert` returns and writes through its two pointers. -/
structure InsertResult where
  ret : xcache_handler
  lru : xcache_handler
  reinsert : xcache_handler
  cache : Xcache

/-- The end of `__xcache_insert`, when the name may be in the table now. -/
def insertDone (cache : Xcache) (h lru reinsert : xcache_handler) (r : Int) : InsertResult :=
  if r ≥ 0 then ⟨h, lru, reinsert, cache.entryGetAndUpdate h⟩
  else ⟨NoEntry, lru, reinsert, cache⟩

def insertNew (cache : Xcache) (h reinsert : xcache_handler) (mem : InsertMemory) :
    Option InsertResult :=
  (cache.insertEntries h mem.first).bind fun (r, cache) =>
    if r = -XHASH_ENOSPC then
      (cache.evictLru mem.victim).bind fun (lru, cache) =>
        if lru = NoEntry then some ⟨NoEntry, NoEntry, reinsert, cache⟩
        else
          (cache.insertEntries h mem.second).map fun (r, cache) =>
            if r < 0 then ⟨NoEntry, lru, reinsert, cache⟩ else cache.insertDone h lru reinsert r
    else some (cache.insertDone h NoEntry reinsert r)

/-- Takes the entry that was found in `rm_entries` back. -/
def reinsertRm (cache : Xcache) (h : xcache_handler) : Option (Int × Xcache) :=
  (cache.removeRm h).map fun (r, cache) =>
    if r < 0 then (r, cache)
    else (r, (cache.modify h fun ce => { ce with state := .NODE_ACTIVE }).entryGet h)

def insertRaw (cache : Xcache) (h : xcache_handler) (mem : InsertMemory) :
    Option InsertResult :=
  (cache.lookupAndGetEntries (.node h)).bind fun (tmp_h, cache) =>
    if tmp_h ≠ NoEntry then some ⟨tmp_h, NoEntry, NoEntry, cache⟩
    else if !cache.has XCACHE_USE_RMTABLE then cache.insertNew h NoEntry mem
    else
      (cache.lookupRm (.node h)).bind fun tmp_h =>
        if tmp_h ≠ NoEntry then
          (cache.reinsertRm tmp_h).bind fun (r, cache) =>
            if r < 0 then some ⟨NoEntry, NoEntry, NoEntry, cache⟩
            else cache.insertNew tmp_h tmp_h mem
        else cache.insertNew h NoEntry mem

protected def insert (cache : Xcache) (h : xcache_handler) (mem : InsertMemory) :
    Option (xcache_handler × Xcache) :=
  (cache.insertRaw h mem).bind fun result =>
    let put := if result.lru ≠ NoEntry then
        (result.cache.call result.cache.ops.on_evict (.on_evict result.lru)).entryPut result.lru
      else some result.cache
    put.map fun cache =>
      (result.ret, if result.reinsert ≠ NoEntry then
        cache.call cache.ops.on_reinsert (.on_reinsert result.reinsert) else cache)

def lookup (cache : Xcache) (name : CString) : Option (xcache_handler × Xcache) :=
  cache.lookupAndGetEntries (.arg name)

def allocInit (cache : Xcache) (name : CString) (r : Int) : xcache_handler × Xcache :=
  let (idx, cache) := cache.allocCacheEntry
  if idx = Noneidx then (NoEntry, cache)
  else
    let (r, cache) := cache.entryInit idx name r
    if r < 0 then (NoEntry, cache.freeCacheEntry idx) else (idx, cache)

def remove (cache : Xcache) (h : xcache_handler) : Option (Int × Xcache) := cache.removeEntries h

/-- `xcache_invalidate` up to its last unlock, with the entry that is to be put. -/
def invalidateRaw (cache : Xcache) (name : CString) : Option (Int × xcache_handler × Xcache) :=
  (cache.lookupEntries (.arg name)).bind fun h =>
    if h ≠ NoEntry then
      (cache.removeEntries h).map fun (r, cache) => (r, if r ≥ 0 then h else NoEntry, cache)
    else if cache.has XCACHE_USE_RMTABLE then
      (cache.lookupRm (.arg name)).bind fun h =>
        if h ≠ NoEntry then (cache.removeRm h).map fun (r, cache) => (r, NoEntry, cache)
        else some (0, NoEntry, cache)
    else some (0, NoEntry, cache)

def get (cache : Xcache) (h : xcache_handler) : Xcache := cache.entryGet h

def put (cache : Xcache) (h : xcache_handler) : Option Xcache := cache.entryPut h

def invalidate (cache : Xcache) (name : CString) : Option (Int × Xcache) :=
  (cache.invalidateRaw name).bind fun (r, h, cache) =>
    if h ≠ NoEntry then (cache.put h).map fun cache => (r, cache) else some (r, cache)

/-- The first half of `xcache_free_new`; the node is then freed. -/
def dropNew (cache : Xcache) (h : xcache_handler) : Xcache :=
  cache.modify h fun ce => { ce with ref := 0 }

def freeNew (cache : Xcache) (h : xcache_handler) : Xcache := (cache.dropNew h).freeCacheEntry h

/-- What the memory held that `xcache_init` allocates. -/
structure InitMemory where
  queue : xqindex → xqindex
  entries : Nat → NamePtr
  rm_entries : Nat → NamePtr
  nodes : xqindex → XcacheEntry
  indexes : Nat → Nat
  heapNodes : Nat → XbinheapNode

def shiftOne (n : UInt64) : UInt32 := ((1 : Int32) <<< n.toUInt32.toInt32).toUInt32

variable [Builtins]

/-- The power of two that `xcache_init` takes for `cache->size`. -/
def roundSize (xcache_size : UInt32) : UInt32 :=
  let floor_size := shiftOne (32 - builtinClz xcache_size - 1)
  let ceil_size := shiftOne (32 - builtinClz xcache_size)
  if xcache_size - floor_size < ceil_size - xcache_size then floor_size else ceil_size

def tableShift (size : UInt32) : UInt64 :=
  let tmp_size := 3 * size / 2
  32 - builtinClz tmp_size + 3

/-- The cache of an `xcache_init` whose allocations and calls of `on_node_init` succeed. What its
flags do not ask for is not allocated and never used. -/
def init (xcache_size : UInt32) (ops : XcacheOps) (flags : UInt32) (mem : InitMemory) :
    Option Xcache :=
  if xcache_size = 0 then none
  else
    let size := roundSize xcache_size
    let nr_nodes := size * 2
    let shift := tableShift size
    some {
      size := size
      nr_nodes := nr_nodes
      free_nodes := Xq.initSeq nr_nodes.toUInt64 nr_nodes.toUInt64 mem.queue
      entries := Xhash.init shift.toNat size.toNat mem.entries
      rm_entries := Xhash.init shift.toNat size.toNat mem.rm_entries
      nodes := fun i =>
        if ops.on_node_init then { mem.nodes i with ref := 0 } else mem.nodes i
      time := 0
      times := fun _ => XCACHE_LRU_MAX
      binheap := Xbinheap.init size.toUInt64 XBINHEAP_MIN mem.indexes mem.heapNodes
      flags := flags
      ops := ops
      calls := [] }

end Xcache

end Libxseg
