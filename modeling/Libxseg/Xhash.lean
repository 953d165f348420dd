import Mathlib.Algebra.Group.Nat.Defs
import Mathlib.Logic.Function.Basic

/-!
# xhash

The open-addressing table of `xhash.c` as the build configures it: `VAL_OVERLOAD`
puts the two marks of a free slot into the value array. A table is generic in
its keys; `typesFun` has the two instances of the source.

Every probe loop of the source walks until some slot stops it, and nothing in the
source bounds the walk. `walk` gives up when the sequence has met every slot, so
`none` stands for a call that does not return (`Xhash.walkFrom_eq_none`). `Raw` in a
name is for the source's two underscores.
-/

namespace Libxseg

set_option autoImplicit false

universe u

abbrev xhashidx := UInt64

def Noxhashidx : xhashidx := ~~~0

def UNUSED : xhashidx := ~~~0

def DUMMY : xhashidx := ~~~0 - 1

def PERTURB_SHIFT : Nat := 5

def XHASH_ERESIZE : Int := 1
def XHASH_EEXIST : Int := 2
def XHASH_ENOSPC : Int := 3
def XHASH_ENOENT : Int := 4

structure TypesFunctions (κ : Type u) where
  cmp_fun : κ → κ → Bool
  hash_fun : κ → xhashidx
  cmp_refl : ∀ a, cmp_fun a a = true
  cmp_symm : ∀ {a b}, cmp_fun a b = true → cmp_fun b a = true
  cmp_trans : ∀ {a b c}, cmp_fun a b = true → cmp_fun b c = true → cmp_fun a c = true
  hash_eq : ∀ {a b}, cmp_fun a b = true → hash_fun a = hash_fun b

/-- What a key of type `XHASH_STRING` points to, up to its NUL. The hash function keeps the
length in an `unsigned int` and counts past it. -/
structure CString where
  chars : List Int8
  noNul : 0 ∉ chars
  short : chars.length < 2 ^ 32 - 1
  deriving DecidableEq

def hashInt (key : xhashidx) : xhashidx := key

def cmpInt (key1 key2 : xhashidx) : Bool := key1 == key2

/-- `string[i]` for an index up to the NUL. -/
def CString.char (string : CString) (i : Nat) : Int8 := string.chars[i]?.getD 0

def hashString (string : CString) : xhashidx :=
  let hv := ((string.char 0).toInt32 <<< 7).toInt64.toUInt64
  let hv := (List.range' 1 string.chars.length).foldl
    (fun hv i => hv * 1000003 ^^^ (string.char i).toInt64.toUInt64) hv
  if hv = Noxhashidx then Noxhashidx - 1 else hv

def cmpString (string1 string2 : CString) : Bool := string1 = string2

def integerFunctions : TypesFunctions xhashidx where
  cmp_fun := cmpInt
  hash_fun := hashInt
  cmp_refl := by simp [cmpInt]
  cmp_symm := by simp [cmpInt]
  cmp_trans := by simp +contextual [cmpInt]
  hash_eq := by simp +contextual [cmpInt]

def stringFunctions : TypesFunctions CString where
  cmp_fun := cmpString
  hash_fun := hashString
  cmp_refl := by simp [cmpString]
  cmp_symm h := by simpa [cmpString, eq_comm] using h
  cmp_trans := by simp +contextual [cmpString]
  hash_eq := by simp +contextual [cmpString]

inductive XhashType where
  | integer
  | string
  deriving DecidableEq, Repr

abbrev XhashType.Key : XhashType → Type
  | .integer => xhashidx
  | .string => CString

def typesFun : (type : XhashType) → TypesFunctions type.Key
  | .integer => integerFunctions
  | .string => stringFunctions

def nextIdx (mask idx perturb : Nat) : Nat := ((idx <<< 2) + idx + 1 + perturb) &&& mask

def walk (mask : Nat) (stop : Nat → Bool) : Nat → Nat → Nat → Option Nat
  | 0, _, _ => none
  | fuel + 1, idx, perturb =>
    if stop idx then some idx
    else walk mask stop fuel (nextIdx mask idx perturb) (perturb >>> PERTURB_SHIFT)

structure Xhash (κ : Type u) where
  size_shift : Nat
  minsize_shift : Nat
  used : Nat
  dummies : Nat
  limit : Nat
  kvs : Nat → κ
  vals : Nat → xhashidx

namespace Xhash
variable {κ : Type u}

def size (xhash : Xhash κ) : Nat := 1 <<< xhash.size_shift

def itemDummy (xhash : Xhash κ) (idx : Nat) : Bool := xhash.vals idx == DUMMY

def itemUnused (xhash : Xhash κ) (idx : Nat) : Bool := xhash.vals idx == UNUSED

def itemValid (xhash : Xhash κ) (idx : Nat) : Bool :=
  !(xhash.itemDummy idx || xhash.itemUnused idx)

/-- The walk from a key's first slot. Thirteen shifts empty a 64-bit `perturb`, and the bare
sequence then meets every slot within `size` steps. -/
def walkFrom (xhash : Xhash κ) (hash : xhashidx) (stop : Nat → Bool) : Option Nat :=
  let mask := xhash.size - 1
  walk mask stop (xhash.size + 13) (hash.toNat &&& mask) hash.toNat

/-- `kvs0` is what the memory of the keys held before. -/
def initRaw (size_shift minsize_shift limit : Nat) (kvs0 : Nat → κ) : Xhash κ where
  size_shift := size_shift
  minsize_shift := minsize_shift
  used := 0
  dummies := 0
  limit := limit
  kvs := kvs0
  vals := fun _ => UNUSED

def init (minsize_shift limit : Nat) (kvs0 : Nat → κ) : Xhash κ :=
  initRaw minsize_shift minsize_shift limit kvs0

def setDummyItem (xhash : Xhash κ) (idx : Nat) : Xhash κ :=
  { xhash with vals := Function.update xhash.vals idx DUMMY }

/-- What `xhash_delete__` does at the slot it has found. -/
def deleteAt (xhash : Xhash κ) (idx : Nat) : Xhash κ :=
  { xhash.setDummyItem idx with dummies := xhash.dummies + 1, used := xhash.used - 1 }

def deleteRaw (tf : TypesFunctions κ) (xhash : Xhash κ) (key : κ) : Option (Int × Xhash κ) :=
  (xhash.walkFrom (tf.hash_fun key) fun idx =>
      xhash.itemUnused idx || (!xhash.itemDummy idx && tf.cmp_fun (xhash.kvs idx) key)).map
    fun idx =>
      if xhash.itemUnused idx then (-XHASH_ENOENT, xhash) else (0, xhash.deleteAt idx)

def growSizeShift (xhash : Xhash κ) : Nat :=
  let u := xhash.used
  if u / 2 + u ≥ 1 <<< xhash.size_shift then xhash.size_shift + 1 else xhash.size_shift

def shrinkSizeShift (xhash : Xhash κ) : Nat :=
  let new_size_shift := xhash.size_shift - 1
  if new_size_shift < xhash.minsize_shift then xhash.minsize_shift else new_size_shift

def growCheck (xhash : Xhash κ) : Bool :=
  let u := xhash.used + xhash.dummies
  u / 2 + u ≥ 1 <<< xhash.size_shift

def shrinkCheck (xhash : Xhash κ) : Bool :=
  4 * xhash.used < 1 <<< xhash.size_shift ∧ xhash.size_shift > xhash.minsize_shift

def setVal (p : Xhash κ) (idx : Nat) (key : κ) (val : xhashidx) : Xhash κ :=
  { p with kvs := Function.update p.kvs idx key, vals := Function.update p.vals idx val }

def updSet (p : Xhash κ) (idx : Nat) (key : κ) (val : xhashidx) : Xhash κ :=
  { p.setVal idx key val with
    dummies := if p.itemDummy idx then p.dummies - 1 else p.dummies
    used := p.used + 1 }

def incVal (p : Xhash κ) (idx : Nat) (val : xhashidx) : Xhash κ :=
  { p with vals := Function.update p.vals idx (p.vals idx + val) }

/-- The macro `PHASH_UPDATE`. `set` is what it does at a free slot, if it stops there at all. -/
def phashUpdate (tf : TypesFunctions κ) (xhash : Xhash κ) (key : κ) (update : Nat → Xhash κ)
    (set : Option (Nat → Xhash κ)) : Option (Xhash κ) :=
  (xhash.walkFrom (tf.hash_fun key) fun idx =>
      if xhash.itemValid idx then tf.cmp_fun (xhash.kvs idx) key else set.isSome).map
    fun idx => if xhash.itemValid idx then update idx else set.elim xhash (· idx)

def insertRaw (tf : TypesFunctions κ) (xhash : Xhash κ) (key : κ) (val : xhashidx) :
    Option (Xhash κ) :=
  xhash.phashUpdate tf key (xhash.setVal · key val) (some (xhash.updSet · key val))

def insert (tf : TypesFunctions κ) (xhash : Xhash κ) (key : κ) (val : xhashidx) :
    Option (Int × Xhash κ) :=
  if xhash.limit ≠ 0 ∧ xhash.used ≥ xhash.limit then some (-XHASH_ENOSPC, xhash)
  else if xhash.growCheck then some (-XHASH_ERESIZE, xhash)
  else (xhash.insertRaw tf key val).map ((0, ·))

def freqlUpdateRaw (tf : TypesFunctions κ) (xhash : Xhash κ) (key : κ) (val : xhashidx) :
    Option (Xhash κ) :=
  xhash.phashUpdate tf key (xhash.incVal · val) (some (xhash.updSet · key val))

def freqlUpdate (tf : TypesFunctions κ) (xhash : Xhash κ) (key : κ) (val : xhashidx) :
    Option (Int × Xhash κ) :=
  if xhash.growCheck then some (-XHASH_ERESIZE, xhash)
  else (xhash.freqlUpdateRaw tf key val).map ((0, ·))

def resizeCopy (tf : TypesFunctions κ) (xhash new : Xhash κ) (i : Nat) : Option (Xhash κ) :=
  if xhash.itemValid i then new.insertRaw tf (xhash.kvs i) (xhash.vals i) else some new

/-- `xhash_resize` once it has memory with room for the new table. -/
def resize (tf : TypesFunctions κ) (xhash : Xhash κ) (new_size_shift new_limit : Nat)
    (kvs0 : Nat → κ) : Option (Xhash κ) :=
  (List.range xhash.size).foldlM (xhash.resizeCopy tf)
    (initRaw new_size_shift xhash.minsize_shift new_limit kvs0)

/-- A free slot does not stop this one: it runs on until it meets the key. -/
def update (tf : TypesFunctions κ) (xhash : Xhash κ) (key : κ) (val : xhashidx) :
    Option (Int × Xhash κ) :=
  (xhash.phashUpdate tf key (xhash.setVal · key val) none).map ((1, ·))

def delete (tf : TypesFunctions κ) (xhash : Xhash κ) (key : κ) : Option (Int × Xhash κ) :=
  if xhash.shrinkCheck then some (-XHASH_ERESIZE, xhash) else xhash.deleteRaw tf key

def lookupRaw (tf : TypesFunctions κ) (xhash : Xhash κ) (key : κ) : Option (Int × Nat) :=
  (xhash.walkFrom (tf.hash_fun key) fun idx =>
      xhash.itemUnused idx || (!xhash.itemDummy idx && tf.cmp_fun (xhash.kvs idx) key)).map
    fun idx => if xhash.itemUnused idx then (-XHASH_EEXIST, idx) else (0, idx)

/-- The value is written only when the key was found. -/
def lookup (tf : TypesFunctions κ) (xhash : Xhash κ) (key : κ) :
    Option (Int × Option xhashidx) :=
  (xhash.lookupRaw tf key).map fun (ret, idx) =>
    (ret, if ret = 0 then some (xhash.vals idx) else none)

end Xhash

end Libxseg
