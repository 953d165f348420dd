import Mathlib.Data.List.TakeWhile
import Libxseg.Hex
import Libxseg.Memory
import Libxseg.Transition
import Libxseg.Xobj
import Libxseg.XsegSpec

/-!
# xseg_posixfd: names of the pipes

The name of the pipe of a signal descriptor is written by the process that initialises it:
the digits of the address that the descriptor has there. The segment may be mapped at
another address in every process, so the name says where the descriptor is in the memory
of one process and not where it is in the segment.
-/

namespace Libxseg

set_option autoImplicit false

def POSIXFD_DIR : List UInt8 :=
  ascii ['/', 'd', 'e', 'v', '/', 's', 'h', 'm', '/', 'p', 'o', 's', 'i', 'x', 'f', 'd', '/']

def POSIXFD_DIR_LEN : Nat := 17

def POSIXFD_FILENAME_LEN : Nat := 2 * 8

structure PosixfdSignalDesc where
  signal_file : List UInt8
  fd : Int32
  flag : Int32
  length_eq : signal_file.length = POSIXFD_FILENAME_LEN

def getHex (h : UInt32) : UInt8 :=
  match h.toNat with
  | 0 | 1 | 2 | 3 | 4 | 5 | 6 | 7 | 8 | 9 => (h + 48).toUInt8
  | 10 => 97
  | 11 => 98
  | 12 => 99
  | 13 => 100
  | 14 => 101
  | 15 => 102
  | _ => 48

/-- The loop from the byte `i` on. -/
def hexlifyLoop : List UInt8 → Nat → List UInt8 → List UInt8
  | [], _, hex => hex
  | b :: data, i, hex =>
    let hex := hex.set (2 * i) (getHex ((b &&& 0xF0) >>> 4).toUInt32)
    let hex := hex.set (2 * i + 1) (getHex (b &&& 0x0F).toUInt32)
    hexlifyLoop data (i + 1) hex

def hexlify (data hex : List UInt8) : List UInt8 := hexlifyLoop data 0 hex

/-- The bytes of a pointer variable. -/
def pointerBytes (sd : UInt64) : List UInt8 :=
  (List.range 8).map (Memory.store64 (fun _ => 0) 0 sd.toNat)

theorem length_hexlifyLoop (data : List UInt8) (i : Nat) (hex : List UInt8) :
    (hexlifyLoop data i hex).length = hex.length := by
  induction data generalizing i hex with
  | nil => rfl
  | cons b data ih => rw [hexlifyLoop, ih, List.length_set, List.length_set]

def posixfdInitSignalDesc (sd : UInt64) (psd : PosixfdSignalDesc) : Int × PosixfdSignalDesc :=
  if sd = 0 then (-1, psd)
  else
    let signal_file := psd.signal_file.set 0 0
    let signal_file := hexlify (pointerBytes sd) signal_file
    (0, {
      signal_file := signal_file
      fd := -1
      flag := 0
      length_eq := (length_hexlifyLoop ..).trans ((List.length_set ..).trans psd.length_eq) })

/-- What `__get_filename` writes before its NUL. -/
def getFilename (psd : PosixfdSignalDesc) : List UInt8 :=
  strncpy POSIXFD_DIR POSIXFD_DIR_LEN ++
    strncpy (cstring psd.signal_file) POSIXFD_FILENAME_LEN

theorem getHex_digit : ∀ n < 16, getHex (.ofNat n) = Hex.digit n := by decide

theorem getHex_eq {h : UInt8} (hh : h.toNat < 16) : getHex h.toUInt32 = Hex.digit h.toNat := by
  have hword : h.toUInt32 = .ofNat h.toNat := by
    rw [← UInt32.toNat_inj, UInt8.toNat_toUInt32, UInt32.toNat_ofNat']
    omega
  rw [hword, getHex_digit _ hh]

theorem getHex_pair (b : UInt8) :
    [getHex ((b &&& 0xF0) >>> 4).toUInt32, getHex (b &&& 0x0F).toUInt32] = Hex.byteDigits b := by
  have hhigh : ((b &&& 0xF0) >>> 4).toNat = b.toNat / 16 := by
    have hlt := b.toNat_lt
    have hshift : ((b &&& 0xF0) >>> 4).toNat = (b.toNat &&& 0xF0) >>> 4 := rfl
    have hmask : (0xF0 >>> 4 : Nat) = 2 ^ 4 - 1 := rfl
    rw [hshift, Nat.shiftRight_and_distrib, hmask, Nat.and_two_pow_sub_one_eq_mod,
      Nat.shiftRight_eq_div_pow]
    omega
  have hlow : (b &&& 0x0F).toNat = b.toNat % 16 := Nat.and_two_pow_sub_one_eq_mod _ 4
  rw [getHex_eq (hhigh ▸ Hex.high_lt b), getHex_eq (hlow ▸ Hex.low_lt b), hhigh, hlow]
  rfl

theorem take_set_pair {l : List UInt8} {n : Nat} (hn : n + 2 ≤ l.length) (a b : UInt8) :
    ((l.set n a).set (n + 1) b).take (n + 2) = l.take n ++ [a, b] := by
  apply List.ext_getElem
  · simp only [List.length_take, List.length_set, List.length_append, List.length_cons,
      List.length_nil]
    omega
  · intro k hk _
    grind

theorem hexlifyLoop_eq (data : List UInt8) (i : Nat) (hex : List UInt8)
    (hlen : 2 * (i + data.length) ≤ hex.length) :
    hexlifyLoop data i hex =
      hex.take (2 * i) ++ Hex.ofBytes data ++ hex.drop (2 * (i + data.length)) := by
  induction data generalizing i hex with
  | nil => exact ((List.append_assoc ..).trans (List.take_append_drop ..)).symm
  | cons b data ih =>
    rw [List.length_cons] at hlen ⊢
    have hpair := take_set_pair (l := hex) (n := 2 * i) (by omega)
      (getHex ((b &&& 0xF0) >>> 4).toUInt32) (getHex (b &&& 0x0F).toUInt32)
    rw [getHex_pair] at hpair
    rw [hexlifyLoop, ih _ _ (by rw [List.length_set, List.length_set]; omega),
      List.drop_set_of_lt (by omega), List.drop_set_of_lt (by omega), Nat.mul_succ, hpair,
      Nat.add_right_comm, Nat.add_assoc i]
    simp only [Hex.ofBytes, List.flatMap_cons, List.append_assoc]

theorem hexlify_eq {data hex : List UInt8} (hlen : hex.length = 2 * data.length) :
    hexlify data hex = Hex.ofBytes data := by
  rw [hexlify, hexlifyLoop_eq data 0 hex (by omega), Nat.mul_zero, List.take_zero,
    List.nil_append, Nat.zero_add, List.drop_of_length_le hlen.le, List.append_nil]

theorem pointerBytes_inj {p q : UInt64} (h : pointerBytes p = pointerBytes q) : p = q := by
  have hbyte : ∀ x, 0 ≤ x → x < 0 + 8 →
      Memory.store64 (fun _ => 0) 0 p.toNat x = Memory.store64 (fun _ => 0) 0 q.toNat x := by
    intro x _ hx
    exact List.map_eq_map_iff.mp h x (List.mem_range.mpr (by omega))
  have hload := Memory.load64_congr hbyte
  rw [Memory.load64_store64_same p.toNat_lt, Memory.load64_store64_same q.toNat_lt] at hload
  exact UInt64.toNat_inj.mp hload

theorem posixfdInitSignalDesc_signal_file {sd : UInt64} (hsd : sd ≠ 0) (psd : PosixfdSignalDesc) :
    (posixfdInitSignalDesc sd psd).2.signal_file = Hex.ofBytes (pointerBytes sd) := by
  rw [posixfdInitSignalDesc, if_neg hsd]
  apply hexlify_eq
  rw [List.length_set, psd.length_eq]
  rfl

theorem getFilename_eq {psd : PosixfdSignalDesc} {bytes : List UInt8}
    (hfile : psd.signal_file = Hex.ofBytes bytes) :
    getFilename psd = POSIXFD_DIR ++ psd.signal_file := by
  have hcstring : cstring psd.signal_file = psd.signal_file := by
    apply List.takeWhile_eq_self_iff.mpr
    intro c hc
    rw [hfile] at hc
    exact decide_eq_true (Hex.ne_zero_of_mem_ofBytes hc)
  have hdir : strncpy POSIXFD_DIR POSIXFD_DIR_LEN = POSIXFD_DIR := rfl
  rw [getFilename, hdir, hcstring, strncpy, psd.length_eq, Nat.sub_self,
    List.take_of_length_le psd.length_eq.le, List.replicate_zero, List.append_nil]

inductive PosixfdDescEvent (π : Type) where
  /-- a descriptor from the object handler is initialised by a process that binds a port -/
  | init (p : π) (sd : xptr) (ret : Int)
  /-- the pipe is opened or closed, or the flag is set -/
  | use (sd : xptr) (fd flag : Int32)
  /-- it goes back to the object handler, which keeps something else there -/
  | free (sd : xptr) (left : PosixfdSignalDesc)

/-- The descriptors by their offsets, and for the live ones the process that initialised it. -/
structure PosixfdDescs (π : Type) where
  descs : xptr → PosixfdSignalDesc
  live : xptr → Option π

namespace PosixfdDescs
variable {π : Type} {base : π → UInt64} {w w' : PosixfdDescs π} {sd sd' : xptr} {p p' : π}

def put (w : PosixfdDescs π) (sd : xptr) (desc : PosixfdSignalDesc) (owner : Option π) :
    PosixfdDescs π :=
  ⟨Function.update w.descs sd desc, Function.update w.live sd owner⟩

/-- What a call does, if it can be made. A descriptor that cannot be initialised is freed. -/
def perform (base : π → UInt64) (w : PosixfdDescs π) :
    PosixfdDescEvent π → Option (PosixfdDescs π)
  | .init p sd ret =>
    if w.live sd = none ∧ (posixfdInitSignalDesc (base p + sd) (w.descs sd)).1 = ret then
      let desc := (posixfdInitSignalDesc (base p + sd) (w.descs sd)).2
      some (w.put sd desc (if ret < 0 then none else some p))
    else none
  | .use sd fd flag =>
    if w.live sd = none then none
    else some (w.put sd { w.descs sd with fd := fd, flag := flag } (w.live sd))
  | .free sd left => some (w.put sd left none)

def Step (base : π → UInt64) (w : PosixfdDescs π) (e : PosixfdDescEvent π)
    (w' : PosixfdDescs π) : Prop :=
  w.perform base e = some w'

def NamesUnique (w : PosixfdDescs π) : Prop :=
  ∀ sd sd', sd ≠ sd' → w.live sd ≠ none → w.live sd' ≠ none →
    getFilename (w.descs sd) ≠ getFilename (w.descs sd')

/-- Distinct live descriptors are at different addresses, each in the process that initialised
it. -/
def AddressesUnique (base : π → UInt64) (w : PosixfdDescs π) : Prop :=
  ∀ sd sd' p p', sd ≠ sd' → w.live sd = some p → w.live sd' = some p' →
    base p + sd ≠ base p' + sd'

/-- A live descriptor has the digits of its address in the process that initialised it. -/
def Inv (base : π → UInt64) (w : PosixfdDescs π) : Prop :=
  ∀ sd p, w.live sd = some p →
    (w.descs sd).signal_file = Hex.ofBytes (pointerBytes (base p + sd))

theorem Inv.put (h : w.Inv base) {desc : PosixfdSignalDesc} {owner : Option π}
    (hdesc : ∀ p, owner = some p → desc.signal_file = Hex.ofBytes (pointerBytes (base p + sd))) :
    (w.put sd desc owner).Inv base := by
  intro other p hlive
  by_cases hother : other = sd
  · subst hother
    dsimp only [PosixfdDescs.put] at hlive ⊢
    rw [Function.update_self] at hlive ⊢
    exact hdesc p hlive
  · dsimp only [PosixfdDescs.put] at hlive ⊢
    rw [Function.update_of_ne hother] at hlive ⊢
    exact h other p hlive

theorem Inv.step {e : PosixfdDescEvent π} (h : w.Inv base) (hstep : w.Step base e w') :
    w'.Inv base := by
  cases e with
  | init p sd ret =>
    obtain ⟨⟨-, hret⟩, rfl⟩ := of_ite_some hstep
    apply h.put
    intro q hq
    obtain ⟨hlt, hpq⟩ := Option.ite_none_left_eq_some.mp hq
    obtain rfl := Option.some.inj hpq
    apply posixfdInitSignalDesc_signal_file
    intro hnull
    rw [posixfdInitSignalDesc, if_pos hnull] at hret
    omega
  | use sd fd flag =>
    obtain ⟨-, hput⟩ := Option.ite_none_left_eq_some.mp hstep
    obtain rfl := Option.some.inj hput
    exact h.put fun p hp => h sd p hp
  | free sd left =>
    obtain rfl := Option.some.inj hstep
    exact h.put fun p hp => absurd hp.symm (Option.some_ne_none p)

theorem Inv.getFilename_eq_iff (h : w.Inv base) (hp : w.live sd = some p)
    (hp' : w.live sd' = some p') :
    getFilename (w.descs sd) = getFilename (w.descs sd') ↔ base p + sd = base p' + sd' := by
  rw [getFilename_eq (h sd p hp), getFilename_eq (h sd' p' hp'), List.append_cancel_left_eq,
    h sd p hp, h sd' p' hp']
  constructor
  · exact fun heq => pointerBytes_inj (Hex.ofBytes_inj heq)
  · exact fun heq => by rw [heq]

theorem run_names_unique_iff {es : List (PosixfdDescEvent π)} {w₀ : PosixfdDescs π}
    (hfresh : w₀.live = fun _ => none) (hrun : Run (Step base) w₀ es w) :
    w.NamesUnique ↔ w.AddressesUnique base := by
  have hinv : w.Inv base :=
    hrun.invariant Inv.step fun sd p hlive => by simp [hfresh] at hlive
  constructor
  · intro hnames sd sd' p p' hne hp hp' haddr
    apply hnames sd sd' hne (by simp [hp]) (by simp [hp'])
    exact (hinv.getFilename_eq_iff hp hp').mpr haddr
  · intro haddrs sd sd' hne hlive hlive' hname
    obtain ⟨p, hp⟩ := Option.ne_none_iff_exists'.mp hlive
    obtain ⟨p', hp'⟩ := Option.ne_none_iff_exists'.mp hlive'
    exact haddrs sd sd' p p' hne hp hp' ((hinv.getFilename_eq_iff hp hp').mp hname)

section Pair

def pairBase : Fin 2 → UInt64
  | 0 => 0x7f0000003000
  | 1 => 0x7f0000000000

def blankDesc : PosixfdSignalDesc := ⟨List.replicate 16 0, 0, 0, rfl⟩

def blank : PosixfdDescs (Fin 2) := ⟨fun _ => blankDesc, fun _ => none⟩

def pairInit {π : Type} (p p' : π) (sd sd' : xptr) : List (PosixfdDescEvent π) :=
  [.init p sd 0, .init p' sd' 0]

theorem run_pairInit (sd sd' : xptr) (check : PosixfdDescs (Fin 2) → Bool)
    (hexec : (execute (perform pairBase) (fun _ _ => True) blank (pairInit 0 1 sd sd')).any
      check = true) :
    ∃ w, Run (Step pairBase) blank (pairInit 0 1 sd sd') w ∧ check w = true := by
  obtain ⟨w, hrun, hend⟩ := Run.of_execute_any (fun _ _ _ h => (h : Step pairBase _ _ _)) hexec
  exact ⟨w, hrun.mono fun h => h.2, hend⟩

theorem run_names_unique_pair : ∃ w, Run (Step pairBase) blank (pairInit 0 1 0x3000 0x3018) w ∧
    (w.NamesUnique ↔ w.AddressesUnique pairBase) := by
  obtain ⟨w, hrun, -⟩ := run_pairInit 0x3000 0x3018 (fun _ => true) (by decide)
  exact ⟨w, hrun, run_names_unique_iff rfl hrun⟩

theorem not_run_names_unique : ∃ (base : Fin 2 → UInt64) (es : List (PosixfdDescEvent (Fin 2)))
    (w : PosixfdDescs (Fin 2)), Run (Step base) blank es w ∧ ¬ w.NamesUnique := by
  obtain ⟨w, hrun, hend⟩ := run_pairInit 0x3000 0x6000
    (fun w => w.live 0x3000 = some 0 ∧ w.live 0x6000 = some 1) (by decide)
  obtain ⟨hzero, hone⟩ := of_decide_eq_true hend
  have hinv : w.Inv pairBase :=
    hrun.invariant Inv.step fun sd p hlive => absurd hlive.symm (Option.some_ne_none p)
  refine ⟨pairBase, _, w, hrun, ?_⟩
  intro hnames
  apply hnames 0x3000 0x6000 (by decide) (by simp [hzero]) (by simp [hone])
  exact (hinv.getFilename_eq_iff hzero hone).mpr (by decide)

end Pair

end PosixfdDescs

end Libxseg
