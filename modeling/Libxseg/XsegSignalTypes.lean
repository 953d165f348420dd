import Mathlib.Data.Fin.Tuple.Basic
import Mathlib.Data.List.FinRange

/-!
# The signal descriptors of xseg_posix and xseg_pthread

A thread that is about to wait writes the thread id that `local_signal_init` has left into the
descriptor of its port, and `xseg_signal` sends SIGIO to the first thread id that it finds there.
The two types differ in the number of ids that there is room for, and in where the id is left:
xseg_posix has one variable for the whole process.
-/

namespace Libxseg

set_option autoImplicit false

abbrev pid_t := Int32

/-- What the calls of a type do to a descriptor, and which of its slots `xseg_signal` reads. -/
structure SignalType (D σ : Type) [DecidableEq σ] where
  init : D
  prepareWait : D → σ → pid_t → D
  cancelWait : D → σ → pid_t → D
  /-- `local_signal_init` leaves the id in a variable of the process, not of the thread -/
  shared : Bool
  cue : D → σ → pid_t
  slots : List σ
  cue_init : ∀ s, cue init s = 0
  cue_prepareWait : ∀ d s {pid}, pid ≠ 0 →
    cue (prepareWait d s pid) = Function.update (cue d) s pid
  cue_cancelWait : ∀ d s pid, cue (cancelWait d s pid) = cue d ∨
    cue (cancelWait d s pid) = Function.update (cue d) s 0
  mem_slots : ∀ s, s ∈ slots

structure PosixSignalDesc where
  waitcue : UInt64

/-- `posix_prepare_wait`, where the static `pid` of the process is this one -/
def posixPrepareWait (_psd : PosixSignalDesc) (pid : pid_t) : PosixSignalDesc :=
  ⟨pid.toInt64.toUInt64⟩

def posixCancelWait (_psd : PosixSignalDesc) : PosixSignalDesc := ⟨0⟩

/-- The cue of `posix_signal`. -/
def posixCue (psd : PosixSignalDesc) : pid_t := psd.waitcue.toUInt32.toInt32

theorem posixCue_prepareWait (psd : PosixSignalDesc) (pid : pid_t) :
    posixCue (posixPrepareWait psd pid) = pid := by
  rw [posixCue, posixPrepareWait, ← Int32.toBitVec_inj]
  simp only [UInt32.toBitVec_toInt32, UInt64.toBitVec_toUInt32, Int64.toBitVec_toUInt64,
    Int32.toBitVec_toInt64]
  ext i hi
  have hlt : i < 64 := by omega
  rw [BitVec.getElem_setWidth, BitVec.getLsbD_signExtend, if_pos hi, decide_eq_true hlt,
    Bool.true_and, BitVec.getLsbD_eq_getElem]

def xsegPosix : SignalType PosixSignalDesc Unit where
  init := ⟨0⟩
  prepareWait psd _ pid := posixPrepareWait psd pid
  cancelWait psd _ _ := posixCancelWait psd
  shared := true
  cue psd _ := posixCue psd
  slots := [()]
  cue_init _ := rfl
  cue_prepareWait psd _ pid _ := by
    funext s
    rw [posixCue_prepareWait, Function.update_self]
  cue_cancelWait psd _ _ := by
    right
    funext s
    rw [Function.update_self]
    rfl
  mem_slots _ := List.mem_singleton_self _

def MAX_WAITERS : Nat := 64

structure PthreadSignalDesc where
  pids : Fin MAX_WAITERS → pid_t

def pthreadInitSignalDesc : PthreadSignalDesc := ⟨fun _ => 0⟩

/-- `pthread_prepare_wait`, where the thread has these values for `id_key` and `pid_key` -/
def pthreadPrepareWait (psd : PthreadSignalDesc) (my_id : Fin MAX_WAITERS) (pid : pid_t) :
    PthreadSignalDesc :=
  if pid = 0 then psd else ⟨Function.update psd.pids my_id pid⟩

def pthreadCancelWait (psd : PthreadSignalDesc) (my_id : Fin MAX_WAITERS) (pid : pid_t) :
    PthreadSignalDesc :=
  if pid = 0 then psd else ⟨Function.update psd.pids my_id 0⟩

def xsegPthread : SignalType PthreadSignalDesc (Fin MAX_WAITERS) where
  init := pthreadInitSignalDesc
  prepareWait := pthreadPrepareWait
  cancelWait := pthreadCancelWait
  shared := false
  cue psd := psd.pids
  slots := List.finRange MAX_WAITERS
  cue_init _ := rfl
  cue_prepareWait psd s pid hpid := by
    rw [pthreadPrepareWait, if_neg hpid]
  cue_cancelWait psd s pid := by
    unfold pthreadCancelWait
    split
    · exact .inl rfl
    · exact .inr rfl
  mem_slots := List.mem_finRange

end Libxseg
