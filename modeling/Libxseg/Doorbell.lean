import Mathlib.Logic.Function.Basic
import Mathlib.Data.List.Basic

/-!
# Sleepers and ringers

Sleepers wait for work. Before a sleeper goes to sleep it writes its name into its own slot of a
board, and then it looks for work once more. Whoever puts work down goes through the slots of the
board afterwards and rings for the first name that it finds. Rings are kept: one that reaches a
sleeper who is awake ends its next sleep.

`Heard` is what such a system keeps: while there is work, some sleeper is awake or has been rung
for, or somebody is still on the way to ring.
-/

namespace Libxseg

set_option autoImplicit false

universe u v w x

inductive Sleeper where
  | awake
  /-- its name is in its slot, and it has still to look for work -/
  | signed
  | asleep
  deriving DecidableEq

inductive Ringer (β : Type w) (ν : Type x) where
  | away
  /-- the slots that are still to be read -/
  | reading (rest : List β)
  | ringing (n : ν)

structure Doorbell (ι : Type u) (κ : Type v) (β : Type w) (ν : Type x) where
  work : Prop
  board : β → Option ν
  sleepers : ι → Sleeper
  rung : ι → Prop
  ringers : κ → Ringer β ν

structure Register (ι : Type u) (β : Type w) (ν : Type x) where
  slot : ι → β
  name : ι → ν
  slot_injective : Function.Injective slot

namespace Doorbell
variable {ι : Type u} {κ : Type v} {β : Type w} {ν : Type x}

def Reaches (reg : Register ι β ν) : Ringer β ν → Prop
  | .away => False
  | .reading rest => ∃ i, reg.slot i ∈ rest
  | .ringing n => ∃ i, reg.name i = n

structure Heard (reg : Register ι β ν) (d : Doorbell ι κ β ν) : Prop where
  signed : ∀ i, d.sleepers i ≠ .awake → d.board (reg.slot i) = some (reg.name i)
  known : ∀ s n, d.board s = some n → ∃ i, reg.name i = n
  work : d.work → (∃ i, d.sleepers i ≠ .asleep) ∨ (∃ i, d.rung i) ∨
    ∃ k, Reaches reg (d.ringers k)

variable {reg : Register ι β ν} {d : Doorbell ι κ β ν} {i : ι} {k : κ}

theorem heard_start (hboard : ∀ s, d.board s = none) (hsleepers : ∀ i, d.sleepers i = .awake)
    (hwork : ¬ d.work) : Heard reg d where
  signed i hi := absurd (hsleepers i) hi
  known s n hs := by
    rw [hboard s] at hs
    cases hs
  work h := absurd h hwork

theorem Heard.take (h : Heard reg d) {work : Prop} (hwork : work → d.work) :
    Heard reg { d with work := work } where
  signed := h.signed
  known := h.known
  work hw := h.work (hwork hw)

theorem slot_ne (reg : Register ι β ν) {j : ι} (h : j ≠ i) : reg.slot j ≠ reg.slot i :=
  fun hs => h (reg.slot_injective hs)

section Sleepers
variable [DecidableEq ι]

def sleep (d : Doorbell ι κ β ν) (i : ι) : Doorbell ι κ β ν :=
  { d with sleepers := Function.update d.sleepers i .asleep }

def wake (d : Doorbell ι κ β ν) (i : ι) (rung : Prop) : Doorbell ι κ β ν :=
  { d with
    sleepers := Function.update d.sleepers i .awake
    rung := Function.update d.rung i rung }

theorem sleep_sleepers (d : Doorbell ι κ β ν) (i : ι) :
    (d.sleep i).sleepers = Function.update d.sleepers i .asleep := rfl

theorem wake_sleepers (d : Doorbell ι κ β ν) (i : ι) (rung : Prop) :
    (d.wake i rung).sleepers = Function.update d.sleepers i .awake := rfl

theorem Heard.sleep (h : Heard reg d) (hsigned : d.sleepers i = .signed) (hwork : ¬ d.work) :
    Heard reg (d.sleep i) := by
  refine ⟨fun j hj => ?_, h.known, fun hw => absurd hw hwork⟩
  by_cases hji : j = i
  · subst hji
    exact h.signed j (by rw [hsigned]; exact Sleeper.noConfusion)
  · rw [sleep_sleepers, Function.update_of_ne hji] at hj
    exact h.signed j hj

theorem Heard.wake (h : Heard reg d) (i : ι) (rung : Prop) : Heard reg (d.wake i rung) := by
  refine ⟨fun j hj => ?_, h.known, fun _ => .inl ⟨i, ?_⟩⟩
  · have hji : j ≠ i := by
      rintro rfl
      exact hj (Function.update_self ..)
    rw [wake_sleepers, Function.update_of_ne hji] at hj
    exact h.signed j hj
  · rw [wake_sleepers, Function.update_self]
    exact Sleeper.noConfusion

variable [DecidableEq β]

def sign (reg : Register ι β ν) (d : Doorbell ι κ β ν) (i : ι) : Doorbell ι κ β ν :=
  { d with
    board := Function.update d.board (reg.slot i) (some (reg.name i))
    sleepers := Function.update d.sleepers i .signed }

def wipe (reg : Register ι β ν) (d : Doorbell ι κ β ν) (i : ι) : Doorbell ι κ β ν :=
  { d with
    board := Function.update d.board (reg.slot i) none
    sleepers := Function.update d.sleepers i .awake }

section Fields
variable (reg : Register ι β ν) (d : Doorbell ι κ β ν) (i : ι)

theorem sign_board : (d.sign reg i).board =
    Function.update d.board (reg.slot i) (some (reg.name i)) := rfl

theorem sign_sleepers : (d.sign reg i).sleepers = Function.update d.sleepers i .signed := rfl

theorem wipe_board : (d.wipe reg i).board = Function.update d.board (reg.slot i) none := rfl

theorem wipe_sleepers : (d.wipe reg i).sleepers = Function.update d.sleepers i .awake := rfl

end Fields

theorem Heard.sign (h : Heard reg d) (i : ι) : Heard reg (d.sign reg i) := by
  refine ⟨fun j hj => ?_, fun s n hs => ?_, fun _ => .inl ⟨i, ?_⟩⟩
  · by_cases hji : j = i
    · subst hji
      exact Function.update_self ..
    · have hsleep : d.sleepers j ≠ .awake := by
        rw [sign_sleepers, Function.update_of_ne hji] at hj
        exact hj
      rw [sign_board, Function.update_of_ne (slot_ne reg hji)]
      exact h.signed j hsleep
  · by_cases hslot : s = reg.slot i
    · subst hslot
      rw [sign_board, Function.update_self] at hs
      exact ⟨i, Option.some.inj hs⟩
    · rw [sign_board, Function.update_of_ne hslot] at hs
      exact h.known s n hs
  · rw [sign_sleepers, Function.update_self]
    exact Sleeper.noConfusion

theorem Heard.wipe (h : Heard reg d) (i : ι) : Heard reg (d.wipe reg i) := by
  refine ⟨fun j hj => ?_, fun s n hs => ?_, fun _ => .inl ⟨i, ?_⟩⟩
  · have hji : j ≠ i := by
      rintro rfl
      exact hj (Function.update_self ..)
    rw [wipe_sleepers, Function.update_of_ne hji] at hj
    rw [wipe_board, Function.update_of_ne (slot_ne reg hji)]
    exact h.signed j hj
  · by_cases hslot : s = reg.slot i
    · subst hslot
      rw [wipe_board, Function.update_self] at hs
      cases hs
    · rw [wipe_board, Function.update_of_ne hslot] at hs
      exact h.known s n hs
  · rw [wipe_sleepers, Function.update_self]
    exact Sleeper.noConfusion

end Sleepers

section Ringers
variable [DecidableEq κ]

def setRinger (d : Doorbell ι κ β ν) (k : κ) (r : Ringer β ν) : Doorbell ι κ β ν :=
  { d with ringers := Function.update d.ringers k r }

def ring (reg : Register ι β ν) (d : Doorbell ι κ β ν) (k : κ) (n : ν) : Doorbell ι κ β ν :=
  { d with
    rung := fun i => reg.name i = n ∨ d.rung i
    ringers := Function.update d.ringers k .away }

theorem setRinger_self (d : Doorbell ι κ β ν) (k : κ) (r : Ringer β ν) :
    (d.setRinger k r).ringers k = r := Function.update_self ..

theorem setRinger_of_ne {j : κ} (h : j ≠ k) (r : Ringer β ν) :
    (d.setRinger k r).ringers j = d.ringers j := Function.update_of_ne h ..

theorem ring_of_ne {j : κ} (h : j ≠ k) (n : ν) : (d.ring reg k n).ringers j = d.ringers j :=
  Function.update_of_ne h ..

/-- A ringer goes on, and whom it could reach can still be reached. -/
theorem Heard.goOn (h : Heard reg d) {r : Ringer β ν}
    (hreach : d.work → (∀ i, d.sleepers i = .asleep) → Reaches reg (d.ringers k) → Reaches reg r) :
    Heard reg (d.setRinger k r) := by
  refine ⟨h.signed, h.known, fun hw => ?_⟩
  by_cases hawake : ∃ i, d.sleepers i ≠ .asleep
  · exact .inl hawake
  · have hasleep (i : ι) : d.sleepers i = .asleep := by
      by_contra hne
      exact hawake ⟨i, hne⟩
    rcases h.work hw with hex | hrung | ⟨j, hj⟩
    · exact absurd hex hawake
    · exact .inr (.inl hrung)
    · right
      right
      by_cases hjk : j = k
      · subst hjk
        exact ⟨j, by rw [setRinger_self]; exact hreach hw hasleep hj⟩
      · exact ⟨j, by rw [setRinger_of_ne hjk]; exact hj⟩

theorem Heard.post (h : Heard reg d) {slots : List β} (hslots : ∃ i, reg.slot i ∈ slots)
    (work : Prop) : Heard reg (({ d with work := work } : Doorbell ι κ β ν).setRinger k
      (.reading slots)) :=
  ⟨h.signed, h.known, fun _ => .inr (.inr ⟨k, by rw [setRinger_self]; exact hslots⟩)⟩

/-- A slot is read. If all are asleep, the slots of all of them are written. -/
theorem Heard.read (h : Heard reg d) {s : β} {rest : List β}
    (hreading : d.ringers k = .reading (s :: rest)) :
    Heard reg (d.setRinger k ((d.board s).elim (.reading rest) .ringing)) := by
  refine h.goOn fun _ hasleep hreach => ?_
  rw [hreading] at hreach
  obtain ⟨i, hi⟩ := hreach
  cases hs : d.board s with
  | none =>
    have hsigned := h.signed i (by rw [hasleep i]; exact Sleeper.noConfusion)
    have hne : reg.slot i ≠ s := by
      rintro rfl
      rw [hs] at hsigned
      cases hsigned
    exact ⟨i, (List.mem_cons.mp hi).resolve_left hne⟩
  | some n => exact h.known s n hs

theorem Heard.leave (h : Heard reg d) (hreading : d.ringers k = .reading []) :
    Heard reg (d.setRinger k .away) := by
  refine h.goOn fun _ _ hreach => ?_
  rw [hreading] at hreach
  obtain ⟨i, hi⟩ := hreach
  exact absurd hi List.not_mem_nil

theorem Heard.ring (h : Heard reg d) {n : ν}
    (hringing : Reaches reg (d.ringers k) → ∃ i, reg.name i = n) : Heard reg (d.ring reg k n) := by
  refine ⟨h.signed, h.known, fun hw => ?_⟩
  rcases h.work hw with hawake | ⟨i, hi⟩ | ⟨j, hj⟩
  · exact .inl hawake
  · exact .inr (.inl ⟨i, .inr hi⟩)
  · by_cases hjk : j = k
    · rw [hjk] at hj
      obtain ⟨i, hi⟩ := hringing hj
      exact .inr (.inl ⟨i, .inl hi⟩)
    · exact .inr (.inr ⟨j, by rw [ring_of_ne hjk]; exact hj⟩)

end Ringers

end Doorbell

end Libxseg
