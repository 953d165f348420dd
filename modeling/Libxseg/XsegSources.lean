import Libxseg.XsegAccountsKept
import Libxseg.XsegConservation

/-!
# The source of a request

A request that is in flight or in the hands of a peer carries the number of a port that is mapped:
the one it was got for. So `xseg_put_request` finds the free queue that it is meant for.
-/

namespace Libxseg

set_option autoImplicit false

open Xseg

variable {ι : Type}

def Event.resets : Event → Option xptr
  | got _ _ _ x => some x
  | refused _ _ _ x => some x
  | put x => some x
  | putFull x => some x
  | _ => none

theorem Event.Still.resets {e : Event} (h : e.Still) : e.resets = none := by
  cases e with
  | got _ _ _ _ => exact absurd h id
  | refused _ _ _ _ => exact absurd h id
  | put _ => exact absurd h id
  | putFull _ => exact absurd h id
  | _ => rfl

def Sourced (w : World ι) : Prop :=
  ∀ x pl, x ∈ contents w pl → pl.Live → (w.seg.getPort (w.seg.requests x).srcPortno).isSome

section Flow
variable {a a' : Flow ι} {i : ι} {e : Event} {x y : xptr} {pl q : Place ι} {l : List xport}
  {t : xport}

theorem Flow.move_live (h : (a.move x q l t).place y = some pl) (hpl : pl.Live)
    (hq : ¬ q.Live) : y ≠ x ∧ a.place y = some pl := by
  rcases eq_or_ne y x with rfl | hy
  · rw [Flow.place_move_self] at h
    exact absurd (Option.some.inj h ▸ hpl) hq
  · exact ⟨hy, by rwa [Flow.place_move_of_ne hy] at h⟩

/-- A request whose path counts was just got, or counted before and keeps its source. -/
theorem FlowStep.live_before (h : FlowStep a (i, e) a') (hy : a'.place y = some pl)
    (hpl : pl.Live) : (∃ src dst flags, e = .got src dst flags y) ∨
      e.resets ≠ some y ∧ ∃ pl', a.place y = some pl' ∧ pl'.Live := by
  have hnone : (none : Option xptr) ≠ some y := (Option.some_ne_none y).symm
  have hlist : pl ≠ .list := by
    rintro rfl
    exact hpl
  have hsent {x : xptr} {p q : Place ι} {l : List xport} {t : xport} (hx : a.place x = some p)
      (hp : p.Live) (hm : (a.move x q l t).place y = some pl) :
      ∃ pl', a.place y = some pl' ∧ pl'.Live := by
    rcases eq_or_ne y x with rfl | hyx
    · exact ⟨p, hx, hp⟩
    · exact ⟨pl, by rwa [Flow.place_move_of_ne hyx] at hm, hpl⟩
  have hlost {x : xptr} (hm : (a.lose x).place y = some pl) : a.place y = some pl := by
    rcases eq_or_ne y x with rfl | hyx
    · simp [Flow.lose] at hm
    · simpa [Flow.lose, hyx] using hm
  cases h with
  | still he =>
    refine .inr ⟨?_, pl, hy, hpl⟩
    rw [he.resets]
    exact hnone
  | @got _ src dst flags x p fresh _ _ _ =>
    rcases eq_or_ne y x with rfl | hyx
    · exact .inl ⟨_, _, _, rfl⟩
    · rw [Flow.place_move_of_ne hyx] at hy
      exact .inr ⟨fun hx => hyx (Option.some.inj hx).symm, pl, Flow.place_of_extend hlist hy, hpl⟩
  | refused _ _ _ =>
    obtain ⟨hyx, hy⟩ := Flow.move_live hy hpl id
    exact .inr ⟨fun hx => hyx (Option.some.inj hx).symm, pl, Flow.place_of_extend hlist hy, hpl⟩
  | put _ =>
    obtain ⟨hyx, hy⟩ := Flow.move_live hy hpl id
    exact .inr ⟨fun hx => hyx (Option.some.inj hx).symm, pl, hy, hpl⟩
  | putFull _ =>
    obtain ⟨hyx, hy⟩ := Flow.move_live hy hpl id
    exact .inr ⟨fun hx => hyx (Option.some.inj hx).symm, pl, hy, hpl⟩
  | putObj _ =>
    obtain ⟨-, hy⟩ := Flow.move_live hy hpl id
    exact .inr ⟨hnone, pl, hy, hpl⟩
  | lost _ => exact .inr ⟨hnone, pl, hlost hy, hpl⟩
  | drop _ _ => exact .inr ⟨hnone, pl, hlost hy, hpl⟩
  | submit hx _ => exact .inr ⟨hnone, hsent hx trivial hy⟩
  | forward hx _ => exact .inr ⟨hnone, hsent hx trivial hy⟩
  | accept hx => exact .inr ⟨hnone, hsent hx trivial hy⟩
  | respond hx _ _ _ => exact .inr ⟨hnone, hsent hx trivial hy⟩
  | trim hx _ => exact .inr ⟨hnone, hsent hx trivial hy⟩
  | receive hx _ => exact .inr ⟨hnone, hsent hx trivial hy⟩

end Flow

namespace World.Step
variable [DecidableEq ι] [Builtins] {w w' : World ι} {a : Flow ι} {i : ι} {e : Event} {p : xport}
  {y : xptr}

theorem resets_eq (h : Refines w a) (hstep : w.Step (i, e) w') (he : ¬ e.Plain) :
    (∀ p, (w.seg.getPort p).isSome → (w'.seg.getPort p).isSome) ∧
      ∀ y, e.resets ≠ some y →
        (w'.seg.requests y).srcPortno = (w.seg.requests y).srcPortno := by
  have hobtained {src dst : xport} {flags : UInt32} {x : xptr} {s : Xseg} {ok : Bool}
      (ho : w.Obtains i src dst flags x s) (hdone : s.getDone x src dst = (ok, w'.seg)) :
      (∀ p, (w.seg.getPort p).isSome → (w'.seg.getPort p).isSome) ∧ ∀ y, some x ≠ some y →
        (w'.seg.requests y).srcPortno = (w.seg.requests y).srcPortno := by
    obtain ⟨hreq, hfrom⟩ := Ledger.obtains_from h ho
    obtain ⟨hallocs, hothers, -⟩ := getDone_source hdone
    refine ⟨fun p hp => ?_, fun y hy => ?_⟩
    · rw [isSome_getPort, hallocs]
      rcases hfrom with ⟨hsame, -⟩ | ⟨port, -, -, hupdate, -⟩
      · rwa [hsame, ← isSome_getPort]
      · rw [hupdate, Function.update_apply]
        split
        · rfl
        · rwa [← isSome_getPort]
    · rw [hothers y fun hyx => hy (congrArg some hyx.symm), hreq]
  have hput {src : xport} {x : xptr} {xqi : xqindex}
      (h : w.seg.putFree x = some (src, xqi, w'.seg)) :
      (∀ p, (w.seg.getPort p).isSome → (w'.seg.getPort p).isSome) ∧ ∀ y, some x ≠ some y →
        (w'.seg.requests y).srcPortno = (w.seg.requests y).srcPortno := by
    obtain ⟨-, -, hallocs, hothers⟩ := putFree_source h
    exact ⟨fun p hp => isSome_of_allocs_eq hallocs.symm hp,
      fun y hy => hothers y fun hyx => hy (congrArg some hyx.symm)⟩
  cases hstep with
  | got ho hdone => exact hobtained ho hdone
  | refused ho hdone => exact hobtained ho hdone
  | put hg hfree _ => exact hput hfree
  | putFull hg hfree => exact hput hfree
  | putDone _ hport =>
    refine ⟨fun p hp => ?_, fun y _ => rfl⟩
    rw [act_seg, Xseg.putDone, getPort_setPort hport]
    split
    · rfl
    · exact hp
  | _ => exact absurd trivial he

/-- Ports stay mapped, and a request that the event does not set up or empty keeps its source. -/
theorem sources (h : Refines w a) (hstep : w.Step (i, e) w') :
    (∀ p, (w.seg.getPort p).isSome → (w'.seg.getPort p).isSome) ∧
      ∀ y, e.resets ≠ some y →
        (w'.seg.requests y).srcPortno = (w.seg.requests y).srcPortno := by
  by_cases he : e.Plain
  · obtain ⟨hallocs, hsources⟩ := hstep.steady h he
    exact ⟨fun p hp => isSome_of_allocs_eq hallocs.symm hp, fun y _ => hsources y⟩
  · exact hstep.resets_eq h he

end World.Step

theorem Sourced.putFree {w : World ι} {i : ι} {x : xptr} [Builtins] (h : Sourced w)
    (hx : x ∈ (w.peers i).hands) : w.seg.putFree x ≠ none := by
  obtain ⟨port, hport⟩ :=
    Option.isSome_iff_exists.mp (h x (.hand i) (Multiset.mem_coe.mpr hx) trivial)
  simp [Xseg.putFree, hport]

theorem Start.sourced [Builtins] {w : World ι} (h : Start w) : Sourced w := by
  intro x pl hx hpl
  cases pl with
  | list => exact absurd hpl id
  | queue p kind =>
    rw [contents_queue, h.bag p kind] at hx
    exact absurd hx (Multiset.notMem_zero x)
  | hand i =>
    rw [contents_hand, h.peers i] at hx
    exact absurd hx (Multiset.notMem_zero x)
  | busy i => exact absurd hpl id

section Runs
variable [DecidableEq ι] [Builtins] {w w' w'' : World ι} {a a' : Flow ι} {i : ι} {e : Event}
  {x : xptr}

theorem Sourced.step (hr : Refines w a) (h : Sourced w) (hsized : w.seg.Sized)
    (hstep : w.Step (i, e) w') : Sourced w' := by
  obtain ⟨a', hflow, hr'⟩ := hstep.simulates hr hsized
  obtain ⟨hports, hsources⟩ := hstep.sources hr
  intro y pl hy hpl
  rcases hflow.live_before (hr'.mem_iff.mp hy) hpl with
    ⟨src, dst, flags, rfl⟩ | ⟨hne, pl', hy', hpl'⟩
  · cases hstep with
    | got ho hdone =>
      obtain ⟨-, -, hsrc⟩ := getDone_source hdone
      rw [act_seg, hsrc, if_pos rfl]
      apply hports
      cases ho with
      | free _ hport _ _ => exact Option.isSome_of_eq_some hport
      | alloc _ hport _ _ => exact Option.isSome_of_eq_some hport
  · rw [hsources y hne]
    exact hports _ (h y pl' (hr.mem_iff.mpr hy') hpl')

theorem run_sourced {as : List (ι × Event)} (hs : Start w)
    (h : Run (Guarded World.Step fun w b => w.seg.Sized ∧ b.2.Mapped w.seg) w as w') :
    (∃ a, Keeping w' a) ∧ Sourced w' :=
  h.invariant (I := fun w => (∃ a, Keeping w a) ∧ Sourced w)
    (by
      rintro s ⟨i, e⟩ t ⟨⟨a, ha⟩, hsourced⟩ ⟨⟨hsized, hmapped⟩, hstep⟩
      exact ⟨ha.step hsized hmapped hstep, hsourced.step ha.refines hsized hstep⟩)
    ⟨⟨Flow.start w, hs.keeping⟩, hs.sourced⟩

/-- In every run, `xseg_put_request` takes every request that its caller has in hand. -/
theorem run_putRefused {as : List (ι × Event)} (hs : Start w)
    (h : Run (Guarded World.Step fun w b => w.seg.Sized ∧ b.2.Mapped w.seg) w as w') :
    ∀ i x, ¬ w'.Step (i, .putRefused x) w'' := by
  intro i x hstep
  cases hstep with
  | putRefused _ hx hput => exact (run_sourced hs h).2.putFree hx hput

end Runs

theorem run_got [Builtins] : ∃ s : Xseg,
    Run (Guarded World.Step fun w b => w.seg.Sized ∧ b.2.Mapped w.seg)
      (solo (madeSeg 4 1024) [] .idle) [((), .miss 0 1 0), ((), .got 0 1 0 4096)]
      (solo s [4096] .idle) := by
  obtain ⟨s2, s3, step1, step2, -, hsized, -, hmapped⟩ := first_steps rfl
  exact ⟨s2, .cons ⟨⟨hsized, hmapped⟩, step1⟩ (.single ⟨⟨hsized, hmapped⟩, step2⟩)⟩

theorem run_putRefused_got : ∃ _ : Builtins, ∃ s : Xseg,
    Run (Guarded World.Step fun w b => w.seg.Sized ∧ b.2.Mapped w.seg)
      (solo (madeSeg 4 1024) [] .idle) [((), .miss 0 1 0), ((), .got 0 1 0 4096)]
      (solo s [4096] .idle) ∧
    ∀ w'', ¬ (solo s [4096] .idle).Step ((), .putRefused 4096) w'' := by
  let _ : Builtins := ⟨0⟩
  obtain ⟨s, hrun⟩ := run_got
  exact ⟨⟨0⟩, s, hrun, fun w'' => run_putRefused (madeSeg_start (by decide)) hrun () 4096⟩

end Libxseg
