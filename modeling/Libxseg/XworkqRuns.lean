import Mathlib.Data.List.Perm.Basic
import Libxseg.Xworkq

/-!
# Every job once, no wake-up lost

A thread whose `xlock_try_lock` fails leaves its job to the holder, which tests the count again
after its release. So some thread is in a call for as long as the queue is not empty. The jobs
already executed and those in the queue are together the jobs that were enqueued.
-/

namespace Libxseg

set_option autoImplicit false

namespace Xworkq
variable {θ : Type} [DecidableEq θ]

namespace World
variable (w : World θ) (t u : θ) (s : List Frame)

def running : List xqindex := (w.stack t).filterMap Frame.work

@[simp] theorem setStack_q : (w.setStack t s).q = w.q := rfl
@[simp] theorem setStack_lock : (w.setStack t s).lock = w.lock := rfl
@[simp] theorem setStack_live : (w.setStack t s).live = w.live := rfl
@[simp] theorem setStack_works : (w.setStack t s).works = w.works := rfl
@[simp] theorem setStack_enqueued : (w.setStack t s).enqueued = w.enqueued := rfl
@[simp] theorem setStack_executed : (w.setStack t s).executed = w.executed := rfl

@[simp] theorem setStack_same : (w.setStack t s).stack t = s := Function.update_self _ _ _

theorem setStack_other {t u : θ} (h : u ≠ t) : (w.setStack t s).stack u = w.stack u :=
  Function.update_of_ne h _ _

section Enqueue
variable [Builtins] (work : xqindex) (array : Option (xqindex → xqindex))

omit [DecidableEq θ] in
theorem enqueue_cases : ∃ works enqueued, w.enqueue work array = { w with
    q := (w.q.appendDoubling work array).2, live := insert work w.live,
    works := works, enqueued := enqueued } := by
  unfold enqueue
  split
  rename_i heq
  split
  · exact ⟨w.works, w.enqueued, by rw [heq]⟩
  · exact ⟨_, _, by rw [heq]⟩

end Enqueue

omit [DecidableEq θ] in
/-- The call on top is outside the section of the lock, so another one holds it. -/
theorem holds_below {w : World θ} {t : θ} {f : Frame} {s : List Frame}
    (hstack : w.stack t = f :: s) (hf : ¬ f.Holds) (h : ∃ g ∈ w.stack t, g.Holds) :
    ∃ g ∈ s, g.Holds := by
  obtain ⟨g, hg, hgh⟩ := h
  rw [hstack, List.mem_cons] at hg
  rcases hg with rfl | hg
  · exact absurd hgh hf
  · exact ⟨g, hg, hgh⟩

end World

/-- The queue holds the works `l`. A work is in the queue or with one running job, and its block
is in use. The lock is held by a thread inside its section, and somebody is awake for as long
as there is work. -/
structure Inv (w : World θ) (l : List xqindex) : Prop where
  repr : w.q.Repr l
  doubled : w.q.Doubled
  named : Noneidx ∉ l
  pending : ∀ t, (l ++ w.running t).Nodup
  apart : ∀ {t u}, t ≠ u → (w.running t).Disjoint (w.running u)
  live : ∀ {t x}, x ∈ l ++ w.running t → x ∈ w.live
  jobs : (w.executed ++ l.map w.works).Perm (List.range w.enqueued)
  holder : ∀ {t}, w.lock = some (some t) → ∃ f ∈ w.stack t, f.Holds
  awake : l ≠ [] → ∃ t, w.stack t ≠ []

namespace Inv
variable {w w' : World θ} {l l' : List xqindex} {t : θ} {s : List Frame}

omit [DecidableEq θ] in
theorem init [Builtins] (lock : Bool) (mem : xqindex → xqindex) :
    Inv (World.init θ lock mem) [] where
  repr := Xq.repr_initEmpty 8 mem
  doubled := Xq.doubled_initEmpty mem
  named := by simp
  pending := by simp [World.running, World.init]
  apart := by simp [World.running, World.init]
  live := by simp [World.running, World.init]
  jobs := by simp [World.init]
  holder := by
    intro t h
    cases lock <;> simp [World.init] at h
  awake := by simp

/-- What a thread's move has to keep so that the lock is still held from inside a section. -/
theorem holder_setStack (h : Inv w l) (hs : (∃ f ∈ w.stack t, f.Holds) → ∃ f ∈ s, f.Holds)
    {u : θ} (hu : w.lock = some (some u)) : ∃ f ∈ (w.setStack t s).stack u, f.Holds := by
  by_cases hut : u = t
  · subst hut
    rw [World.setStack_same]
    exact hs (h.holder hu)
  · rw [World.setStack_other _ _ hut]
    exact h.holder hu

/-- A thread moves within the calls it has open, without starting or ending a job. -/
theorem moved (h : Inv w l) {lock : Option (Option θ)}
    (hrun : s.filterMap Frame.work = w.running t)
    (hholder : ∀ {u}, lock = some (some u) → ∃ f ∈ (w.setStack t s).stack u, f.Holds)
    (hawake : l ≠ [] → ∃ u, (w.setStack t s).stack u ≠ []) :
    Inv { w.setStack t s with lock := lock } l := by
  have hrunning (u : θ) : World.running { w.setStack t s with lock := lock } u = w.running u := by
    by_cases hut : u = t
    · subst hut
      simpa [World.running] using hrun
    · simp [World.running, World.setStack_other _ _ hut]
  refine ⟨h.repr, h.doubled, h.named, fun u => ?_, fun {u v} huv => ?_, fun {u x} hx => ?_,
    h.jobs, hholder, hawake⟩
  · rw [hrunning]
    exact h.pending u
  · rw [hrunning, hrunning]
    exact h.apart huv
  · rw [hrunning] at hx
    exact h.live hx

theorem advanced (h : Inv w l) {f g : Frame} (hstack : w.stack t = f :: s) (hf : f.work = none)
    (hg : g.work = none) (hholds : f.Holds → g.Holds) : Inv (w.setStack t (g :: s)) l := by
  refine h.moved ?_ (h.holder_setStack fun hh => ?_) fun _ => ⟨t, by simp⟩
  · rw [World.running, hstack, List.filterMap_cons_none hf, List.filterMap_cons_none hg]
  · by_cases hfh : f.Holds
    · exact ⟨g, List.mem_cons_self, hholds hfh⟩
    · obtain ⟨g', hg', hh⟩ := World.holds_below hstack hfh hh
      exact ⟨g', List.mem_cons_of_mem _ hg', hh⟩

theorem left (h : Inv w l) {f : Frame} (hstack : w.stack t = f :: s) (hf : f.work = none)
    (hholds : ¬ f.Holds) (hawake : l ≠ [] → ∃ u, (w.setStack t s).stack u ≠ []) :
    Inv (w.setStack t s) l := by
  refine h.moved ?_ (h.holder_setStack (World.holds_below hstack hholds)) hawake
  rw [World.running, hstack, List.filterMap_cons_none hf]

theorem running_setStack (hs : s.filterMap Frame.work = w.running t) (u : θ) :
    (w.setStack t s).running u = w.running u := by
  by_cases hut : u = t
  · subst hut
    rw [World.running, World.setStack_same, hs]
  · rw [World.running, World.setStack_other _ _ hut, World.running]

theorem enqueue [Builtins] (h : Inv w l) {work : xqindex} (hroom : w.q.count < 0x40000000)
    (hlive : work ∉ w.live) (hwork : work ≠ Noneidx) (mem : xqindex → xqindex) :
    ∃ l', Inv ((w.enqueue work (some mem)).setStack t (.enqueued :: w.stack t)) l' := by
  have hl : l.length < 2 ^ 31 := by
    rw [UInt64.lt_iff_toNat_lt, h.repr.count] at hroom
    have : (0x40000000 : UInt64).toNat = 2 ^ 30 := rfl
    omega
  obtain ⟨q', l', hq, hr, hperm, hd, -⟩ := h.repr.appendDoubling h.doubled hl hwork mem
  have hnew (u : θ) : work ∉ l ++ w.running u := fun hm => hlive (h.live hm)
  have hnot : work ∉ l := fun hm => hnew t (List.mem_append_left _ hm)
  have hmem {x : xqindex} : x ∈ l' ↔ x = work ∨ x ∈ l := by
    rw [hperm.mem_iff, List.mem_cons]
  have hw : w.enqueue work (some mem) = { w with
      q := q', live := insert work w.live,
      works := Function.update w.works work w.enqueued, enqueued := w.enqueued + 1 } := by
    simp only [World.enqueue, hq, if_neg hwork]
  have hrunning (u : θ) :
      ((w.enqueue work (some mem)).setStack t (.enqueued :: w.stack t)).running u =
        w.running u := by
    rw [running_setStack (by rw [hw]; rfl), hw]
    rfl
  refine ⟨l', ?_⟩
  constructor
  case pending =>
    intro u
    rw [hrunning, (hperm.append_right _).nodup_iff, List.cons_append, List.nodup_cons]
    exact ⟨hnew u, h.pending u⟩
  case apart =>
    intro u v huv
    rw [hrunning, hrunning]
    exact h.apart huv
  case live =>
    intro u x hx
    rw [hrunning, List.mem_append, hmem, or_assoc, ← List.mem_append] at hx
    rw [hw]
    rcases hx with rfl | hx
    · exact Finset.mem_insert_self _ _
    · exact Finset.mem_insert_of_mem (h.live hx)
  case jobs =>
    have hkept : l.map (Function.update w.works work w.enqueued) = l.map w.works := by
      apply List.map_congr_left
      rintro x hx
      apply Function.update_of_ne
      rintro rfl
      exact hnot hx
    have hmap := hperm.map (Function.update w.works work w.enqueued)
    rw [List.map_cons, Function.update_self, hkept] at hmap
    rw [hw, World.setStack_executed, World.setStack_works, World.setStack_enqueued,
      List.range_succ]
    calc (w.executed ++ l'.map (Function.update w.works work w.enqueued)).Perm
          (w.executed ++ w.enqueued :: l.map w.works) := hmap.append_left _
      List.Perm _ (w.enqueued :: (w.executed ++ l.map w.works)) := List.perm_middle
      List.Perm _ (w.enqueued :: List.range w.enqueued) := h.jobs.cons _
      List.Perm _ (List.range w.enqueued ++ [w.enqueued]) :=
        (List.perm_append_singleton _ _).symm
  case holder =>
    intro u hu
    rw [hw] at hu ⊢
    exact (h.holder_setStack (fun ⟨f, hf, hh⟩ => ⟨f, List.mem_cons_of_mem _ hf, hh⟩) hu)
  case repr =>
    rw [hw]
    exact hr
  case doubled =>
    rw [hw]
    exact hd
  case named =>
    rw [hmem]
    rintro (he | hm)
    · exact hwork he.symm
    · exact h.named hm
  case awake => exact fun _ => ⟨t, by simp⟩

theorem pop (h : Inv w l) (hstack : w.stack t = .pop :: s) : ∃ l', Inv (w.pop t s) l' := by
  cases l with
  | nil =>
    refine ⟨[], ?_⟩
    have hw : w.pop t s = w.setStack t (.release :: s) := by
      simp only [World.pop, h.repr.popHead_nil, if_pos]
      rfl
    rw [hw]
    exact h.advanced hstack rfl rfl fun _ => trivial
  | cons x l =>
    obtain ⟨q', hq, hr, hs⟩ := h.repr.popHead
    have hx : x ≠ Noneidx := by
      rintro rfl
      exact h.named List.mem_cons_self
    have hw : w.pop t s = { w.setStack t (.job x :: s) with
        q := q', executed := w.executed ++ [w.works x] } := by
      simp only [World.pop, hq, if_neg hx]
    have hself : (w.pop t s).running t = x :: w.running t := by
      rw [hw]
      simp [World.running, World.setStack, hstack, List.filterMap_cons, Frame.work]
    have hother {u : θ} (hu : u ≠ t) : (w.pop t s).running u = w.running u := by
      rw [hw]
      simp [World.running, World.setStack, Function.update_of_ne hu]
    have hfree (u : θ) : x ∉ w.running u := by
      intro hm
      exact List.disjoint_of_nodup_append (h.pending u) List.mem_cons_self hm
    refine ⟨l, ?_⟩
    constructor
    case repr =>
      rw [hw]
      exact hr
    case doubled =>
      rw [hw]
      obtain ⟨k, hk3, hk, hsize⟩ := h.doubled
      exact ⟨k, hk3, hk, hs.trans hsize⟩
    case named => exact fun hm => h.named (List.mem_cons_of_mem _ hm)
    case pending =>
      intro u
      by_cases hu : u = t
      · subst hu
        rw [hself, List.perm_middle.nodup_iff]
        exact h.pending u
      · rw [hother hu]
        exact (List.nodup_cons.mp (h.pending u)).2
    case apart =>
      intro u v huv
      by_cases hu : u = t
      · subst hu
        rw [hself, hother (Ne.symm huv), List.disjoint_cons_left]
        exact ⟨hfree v, h.apart huv⟩
      · rw [hother hu]
        by_cases hv : v = t
        · subst hv
          rw [hself, List.disjoint_cons_right]
          exact ⟨hfree u, h.apart huv⟩
        · rw [hother hv]
          exact h.apart huv
    case live =>
      intro u y hy
      have hlive : (w.pop t s).live = w.live := by
        rw [hw]
        rfl
      rw [hlive]
      by_cases hu : u = t
      · subst hu
        rw [hself, List.perm_middle.mem_iff] at hy
        exact h.live hy
      · rw [hother hu] at hy
        exact h.live (List.mem_cons_of_mem x hy)
    case jobs =>
      rw [hw]
      have := h.jobs
      rwa [List.map_cons, ← List.singleton_append, ← List.append_assoc] at this
    case holder =>
      intro u hu
      rw [hw] at hu ⊢
      refine h.holder_setStack (fun _ => ?_) hu
      exact ⟨.job x, List.mem_cons_self, trivial⟩
    case awake =>
      intro _
      rw [hw]
      exact ⟨t, by simp [World.setStack]⟩

theorem returns (h : Inv w l) {work : xqindex} (hstack : w.stack t = .job work :: s) :
    Inv { w.setStack t (.pop :: s) with live := w.live.erase work } l := by
  have hrun : w.running t = work :: s.filterMap Frame.work := by
    simp [World.running, hstack, Frame.work]
  have hself : World.running { w.setStack t (.pop :: s) with live := w.live.erase work } t =
      s.filterMap Frame.work := by
    simp [World.running, World.setStack, List.filterMap_cons, Frame.work]
  have hother {u : θ} (hu : u ≠ t) :
      World.running { w.setStack t (.pop :: s) with live := w.live.erase work } u =
        w.running u := by
    simp [World.running, World.setStack, Function.update_of_ne hu]
  have hnodup := h.pending t
  rw [hrun, List.perm_middle.nodup_iff, List.nodup_cons] at hnodup
  constructor
  case repr => exact h.repr
  case doubled => exact h.doubled
  case named => exact h.named
  case pending =>
    intro u
    by_cases hu : u = t
    · subst hu
      rw [hself]
      exact hnodup.2
    · rw [hother hu]
      exact h.pending u
  case apart =>
    intro u v huv
    by_cases hu : u = t
    · subst hu
      have := h.apart huv
      rw [hrun, List.disjoint_cons_left] at this
      rw [hself, hother (Ne.symm huv)]
      exact this.2
    · rw [hother hu]
      by_cases hv : v = t
      · subst hv
        have := h.apart huv
        rw [hrun, List.disjoint_cons_right] at this
        rw [hself]
        exact this.2
      · rw [hother hv]
        exact h.apart huv
  case live =>
    intro u y hy
    apply Finset.mem_erase.mpr
    by_cases hu : u = t
    · subst hu
      rw [hself] at hy
      refine ⟨?_, h.live (t := u) ?_⟩
      · rintro rfl
        exact hnodup.1 hy
      · rw [hrun, List.perm_middle.mem_iff]
        exact List.mem_cons_of_mem _ hy
    · rw [hother hu] at hy
      refine ⟨?_, h.live hy⟩
      rintro rfl
      rcases List.mem_append.mp hy with hy | hy
      · exact hnodup.1 (List.mem_append_left _ hy)
      · exact h.apart hu hy (by simp [hrun])
  case jobs => exact h.jobs
  case holder =>
    intro u hu
    exact h.holder_setStack (fun _ => ⟨.pop, List.mem_cons_self, trivial⟩) hu
  case awake => exact fun _ => ⟨t, by simp [World.setStack]⟩

/-- A thread that gives up on the lock leaves the work to the holder, who is in a call. -/
theorem tryLock (h : Inv w l) (hstack : w.stack t = .tryLock :: s) :
    Inv { w.setStack t (if (w.tryLock t).1 then .pop :: s else s) with
      lock := (w.tryLock t).2 } l := by
  have hrun : s.filterMap Frame.work = w.running t := by
    simp [World.running, hstack, List.filterMap_cons, Frame.work]
  rcases hlock : w.lock with _ | _ | u
  · simp only [World.tryLock, hlock, if_pos]
    refine h.moved (by simpa [List.filterMap_cons, Frame.work] using hrun) ?_ ?_
    · rintro u hu
      exact absurd hu (by simp)
    · exact fun _ => ⟨t, by simp⟩
  · simp only [World.tryLock, hlock, if_pos]
    refine h.moved (by simpa [List.filterMap_cons, Frame.work] using hrun) ?_ ?_
    · rintro u hu
      obtain rfl : t = u := by simpa using hu
      exact ⟨.pop, by simp, trivial⟩
    · exact fun _ => ⟨t, by simp⟩
  · simp only [World.tryLock, hlock, Bool.false_eq_true, if_false]
    have hholder : ∃ f ∈ (w.setStack t s).stack u, f.Holds := by
      exact h.holder_setStack (World.holds_below hstack fun hh => hh.elim) hlock
    refine h.moved hrun ?_ ?_
    · rintro v hv
      obtain rfl : u = v := by simpa using hv
      exact hholder
    · obtain ⟨f, hf, -⟩ := hholder
      exact fun _ => ⟨u, List.ne_nil_of_mem hf⟩

theorem step [Builtins] (h : Inv w l) {e : Event θ} (hstep : Step w e w')
    (hroom : e.Roomy w) (halloc : e.Allocated) : ∃ l', Inv w' l' := by
  cases hstep with
  | enqueueFails hcall => exact absurd halloc.1 (by simp)
  | @enqueue t work array hcall hlive hwork =>
    obtain ⟨mem, rfl⟩ := Option.isSome_iff_exists.mp halloc.2
    exact h.enqueue hroom hlive hwork mem
  | @signal t s hstack =>
    exact ⟨l, h.advanced hstack rfl rfl fun hh => hh.elim⟩
  | @test t s hstack =>
    refine ⟨l, ?_⟩
    split
    · rename_i hzero
      refine h.left hstack rfl (fun hh => hh.elim) fun hne => ?_
      exact absurd (h.repr.count_eq_zero.mp hzero) hne
    · exact h.advanced hstack rfl rfl fun hh => hh.elim
  | tryLock hstack => exact ⟨l, h.tryLock hstack⟩
  | pop hstack => exact h.pop hstack
  | returns hstack => exact ⟨l, h.returns hstack⟩
  | @release t s hstack =>
    refine ⟨l, h.moved ?_ ?_ fun _ => ⟨t, by simp⟩⟩
    · simp [World.running, hstack, List.filterMap_cons, Frame.work]
    · intro u hu
      cases hlock : w.lock <;> simp [hlock] at hu

omit [DecidableEq θ] in
theorem executesOnce (h : Inv w l) : w.ExecutesOnce := by
  have hnodup : (w.executed ++ l.map w.works).Nodup := h.jobs.nodup_iff.mpr List.nodup_range
  have hmem {j : Nat} : j ∈ w.executed ++ l.map w.works ↔ j < w.enqueued := by
    rw [h.jobs.mem_iff, List.mem_range]
  refine ⟨(List.nodup_append.mp hnodup).1, fun j hj => ?_, fun hquiet => ?_⟩
  · exact hmem.mp (List.mem_append_left _ hj)
  · have hl : l = [] := by
      by_contra hne
      obtain ⟨t, ht⟩ := h.awake hne
      exact ht (hquiet t)
    subst hl
    refine ⟨h.repr.count_eq_zero.mpr rfl, fun j hj => ?_⟩
    simpa using hmem.mpr hj

end Inv

theorem run_inv [Builtins] {lock : Bool} {mem : xqindex → xqindex}
    {es : List (Event θ)} {w : World θ}
    (h : Run (Guarded Step fun w e => e.Allocated ∧ e.Roomy w) (World.init θ lock mem) es w) :
    ∃ l, Inv w l := by
  refine h.invariant (I := fun w => ∃ l, Inv w l) ?_ ⟨[], Inv.init lock mem⟩
  rintro w e w' ⟨l, hl⟩ ⟨⟨halloc, hroom⟩, hstep⟩
  exact hl.step hstep hroom halloc

/-- In every run in which malloc succeeds and no enqueue meets 2^30 works or more, no job is
executed twice, and no job is left when all threads have returned from their signals. -/
theorem run_executesOnce [Builtins] {lock : Bool} {mem : xqindex → xqindex}
    {es : List (Event θ)} {w : World θ}
    (h : Run (Guarded Step fun w e => e.Allocated ∧ e.Roomy w) (World.init θ lock mem) es w) :
    w.ExecutesOnce := by
  obtain ⟨l, hl⟩ := run_inv h
  exact hl.executesOnce

/-- Two threads; the second one finds the lock taken and leaves its job to the first. -/
theorem run_executesOnce_two :
    ∃ (es : List (Event Bool)) (w : World Bool),
      Run (Guarded (@Step Bool _ ⟨0⟩) fun w e => e.Allocated ∧ e.Roomy w)
        (@World.init ⟨0⟩ Bool true fun _ => 0) es w ∧
      w.stack true = [] ∧ w.stack false = [] ∧ w.executed = [0, 1] ∧ w.ExecutesOnce := by
  have hexec : (execute (@World.perform Bool _ ⟨0⟩) (fun w e => e.Allocated ∧ e.Roomy w)
      (@World.init ⟨0⟩ Bool true fun _ => 0)
      [.enqueue false (some 1) (some fun _ => 0), .signal false, .test false, .tryLock false,
        .pop false, .enqueue true (some 2) (some fun _ => 0), .signal true, .test true,
        .tryLock true, .returns false, .pop false, .returns false, .pop false, .release false,
        .test false]).any (fun w =>
          w.stack true = [] ∧ w.stack false = [] ∧ w.executed = [0, 1]) = true := by
    decide +kernel
  obtain ⟨w, hrun, hend⟩ :=
    Run.of_execute_any (fun _ _ _ => @World.step_of_perform Bool _ ⟨0⟩ _ _ _) hexec
  obtain ⟨htrue, hfalse, hexecuted⟩ := of_decide_eq_true hend
  exact ⟨_, w, hrun, htrue, hfalse, hexecuted, @run_executesOnce Bool _ ⟨0⟩ _ _ _ _ hrun⟩

/- The queue of 2^31 elements has the size field 0xFFFFFFFF80000000. It refuses nothing, and its
mask maps counters that are 2^31 apart to one position unless a carry comes in between. -/
section Overfull

local instance zeroClz : Builtins := ⟨0⟩

/-- The only thread has the lock and is in a job. The blocks of its works are up to `n`. -/
structure Busy (n : Nat) (w : World Unit) : Prop where
  live : ∀ x ∈ w.live, x.toNat ≤ n
  lock : w.lock = some (some ())
  stack : w.stack () = [.job 1]

theorem run_signal {w : World Unit} {s : List Frame}
    (hlock : w.lock = some (some ())) (hstack : w.stack () = .enqueued :: s) :
    ∃ es w', Run (Guarded Step fun _ e => e.Allocated) w es w' ∧ w'.stack () = s ∧
      w'.q = w.q ∧ w'.lock = w.lock ∧ w'.live = w.live := by
  have hsignal := Step.signal hstack
  have htest := Step.test (World.setStack_same w () (.test :: s))
  rw [World.setStack_q] at htest
  by_cases hempty : w.q.count = 0
  · rw [if_pos hempty] at htest
    refine ⟨_, _, .cons (.of_step hsignal trivial) (.single (.of_step htest trivial)), ?_, rfl,
      rfl, rfl⟩
    exact World.setStack_same (w.setStack () (.test :: s)) () s
  · rw [if_neg hempty] at htest
    have htry := Step.tryLock
      (World.setStack_same (w.setStack () (.test :: s)) () (.tryLock :: s))
    have htaken : ((w.setStack () (.test :: s)).setStack () (.tryLock :: s)).tryLock () =
        (false, w.lock) := by
      simp [World.tryLock, hlock]
    rw [htaken, if_neg Bool.false_ne_true] at htry
    refine ⟨_, _, .cons (.of_step hsignal trivial)
      (.cons (.of_step htest trivial) (.single (.of_step htry trivial))), ?_, rfl, rfl, rfl⟩
    exact World.setStack_same ((w.setStack () (.test :: s)).setStack () (.tryLock :: s)) () s

theorem Busy.run {n : Nat} {w : World Unit} (h : Busy n w) (hn : n < 2 ^ 33)
    (mem : xqindex → xqindex) :
    ∃ x es w', x ≠ Noneidx ∧ Run (Guarded Step fun _ e => e.Allocated) w es w' ∧
      w'.q = (w.q.appendDoubling x (some mem)).2 ∧ Busy (n + 1) w' := by
  have hwork : (UInt64.ofNat (n + 1)).toNat = n + 1 :=
    UInt64.toNat_ofNat_of_lt' (show n + 1 < 2 ^ 64 by omega)
  have hlive : UInt64.ofNat (n + 1) ∉ w.live := by
    intro hm
    have hle := h.live _ hm
    omega
  have hnone : UInt64.ofNat (n + 1) ≠ Noneidx := by
    intro he
    rw [he, show Noneidx.toNat = 2 ^ 64 - 1 from rfl] at hwork
    omega
  have hcall : w.CanCall () := by
    rw [World.CanCall, h.stack]
    simp [Frame.work]
  generalize UInt64.ofNat (n + 1) = x at hwork hlive hnone
  obtain ⟨works, enqueued, hw⟩ := w.enqueue_cases x (some mem)
  have hstep := @Step.enqueue _ _ _ _ _ _ (some mem) hcall hlive hnone
  rw [hw] at hstep
  generalize hnext : (World.setStack _ _ _ : World Unit) = w₁ at hstep
  have hlock : w₁.lock = w.lock := hnext ▸ rfl
  have hblocks : w₁.live = insert x w.live := hnext ▸ rfl
  have hstack : w₁.stack () = .enqueued :: w.stack () := hnext ▸ World.setStack_same _ () _
  obtain ⟨es, w', hrun, hstack', hq', hlock', hlive'⟩ :=
    run_signal (hlock.trans h.lock) hstack
  have hguarded : Guarded Step (fun _ e => e.Allocated) w (.enqueue () (some x) (some mem)) w₁ :=
    ⟨⟨rfl, rfl⟩, hstep⟩
  refine ⟨x, _, w', hnone, .cons hguarded hrun, hq'.trans (hnext ▸ rfl), ?_,
    (hlock'.trans hlock).trans h.lock, hstack'.trans h.stack⟩
  intro y hy
  rw [hlive', hblocks] at hy
  rcases Finset.mem_insert.mp hy with rfl | hy
  · omega
  · have hle := h.live y hy
    omega

structure Filled (n : Nat) (w : World Unit) (l : List xqindex) : Prop extends Busy (n + 1) w where
  repr : w.q.Repr l
  length : l.length = n
  doubled : w.q.Doubled
  head : w.q.head = 0 ∨ w.q.head = 1
  named : Noneidx ∉ l

/-- The thread enqueues a work, takes the lock in its signal and starts the job. -/
theorem run_busy : ∃ es w,
    Run (Guarded Step fun _ e => e.Allocated) (World.init Unit true fun _ => 0) es w ∧
      Filled 0 w [] := by
  have hexec : (execute World.perform (fun w e => e.Allocated ∧ e.Roomy w)
      (World.init Unit true fun _ => 0)
      [.enqueue () (some 1) (some fun _ => 0), .signal (), .test (), .tryLock (), .pop ()]).any
      (fun w => w.live = {1} ∧ w.lock = some (some ()) ∧ w.stack () = [.job 1] ∧
        w.q.count = 0 ∧ w.q.head = 0) = true := by
    decide +kernel
  obtain ⟨w, hrun, hend⟩ := Run.of_execute_any (fun _ _ _ => World.step_of_perform) hexec
  obtain ⟨hlive, hlock, hstack, hcount, hhead⟩ := of_decide_eq_true hend
  obtain ⟨l, hinv⟩ := run_inv hrun
  obtain rfl := hinv.repr.count_eq_zero.mp hcount
  refine ⟨_, w, hrun.mono fun h => ⟨h.1.1, h.2⟩, ⟨?_, hlock, hstack⟩, hinv.repr, rfl,
    hinv.doubled, .inl hhead, List.not_mem_nil⟩
  intro x hx
  rw [hlive] at hx
  rw [Finset.mem_singleton.mp hx]
  exact Nat.le_refl _

theorem run_filled {n : Nat} (hn : n ≤ 2 ^ 31) :
    ∃ es w l, Run (Guarded Step fun _ e => e.Allocated) (World.init Unit true fun _ => 0) es w ∧
      Filled n w l := by
  induction n with
  | zero =>
    obtain ⟨es, w, hrun, h⟩ := run_busy
    exact ⟨es, w, [], hrun, h⟩
  | succ n ih =>
    obtain ⟨es, w, l, hrun, h⟩ := ih (by omega)
    obtain ⟨x, es', w', hx, hrun', hq', hbusy⟩ := h.toBusy.run (by omega) fun _ => 0
    have hlen := h.length
    obtain ⟨q', l', hq, hr, hperm, hd, hhead⟩ :=
      h.repr.appendDoubling h.doubled (by omega) hx fun _ => 0
    rw [hq] at hq'
    dsimp only at hq'
    subst hq'
    refine ⟨_, w', l', hrun.trans hrun', hbusy, hr, ?_, hd, ?_, ?_⟩
    · rw [hperm.length_eq, List.length_cons, hlen]
    · rcases hhead with hkept | hone
      · rw [hkept]
        exact h.head
      · exact .inr hone
    · rw [hperm.mem_iff, List.mem_cons]
      rintro (he | hm)
      · exact hx he.symm
      · exact h.named hm

structure Heaped (n : Nat) (w : World Unit) : Prop extends Busy (n + 1) w where
  size : w.q.size = snapOf 31
  count : w.q.count.toNat = n
  head : w.q.head = 0 ∨ w.q.head = 1
  named : ∀ i < n, w.q.get (w.q.head - 1 - UInt64.ofNat i) ≠ Noneidx

theorem Filled.heaped {w : World Unit} {l : List xqindex} (h : Filled (2 ^ 31) w l) :
    Heaped (2 ^ 31) w := by
  obtain ⟨k, -, hk, hsize⟩ := h.doubled
  have hfits := h.repr.fits
  rw [h.length, hsize, window_snapOf hk] at hfits
  have hk31 : k = 31 := by
    have := (Nat.pow_le_pow_iff_right (a := 2) (by decide)).mp hfits
    omega
  subst hk31
  refine ⟨h.toBusy, hsize, h.repr.count.trans h.length, h.head, fun i hi => ?_⟩
  have hi : i < l.length := h.length.symm ▸ hi
  have := h.repr.elems (List.getElem?_eq_getElem hi)
  rw [this]
  exact fun he => h.named (he ▸ List.getElem_mem hi)

theorem Heaped.run {n : Nat} {w : World Unit} (h : Heaped n w) (hn : n < 2 ^ 32) :
    ∃ es w', Run (Guarded Step fun _ e => e.Allocated) w es w' ∧ Heaped (n + 1) w' := by
  obtain ⟨x, es, w', hx, hrun, hq', hbusy⟩ := h.toBusy.run (by omega) fun _ => 0
  have hroom : ¬ ¬ w.q.count + 1 ≤ w.q.size := by
    rw [Classical.not_not, UInt64.le_iff_toNat_le, UInt64.toNat_add, h.count, h.size,
      show (snapOf 31).toNat = 0xFFFFFFFF80000000 from rfl, UInt64.toNat_one]
    omega
  have happend : w.q.appendTail x =
      (x, { w.q with tail := w.q.tail - 1 }.put (w.q.tail - 1 + 1) x) := if_neg hroom
  have hqeq : w'.q = { w.q with tail := w.q.tail - 1 }.put (w.q.tail - 1 + 1) x := by
    rw [hq', Xq.appendDoubling, happend]
    simp only [if_neg hx]
  have hhead : w'.q.head = w.q.head := by
    rw [hqeq]
    rfl
  have hcount : w'.q.count = w.q.count + 1 := by
    rw [hqeq]
    simp only [Xq.count, Xq.put_head, Xq.put_tail]
    grind
  refine ⟨es, w', hrun, hbusy, ?_, ?_, ?_, fun i hi => ?_⟩
  · rw [hqeq]
    exact h.size
  · rw [hcount, UInt64.toNat_add, h.count, UInt64.toNat_one]
    omega
  · rw [hhead]
    exact h.head
  · have htail : w.q.tail - 1 + 1 = w.q.head - 1 - UInt64.ofNat n := by
      have hc : w.q.count = UInt64.ofNat n := by
        rw [← h.count, UInt64.ofNat_toNat]
      unfold Xq.count at hc
      grind
    rw [hhead, hqeq, htail, Xq.get_put_eq]
    split
    · exact hx
    · rename_i hslot
      have hin : i < n := by
        refine Nat.lt_of_le_of_ne (by omega) ?_
        rintro rfl
        exact hslot rfl
      exact h.named i hin

theorem run_pop {w : World Unit} (hstack : w.stack () = [.pop]) (hne : w.q.count ≠ 0)
    (hnamed : w.q.get (w.q.head - 1) ≠ Noneidx) :
    ∃ es w', Run (Guarded Step fun _ e => e.Allocated) w es w' ∧ w'.stack () = [.pop] ∧
      w'.q = { w.q with head := w.q.head - 1 } ∧ w'.works = w.works ∧
      w'.executed = w.executed ++ [w.works (w.q.get (w.q.head - 1))] := by
  have hpop : w.q.popHead = (w.q.get (w.q.head - 1), { w.q with head := w.q.head - 1 }) :=
    if_neg hne
  obtain ⟨w₁, hw⟩ : ∃ w₁, w₁ = w.pop () [] := ⟨_, rfl⟩
  have hstep : Step w (.pop ()) w₁ := hw ▸ Step.pop hstack
  simp only [World.pop, hpop, if_neg hnamed] at hw
  have hjob : w₁.stack () = [.job (w.q.get (w.q.head - 1))] := by
    rw [hw]
    exact World.setStack_same w () _
  have hreturns := Step.returns hjob
  refine ⟨_, _, .cons (.of_step hstep trivial) (.single (.of_step hreturns trivial)),
    World.setStack_same w₁ () _, ?_⟩
  rw [hw]
  exact ⟨rfl, rfl, rfl⟩

/-- A thread that has the lock runs the queue empty, whatever it finds there. -/
theorem run_drain {n : Nat} {w : World Unit} (hstack : w.stack () = [.pop])
    (hcount : w.q.count.toNat = n)
    (hnamed : ∀ i < n, w.q.get (w.q.head - 1 - UInt64.ofNat i) ≠ Noneidx) :
    ∃ es w', Run (Guarded Step fun _ e => e.Allocated) w es w' ∧
      w'.executed = w.executed ++
        (List.range n).map fun i => w.works (w.q.get (w.q.head - 1 - UInt64.ofNat i)) := by
  induction n generalizing w with
  | zero => exact ⟨[], w, .refl w, by simp⟩
  | succ n ih =>
    have hne : w.q.count ≠ 0 := by
      intro he
      rw [he] at hcount
      simp at hcount
    have hzero : w.q.head - 1 - UInt64.ofNat 0 = w.q.head - 1 := by grind
    have hnext (i : Nat) :
        w.q.head - 1 - 1 - UInt64.ofNat i = w.q.head - 1 - UInt64.ofNat (i + 1) := by
      rw [UInt64.ofNat_add]
      grind
    have hfirst := hnamed 0 (by omega)
    rw [hzero] at hfirst
    obtain ⟨es, w₁, hrun, hs, hq, hworks, hexecuted⟩ := run_pop hstack hne hfirst
    have hcount₁ : w₁.q.count.toNat = n := by
      have hc : w₁.q.count = w.q.count - 1 := by
        rw [hq]
        simp only [Xq.count]
        grind
      rw [hc, UInt64.toNat_sub_of_le _ _ (by rw [UInt64.le_iff_toNat_le]; simp; omega), hcount]
      simp
    have hget (i : Nat) : w₁.q.get (w₁.q.head - 1 - UInt64.ofNat i) =
        w.q.get (w.q.head - 1 - UInt64.ofNat (i + 1)) := by
      rw [hq, ← hnext]
      rfl
    obtain ⟨es', w', hrun', hexecuted'⟩ := ih hs hcount₁ fun i hi => by
      rw [hget]
      exact hnamed (i + 1) (by omega)
    refine ⟨_, w', hrun.trans hrun', ?_⟩
    rw [hexecuted', hexecuted, hworks, List.range_succ_eq_map, List.map_cons, List.map_map, hzero,
      List.append_assoc, List.singleton_append]
    simp only [hget, Function.comp_def, Nat.succ_eq_add_one]

/-- A job that enqueues too many works. When it has returned, two of the turns find the same one
of them. -/
theorem not_run_executesOnce : ¬ ∀ [Builtins] (mem : xqindex → xqindex) (es : List (Event Unit))
    (w : World Unit), Run (Guarded Step fun _ e => e.Allocated) (World.init Unit true mem) es w →
      w.ExecutesOnce := by
  intro hall
  obtain ⟨es, w, l, hrun, hfilled⟩ := run_filled (Nat.le_refl (2 ^ 31))
  obtain ⟨es₁, w₁, hrun₁, h₁⟩ := hfilled.heaped.run (by decide)
  obtain ⟨es₂, w₂, hrun₂, h₂⟩ := h₁.run (by decide)
  have hreturns := Step.returns h₂.stack
  generalize hw₃ : World.mk _ _ _ _ _ _ _ = w₃ at hreturns
  have hq₃ : w₃.q = w₂.q := hw₃ ▸ rfl
  have hstack₃ : w₃.stack () = [.pop] := hw₃ ▸ World.setStack_same w₂ () _
  obtain ⟨es₄, w₄, hrun₄, hexecuted⟩ := run_drain (n := 2 ^ 31 + 2)
    hstack₃ (by rw [hq₃, h₂.count])
    fun i hi => by
      rw [hq₃]
      exact h₂.named i hi
  have hwhole := ((hrun.trans hrun₁).trans hrun₂).trans
    (.cons (.of_step hreturns trivial) hrun₄)
  have honce := (hall _ _ w₄ hwhole).once
  rw [hexecuted] at honce
  have hmap := (List.nodup_append.mp honce).2.1
  -- the mask leaves out the only bit in which the counters of these two turns differ
  have hsame : w₃.q.get (w₃.q.head - 1 - UInt64.ofNat 1) =
      w₃.q.get (w₃.q.head - 1 - UInt64.ofNat (2 ^ 31 + 1)) := by
    rw [Xq.get, Xq.get, Xq.slot, Xq.slot, hq₃, h₂.size]
    rcases h₂.head with hhead | hhead
    · rw [hhead]
      rfl
    · rw [hhead]
      rfl
  have := List.inj_on_of_nodup_map hmap (x := 1) (by simp) (y := 2 ^ 31 + 1) (by simp)
    (congrArg w₃.works hsame)
  omega

end Overfull

end Xworkq

end Libxseg
