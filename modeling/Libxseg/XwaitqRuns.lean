import Mathlib.Data.List.Perm.Basic
import Libxseg.Xwaitq

/-!
# Waiting works and wake-ups

For as long as a work waits and the condition is true, some thread has yet to look at both
under the lock. The owner of the lock is such a thread, except when it has seen the condition
false and is about to release: a signal that comes in between is lost in `XWAIT_SIGNAL_ONE`.
-/

namespace Libxseg

set_option autoImplicit false

namespace Xwaitq
variable {θ : Type} [DecidableEq θ]

def Frame.Holds : Frame → Prop
  | .append _ | .appended | .count | .cond | .pop | .start _ | .leave _ => True
  | _ => False

def Frame.Awake : Frame → Prop
  | .check _ | .direct _ | .leave _ => False
  | _ => True

def Frame.Named : Frame → Prop
  | .check work | .acquire work | .append work => work ≠ Noneidx
  | _ => True

def Frame.hand : Frame → List xqindex
  | .start work => [work]
  | _ => []

theorem Frame.not_holds_of_runs {f : Frame} (h : f.runs = true) : ¬ f.Holds := by
  intro hholds
  cases f with
  | direct => exact hholds
  | job => exact hholds
  | _ => cases h

/-- Only the innermost call of a thread is outside a job, and it is in a section of the lock
exactly if the thread owns the lock. -/
structure Threads (w : World θ) : Prop where
  below : ∀ {t f s}, w.stack t = f :: s → ∀ g ∈ s, g.runs = true
  owner : ∀ {t f s}, w.stack t = f :: s → (f.Holds ↔ w.lock = some t)
  inside : ∀ {t}, w.lock = some t → w.stack t ≠ []
  named : ∀ {t f}, f ∈ w.stack t → f.Named

def World.hand (w : World θ) : List xqindex :=
  match w.lock with
  | none => []
  | some t => ((w.stack t).head?.map Frame.hand).getD []

structure Inv (w : World θ) (l : List xqindex) : Prop where
  repr : w.q.Repr l
  doubled : w.q.Doubled
  named : Noneidx ∉ l
  threads : Threads w
  works : (w.executed ++ (w.hand ++ l)).Perm w.enqueued
  emptied : ∀ {t s}, w.stack t = .leave true :: s → l = []
  awake : l ≠ [] → w.cond = true → ∃ t, ∃ f ∈ w.stack t, f.Awake

namespace Threads
variable {w w' : World θ} {t : θ} {f : Frame} {s : List Frame}

/-- The innermost call of one thread goes on, returns or calls, and the lock changes hands only
with that thread. -/
theorem replace (h : Threads w) {new : List Frame}
    (hstack : w'.stack = Function.update w.stack t new)
    (hbelow : ∀ {g r}, new = g :: r → ∀ g' ∈ r, g'.runs = true)
    (hnamed : ∀ f ∈ new, f.Named)
    (hlock : ∀ u ≠ t, w'.lock = some u ↔ w.lock = some u)
    (howner : ∀ {g r}, new = g :: r → (g.Holds ↔ w'.lock = some t))
    (hinside : w'.lock = some t → new ≠ []) : Threads w' := by
  have hself : w'.stack t = new := by rw [hstack, Function.update_self]
  have hother {u : θ} (hu : u ≠ t) : w'.stack u = w.stack u := by
    rw [hstack, Function.update_of_ne hu]
  constructor
  case below =>
    intro u g r hu
    by_cases hut : u = t
    · subst hut
      exact hbelow (hself.symm.trans hu)
    · rw [hother hut] at hu
      exact h.below hu
  case owner =>
    intro u g r hu
    by_cases hut : u = t
    · subst hut
      exact howner (hself.symm.trans hu)
    · rw [hother hut] at hu
      rw [hlock u hut]
      exact h.owner hu
  case inside =>
    intro u hu
    by_cases hut : u = t
    · subst hut
      rw [hself]
      exact hinside hu
    · rw [hother hut]
      exact h.inside ((hlock u hut).mp hu)
  case named =>
    intro u g hg
    by_cases hut : u = t
    · subst hut
      rw [hself] at hg
      exact hnamed g hg
    · rw [hother hut] at hg
      exact h.named hg

theorem advance (h : Threads w) {g : Frame} (hfs : w.stack t = f :: s)
    (hstack : w'.stack = Function.update w.stack t (g :: s)) (hg : g.Named)
    (hlock : ∀ u ≠ t, w'.lock = some u ↔ w.lock = some u)
    (howner : g.Holds ↔ w'.lock = some t) : Threads w' := by
  refine h.replace hstack ?_ ?_ hlock ?_ fun _ => by simp
  · intro g' r he
    obtain ⟨rfl, rfl⟩ := List.cons.inj he
    exact h.below hfs
  · intro f' hf'
    rcases List.mem_cons.mp hf' with rfl | hf'
    · exact hg
    · exact h.named (hfs ▸ List.mem_cons_of_mem f hf')
  · intro g' r he
    obtain ⟨rfl, rfl⟩ := List.cons.inj he
    exact howner

/-- The innermost call returns; the lock is not with the thread afterwards. -/
theorem leave (h : Threads w) (hfs : w.stack t = f :: s)
    (hstack : w'.stack = Function.update w.stack t s)
    (hlock : ∀ u ≠ t, w'.lock = some u ↔ w.lock = some u)
    (howner : w'.lock ≠ some t) : Threads w' := by
  refine h.replace hstack ?_ ?_ hlock ?_ fun ht => absurd ht howner
  · intro g r he g' hg'
    exact h.below hfs g' (he ▸ List.mem_cons_of_mem g hg')
  · intro f' hf'
    exact h.named (hfs ▸ List.mem_cons_of_mem f hf')
  · intro g r he
    have hruns := h.below hfs g (he ▸ List.mem_cons_self)
    exact iff_of_false (Frame.not_holds_of_runs hruns) howner

/-- A thread that owns no lock and only runs a job calls the module. -/
theorem call (h : Threads w) {g : Frame} (hcall : w.CanCall t)
    (hstack : w'.stack = Function.update w.stack t (g :: w.stack t)) (hg : g.Named)
    (hholds : ¬ g.Holds) (hlock : w'.lock = w.lock) : Threads w' := by
  have hnot : w.lock ≠ some t := by
    intro ht
    obtain ⟨f, s, hfs⟩ := List.exists_cons_of_ne_nil (h.inside ht)
    have hruns := hcall f (by simp [hfs])
    exact Frame.not_holds_of_runs hruns ((h.owner hfs).mpr ht)
  refine h.replace hstack ?_ ?_ (fun u _ => by rw [hlock]) ?_ fun _ => by simp
  · intro g' r he g'' hg''
    obtain ⟨rfl, rfl⟩ := List.cons.inj he
    obtain ⟨f, s, hfs⟩ := List.exists_cons_of_ne_nil (List.ne_nil_of_mem hg'')
    rw [hfs] at hg''
    rcases List.mem_cons.mp hg'' with rfl | hg''
    · exact hcall _ (by simp [hfs])
    · exact h.below hfs _ hg''
  · intro f' hf'
    rcases List.mem_cons.mp hf' with rfl | hf'
    · exact hg
    · exact h.named hf'
  · intro g' r he
    obtain ⟨rfl, rfl⟩ := List.cons.inj he
    rw [hlock]
    exact iff_of_false hholds hnot

end Threads

namespace World
variable {w w' : World θ} {t : θ} {f g : Frame} {s : List Frame}

omit [DecidableEq θ] in
theorem hand_of_free (h : w.lock = none) : w.hand = [] := by
  rw [hand, h]

omit [DecidableEq θ] in
theorem hand_of_owner (h : w.lock = some t) (hfs : w.stack t = f :: s) : w.hand = f.hand := by
  rw [hand, h]
  simp [hfs]

theorem setStack_other {u : θ} (h : u ≠ t) : (w.setStack t s).stack u = w.stack u :=
  Function.update_of_ne h _ _

omit [DecidableEq θ] in
theorem hand_of_other (hlock : w'.lock = w.lock) (hnot : w.lock ≠ some t)
    (hother : ∀ u ≠ t, w'.stack u = w.stack u) : w'.hand = w.hand := by
  unfold hand
  rw [hlock]
  cases hu : w.lock with
  | none => rfl
  | some u =>
    have hut : u ≠ t := by
      rintro rfl
      exact hnot hu
    dsimp only
    rw [hother u hut]

end World

namespace Inv
variable {w w' : World θ} {l l' : List xqindex} {t : θ} {f g : Frame} {s new : List Frame}

theorem replace (h : Inv w l) (hfs : w.stack t = f :: s) (hthreads : Threads w')
    (hstack : w'.stack = Function.update w.stack t new) (hsub : ∀ g ∈ s, g ∈ new)
    (hq : w'.q = w.q) (hcond : w'.cond = w.cond)
    (hworks : (w'.executed ++ (w'.hand ++ l)).Perm w'.enqueued)
    (hleave : ∀ {r}, new = .leave true :: r → l = [])
    (hawake : l ≠ [] → w.cond = true → f.Awake → ∃ u, ∃ g ∈ w'.stack u, g.Awake) : Inv w' l := by
  have hself : w'.stack t = new := by rw [hstack, Function.update_self]
  have hother {u : θ} (hu : u ≠ t) : w'.stack u = w.stack u := by
    rw [hstack, Function.update_of_ne hu]
  refine ⟨hq ▸ h.repr, hq ▸ h.doubled, h.named, hthreads, hworks, ?_, ?_⟩
  · intro u r hu
    by_cases hut : u = t
    · subst hut
      exact hleave (hself.symm.trans hu)
    · rw [hother hut] at hu
      exact h.emptied hu
  · intro hl hc
    rw [hcond] at hc
    obtain ⟨u, g, hg, hga⟩ := h.awake hl hc
    by_cases hut : u = t
    · subst hut
      rw [hfs] at hg
      rcases List.mem_cons.mp hg with rfl | hg
      · exact hawake hl hc hga
      · exact ⟨u, g, hself ▸ hsub g hg, hga⟩
    · exact ⟨u, g, (hother hut).symm ▸ hg, hga⟩

theorem advance (h : Inv w l) (hfs : w.stack t = f :: s) (hholds : f.Holds ↔ g.Holds)
    (hf : f.hand = []) (hg : g.hand = []) (hnamed : f.Named → g.Named)
    (hleave : g = .leave true → l = [])
    (hawake : l ≠ [] → w.cond = true → f.Awake → g.Awake) : Inv (w.setStack t (g :: s)) l := by
  have hthreads : Threads (w.setStack t (g :: s)) :=
    h.threads.advance hfs rfl (hnamed (h.threads.named (hfs ▸ List.mem_cons_self)))
      (fun _ _ => Iff.rfl) (hholds.symm.trans (h.threads.owner hfs))
  have hself : (w.setStack t (g :: s)).stack t = g :: s := Function.update_self _ _ _
  refine h.replace hfs hthreads rfl (fun g' hg' => List.mem_cons_of_mem g hg') rfl rfl ?_ ?_ ?_
  · have hhand : (w.setStack t (g :: s)).hand = w.hand := by
      by_cases ht : w.lock = some t
      · rw [World.hand_of_owner (w := w.setStack t (g :: s)) ht hself,
          World.hand_of_owner ht hfs, hf, hg]
      · exact World.hand_of_other rfl ht fun u hu => World.setStack_other hu
    rw [hhand]
    exact h.works
  · intro r he
    exact hleave (List.cons.inj he).1
  · intro hl hc hfa
    exact ⟨t, g, by simp [hself], hawake hl hc hfa⟩

theorem acquire (h : Inv w l) (hfs : w.stack t = f :: s) (hfree : w.lock = none)
    (hholds : g.Holds) (hg : g.hand = []) (hnamed : f.Named → g.Named) (hleave : g ≠ .leave true)
    (hawake : f.Awake → g.Awake) : Inv { w.setStack t (g :: s) with lock := some t } l := by
  have hthreads : Threads { w.setStack t (g :: s) with lock := some t } := by
    refine h.threads.advance hfs rfl (hnamed (h.threads.named (hfs ▸ List.mem_cons_self)))
      (fun u hu => ?_) (iff_of_true hholds rfl)
    rw [hfree]
    exact iff_of_false (fun he => hu (Option.some.inj he).symm) (by simp)
  have hself : World.stack { w.setStack t (g :: s) with lock := some t } t = g :: s :=
    Function.update_self _ _ _
  refine h.replace hfs hthreads rfl (fun g' hg' => List.mem_cons_of_mem g hg') rfl rfl ?_ ?_ ?_
  · have hworks := h.works
    rw [World.hand_of_free hfree] at hworks
    rw [World.hand_of_owner rfl hself, hg]
    exact hworks
  · intro r he
    exact absurd (List.cons.inj he).1 hleave
  · intro hl hc hfa
    refine ⟨t, g, ?_, hawake hfa⟩
    rw [hself]
    exact List.mem_cons_self

/-- The innermost call releases the lock, and starts the job that it has popped, if any. -/
theorem release (h : Inv w l) (hfs : w.stack t = f :: s) (hf : f.Holds) (hg : ¬ g.Holds)
    (hnamed : g.Named) (hga : g.Awake) :
    Inv { w.setStack t (g :: s) with lock := none, executed := w.executed ++ f.hand } l := by
  have howned : w.lock = some t := (h.threads.owner hfs).mp hf
  have hlock (u : θ) (hu : u ≠ t) : none = some u ↔ w.lock = some u := by
    rw [howned]
    exact iff_of_false (by simp) fun he => hu (Option.some.inj he).symm
  have hthreads : Threads { w.setStack t (g :: s) with
      lock := none, executed := w.executed ++ f.hand } :=
    h.threads.advance hfs rfl hnamed hlock (iff_of_false hg (by simp))
  refine h.replace hfs hthreads rfl (fun g' hg' => List.mem_cons_of_mem g hg') rfl rfl ?_ ?_ ?_
  · have hworks := h.works
    rw [World.hand_of_owner howned hfs, ← List.append_assoc] at hworks
    rw [World.hand_of_free rfl]
    exact hworks
  · intro r he
    obtain ⟨rfl, -⟩ := List.cons.inj he
    exact absurd trivial hg
  · intro hl hc hfa
    exact ⟨t, g, by simp [World.setStack], hga⟩

theorem leave (h : Inv w l) (hfs : w.stack t = f :: s) (hf : ¬ f.Holds)
    (hawake : l ≠ [] → w.cond = true → f.Awake → ∃ u, u ≠ t ∧ ∃ g ∈ w.stack u, g.Awake) :
    Inv (w.setStack t s) l := by
  have hnot : w.lock ≠ some t := fun he => hf ((h.threads.owner hfs).mpr he)
  have hthreads : Threads (w.setStack t s) :=
    h.threads.leave hfs rfl (fun _ _ => Iff.rfl) hnot
  refine h.replace hfs hthreads rfl (fun g hg => hg) rfl rfl ?_ ?_ ?_
  · have hhand : (w.setStack t s).hand = w.hand :=
      World.hand_of_other rfl hnot fun u hu => World.setStack_other hu
    rw [hhand]
    exact h.works
  · intro r he
    have hruns := h.threads.below hfs (.leave true) (he ▸ List.mem_cons_self)
    cases hruns
  · intro hl hc hfa
    obtain ⟨u, hu, g, hg, hga⟩ := hawake hl hc hfa
    exact ⟨u, g, (World.setStack_other hu).symm ▸ hg, hga⟩

theorem leaveRelease (h : Inv w l) {empty : Bool} (hfs : w.stack t = .leave empty :: s) :
    Inv { w.setStack t s with lock := none } l := by
  have howned : w.lock = some t := (h.threads.owner hfs).mp trivial
  have hlock (u : θ) (hu : u ≠ t) : none = some u ↔ w.lock = some u := by
    rw [howned]
    exact iff_of_false (by simp) fun he => hu (Option.some.inj he).symm
  have hthreads : Threads { w.setStack t s with lock := none } :=
    h.threads.leave hfs rfl hlock (by simp)
  refine h.replace hfs hthreads rfl (fun g hg => hg) rfl rfl ?_ ?_ ?_
  · have hworks := h.works
    rw [World.hand_of_owner howned hfs] at hworks
    rw [World.hand_of_free rfl]
    exact hworks
  · intro r he
    have hruns := h.threads.below hfs (.leave true) (he ▸ List.mem_cons_self)
    cases hruns
  · exact fun _ _ hfa => hfa.elim

omit [DecidableEq θ] in
/-- The owner of the lock looks at queue and condition again, or has found nothing to do. -/
theorem owner_awake (h : Inv w l) (hl : l ≠ []) {u : θ} (hu : w.lock = some u)
    (hgiven : ¬ w.GivenUp) : ∃ g ∈ w.stack u, g.Awake := by
  obtain ⟨g, r, hg⟩ := List.exists_cons_of_ne_nil (h.threads.inside hu)
  have hholds : g.Holds := (h.threads.owner hg).mpr hu
  refine ⟨g, hg ▸ List.mem_cons_self, ?_⟩
  cases g with
  | leave empty =>
    cases empty with
    | true => exact absurd (h.emptied hg) hl
    | false => exact absurd ⟨u, hu, by rw [hg]; rfl⟩ hgiven
  | check | direct => exact hholds.elim
  | _ => trivial

theorem check [Builtins] (h : Inv w l) {work : xqindex} (hfs : w.stack t = .check work :: s)
    {array : Option (xqindex → xqindex)} (hw : w.next t array s (.check work) = some w') :
    Inv w' l := by
  have hnot : w.lock ≠ some t := fun he => ((h.threads.owner hfs).mpr he).elim
  simp only [World.next] at hw
  split at hw
  · obtain rfl := Option.some.inj hw
    have hthreads : Threads { w.setStack t (.direct work :: s) with
        enqueued := w.enqueued ++ [work], executed := w.executed ++ [work] } :=
      h.threads.advance hfs rfl trivial (fun _ _ => Iff.rfl)
        (iff_of_false (fun hh => hh.elim) hnot)
    refine h.replace hfs hthreads rfl (fun g hg => List.mem_cons_of_mem _ hg) rfl rfl ?_ ?_ ?_
    · have hhand : World.hand { w.setStack t (.direct work :: s) with
          enqueued := w.enqueued ++ [work], executed := w.executed ++ [work] } = w.hand :=
        World.hand_of_other rfl hnot fun u hu => World.setStack_other hu
      rw [hhand]
      calc (w.executed ++ [work] ++ (w.hand ++ l)).Perm
            (w.executed ++ (w.hand ++ l) ++ [work]) := by
              rw [List.append_assoc, List.append_assoc]
              exact List.perm_append_comm.append_left w.executed
        List.Perm _ (w.enqueued ++ [work]) := h.works.append_right [work]
    · intro r he
      cases he
    · exact fun _ _ hfa => hfa.elim
  · obtain rfl := Option.some.inj hw
    exact h.advance hfs Iff.rfl rfl rfl id (fun he => by cases he) fun _ _ hfa => trivial

theorem append [Builtins] (h : Inv w l) {work : xqindex} (hfs : w.stack t = .append work :: s)
    (hroom : w.q.count < 0x40000000) {array : Option (xqindex → xqindex)}
    (hw : w.next t array s (.append work) = some w') : ∃ l', Inv w' l' := by
  have howned : w.lock = some t := (h.threads.owner hfs).mp trivial
  have hl : l.length < 2 ^ 31 := by
    rw [UInt64.lt_iff_toNat_lt, h.repr.count] at hroom
    have : (0x40000000 : UInt64).toNat = 2 ^ 30 := rfl
    omega
  have hwork : work ≠ Noneidx :=
    h.threads.named (f := .append work) (hfs ▸ List.mem_cons_self)
  obtain ⟨r, q', l', hq, hr, hd, hresult⟩ := h.repr.appendDoubling_any h.doubled hl hwork array
  simp only [World.next, hq] at hw
  obtain rfl := Option.some.inj hw
  have hself : (w.setStack t (.appended :: s)).stack t = .appended :: s :=
    Function.update_self _ _ _
  have hthreads : Threads { w.setStack t (.appended :: s) with
      q := q', enqueued := if r = Noneidx then w.enqueued else w.enqueued ++ [work] } :=
    h.threads.advance hfs rfl trivial (fun _ _ => Iff.rfl) (iff_of_true trivial howned)
  have hhand : World.hand { w.setStack t (.appended :: s) with
      q := q', enqueued := if r = Noneidx then w.enqueued else w.enqueued ++ [work] } = [] :=
    World.hand_of_owner (f := .appended) howned hself
  have hworks := h.works
  rw [World.hand_of_owner howned hfs] at hworks
  refine ⟨l', hr, hd, ?_, hthreads, ?_, ?_, fun _ _ => ⟨t, .appended, ?_, trivial⟩⟩
  · rcases hresult with ⟨-, hperm⟩ | ⟨-, rfl⟩
    · rw [hperm.mem_iff, List.mem_cons]
      rintro (he | hm)
      · exact hwork he.symm
      · exact h.named hm
    · exact h.named
  · rw [hhand]
    rcases hresult with ⟨rfl, hperm⟩ | ⟨rfl, rfl⟩
    · rw [if_neg hwork]
      calc (w.executed ++ l').Perm (w.executed ++ r :: l) := hperm.append_left w.executed
        List.Perm _ (r :: (w.executed ++ l)) := List.perm_middle
        List.Perm _ (r :: w.enqueued) := hworks.cons r
        List.Perm _ (w.enqueued ++ [r]) := (List.perm_append_singleton r _).symm
    · rw [if_pos rfl]
      exact hworks
  · intro u r' hu
    -- only the owner of the lock could have found the queue empty
    have hholds := (hthreads.owner hu).mp trivial
    obtain rfl : t = u := Option.some.inj (howned.symm.trans hholds)
    rw [show World.stack _ t = _ from hself] at hu
    cases hu
  · simp [World.setStack]

theorem pop [Builtins] (h : Inv w l) (hfs : w.stack t = .pop :: s)
    {array : Option (xqindex → xqindex)} (hw : w.next t array s .pop = some w') :
    ∃ l', Inv w' l' := by
  have howned : w.lock = some t := (h.threads.owner hfs).mp trivial
  have hworks := h.works
  rw [World.hand_of_owner howned hfs] at hworks
  cases l with
  | nil =>
    simp only [World.next, h.repr.popHead_nil, if_pos] at hw
    obtain rfl := Option.some.inj hw
    exact ⟨[], h.advance hfs Iff.rfl rfl rfl (fun _ => trivial) (fun _ => rfl)
      fun hne => absurd rfl hne⟩
  | cons x l =>
    obtain ⟨q', hq, hr, hs⟩ := h.repr.popHead
    have hx : x ≠ Noneidx := by
      rintro rfl
      exact h.named List.mem_cons_self
    simp only [World.next, hq, if_neg hx] at hw
    obtain rfl := Option.some.inj hw
    have hself : (w.setStack t (.start x :: s)).stack t = .start x :: s :=
      Function.update_self _ _ _
    have hthreads : Threads { w.setStack t (.start x :: s) with q := q' } :=
      h.threads.advance hfs rfl trivial (fun _ _ => Iff.rfl) (iff_of_true trivial howned)
    have hhand : World.hand { w.setStack t (.start x :: s) with q := q' } = [x] :=
      World.hand_of_owner (f := .start x) howned hself
    obtain ⟨k, hk3, hk, hsize⟩ := h.doubled
    refine ⟨l, hr, ⟨k, hk3, hk, hs.trans hsize⟩, fun hm => h.named (List.mem_cons_of_mem x hm),
      hthreads, ?_, ?_, fun _ _ => ⟨t, .start x, ?_, trivial⟩⟩
    · rw [hhand]
      exact hworks
    · intro u r' hu
      have hholds := (hthreads.owner hu).mp trivial
      obtain rfl : t = u := Option.some.inj (howned.symm.trans hholds)
      rw [show World.stack _ t = _ from hself] at hu
      cases hu
    · simp [World.setStack]

theorem run [Builtins] (h : Inv w l) (hfs : w.stack t = f :: s)
    {array : Option (xqindex → xqindex)} (hw : w.next t array s f = some w')
    (hroom : (Event.run t array).Roomy w) (hheard : (Event.run t array).Heard w) :
    ∃ l', Inv w' l' := by
  cases f with
  | check work => exact ⟨l, h.check hfs hw⟩
  | append work => exact h.append hfs (hroom (by simp [hfs, Frame.appends])) hw
  | pop => exact h.pop hfs hw
  | direct work =>
    obtain rfl := Option.some.inj hw
    exact ⟨l, h.leave hfs (fun hh => hh.elim) fun _ _ hfa => hfa.elim⟩
  | acquire work =>
    obtain ⟨hfree, rfl⟩ := of_ite_some hw
    exact ⟨l, h.acquire hfs hfree trivial rfl id (by simp) fun _ => trivial⟩
  | appended =>
    obtain rfl := Option.some.inj hw
    refine ⟨l, ?_⟩
    have := h.release (g := .test) hfs trivial (fun hh => hh.elim) trivial trivial
    rwa [show Frame.appended.hand = [] from rfl, List.append_nil] at this
  | test =>
    obtain rfl := Option.some.inj hw
    refine ⟨l, ?_⟩
    split
    · rename_i hzero
      refine h.leave hfs (fun hh => hh.elim) fun hl _ _ => ?_
      exact absurd (h.repr.count_eq_zero.mp hzero) hl
    · exact h.advance hfs Iff.rfl rfl rfl (fun _ => trivial) (by simp) fun _ _ _ => trivial
  | lock =>
    refine ⟨l, ?_⟩
    simp only [World.next] at hw
    split at hw
    · rename_i hfree
      obtain rfl := Option.some.inj hw
      exact h.acquire hfs hfree trivial rfl (fun _ => trivial) (by simp) fun _ => trivial
    · rename_i htaken
      obtain ⟨hone, rfl⟩ := of_ite_some hw
      obtain ⟨u, hu⟩ := Option.ne_none_iff_exists'.mp htaken
      refine h.leave hfs (fun hh => hh.elim) fun hl hc _ => ⟨u, ?_, ?_⟩
      · rintro rfl
        exact ((h.threads.owner hfs).mpr hu).elim
      · refine h.owner_awake hl hu fun hgiven => ?_
        exact hheard hone (by simp [hfs]) ⟨hgiven, hc⟩
  | count =>
    obtain rfl := Option.some.inj hw
    refine ⟨l, ?_⟩
    split
    · rename_i hzero
      have hl := h.repr.count_eq_zero.mp hzero
      exact h.advance hfs Iff.rfl rfl rfl (fun _ => trivial) (fun _ => hl) fun hne => absurd hl hne
    · exact h.advance hfs Iff.rfl rfl rfl (fun _ => trivial) (by simp) fun _ _ _ => trivial
  | cond =>
    obtain rfl := Option.some.inj hw
    refine ⟨l, ?_⟩
    split
    · exact h.advance hfs Iff.rfl rfl rfl (fun _ => trivial) (by simp) fun _ _ _ => trivial
    · rename_i hfalse
      exact h.advance hfs Iff.rfl rfl rfl (fun _ => trivial) (by simp)
        fun _ hc => absurd hc hfalse
  | start work =>
    obtain rfl := Option.some.inj hw
    exact ⟨l, h.release hfs trivial (fun hh => hh.elim) trivial trivial⟩
  | job work =>
    obtain rfl := Option.some.inj hw
    exact ⟨l, h.advance hfs Iff.rfl rfl rfl (fun _ => trivial) (by simp) fun _ _ _ => trivial⟩
  | leave empty =>
    obtain rfl := Option.some.inj hw
    exact ⟨l, h.leaveRelease hfs⟩

omit [DecidableEq θ] in
theorem init [Builtins] (cond : Bool) (flags : UInt32) (mem : xqindex → xqindex) :
    Inv (World.init θ cond flags mem) [] where
  repr := Xq.repr_initEmpty 8 mem
  doubled := Xq.doubled_initEmpty mem
  named := by simp
  threads := by
    constructor
    all_goals simp [World.init]
  works := by simp [World.init, World.hand]
  emptied := by simp
  awake := by simp

/-- A thread calls the module; the condition is as it was or has just become true. -/
theorem call (h : Inv w l) (hcall : w.CanCall t) {cond : Bool} (hnamed : g.Named)
    (hholds : ¬ g.Holds) (hleave : ∀ empty, g ≠ .leave empty) (hcond : cond = w.cond ∨ g.Awake) :
    Inv { w.setStack t (g :: w.stack t) with cond := cond } l := by
  have hthreads : Threads { w.setStack t (g :: w.stack t) with cond := cond } :=
    h.threads.call hcall rfl hnamed hholds rfl
  have hnot : w.lock ≠ some t := by
    intro he
    exact hholds ((hthreads.owner (t := t) (Function.update_self _ _ _)).mpr he)
  have hhand : World.hand { w.setStack t (g :: w.stack t) with cond := cond } = w.hand :=
    World.hand_of_other rfl hnot fun u hu => World.setStack_other hu
  refine ⟨h.repr, h.doubled, h.named, hthreads, ?_, ?_, ?_⟩
  · rw [hhand]
    exact h.works
  · intro u r hu
    by_cases hut : u = t
    · subst hut
      rw [show World.stack _ u = _ from Function.update_self _ _ _] at hu
      exact absurd (List.cons.inj hu).1 (hleave true)
    · rw [show World.stack _ u = _ from World.setStack_other hut] at hu
      exact h.emptied hu
  · intro hl hc
    rcases hcond with rfl | hga
    · obtain ⟨u, f, hf, hfa⟩ := h.awake hl hc
      refine ⟨u, f, ?_, hfa⟩
      by_cases hut : u = t
      · subst hut
        simp [World.setStack, hf]
      · rw [show World.stack _ u = _ from World.setStack_other hut]
        exact hf
    · exact ⟨t, g, by simp [World.setStack], hga⟩

theorem step [Builtins] (h : Inv w l) {e : Event θ} (hstep : Step w e w') (hroom : e.Roomy w)
    (hheard : e.Heard w) : ∃ l', Inv w' l' := by
  cases hstep with
  | enqueue hcall hwork =>
    exact ⟨l, h.call hcall hwork (fun hh => hh.elim) (by simp) (Or.inl rfl)⟩
  | run hfs hw => exact h.run hfs hw hroom hheard
  | makeTrue hcall =>
    exact ⟨l, h.call hcall trivial (fun hh => hh.elim) (by simp) (Or.inr trivial)⟩
  | makeFalse =>
    have hthreads : Threads { w with cond := false } :=
      ⟨h.threads.below, h.threads.owner, h.threads.inside, h.threads.named⟩
    exact ⟨l, h.repr, h.doubled, h.named, hthreads, h.works, h.emptied, fun _ hc => by cases hc⟩

omit [DecidableEq θ] in
theorem servesAll (h : Inv w l) : w.ServesAll := by
  intro hquiet hcond
  have hl : l = [] := by
    by_contra hne
    obtain ⟨t, f, hf, -⟩ := h.awake hne hcond
    rw [hquiet t] at hf
    cases hf
  have hfree : w.lock = none := by
    by_contra hne
    obtain ⟨t, ht⟩ := Option.ne_none_iff_exists'.mp hne
    exact h.threads.inside ht (hquiet t)
  have hworks := h.works
  rw [World.hand_of_free hfree, hl, List.append_nil, List.append_nil] at hworks
  exact ⟨h.repr.count_eq_zero.mpr hl, hworks⟩

end Inv

/-- In every run in which no append meets 2^30 works or more and no try of the lock fails on an
owner that has given up while the condition is true, no wake-up is lost. -/
theorem run_servesAll [Builtins] {cond : Bool} {flags : UInt32} {mem : xqindex → xqindex}
    {es : List (Event θ)} {w : World θ}
    (h : Run (Guarded Step fun w e => e.Roomy w ∧ e.Heard w) (World.init θ cond flags mem) es w) :
    w.ServesAll := by
  have : ∃ l, Inv w l := by
    refine h.invariant (I := fun w => ∃ l, Inv w l) ?_ ⟨[], Inv.init cond flags mem⟩
    rintro w e w' ⟨l, hl⟩ ⟨⟨hroom, hheard⟩, hstep⟩
    exact hl.step hstep hroom hheard
  obtain ⟨l, hl⟩ := this
  exact hl.servesAll

/-- A thread enqueues while the condition is false; another one makes it true and signals. -/
theorem run_servesAll_one :
    ∃ (es : List (Event Bool)) (w : World Bool),
      Run (Guarded (@Step Bool _ ⟨0⟩) fun w e => e.Roomy w ∧ e.Heard w)
        (@World.init ⟨0⟩ Bool false XWAIT_SIGNAL_ONE fun _ => 0) es w ∧
      w.cond = true ∧ w.stack true = [] ∧ w.stack false = [] ∧ w.executed = [1] ∧
      w.ServesAll := by
  have hexec : (execute (@World.perform Bool _ ⟨0⟩) (fun w e => e.Roomy w ∧ e.Heard w)
      (@World.init ⟨0⟩ Bool false XWAIT_SIGNAL_ONE fun _ => 0)
      (.enqueue false 1 :: List.replicate 9 (.run false none) ++
        .makeTrue true :: List.replicate 10 (.run true none))).any (fun w =>
          w.cond = true ∧ w.stack true = [] ∧ w.stack false = [] ∧ w.executed = [1]) = true := by
    decide +kernel
  obtain ⟨w, hrun, hend⟩ :=
    Run.of_execute_any (fun _ _ _ => @World.step_of_perform Bool _ ⟨0⟩ _ _ _) hexec
  obtain ⟨hcond, htrue, hfalse, hexecuted⟩ := of_decide_eq_true hend
  exact ⟨_, w, hrun, hcond, htrue, hfalse, hexecuted, @run_servesAll Bool _ ⟨0⟩ _ _ _ _ _ hrun⟩

/-- The signal of the thread that makes the condition true comes when the enqueuer has already
seen it false, but still has the lock. -/
theorem not_run_servesAll : ¬ ∀ [Builtins] (flags : UInt32) (mem : xqindex → xqindex)
    (es : List (Event Bool)) (w : World Bool),
    Run Step (World.init Bool false flags mem) es w → w.ServesAll := by
  intro hall
  have hexec : (execute (@World.perform Bool _ ⟨0⟩) (fun w e => e.Roomy w)
      (@World.init ⟨0⟩ Bool false XWAIT_SIGNAL_ONE fun _ => 0)
      (.enqueue false 1 :: List.replicate 8 (.run false none) ++
        .makeTrue true :: List.replicate 2 (.run true none) ++ [.run false none])).any (fun w =>
          w.cond = true ∧ w.stack true = [] ∧ w.stack false = [] ∧ w.q.count = 1) = true := by
    decide +kernel
  obtain ⟨w, hrun, hend⟩ :=
    Run.of_execute_any (fun _ _ _ => @World.step_of_perform Bool _ ⟨0⟩ _ _ _) hexec
  obtain ⟨hcond, htrue, hfalse, hcount⟩ := of_decide_eq_true hend
  have hquiet : w.Quiet := fun t => by cases t <;> assumption
  have hserved := @hall ⟨0⟩ _ _ _ w (hrun.mono fun h => h.2) hquiet hcond
  rw [hcount] at hserved
  exact absurd hserved.1 (by decide)

end Xwaitq

end Libxseg
