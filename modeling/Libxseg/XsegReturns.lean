import Libxseg.XsegConservation

/-!
# Who gets a reply

A submit pushes the transit port of the request on its path, whoever the caller
says it is. Only get_request and accept set the transit port, so the two agree as
long as no peer submits a request that it got back through receive.
-/

namespace Libxseg

set_option autoImplicit false

open Xseg

variable {ι : Type} {w w' w'' : World ι} {a a' : Flow ι} {i : ι} {e : Event} {x y : xptr}
  {as : List (ι × Event)} {own : ι → xport} {p : xport}

def Event.Own (p : xport) : Event → Prop
  | miss src _ _ => src = p
  | got src _ _ _ => src = p
  | refused src _ _ _ => src = p
  | submit _ portno _ _ => portno = p
  | forward _ _ portno _ _ => portno = p
  | accept portno _ _ => portno = p
  | respond _ portno _ _ => portno = p
  | receive portno _ _ => portno = p
  | drop portno _ _ => portno = p
  | _ => True

/-- What an event does to the port at which `x` was last taken by get_request or accept; a
receive takes it at none. -/
def Event.takes (x : xptr) (o : Option xport) : Event → Option xport
  | got src _ _ y => if y = x then some src else o
  | accept portno _ (some y) => if y = x then some portno else o
  | receive _ _ (some y) => if y = x then none else o
  | _ => o

def Event.submits (x : xptr) (l : List xport) : Event → List xport
  | got _ _ _ y => if y = x then [] else l
  | submit y portno _ r => if y = x ∧ r ≠ NoPort then portno :: l else l
  | forward y _ portno _ r => if y = x ∧ r ≠ NoPort then portno :: l else l
  | _ => l

/-- The port at which `x` was last taken by get_request or accept, unless it was received back
after that. -/
def taker (x : xptr) (as : List (ι × Event)) : Option xport :=
  as.foldl (fun o b => b.2.takes x o) none

def submitters (x : xptr) (as : List (ι × Event)) : List xport :=
  as.foldl (fun l b => b.2.submits x l) []

/-- A request that is submitted or forwarded was not received back by the one who does so. -/
def Event.Direct (as : List (ι × Event)) : Event → Prop
  | submit x _ _ _ => taker x as ≠ none
  | forward x _ _ _ _ => taker x as ≠ none
  | _ => True

/-- Every submit and forward of the history is of a request that was not received back. -/
def DirectRun (as : List (ι × Event)) : Prop :=
  ∀ pre b post, as = pre ++ b :: post → b.2.Direct pre

def pathOf (w : World ι) (x : xptr) : List xqindex := (w.seg.requests x).path.elems

def Pushes (w : World ι) (e : Event) (w' : World ι) : Prop :=
  match e with
  | .submit x portno _ r => r ≠ NoPort → pathOf w' x = portno.toUInt64 :: pathOf w x
  | .forward x _ portno _ r => r ≠ NoPort → pathOf w' x = portno.toUInt64 :: pathOf w x
  | _ => True

def Answers (as : List (ι × Event)) (e : Event) : Prop :=
  match e with
  | .respond x _ _ r => r ≠ NoPort → r ∈ submitters x as
  | _ => True

@[simp] theorem taker_concat (x : xptr) (as : List (ι × Event)) (b : ι × Event) :
    taker x (as ++ [b]) = b.2.takes x (taker x as) := by
  simp [taker]

@[simp] theorem submitters_concat (x : xptr) (as : List (ι × Event)) (b : ι × Event) :
    submitters x (as ++ [b]) = b.2.submits x (submitters x as) := by
  simp [submitters]

theorem DirectRun.concat {b : ι × Event} (h : DirectRun (as ++ [b])) :
    DirectRun as ∧ b.2.Direct as := by
  constructor
  · intro pre c post has
    exact h pre c (post ++ [b]) (by simp [has])
  · exact h as b [] rfl

theorem DirectRun.nil : DirectRun ([] : List (ι × Event)) := by
  intro pre c post has
  simp at has

theorem DirectRun.snoc {b : ι × Event} (h : DirectRun as) (hb : b.2.Direct as) :
    DirectRun (as ++ [b]) := by
  intro pre c post has
  rcases List.eq_nil_or_concat' post with rfl | ⟨post, d, rfl⟩
  · obtain ⟨rfl, hcb⟩ := List.append_inj' has rfl
    obtain rfl := List.singleton_inj.mp hcb
    exact hb
  · have has : as ++ [b] = (pre ++ c :: post) ++ [d] := by simpa using has
    obtain ⟨rfl, -⟩ := List.append_inj' has rfl
    exact h pre c post rfl

theorem Event.Still.takes (h : e.Still) (x : xptr) (o : Option xport) : e.takes x o = o := by
  cases e with
  | accept portno flags r =>
    obtain rfl : r = none := h
    rfl
  | receive portno flags r =>
    obtain rfl : r = none := h
    rfl
  | _ => first | rfl | exact absurd h id

theorem Event.Still.submits (h : e.Still) (x : xptr) (l : List xport) :
    e.submits x l = l := by
  cases e with
  | submit y portno flags r =>
    obtain rfl : r = NoPort := h
    simp [Event.submits]
  | forward y newDst portno flags r =>
    obtain rfl : r = NoPort := h
    simp [Event.submits]
  | _ => first | rfl | exact absurd h id

structure Remembers (own : ι → xport) (as : List (ι × Event)) (a : Flow ι) : Prop where
  path : ∀ {x pl}, a.place x = some pl → pl.Live → ∀ p ∈ a.path x, p ∈ submitters x as
  transit : ∀ {x i p}, a.place x = some (.hand i) → taker x as = some p →
    a.transit x = p ∧ p = own i

theorem Remembers.extend (h : Remembers own as a) (fresh : List xptr) :
    Remembers own as (a.extend fresh) where
  path := by
    intro x pl hx hlive
    simp only [Flow.extend] at hx
    split at hx
    · obtain rfl := Option.some.inj hx
      exact absurd hlive id
    · exact h.path hx hlive
  transit := by
    intro x i p hx ht
    simp only [Flow.extend] at hx
    split at hx
    · cases hx
    · exact h.transit hx ht

def Event.About (x : xptr) (e : Event) : Prop :=
  ∀ y, y ≠ x → (∀ o, e.takes y o = o) ∧ ∀ l, e.submits y l = l

theorem Remembers.move (h : Remembers own as a) {pl : Place ι} {l : List xport} {t : xport}
    (he : e.About x) (hpath : pl.Live → ∀ p ∈ l, p ∈ submitters x (as ++ [(i, e)]))
    (htransit : ∀ {j p}, pl = .hand j → taker x (as ++ [(i, e)]) = some p → t = p ∧ p = own j) :
    Remembers own (as ++ [(i, e)]) (a.move x pl l t) where
  path := by
    intro y pl' hy hlive
    rcases eq_or_ne y x with rfl | hne
    · simp only [Flow.move, Function.update_self] at hy ⊢
      obtain rfl := Option.some.inj hy
      exact hpath hlive
    · simp only [Flow.move, Function.update_of_ne hne] at hy ⊢
      rw [submitters_concat, (he y hne).2]
      exact h.path hy hlive
  transit := by
    intro y j p hy ht
    rcases eq_or_ne y x with rfl | hne
    · simp only [Flow.move, Function.update_self] at hy ⊢
      exact htransit (Option.some.inj hy) ht
    · simp only [Flow.move, Function.update_of_ne hne] at hy ⊢
      rw [taker_concat, (he y hne).1] at ht
      exact h.transit hy ht

theorem Remembers.lose (h : Remembers own as a) (he : e.About x) :
    Remembers own (as ++ [(i, e)]) (a.lose x) where
  path := by
    intro y pl hy hlive
    rcases eq_or_ne y x with rfl | hne
    · simp [Flow.lose] at hy
    · simp only [Flow.lose, Function.update_of_ne hne] at hy ⊢
      rw [submitters_concat, (he y hne).2]
      exact h.path hy hlive
  transit := by
    intro y j p hy ht
    rcases eq_or_ne y x with rfl | hne
    · simp [Flow.lose] at hy
    · simp only [Flow.lose, Function.update_of_ne hne] at hy ⊢
      rw [taker_concat, (he y hne).1] at ht
      exact h.transit hy ht

/-- The port that a request in hand was last taken over by is the caller's. -/
theorem Remembers.transit_eq (h : Remembers own as a) (hx : a.place x = some (.hand i))
    (ht : taker x as ≠ none) : a.transit x = own i := by
  obtain ⟨p, hp⟩ := Option.ne_none_iff_exists'.mp ht
  obtain ⟨htr, rfl⟩ := h.transit hx hp
  exact htr

/-- A request in hand that is submitted goes on under the caller's port. -/
theorem Remembers.submits (h : Remembers own as a) (hx : a.place x = some (.hand i))
    (hdirect : taker x as ≠ none) {p : xport} (hp : p ∈ a.transit x :: a.path x) :
    p ∈ own i :: submitters x as := by
  rcases List.mem_cons.mp hp with rfl | hp
  · exact List.mem_cons.mpr (.inl (h.transit_eq hx hdirect))
  · exact List.mem_cons_of_mem _ (h.path hx trivial p hp)

theorem FlowStep.remembers (h : FlowStep a (i, e) a') (ha : Remembers own as a)
    (hown : e.Own (own i)) (hdirect : e.Direct as) : Remembers own (as ++ [(i, e)]) a' := by
  cases h with
  | still hstill =>
    constructor
    · intro x pl hx hlive
      rw [submitters_concat, hstill.submits]
      exact ha.path hx hlive
    · intro x j p hx ht
      rw [taker_concat, hstill.takes] at ht
      exact ha.transit hx ht
  | @got _ src dst flags x p fresh hnew hx hp =>
    refine (ha.extend fresh).move (fun y hy => ?_) (by simp) ?_
    · simp [Event.takes, Event.submits, Ne.symm hy]
    · intro j q hj ht
      obtain rfl := Place.hand.inj hj
      obtain rfl : src = q := by simpa [Event.takes] using ht
      exact ⟨rfl, hown⟩
  | refused _ _ _ =>
    exact (ha.extend _).move (fun y hy => ⟨fun _ => rfl, fun _ => rfl⟩) (fun hl => absurd hl id)
      (by simp)
  | lost _ => exact ha.lose fun y hy => ⟨fun _ => rfl, fun _ => rfl⟩
  | @submit _ x portno flags r hx hr =>
    refine ha.move (fun y hy => ?_) (fun _ p hp => ?_) (by simp)
    · simp [Event.takes, Event.submits, Ne.symm hy]
    · have hport : portno = own i := hown
      simp only [submitters_concat, Event.submits, hr, ne_eq, not_false_eq_true, and_self,
        if_true, hport]
      exact ha.submits hx hdirect hp
  | @forward _ x newDst portno flags r hx hr =>
    refine ha.move (fun y hy => ?_) (fun _ p hp => ?_) (by simp)
    · simp [Event.takes, Event.submits, Ne.symm hy]
    · have hport : portno = own i := hown
      simp only [submitters_concat, Event.submits, hr, ne_eq, not_false_eq_true, and_self,
        if_true, hport]
      exact ha.submits hx hdirect hp
  | @accept _ portno flags x hx =>
    refine ha.move (fun y hy => ?_) (fun _ => ?_) ?_
    · simp [Event.takes, Event.submits, Ne.symm hy]
    · rw [submitters_concat]
      exact ha.path hx trivial
    · intro j q hj ht
      obtain rfl := Place.hand.inj hj
      obtain rfl : portno = q := by simpa [Event.takes] using ht
      exact ⟨rfl, hown⟩
  | respond hx hsuf _ _ =>
    refine ha.move (fun y hy => ⟨fun _ => rfl, fun _ => rfl⟩) (fun _ p hp => ?_) (by simp)
    rw [submitters_concat]
    exact ha.path hx trivial p (hsuf.subset hp)
  | trim hx hsuf =>
    refine ha.move (fun y hy => ⟨fun _ => rfl, fun _ => rfl⟩) (fun _ p hp => ?_) ?_
    · rw [submitters_concat]
      exact ha.path hx trivial p (hsuf.subset hp)
    · intro j q hj ht
      obtain rfl := Place.hand.inj hj
      rw [taker_concat] at ht
      exact ha.transit hx ht
  | @receive _ portno flags x p l hx hl =>
    refine ha.move (fun y hy => ?_) (fun _ q hq => ?_) ?_
    · simp [Event.takes, Event.submits, Ne.symm hy]
    · rw [submitters_concat]
      exact ha.path hx trivial q (hl ▸ List.mem_cons_of_mem p hq)
    · intro j q _ ht
      simp [Event.takes] at ht
  | drop _ _ => exact ha.lose fun y hy => ⟨fun _ => rfl, fun _ => rfl⟩
  | put _ =>
    exact ha.move (fun y hy => ⟨fun _ => rfl, fun _ => rfl⟩) (fun hl => absurd hl id) (by simp)
  | putFull _ =>
    exact ha.move (fun y hy => ⟨fun _ => rfl, fun _ => rfl⟩) (fun hl => absurd hl id) (by simp)
  | putObj _ =>
    exact ha.move (fun y hy => ⟨fun _ => rfl, fun _ => rfl⟩) (fun hl => absurd hl id) (by simp)

theorem Refines.pathOf_eq (h : Refines w a) {pl : Place ι} (hx : a.place x = some pl)
    (hlive : pl.Live) : pathOf w x = (a.path x).map UInt32.toUInt64 :=
  (h.tracks hx hlive).path.repr.elems_eq

/-- A request that came to a live place by a submit has its transit port on top of its path. -/
theorem Refines.pushes (h : Refines w a) (hx : a.place x = some (.hand i)) {r : xport}
    (h' : Refines w' (a.move x (.queue r .request) (a.transit x :: a.path x) (a.transit x))) :
    pathOf w' x = (a.transit x).toUInt64 :: pathOf w x := by
  have hplace : (a.move x (.queue r .request) (a.transit x :: a.path x) (a.transit x)).place x =
      some (.queue r .request) := by simp [Flow.move]
  have hnew := h'.pathOf_eq hplace trivial
  rw [hnew, h.pathOf_eq hx trivial]
  simp [Flow.move]

variable [DecidableEq ι]

/-- In every run each submit pushes its caller's port, and every response goes to a port
that submitted the request. -/
def PathsReturn [Builtins] (own : ι → xport) (w : World ι) : Prop :=
  ∀ as w' b w'', Run (Guarded World.Step fun _ b => b.2.Own (own b.1)) w as w' →
    Guarded World.Step (fun _ b => b.2.Own (own b.1)) w' b w'' →
    Pushes w' b.2 w'' ∧ Answers as b.2

theorem run_remembers [Builtins] (hs : Start w)
    (h : Run (Guarded World.Step fun w b => w.seg.Sized ∧ b.2.Own (own b.1)) w as w')
    (hdirect : DirectRun as) : ∃ a, Refines w' a ∧ Remembers own as a := by
  refine h.history (I := fun as w => DirectRun as → ∃ a, Refines w a ∧ Remembers own as a)
    ?_ ?_ hdirect
  · rintro as s ⟨i, e⟩ t ih ⟨⟨hsized, hown⟩, hstep⟩ hdirect
    obtain ⟨hpre, hlast⟩ := hdirect.concat
    obtain ⟨a, hr, ha⟩ := ih hpre
    obtain ⟨a', hflow, hr'⟩ := hstep.simulates hr hsized
    exact ⟨a', hr', hflow.remembers ha hown hlast⟩
  · intro _
    refine ⟨_, hs.refines, ?_, ?_⟩
    · intro x pl hx hlive p hp
      exact absurd hp List.not_mem_nil
    · intro x i p hx ht
      cases ht

theorem run_pathsReturn [Builtins] (own : ι → xport) (hs : Start w)
    (h : Run (Guarded World.Step fun w b => w.seg.Sized ∧ b.2.Own (own b.1)) w as w')
    {b : ι × Event}
    (hstep : Guarded World.Step (fun w b => w.seg.Sized ∧ b.2.Own (own b.1)) w' b w'')
    (hdirect : DirectRun (as ++ [b])) : Pushes w' b.2 w'' ∧ Answers as b.2 := by
  obtain ⟨i, e⟩ := b
  obtain ⟨hpre, hlast⟩ := hdirect.concat
  obtain ⟨a, hr, ha⟩ := run_remembers hs h hpre
  obtain ⟨⟨hsized, hown⟩, hstep⟩ := hstep
  obtain ⟨a', hflow, hr'⟩ := hstep.simulates hr hsized
  cases e with
  | submit x portno flags r =>
    refine ⟨fun hne => ?_, trivial⟩
    cases hflow with
    | still hstill => exact absurd hstill hne
    | submit hx _ =>
      rw [hr.pushes hx hr', (ha.transit_eq hx hlast).trans hown.symm]
  | forward x newDst portno flags r =>
    refine ⟨fun hne => ?_, trivial⟩
    cases hflow with
    | still hstill => exact absurd hstill hne
    | forward hx _ =>
      rw [hr.pushes hx hr', (ha.transit_eq hx hlast).trans hown.symm]
  | respond x portno flags r =>
    refine ⟨trivial, fun hne => ?_⟩
    cases hflow with
    | still hstill => exact absurd hstill id
    | respond hx hsuf _ hhead =>
      exact ha.path hx trivial r (hsuf.subset (List.mem_of_head? hhead))
    | trim _ _ => exact absurd rfl hne
  | _ => exact ⟨trivial, trivial⟩

theorem run_pathsReturn_submit : ∃ _ : Builtins, ∃ s2 s3 : Xseg,
    Run (Guarded World.Step fun w b => w.seg.Sized ∧ b.2.Own 0) (solo (madeSeg 4 1024) [] .idle)
      [((), .miss 0 1 0), ((), .got 0 1 0 4096)] (solo s2 [4096] .idle) ∧
    World.Step (solo s2 [4096] .idle) ((), .submit 4096 0 0 1) (solo s3 [] .idle) ∧
    pathOf (solo s3 [] .idle) 4096 = 0 :: pathOf (solo s2 [4096] .idle) 4096 := by
  let _ : Builtins := ⟨0⟩
  obtain ⟨s2, s3, step1, step2, step3, hsized, hsized2, -⟩ := first_steps rfl
  have hrun : Run (Guarded World.Step fun w b => w.seg.Sized ∧ b.2.Own 0)
      (solo (madeSeg 4 1024) [] .idle) [((), .miss 0 1 0), ((), .got 0 1 0 4096)]
      (solo s2 [4096] .idle) :=
    Run.cons ⟨⟨hsized, rfl⟩, step1⟩ (Run.single ⟨⟨hsized, rfl⟩, step2⟩)
  have hlast : Guarded World.Step (fun w b => w.seg.Sized ∧ b.2.Own 0) (solo s2 [4096] .idle)
      ((), .submit 4096 0 0 1) (solo s3 [] .idle) := ⟨⟨hsized2, rfl⟩, step3⟩
  have hdirect : DirectRun ([((), .miss 0 1 0), ((), .got 0 1 0 4096)] ++
      [((), .submit 4096 0 0 1)] : List (Unit × Event)) := by
    have hmiss : DirectRun [((), Event.miss 0 1 0)] :=
      DirectRun.nil.snoc (b := ((), .miss 0 1 0)) trivial
    have hgot : DirectRun [((), Event.miss 0 1 0), ((), Event.got 0 1 0 4096)] :=
      hmiss.snoc (b := ((), .got 0 1 0 4096)) trivial
    exact hgot.snoc (by simp [Event.Direct, taker, Event.takes])
  exact ⟨⟨0⟩, s2, s3, hrun, step3,
    (run_pathsReturn (fun _ => 0) (madeSeg_start (by decide)) hrun hlast hdirect).1 (by decide)⟩

/-- A reply can go to a port that did not submit the request: what the peer forwards is pushed
with the port that accepted it before. -/
theorem not_pathsReturn : ¬ ∀ [Builtins] (own : Bool → xport) (w : World Bool),
    Start w → PathsReturn own w := by
  intro h
  let _ : Builtins := ⟨0⟩
  obtain ⟨s0, hs0⟩ : ∃ s, s = madeSeg 4 1024 := ⟨_, rfl⟩
  obtain ⟨s2, s3, s4, s5, s6, hret⟩ := returned_steps (by decide : (0 : UInt32) &&& X_LOCAL = 0) hs0
  have h2 : s6.getPort 2 = some madePort := by
    rw [hret.others (by decide) (by decide), hs0]
    exact madeSeg_getPort (by decide)
  have hnext : s6.pathNext 1 = NoPort := by
    rw [hret.next, hs0]
    rfl
  obtain ⟨port, h1⟩ := Option.isSome_iff_exists.mp hret.server
  obtain ⟨s7, q7, hfwd, -, -, ht7⟩ := forward_reaches 2 (by decide) hret.tracks (getPort_lt h1)
    (by decide) hnext h2 (by simp [madePort]) (madePort_holding _) (by decide) 0
  let none0 : Peer := ⟨[], .idle⟩
  let one : Peer := ⟨[4096], .idle⟩
  have step7 := forward_step (w := duo s6 one none0) (i := false) 0 rfl
    (List.mem_singleton_self _) (by decide) hfwd
  rw [act_duo_false, List.erase_cons_head] at step7
  let own : Bool → xport := fun i => if i then 1 else 0
  have hrun : Run (Guarded World.Step fun _ b => b.2.Own (own b.1)) (duo s0 none0 none0)
      [(false, .miss 0 1 0), (false, .got 0 1 0 4096), (false, .submit 4096 0 0 1),
        (true, .accept 1 0 (some 4096)), (true, .respond 4096 1 0 0),
        (false, .receive 0 0 (some 4096))] (duo s6 one none0) := by
    refine Run.cons ⟨rfl, hret.miss⟩ (Run.cons ⟨rfl, hret.got⟩ (Run.cons ⟨rfl, hret.submit⟩ ?_))
    exact Run.cons ⟨rfl, hret.accept⟩
      (Run.cons ⟨rfl, hret.respond⟩ (Run.single ⟨rfl, hret.receive⟩))
  have hstart : Start (duo s0 none0 none0) := by
    rw [duo_idle, hs0]
    exact madeSeg_start (by decide)
  have hlast : Guarded World.Step (fun _ b => b.2.Own (own b.1)) (duo s6 one none0)
      (false, .forward 4096 2 0 0 2) (duo s7 none0 none0) := ⟨rfl, step7⟩
  have hpush := (h own _ hstart _ _ _ _ hrun hlast).1 (by decide)
  have hafter : pathOf (duo s7 none0 none0) 4096 = [1] := ht7.path.repr.elems_eq
  have hbefore : pathOf (duo s6 one none0) 4096 = [] := hret.tracks.path.repr.elems_eq
  rw [hafter, hbefore] at hpush
  exact absurd hpush (by decide)

end Libxseg
