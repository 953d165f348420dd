import Libxseg.XsegSources

/-!
# The requests that a port waits for

One peer alone takes requests at a port. The requests that have the port on their paths, other
than those in its hands, are among those that it submitted and has not received: nobody else
puts the port on a path, and it comes off when the peer receives the request, if not before.
-/

namespace Libxseg

set_option autoImplicit false

open Xseg

variable {ι : Type}

def Event.Elsewhere (p : xport) : Event → Prop
  | got src _ _ _ => src ≠ p
  | accept portno _ _ => portno ≠ p
  | receive portno _ _ => portno ≠ p
  | _ => True

def Event.sends (sent : Multiset xptr) : Event → Multiset xptr
  | submit x _ _ r => if r = NoPort then sent else x ::ₘ sent
  | receive _ _ (some x) => sent.erase x
  | _ => sent

theorem Event.sends_none (sent : Multiset xptr) (x : xptr) (portno : xport) (flags : UInt32) :
    (Event.submit x portno flags NoPort).sends sent = sent := by
  simp [Event.sends]

theorem Event.sends_some (sent : Multiset xptr) (x : xptr) (portno : xport) (flags : UInt32)
    {r : xport} (hr : r ≠ NoPort) : (Event.submit x portno flags r).sends sent = x ::ₘ sent :=
  if_neg hr

def Event.Sends : Event → Prop
  | forward _ _ _ _ _ => False
  | accept _ _ _ => False
  | respond _ _ _ _ => False
  | _ => True

/-- Peer `i` alone takes requests at port `p`, and those of `sent` may come back to it. -/
structure Awaited (i : ι) (p : xport) (sent : Multiset xptr) (a : Flow ι) : Prop where
  away : ∀ {x j}, j ≠ i → a.place x = some (.hand j) → a.transit x ≠ p
  replies : ∀ {x q}, q ≠ p → a.place x = some (.queue q .reply) → a.transit x ≠ p
  paths : ∀ {x pl}, a.place x = some pl → pl.Live → pl ≠ .hand i → p ∈ a.path x → x ∈ sent

namespace Awaited
variable {a a' : Flow ι} {i j : ι} {p : xport} {sent sent' : Multiset xptr} {x : xptr}
  {pl : Place ι} {l : List xport} {t : xport} {e : Event}

theorem move (h : Awaited i p sent a) (hsub : ∀ y, y ≠ x → y ∈ sent → y ∈ sent')
    (haway : ∀ j, j ≠ i → pl = .hand j → t ≠ p)
    (hreply : ∀ q, q ≠ p → pl = .queue q .reply → t ≠ p)
    (hpath : pl.Live → pl ≠ .hand i → p ∈ l → x ∈ sent') :
    Awaited i p sent' (a.move x pl l t) := by
  constructor
  · intro y j hj hy
    rcases eq_or_ne y x with rfl | hyx
    · rw [Flow.place_move_self] at hy
      simpa [Flow.move] using haway j hj (Option.some.inj hy)
    · rw [Flow.place_move_of_ne hyx] at hy
      simpa [Flow.move, hyx] using h.away hj hy
  · intro y q hq hy
    rcases eq_or_ne y x with rfl | hyx
    · rw [Flow.place_move_self] at hy
      simpa [Flow.move] using hreply q hq (Option.some.inj hy)
    · rw [Flow.place_move_of_ne hyx] at hy
      simpa [Flow.move, hyx] using h.replies hq hy
  · intro y pl' hy hlive hne hp
    rcases eq_or_ne y x with rfl | hyx
    · rw [Flow.place_move_self] at hy
      obtain rfl := Option.some.inj hy
      exact hpath hlive hne (by simpa [Flow.move] using hp)
    · rw [Flow.place_move_of_ne hyx] at hy
      exact hsub y hyx (h.paths hy hlive hne (by simpa [Flow.move, hyx] using hp))

theorem rest (h : Awaited i p sent a) (hpl : ¬ pl.Live) : Awaited i p sent (a.move x pl l t) := by
  apply h.move (fun _ _ hy => hy)
  · rintro j - rfl
    exact absurd trivial hpl
  · rintro q - rfl
    exact absurd trivial hpl
  · intro hlive
    exact absurd hlive hpl

theorem extend (h : Awaited i p sent a) (fresh : List xptr) :
    Awaited i p sent (a.extend fresh) := by
  constructor
  · intro y j hj hy
    exact h.away hj (Flow.place_of_extend (by simp) hy)
  · intro y q hq hy
    exact h.replies hq (Flow.place_of_extend (by simp) hy)
  · intro y pl hy hlive hne hp
    have hlist : pl ≠ .list := by
      rintro rfl
      exact hlive
    exact h.paths (Flow.place_of_extend hlist hy) hlive hne hp

theorem lose (h : Awaited i p sent a) (x : xptr) : Awaited i p sent (a.lose x) := by
  have hold {y : xptr} {pl : Place ι} (hy : (a.lose x).place y = some pl) :
      a.place y = some pl := by
    rcases eq_or_ne y x with rfl | hyx
    · simp [Flow.lose] at hy
    · simpa [Flow.lose, hyx] using hy
  exact ⟨fun hj hy => h.away hj (hold hy), fun hq hy => h.replies hq (hold hy),
    fun hy hlive hne hp => h.paths (hold hy) hlive hne hp⟩

theorem other (h : Awaited i p sent a) (hstep : FlowStep a (j, e) a') (hj : j ≠ i)
    (he : e.Elsewhere p) : Awaited i p sent a' := by
  have hhand {x : xptr} (hx : a.place x = some (.hand j)) (hp : p ∈ a.path x) : x ∈ sent :=
    h.paths hx trivial (fun heq => hj (Place.hand.inj heq)) hp
  cases hstep with
  | still _ => exact h
  | got hnew hx hpl =>
    exact (h.extend _).move (fun _ _ hy => hy) (fun _ _ _ => he) (by simp) (by simp)
  | refused hnew hx hpl => exact (h.extend _).rest id
  | lost hx => exact h.lose _
  | submit hx hr =>
    refine h.move (fun _ _ hy => hy) (by simp) (by simp) fun _ _ hp => ?_
    rcases List.mem_cons.mp hp with hp | hp
    · exact absurd hp.symm (h.away hj hx)
    · exact hhand hx hp
  | forward hx hr =>
    refine h.move (fun _ _ hy => hy) (by simp) (by simp) fun _ _ hp => ?_
    rcases List.mem_cons.mp hp with hp | hp
    · exact absurd hp.symm (h.away hj hx)
    · exact hhand hx hp
  | accept hx =>
    exact h.move (fun _ _ hy => hy) (fun _ _ _ => he) (by simp)
      fun _ _ hp => h.paths hx trivial (by simp) hp
  | respond hx hsuf hr hhead =>
    exact h.move (fun _ _ hy => hy) (by simp) (fun _ _ _ => h.away hj hx)
      fun _ _ hp => hhand hx (hsuf.subset hp)
  | trim hx hsuf =>
    exact h.move (fun _ _ hy => hy) (fun _ _ _ => h.away hj hx) (by simp)
      fun _ _ hp => hhand hx (hsuf.subset hp)
  | receive hx hl =>
    exact h.move (fun _ _ hy => hy) (fun _ _ _ => h.replies he hx) (by simp)
      fun _ _ hp => h.paths hx trivial (by simp) (hl ▸ List.mem_cons_of_mem _ hp)
  | drop hx hl => exact h.lose _
  | put hx => exact h.rest id
  | putFull hx => exact h.rest id
  | putObj hx => exact h.rest id

theorem own (h : Awaited i p sent a) (hstep : FlowStep a (i, e) a') (he : e.Sends) :
    Awaited i p (e.sends sent) a' := by
  cases hstep with
  | still hstill =>
    have hsame : e.sends sent = sent := by
      cases e with
      | submit x portno flags r =>
        obtain rfl : r = NoPort := hstill
        exact Event.sends_none ..
      | receive portno flags r =>
        obtain rfl : r = none := hstill
        rfl
      | _ => rfl
    rw [hsame]
    exact h
  | got hnew hx hpl =>
    refine (h.extend _).move (fun _ _ hy => hy) (fun j hj heq => ?_) (by simp) (by simp)
    exact absurd (Place.hand.inj heq).symm hj
  | refused hnew hx hpl => exact (h.extend _).rest id
  | lost hx => exact h.lose _
  | submit hx hr =>
    rw [Event.sends_some _ _ _ _ hr]
    exact h.move (fun _ _ hy => Multiset.mem_cons_of_mem hy) (by simp) (by simp)
      fun _ _ _ => Multiset.mem_cons_self _ _
  | forward hx hr => exact absurd he id
  | accept hx => exact absurd he id
  | respond hx hsuf hr hhead => exact absurd he id
  | trim hx hsuf => exact absurd he id
  | receive hx hl =>
    refine h.move (fun _ hne hy => (Multiset.mem_erase_of_ne hne).mpr hy) (fun j hj heq => ?_)
      (by simp) fun _ hne => absurd rfl hne
    exact absurd (Place.hand.inj heq).symm hj
  | drop hx hl => exact h.lose _
  | put hx => exact h.rest id
  | putFull hx => exact h.rest id
  | putObj hx => exact h.rest id

theorem received (h : Awaited i p sent a) (hhome : a.RepliesHome)
    (hx : a.place x = some (.queue p .reply)) : x ∈ sent :=
  h.paths hx trivial (by simp) (List.mem_of_head? (hhome hx))

end Awaited

end Libxseg
