import Libxseg.XsegAccountsSteps
import Libxseg.XsegClients
import Libxseg.XsegSized

/-!
# Runs of the loops of the tool

A step of the segment by the peer that runs the loop keeps the account of the loop, and so does
a step of any other peer. So the books of a loop balance whenever it returns, and a request that
`cmd_submit_reqs` fails to submit stays in its hands for good.
-/

namespace Libxseg

set_option autoImplicit false

open Xseg

variable {ι : Type}

section World
variable [DecidableEq ι] [Builtins] {loop : ClientLoop} {loops : Int} {src dst : xport} {i : ι}
  {w w' : World ι} {a a' : Flow ι} {kept : List xptr} {sent : Multiset xptr} {c c' : Client}
  {x : xptr} {e : Event}

def Client.Continues (loop : ClientLoop) (loops : Int) (src dst : xport) (peer : Peer)
    (kept : List xptr) (sent : Multiset xptr) (e : Event) (c : Client) : Prop :=
  ∃ kept', (∀ y ∈ kept, y ∈ kept') ∧
    (loop.keeps = true → ∀ y, e = .submit y src X_ALLOC NoPort → y ∈ kept') ∧
    c.Accounts loop loops src dst peer kept' (e.sends sent)

omit [Builtins] in
theorem Client.Accounts.continues {peer : Peer}
    (h : c.Accounts loop loops src dst peer kept (e.sends sent))
    (he : ∀ y, e ≠ .submit y src X_ALLOC NoPort) :
    c.Continues loop loops src dst peer kept sent e :=
  ⟨kept, fun _ hy => hy, fun _ y hy => absurd hy (he y), h⟩

theorem Client.Accounts.puts {site : PutAt}
    (h : c.Accounts loop loops src dst (w.peers i) kept sent) (hsourced : Sourced w)
    (hc : c.pc = .put x site) (he : e.PutsBack x) (hstep : w.Step (i, e) w') :
    (w'.peers i).hands.Perm kept ∧ ((w'.peers i).pc = .idle ∨
      (∃ p, (w'.peers i).pc = .putting x p) ∨ ∃ p, (w'.peers i).pc = .counting p) := by
  have hcalling := h.calling
  have hhands := h.hands
  rw [hc] at hcalling hhands
  have hgives {peer : Peer} (hg : (w.peers i).Gives x peer) :
      peer.hands.Perm kept ∧ peer.pc = .idle := by
    cases hg with
    | held hpc hx =>
      rw [hpc] at hhands
      have herase := hhands.erase x
      rw [ClientPc.hand, List.singleton_append, List.erase_cons_head] at herase
      exact ⟨herase, rfl⟩
    | aborted hpc =>
      rw [hpc] at hcalling
      simp [ClientPc.Calling] at hcalling
  cases hstep with
  | put hg hfree hne =>
    obtain rfl := he
    rw [act_peers_self]
    exact ⟨(hgives hg).1, .inl (hgives hg).2⟩
  | putFull hg hfree =>
    obtain rfl := he
    rw [act_peers_self]
    exact ⟨(hgives hg).1, .inr (.inl ⟨_, rfl⟩)⟩
  | putObj hpc =>
    rw [act_peers_self]
    rw [hpc] at hhands
    exact ⟨hhands, .inr (.inr ⟨_, rfl⟩)⟩
  | putDone hpc hport =>
    rw [act_peers_self]
    rw [hpc] at hhands
    exact ⟨hhands, .inl rfl⟩
  | putRefused hpc hx hfree => exact absurd hfree (hsourced.putFree hx)
  | lost hpc hfree =>
    rw [hpc] at hcalling
    simp [ClientPc.Calling] at hcalling
  | _ => exact absurd he id

omit [Builtins] in
theorem Event.PutsBack.sends (he : e.PutsBack x) (sent : Multiset xptr) (src : xport) :
    e.sends sent = sent ∧ e.Sends ∧ ∀ y, e ≠ .submit y src X_ALLOC NoPort := by
  cases e with
  | put y => exact ⟨rfl, trivial, by simp⟩
  | putRefused y => exact ⟨rfl, trivial, by simp⟩
  | lost y => exact ⟨rfl, trivial, by simp⟩
  | putFull y => exact ⟨rfl, trivial, by simp⟩
  | putObj y => exact ⟨rfl, trivial, by simp⟩
  | putDone => exact ⟨rfl, trivial, by simp⟩
  | _ => exact absurd he id

theorem Client.Accounts.not_undo (h : c.Accounts loop loops src dst (w.peers i) kept sent)
    (hc : c.pc = .get) (hpc : (w.peers i).pc ≠ .idle) (he : e.PutsBack x)
    (hstep : w.Step (i, e) w') : False := by
  have hcalling := h.calling
  rw [hc] at hcalling
  have hgetting : (w.peers i).pc = .getting src dst X_ALLOC := hcalling.resolve_left hpc
  have hgives {y : xptr} {peer : Peer} (hg : (w.peers i).Gives y peer) : False := by
    cases hg with
    | held hidle hx => exact hpc hidle
    | aborted habort =>
      rw [hgetting] at habort
      cases habort
  cases hstep with
  | put hg hfree hne => exact hgives hg
  | putFull hg hfree => exact hgives hg
  | putObj hp =>
    rw [hgetting] at hp
    cases hp
  | putDone hp hport =>
    rw [hgetting] at hp
    cases hp
  | putRefused hidle hx hfree => exact hpc hidle
  | lost hp hfree =>
    rw [hgetting] at hp
    cases hp
  | _ => exact he

theorem Client.Accounts.call (h : c.Accounts loop loops src dst (w.peers i) kept sent)
    (hr : Refines w a) (hsourced : Sourced w) (hmapped : e.Mapped w.seg)
    (hsent : ∀ y, e = .receive src 0 (some y) → y ∈ sent) (hstep : w.Step (i, e) w')
    (hcall : c.Calls loop loops src dst (w.peers i).pc (w'.peers i).pc e c') :
    e.Sends ∧ c'.Continues loop loops src dst (w'.peers i) kept sent e := by
  have hcalling := h.calling
  have hempty {pc : ClientPc} (hc : c.pc = pc)
      (hpc : pc.hand (w.peers i).pc = [] ∧ pc.counted loop = 0) :
      c.pc.hand (w.peers i).pc = [] ∧ c.pc.counted loop = 0 := by
    rwa [hc]
  cases hcall with
  | miss hc hmay hpc =>
    cases hstep with
    | miss hm =>
      refine ⟨trivial, Client.Accounts.continues ?_ (by simp)⟩
      rw [act_peers_self] at hpc ⊢
      cases hm with
      | port hidle hport => exact absurd rfl hpc
      | free hidle hport hget =>
        have hflags : ¬ X_ALLOC &&& X_LOCAL ≠ 0 := by decide
        rw [if_neg hflags]
        refine h.stay rfl ?_ ?_
        · rw [hc]
          rfl
        · rw [hc]
          exact .inr rfl
      | alloc hgetting hport hchunk halloc => exact absurd rfl hpc
  | null hc hmay hpc =>
    cases hstep with
    | miss hm =>
      refine ⟨trivial, Client.Accounts.continues ?_ (by simp)⟩
      rw [act_peers_self] at hpc ⊢
      apply h.goOn .receive _ (hempty hc ⟨rfl, rfl⟩) _ ⟨rfl, rfl, id⟩ (by simp)
        (fun _ _ => .inr hmay.1) (by simp)
      · rfl
      · exact .inl hpc
  | got hc hmay =>
    cases hstep with
    | got ho hdone =>
      refine ⟨trivial, Client.Accounts.continues ?_ (by simp)⟩
      rw [act_peers_self]
      exact h.got hc hmay _
  | refused hc hmay => exact absurd hstep (not_refused hr hmapped.2)
  | undo hc hpc he _ => exact (h.not_undo hc hpc he hstep).elim
  | undone hc hpc he _ => exact (h.not_undo hc hpc he hstep).elim
  | prepare hc =>
    cases hstep with
    | fill payload hpc hx =>
      refine ⟨trivial, Client.Accounts.continues ?_ (by simp)⟩
      rw [act_peers_self]
      exact h.prepared hc
  | unprepared hc =>
    cases hstep with
    | fill payload hpc hx =>
      refine ⟨trivial, Client.Accounts.continues ?_ (by simp)⟩
      rw [act_peers_self]
      exact h.toPut hpc (by rw [hc]; rfl) (by rw [hc]; rfl) h.last.2 .prep
  | fill hc =>
    cases hstep with
    | fill payload hpc hx =>
      refine ⟨trivial, Client.Accounts.continues ?_ (by simp)⟩
      rw [act_peers_self]
      refine h.stay rfl ?_ ?_
      · rw [hc]
        rfl
      · rw [hc]
        rfl
  | submit hc =>
    cases hstep with
    | submit hpc hx hchunk hsubmit =>
      rename_i x r chunk fuel s
      by_cases hr : r = NoPort
      · obtain ⟨kept', hsub, hkept, haccounts⟩ := h.refused hpc hc
        refine ⟨trivial, kept', hsub, fun hkeeps y hy => ?_, ?_⟩
        · cases hy
          exact hkept hkeeps
        · rw [hr, act_peers_self, World.after, if_pos rfl, Event.sends_none]
          exact haccounts
      · refine ⟨trivial, Client.Accounts.continues ?_ fun y hy => ?_⟩
        · rw [act_peers_self, World.after, if_neg hr, Event.sends_some _ _ _ _ hr]
          exact h.submitted hpc hc hr
        · cases hy
          exact hr rfl
  | putting hc he hpc =>
    obtain ⟨hhands, hpc'⟩ := h.puts hsourced hc he hstep
    obtain ⟨hsame, hsends, hne⟩ := he.sends sent src
    refine ⟨hsends, Client.Accounts.continues ?_ hne⟩
    rw [hsame]
    exact (h.putOut hc hhands).2 (hpc'.resolve_left hpc)
  | put hc he hpc =>
    obtain ⟨hhands, -⟩ := h.puts hsourced hc he hstep
    obtain ⟨hsame, hsends, hne⟩ := he.sends sent src
    refine ⟨hsends, Client.Accounts.continues ?_ hne⟩
    rw [hsame]
    exact (h.putOut hc hhands).1 hpc
  | receive hc =>
    cases hstep with
    | receive hpc hrec =>
      refine ⟨trivial, Client.Accounts.continues ?_ (by simp)⟩
      rw [act_peers_self]
      exact h.received hc (hsent _ rfl)
  | nothing hc =>
    have hsame (hne : c.submitted ≠ none) (heq : c.submitted = none) :
        loop.resets = true ∨ c.nr_submitted < loops := absurd heq hne
    have hnext : ({ c with pc := .turn false } : Client).Accounts loop loops src dst
        ⟨(w.peers i).hands, .idle⟩ kept sent := by
      apply h.goOn (.turn false) _ (hempty hc ⟨rfl, rfl⟩) _ ⟨rfl, rfl, id⟩ (by simp) hsame
        (by simp)
      · rfl
      · rfl
    refine ⟨trivial, Client.Accounts.continues ?_ (by simp)⟩
    cases hstep with
    | receiveNull hpc hrec =>
      rw [act_peers_self]
      exact hnext
    | receiveBusy hpc hflags =>
      rw [act_peers_self]
      exact hnext
  | drop hc =>
    cases hstep with
    | drop hpc hrec =>
      refine ⟨trivial, Client.Accounts.continues ?_ (by simp)⟩
      rw [act_peers_self]
      refine h.stay rfl ?_ ?_
      · rw [hc]
        rfl
      · rw [hc]
        exact .inr rfl

omit [DecidableEq ι] in
theorem Keeping.flow [DecidableEq ι] {j : ι} (h : Keeping w a) (hsized : w.seg.Sized)
    (hmapped : e.Mapped w.seg) (hstep : w.Step (j, e) w') :
    ∃ a', FlowStep a (j, e) a' ∧ Keeping w' a' := by
  obtain ⟨a', hflow, hr'⟩ := hstep.simulates h.refines hsized
  obtain ⟨_, ha⟩ := h.step hsized hmapped hstep
  have hlost (x : xptr) : e ≠ .lost x := by
    rintro rfl
    cases hstep with
    | lost hpc _ => exact h.none_refused _ _ hpc
  refine ⟨a', hflow, hr', hflow.repliesHome h.home, ?_, ha.none_refused⟩
  rw [hflow.lost_eq h.home hlost]
  exact h.none_lost

structure ClientWorld.Sound (loop : ClientLoop) (loops : Int) (i : ι) (src dst : xport)
    (kept : List xptr) (a : Flow ι) (sent : Multiset xptr) (s : ClientWorld ι) : Prop where
  keeping : Keeping s.world a
  sourced : Sourced s.world
  awaited : Awaited i src sent a
  accounts : s.client.Accounts loop loops src dst (s.world.peers i) kept sent

omit [DecidableEq ι] in
theorem Start.sound (h : Start w) (hloops : 0 ≤ loops) :
    ClientWorld.Sound loop loops i src dst [] (Flow.start w) 0 ⟨w, Client.start⟩ where
  keeping := h.keeping
  sourced := h.sourced
  awaited := by
    have hlist {x : xptr} {pl : Place ι} (hx : (Flow.start w).place x = some pl) : pl = .list := by
      simp only [Flow.start] at hx
      split at hx
      · exact (Option.some.inj hx).symm
      · cases hx
    constructor
    · intro x j _ hx
      cases hlist hx
    · intro x q _ hx
      cases hlist hx
    · intro x pl hx hlive
      rw [hlist hx] at hlive
      exact absurd hlive id
  accounts := by
    dsimp only
    rw [h.peers i]
    exact .start hloops

variable {s s' : ClientWorld ι} {b : ι × Option Event}

theorem ClientWorld.Sound.step (h : s.Sound loop loops i src dst kept a sent)
    (hpermits : s.Permits i src b) (hstep : ClientStep loop loops i src dst s b s') :
    ∃ kept' a' sent', s'.Sound loop loops i src dst kept' a' sent' ∧ (∀ y ∈ kept, y ∈ kept') ∧
      (loop.keeps = true → ∀ y, b = (i, some (.submit y src X_ALLOC NoPort)) → y ∈ kept') := by
  obtain ⟨hsized, hevent⟩ := hpermits
  have hr := h.keeping.refines
  cases hstep with
  | other hj hworld =>
    obtain ⟨hmapped, helse⟩ := hevent _ rfl
    obtain ⟨a', hflow, hkeeping⟩ := h.keeping.flow hsized hmapped hworld
    refine ⟨kept, a', sent, ⟨hkeeping, h.sourced.step hr hsized hworld,
      h.awaited.other hflow hj (helse hj), ?_⟩, fun _ hy => hy, fun _ y hy => ?_⟩
    · dsimp only
      rw [hworld.peers_of_ne (Ne.symm hj)]
      exact h.accounts
    · exact absurd (congrArg Prod.fst hy) hj
  | @call e w c hworld hcall =>
    obtain ⟨hmapped, -⟩ := hevent _ rfl
    obtain ⟨a', hflow, hkeeping⟩ := h.keeping.flow hsized hmapped hworld
    have hsent (y : xptr) (hy : e = .receive src 0 (some y)) : y ∈ sent := by
      subst hy
      cases hflow with
      | still hstill => cases hstill
      | receive hx hl => exact h.awaited.received h.keeping.home hx
    obtain ⟨hsends, kept', hsub, hkept, haccounts⟩ :=
      h.accounts.call hr h.sourced hmapped hsent hworld hcall
    refine ⟨kept', a', e.sends sent, ⟨hkeeping, h.sourced.step hr hsized hworld,
      h.awaited.own hflow hsends, haccounts⟩, hsub, fun hkeeps y hy => hkept hkeeps y ?_⟩
    exact Option.some.inj (congrArg Prod.snd hy)
  | think hthinks =>
    refine ⟨kept, a, sent, ⟨h.keeping, h.sourced, h.awaited, h.accounts.thinks hthinks⟩,
      fun _ hy => hy, fun _ y hy => ?_⟩
    cases congrArg Prod.snd hy

/-- The books of a loop. When it returns they are closed: as many requests were received as were
to be sent, none is left in hand, and none is on its way back to the port. -/
structure ClientWorld.Balanced (loop : ClientLoop) (loops : Int) (i : ι) (src : xport)
    (s : ClientWorld ι) : Prop where
  counts : 0 ≤ s.client.nr_received ∧ s.client.nr_received ≤ s.client.nr_submitted ∧
    s.client.nr_submitted ≤ loops
  window : loop.keeps = true → s.client.nr_flying = s.client.nr_submitted - s.client.nr_received ∧
    ∀ n ∈ loop.concurrent, s.client.nr_flying ≤ max n 0
  hands : loop.keeps = false →
    (s.world.peers i).hands = s.client.pc.hand (s.world.peers i).pc
  closed : s.client.pc = .returned 0 → s.client.nr_submitted = loops ∧
    s.client.nr_received = loops ∧ (s.world.peers i).hands = [] ∧
    ∀ pl x, x ∈ contents s.world pl → pl.Live →
      ∃ l, PathIs (s.world.seg.requests x).path l ∧ src ∉ l
  awake : loop.resets = false → 0 < loops → s.client.nr_submitted = loops → s.client.pc ≠ .wait

omit [Builtins] in
theorem Client.Accounts.closed {peer : Peer} (h : c.Accounts loop loops src dst peer kept sent)
    (hc : c.pc = .returned 0) :
    c.nr_submitted = loops ∧ c.nr_received = loops ∧ kept = [] ∧ sent = 0 ∧ peer.hands = [] := by
  have hreceived := h.done hc
  have hsubmitted := h.le
  have hcount := h.count
  have hhands := h.hands
  rw [hc] at hcount hhands
  have hzero : (ClientPc.returned 0).counted loop = 0 := rfl
  have hsent : sent.card = 0 := by omega
  have hkept : kept.length = 0 := by omega
  refine ⟨by omega, by omega, List.length_eq_zero_iff.mp hkept, Multiset.card_eq_zero.mp hsent, ?_⟩
  rw [List.length_eq_zero_iff.mp hkept] at hhands
  exact hhands.eq_nil

omit [DecidableEq ι] [Builtins] in
theorem ClientWorld.Sound.balanced (h : s.Sound loop loops i src dst kept a sent) :
    s.Balanced loop loops i src where
  counts := by
    have hcount := h.accounts.count
    have hnonneg : 0 ≤ s.client.pc.counted loop := by
      unfold ClientPc.counted
      split
      · split
        · decide
        · decide
      · decide
    refine ⟨h.accounts.nonneg, ?_, h.accounts.le⟩
    omega
  window := h.accounts.flying
  hands hkeeps := by
    have hhands := h.accounts.hands
    rw [h.accounts.keeps hkeeps, List.append_nil] at hhands
    have hshort : (s.client.pc.hand (s.world.peers i).pc).length ≤ 1 := by
      unfold ClientPc.hand
      split
      all_goals simp
    cases hlist : s.client.pc.hand (s.world.peers i).pc with
    | nil =>
      rw [hlist] at hhands
      exact hhands.eq_nil
    | cons x rest =>
      rw [hlist] at hhands hshort
      obtain rfl : rest = [] := by simpa using hshort
      exact hhands.eq_singleton
  closed hc := by
    obtain ⟨hsubmitted, hreceived, -, hsent, hhands⟩ := h.accounts.closed hc
    refine ⟨hsubmitted, hreceived, hhands, fun pl x hx hlive => ?_⟩
    have hplace := h.keeping.refines.mem_iff.mp hx
    refine ⟨a.path x, (h.keeping.refines.tracks hplace hlive).path, fun hsrc => ?_⟩
    have hne : pl ≠ .hand i := by
      rintro rfl
      rw [contents, hhands] at hx
      exact absurd hx (Multiset.notMem_zero x)
    have hmem := h.awaited.paths hplace hlive hne hsrc
    rw [hsent] at hmem
    exact absurd hmem (Multiset.notMem_zero x)
  awake hresets hpos hall hwait :=
    h.accounts.last.2 hresets hpos hall.ge (h.accounts.asleep hwait)

/-- In every run of a loop, whatever the other peers do, its books balance. A request that
`cmd_submit_reqs` could not submit stays in its hands, and it never returns. -/
theorem run_client {bs : List (ι × Option Event)} (hloops : 0 ≤ loops) (hs : Start w)
    (h : Run (Guarded (ClientStep loop loops i src dst) (ClientWorld.Permits i src))
      ⟨w, Client.start⟩ bs s) :
    s.Balanced loop loops i src ∧
      (loop.keeps = true → ∀ x, (i, some (.submit x src X_ALLOC NoPort)) ∈ bs →
        x ∈ (s.world.peers i).hands ∧ s.client.pc ≠ .returned 0) := by
  obtain ⟨kept, a, sent, hsound, hkept⟩ := h.history
    (I := fun bs s => ∃ kept a sent, s.Sound loop loops i src dst kept a sent ∧
      (loop.keeps = true → ∀ x, (i, some (.submit x src X_ALLOC NoPort)) ∈ bs → x ∈ kept))
    (by
      rintro bs s b t ⟨kept, a, sent, hsound, hkept⟩ ⟨hpermits, hstep⟩
      obtain ⟨kept', a', sent', hsound', hsub, hnew⟩ := hsound.step hpermits hstep
      refine ⟨kept', a', sent', hsound', fun hkeeps x hx => ?_⟩
      rcases List.mem_append.mp hx with hx | hx
      · exact hsub x (hkept hkeeps x hx)
      · exact hnew hkeeps x (List.mem_singleton.mp hx).symm)
    ⟨[], Flow.start w, 0, hs.sound hloops, fun _ x hx => absurd hx List.not_mem_nil⟩
  refine ⟨hsound.balanced, fun hkeeps x hx => ?_⟩
  have hmem := hkept hkeeps x hx
  refine ⟨hsound.accounts.hands.mem_iff.mpr (List.mem_append_right _ hmem), fun hc => ?_⟩
  obtain ⟨-, -, hnil, -⟩ := hsound.accounts.closed hc
  rw [hnil] at hmem
  exact absurd hmem List.not_mem_nil

end World

/-- `cmd_rndwrite` sends one request, gets it back from the peer of port 1 and returns 0. -/
theorem run_client_returns : ∃ _ : Builtins, ∃ s : ClientWorld Bool,
    Run (Guarded (ClientStep cmdRndwrite 1 false 0 1) (ClientWorld.Permits false 0))
      ⟨duo (madeSeg 4 1024) ⟨[], .idle⟩ ⟨[], .idle⟩, Client.start⟩
      [(false, some (.miss 0 1 X_ALLOC)), (false, some (.got 0 1 X_ALLOC 4096)),
        (false, some (.fill 4096)), (false, some (.submit 4096 0 X_ALLOC 1)),
        (true, some (.accept 1 0 (some 4096))), (true, some (.respond 4096 1 0 0)),
        (false, some (.receive 0 0 (some 4096))), (false, some (.put 4096)), (false, none),
        (false, none)] s ∧
    s.client.pc = .returned 0 ∧ s.Balanced cmdRndwrite 1 false 0 := by
  let _ : Builtins := ⟨0⟩
  obtain ⟨s0, hs0⟩ : ∃ s, s = madeSeg 4 1024 := ⟨_, rfl⟩
  obtain ⟨s2, s3, s4, s5, s6, hret⟩ :=
    returned_steps (by decide : X_ALLOC &&& X_LOCAL = 0) hs0
  obtain ⟨hsized2, hsized3, hsized4, hsized5, hsized6⟩ := hret.sized
  have hsized : s0.Sized := by rw [hs0]; exact madeSeg_sized
  have h0 : s0.getPort 0 = some madePort := by rw [hs0]; exact madeSeg_getPort (by decide)
  have h1 : s0.getPort 1 = some madePort := by rw [hs0]; exact madeSeg_getPort (by decide)
  have hports : (s0.getPort 0).isSome ∧ (s0.getPort 1).isSome := by simp [h0, h1]
  obtain ⟨s1, hdone, hsource⟩ := hret.source
  have hzero : (s6.requests 4096).srcPortno = 0 := by
    rw [hsource, (getDone_source hdone).2.2, if_pos rfl]
  obtain ⟨port, hport, hfree⟩ := hret.home
  obtain ⟨s7, hput⟩ := put_reaches hzero hport hfree
  have hsized7 : s7.Sized := Sized.putFree hsized6 hput
  let none0 : Peer := ⟨[], .idle⟩
  let one : Peer := ⟨[4096], .idle⟩
  have hmem : (4096 : xptr) ∈ [(4096 : xptr)] := List.mem_singleton_self _
  have hfill := fill_step (w := duo s2 one none0) (i := false) rfl hmem
  have hputs := put_step (w := duo s6 one none0) (i := false) rfl hmem (by decide) hput
  rw [act_duo_false] at hfill hputs
  rw [List.erase_cons_head] at hputs
  have hpermits {s : Xseg} (hs : s.Sized) {peer0 peer1 : Peer} {c : Client} {i : Bool}
      (e : Event) (he : e.Mapped s) (helse : i ≠ false → e.Elsewhere 0) :
      ClientWorld.Permits false 0 ⟨duo s peer0 peer1, c⟩ (i, some e) := by
    refine ⟨hs, fun e' he' => ?_⟩
    obtain rfl := Option.some.inj he'
    exact ⟨he, helse⟩
  have hown {e : Event} (hne : false ≠ false) : e.Elsewhere 0 := absurd rfl hne
  have hmay : Client.start.MayGet cmdRndwrite 1 := ⟨by decide, by simp [cmdRndwrite]⟩
  have hrun : Run (Guarded (ClientStep cmdRndwrite 1 false 0 1) (ClientWorld.Permits false 0))
      ⟨duo s0 none0 none0, Client.start⟩ _ ⟨duo s7 none0 none0, _⟩ :=
    .cons ⟨hpermits hsized (.miss 0 1 X_ALLOC) hports hown,
      .call hret.miss (.miss rfl hmay (by simp [duo]))⟩ <|
    .cons ⟨hpermits hsized (.got 0 1 X_ALLOC 4096) hports hown, .call hret.got (.got rfl hmay)⟩ <|
    .cons ⟨hpermits hsized2 (.fill 4096) trivial hown, .call hfill (.prepare rfl)⟩ <|
    .cons ⟨hpermits hsized2 (.submit 4096 0 X_ALLOC 1) trivial hown,
      .call hret.submit (.submit rfl)⟩ <|
    .cons ⟨hpermits hsized3 (.accept 1 0 (some 4096)) trivial
      fun _ => (by decide : (1 : xport) ≠ 0), .other (by decide) hret.accept⟩ <|
    .cons ⟨hpermits hsized4 (.respond 4096 1 0 0) trivial fun _ => trivial,
      .other (by decide) hret.respond⟩ <|
    .cons ⟨hpermits hsized5 (.receive 0 0 (some 4096)) trivial hown,
      .call hret.receive (.receive rfl)⟩ <|
    .cons ⟨hpermits hsized6 (.put 4096) trivial hown, .call hputs (.put rfl rfl rfl)⟩ <|
    .cons ⟨⟨hsized7, fun _ he => by cases he⟩, .think (.busy rfl fun h => Bool.noConfusion h.2)⟩ <|
    .single ⟨⟨hsized7, fun _ he => by cases he⟩, .think (.done rfl (Int.le_refl 1))⟩
  have hstart : Start (duo s0 none0 none0) := by
    rw [duo_idle, hs0]
    exact madeSeg_start (by decide)
  have hbalanced := (run_client (by decide) hstart hrun).1
  rw [hs0] at hrun
  exact ⟨⟨0⟩, _, hrun, rfl, hbalanced⟩

end Libxseg
