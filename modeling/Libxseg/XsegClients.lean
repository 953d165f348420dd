import Libxseg.XsegAwaited

/-!
# The loops of the tool that send requests

`cmd_rndwrite`, `cmd_rnddelete`, `cmd_rndread` and `cmd_submit_reqs` get a request, submit it,
look for a reply and put it back, until as many replies have come as they were to send requests.
The other peers do what they like at their own ports. Contents, messages, signals and the time
that `xseg_wait_signal` takes are left out.
-/

namespace Libxseg

set_option autoImplicit false

open Xseg

variable {ι : Type}

structure ClientLoop where
  /-- A request is counted before it is submitted, and it is not put back when that fails. -/
  keeps : Bool
  /-- A turn begins with `submitted = NULL`. -/
  resets : Bool
  /-- `concurrent_reqs` -/
  concurrent : Option Int

def cmdRndwrite : ClientLoop := { keeps := false, resets := false, concurrent := none }

def cmdRnddelete : ClientLoop := { keeps := false, resets := false, concurrent := none }

def cmdRndread : ClientLoop := { keeps := false, resets := true, concurrent := none }

def cmdSubmitReqs (concurrent_reqs : Int) : ClientLoop :=
  { keeps := true, resets := true, concurrent := some concurrent_reqs }

/-- Where a loop puts a request back: after `xseg_prep_request` has failed, after `xseg_submit`
has, or the request was received. -/
inductive PutAt where
  | prep
  | submit
  | receive

inductive ClientPc where
  /-- from the top of the loop to the return of `xseg_get_request` -/
  | get
  | prep (x : xptr)
  | submit (x : xptr)
  | put (x : xptr) (site : PutAt)
  | receive
  /-- at `if (!submitted && !received)` -/
  | turn (received : Bool)
  /-- in `xseg_wait_signal` -/
  | wait
  /-- at `if (nr_received >= loops)` -/
  | check
  | returned (r : Int)

def PutAt.next : PutAt → ClientPc
  | prep => .returned (-1)
  | submit => .receive
  | receive => .turn true

/-- `nr_flying` is there in `cmd_submit_reqs` only. -/
structure Client where
  pc : ClientPc
  submitted : Option xptr
  nr_submitted : Int
  nr_received : Int
  nr_flying : Int

def Event.PutsBack (x : xptr) : Event → Prop
  | put y => y = x
  | putRefused y => y = x
  | putFull y => y = x
  | putObj y => y = x
  | putDone => True
  | lost y => y = x
  | _ => False

namespace Client

def start : Client :=
  { pc := .get, submitted := none, nr_submitted := 0, nr_received := 0, nr_flying := 0 }

def MayGet (loop : ClientLoop) (loops : Int) (c : Client) : Prop :=
  c.nr_submitted < loops ∧ ∀ n ∈ loop.concurrent, c.nr_flying < n

def prepared (loop : ClientLoop) (c : Client) (x : xptr) : Client :=
  if loop.keeps then
    { c with
      pc := .submit x
      nr_submitted := c.nr_submitted + 1
      nr_flying := c.nr_flying + 1 }
  else { c with pc := .submit x }

def submitDone (loop : ClientLoop) (c : Client) (x : xptr) (r : xport) : Client :=
  if loop.keeps then { c with pc := .receive }
  else if r = NoPort then { c with pc := .put x .submit }
  else { c with pc := .receive, nr_submitted := c.nr_submitted + 1 }

def receiveDone (loop : ClientLoop) (c : Client) (x : xptr) : Client :=
  { c with
    pc := .put x .receive
    nr_received := c.nr_received + 1
    nr_flying := if loop.keeps then c.nr_flying - 1 else c.nr_flying }

/-- A section of a call of the loop. The peer was at `pc` in the call and is at `pc'` after it. -/
inductive Calls (loop : ClientLoop) (loops : Int) (src dst : xport) (pc pc' : Pc) (c : Client) :
    Event → Client → Prop where
  | miss : c.pc = .get → c.MayGet loop loops → pc' ≠ .idle →
      Calls loop loops src dst pc pc' c (.miss src dst X_ALLOC) c
  | null : c.pc = .get → c.MayGet loop loops → pc' = .idle →
      Calls loop loops src dst pc pc' c (.miss src dst X_ALLOC)
        { c with pc := .receive, submitted := none }
  | got {x : xptr} : c.pc = .get → c.MayGet loop loops →
      Calls loop loops src dst pc pc' c (.got src dst X_ALLOC x)
        { c with pc := .prep x, submitted := some x }
  | refused {x : xptr} : c.pc = .get → c.MayGet loop loops →
      Calls loop loops src dst pc pc' c (.refused src dst X_ALLOC x) c
  | undo {x : xptr} {e : Event} : c.pc = .get → pc ≠ .idle → e.PutsBack x → pc' ≠ .idle →
      Calls loop loops src dst pc pc' c e c
  | undone {x : xptr} {e : Event} : c.pc = .get → pc ≠ .idle → e.PutsBack x → pc' = .idle →
      Calls loop loops src dst pc pc' c e { c with pc := .receive, submitted := none }
  | prepare {x : xptr} : c.pc = .prep x →
      Calls loop loops src dst pc pc' c (.fill x) (c.prepared loop x)
  | unprepared {x : xptr} : c.pc = .prep x →
      Calls loop loops src dst pc pc' c (.fill x) { c with pc := .put x .prep }
  | fill {x : xptr} : c.pc = .submit x → Calls loop loops src dst pc pc' c (.fill x) c
  | submit {x : xptr} {r : xport} : c.pc = .submit x →
      Calls loop loops src dst pc pc' c (.submit x src X_ALLOC r) (c.submitDone loop x r)
  | putting {x : xptr} {site : PutAt} {e : Event} : c.pc = .put x site → e.PutsBack x →
      pc' ≠ .idle → Calls loop loops src dst pc pc' c e c
  | put {x : xptr} {site : PutAt} {e : Event} : c.pc = .put x site → e.PutsBack x →
      pc' = .idle → Calls loop loops src dst pc pc' c e { c with pc := site.next }
  | receive {x : xptr} : c.pc = .receive →
      Calls loop loops src dst pc pc' c (.receive src 0 (some x)) (c.receiveDone loop x)
  | nothing : c.pc = .receive →
      Calls loop loops src dst pc pc' c (.receive src 0 none) { c with pc := .turn false }
  | drop {x : xptr} : c.pc = .receive → Calls loop loops src dst pc pc' c (.drop src 0 x) c

inductive Thinks (loop : ClientLoop) (loops : Int) (pc : Pc) (c : Client) : Client → Prop where
  | skip : c.pc = .get → pc = .idle → ¬ c.MayGet loop loops →
      Thinks loop loops pc c { c with pc := .receive }
  | sleep : c.pc = .turn false → c.submitted = none → Thinks loop loops pc c { c with pc := .wait }
  | busy {received : Bool} : c.pc = .turn received → ¬ (c.submitted = none ∧ received = false) →
      Thinks loop loops pc c { c with pc := .check }
  | wake : c.pc = .wait → Thinks loop loops pc c { c with pc := .check }
  | again : c.pc = .check → c.nr_received < loops →
      Thinks loop loops pc c
        { c with pc := .get, submitted := if loop.resets then none else c.submitted }
  | done : c.pc = .check → loops ≤ c.nr_received →
      Thinks loop loops pc c { c with pc := .returned 0 }

end Client

structure ClientWorld (ι : Type) where
  world : World ι
  client : Client

section Step
variable [DecidableEq ι] [Builtins]

inductive ClientStep (loop : ClientLoop) (loops : Int) (i : ι) (src dst : xport)
    (s : ClientWorld ι) : ι × Option Event → ClientWorld ι → Prop where
  | other {j : ι} {e : Event} {w : World ι} : j ≠ i → s.world.Step (j, e) w →
      ClientStep loop loops i src dst s (j, some e) ⟨w, s.client⟩
  | call {e : Event} {w : World ι} {c : Client} : s.world.Step (i, e) w →
      s.client.Calls loop loops src dst (s.world.peers i).pc (w.peers i).pc e c →
      ClientStep loop loops i src dst s (i, some e) ⟨w, c⟩
  | think {c : Client} : s.client.Thinks loop loops (s.world.peers i).pc c →
      ClientStep loop loops i src dst s (i, none) ⟨s.world, c⟩

end Step

def ClientWorld.Permits (i : ι) (src : xport) (s : ClientWorld ι) (b : ι × Option Event) : Prop :=
  s.world.seg.Sized ∧ ∀ e ∈ b.2, e.Mapped s.world.seg ∧ (b.1 ≠ i → e.Elsewhere src)

def ClientPc.hand : ClientPc → Pc → List xptr
  | prep x, _ => [x]
  | submit x, _ => [x]
  | put x _, .idle => [x]
  | _, _ => []

def ClientPc.Calling (src dst : xport) : ClientPc → Pc → Prop
  | get, pc => pc = .idle ∨ pc = .getting src dst X_ALLOC
  | put x _, pc => pc = .idle ∨ (∃ p, pc = .putting x p) ∨ ∃ p, pc = .counting p
  | receive, pc => pc = .idle ∨ pc = .receiving src 0
  | _, pc => pc = .idle

def ClientPc.counted (loop : ClientLoop) : ClientPc → Int
  | submit _ => if loop.keeps then 1 else 0
  | _ => 0

def ClientPc.Uncounted (loop : ClientLoop) : ClientPc → Prop
  | prep _ => True
  | submit _ => loop.keeps = false
  | _ => False

/-- Every request that the loop counted was received, is on its way, or was kept when
`xseg_submit` refused it. -/
structure Client.Accounts (loop : ClientLoop) (loops : Int) (src dst : xport) (peer : Peer)
    (kept : List xptr) (sent : Multiset xptr) (c : Client) : Prop where
  calling : c.pc.Calling src dst peer.pc
  hands : peer.hands.Perm (c.pc.hand peer.pc ++ kept)
  keeps : loop.keeps = false → kept = []
  count : c.nr_submitted = c.nr_received + sent.card + kept.length + c.pc.counted loop
  nonneg : 0 ≤ c.nr_received
  le : c.nr_submitted ≤ loops
  room : c.pc.Uncounted loop → c.MayGet loop loops
  flying : loop.keeps = true → c.nr_flying = c.nr_submitted - c.nr_received ∧
    ∀ n ∈ loop.concurrent, c.nr_flying ≤ max n 0
  last : (∀ x, c.pc = .prep x ∨ c.pc = .submit x → c.submitted = some x) ∧
    (loop.resets = false → 0 < loops → loops ≤ c.nr_submitted → c.submitted ≠ none)
  done : c.pc = .returned 0 → loops ≤ c.nr_received
  asleep : c.pc = .wait → c.submitted = none

namespace Client.Accounts
variable {loop : ClientLoop} {loops : Int} {src dst : xport} {peer peer' : Peer}
  {kept : List xptr} {sent : Multiset xptr} {c c' : Client} {x : xptr}

theorem start (h : 0 ≤ loops) :
    Client.start.Accounts loop loops src dst ⟨[], .idle⟩ [] 0 where
  calling := .inl rfl
  hands := .refl _
  keeps _ := rfl
  count := rfl
  nonneg := le_refl _
  le := h
  room hun := absurd hun id
  flying _ := ⟨rfl, fun n _ => le_max_right n 0⟩
  last := ⟨by simp [Client.start], fun _ hpos hle => absurd hle (not_le_of_gt hpos)⟩
  done := by simp [Client.start]
  asleep := by simp [Client.start]

theorem goOn (h : c.Accounts loop loops src dst peer kept sent) (pc : ClientPc)
    (hhands : peer'.hands = peer.hands) (hold : c.pc.hand peer.pc = [] ∧ c.pc.counted loop = 0)
    (hcalling : pc.Calling src dst peer'.pc)
    (hnew : pc.hand peer'.pc = [] ∧ pc.counted loop = 0 ∧ ¬ pc.Uncounted loop)
    (hdone : pc = .returned 0 → loops ≤ c.nr_received) {submitted : Option xptr}
    (hnone : c.submitted ≠ none → submitted = none →
      loop.resets = true ∨ c.nr_submitted < loops)
    (hasleep : pc = .wait → submitted = none) :
    ({ c with pc := pc, submitted := submitted } : Client).Accounts loop loops src dst peer' kept
      sent where
  calling := hcalling
  hands := by
    rw [hhands, hnew.1, ← hold.1]
    exact h.hands
  keeps := h.keeps
  count := by
    have hcount := h.count
    rw [hold.2] at hcount
    rw [hnew.2.1]
    exact hcount
  nonneg := h.nonneg
  le := h.le
  room hun := absurd hun hnew.2.2
  flying := h.flying
  last := by
    refine ⟨fun x hx => ?_, fun hresets hpos hle hsub => ?_⟩
    · rcases hx with rfl | rfl
      · exact absurd trivial hnew.2.2
      · exact absurd hnew.1 (List.cons_ne_nil x [])
    · rcases hnone (h.last.2 hresets hpos hle) hsub with htrue | hlt
      · rw [hresets] at htrue
        cases htrue
      · exact absurd hle (not_le_of_gt hlt)
  done := hdone
  asleep := hasleep

theorem stay (h : c.Accounts loop loops src dst peer kept sent) (hhands : peer'.hands = peer.hands)
    (hhand : c.pc.hand peer'.pc = c.pc.hand peer.pc) (hcalling : c.pc.Calling src dst peer'.pc) :
    c.Accounts loop loops src dst peer' kept sent :=
  { h with
    calling := hcalling
    hands := by
      rw [hhands, hhand]
      exact h.hands }

theorem thinks (h : c.Accounts loop loops src dst peer kept sent)
    (ht : c.Thinks loop loops peer.pc c') : c'.Accounts loop loops src dst peer kept sent := by
  have hsame (hne : c.submitted ≠ none) (heq : c.submitted = none) :
      loop.resets = true ∨ c.nr_submitted < loops := absurd heq hne
  have hcalling := h.calling
  have hempty {pc : ClientPc} (hc : c.pc = pc) (hpc : pc.hand peer.pc = [] ∧ pc.counted loop = 0) :
      c.pc.hand peer.pc = [] ∧ c.pc.counted loop = 0 := by
    rwa [hc]
  cases ht with
  | skip hc hpc _ =>
    exact h.goOn .receive rfl (hempty hc ⟨rfl, rfl⟩) (.inl hpc) ⟨rfl, rfl, id⟩ (by simp) hsame
      (by simp)
  | sleep hc hnone =>
    rw [hc] at hcalling
    exact h.goOn .wait rfl (hempty hc ⟨rfl, rfl⟩) hcalling ⟨rfl, rfl, id⟩ (by simp) hsame
      fun _ => hnone
  | busy hc _ =>
    rw [hc] at hcalling
    exact h.goOn .check rfl (hempty hc ⟨rfl, rfl⟩) hcalling ⟨rfl, rfl, id⟩ (by simp) hsame
      (by simp)
  | wake hc =>
    rw [hc] at hcalling
    exact h.goOn .check rfl (hempty hc ⟨rfl, rfl⟩) hcalling ⟨rfl, rfl, id⟩ (by simp) hsame
      (by simp)
  | again hc _ =>
    rw [hc] at hcalling
    refine h.goOn .get rfl (hempty hc ⟨rfl, rfl⟩) (.inl hcalling) ⟨rfl, rfl, id⟩ (by simp)
      (fun hne heq => ?_) (by simp)
    by_cases hresets : loop.resets = true
    · exact .inl hresets
    · rw [if_neg hresets] at heq
      exact absurd heq hne
  | done hc hle =>
    rw [hc] at hcalling
    exact h.goOn (.returned 0) rfl (hempty hc ⟨rfl, rfl⟩) hcalling ⟨rfl, rfl, id⟩ (fun _ => hle)
      hsame (by simp)

theorem got (h : c.Accounts loop loops src dst peer kept sent) (hc : c.pc = .get)
    (hmay : c.MayGet loop loops) (x : xptr) :
    ({ c with pc := .prep x, submitted := some x } : Client).Accounts loop loops src dst
      ⟨x :: peer.hands, .idle⟩ kept sent where
  calling := rfl
  hands := by
    have hhands := h.hands
    rw [hc] at hhands
    exact hhands.cons x
  keeps := h.keeps
  count := by
    have hcount := h.count
    rw [hc] at hcount
    exact hcount
  nonneg := h.nonneg
  le := h.le
  room _ := hmay
  flying := h.flying
  last := by simp
  done := by simp
  asleep := by simp

theorem prepared (h : c.Accounts loop loops src dst peer kept sent) (hc : c.pc = .prep x) :
    (c.prepared loop x).Accounts loop loops src dst ⟨peer.hands, .idle⟩ kept sent := by
  have hhands := h.hands
  have hcount := h.count
  have hmay := h.room (by rw [hc]; trivial)
  have hlast := h.last.1 x (.inl hc)
  rw [hc] at hhands hcount
  unfold Client.prepared
  by_cases hkeeps : loop.keeps = true
  · rw [if_pos hkeeps]
    have hflying := (h.flying hkeeps).1
    refine ⟨rfl, hhands, h.keeps, ?_, h.nonneg, ?_, ?_, fun _ => ⟨?_, fun n hn => ?_⟩, ?_,
      by simp, by simp⟩
    · have hone : (ClientPc.submit x).counted loop = 1 := if_pos hkeeps
      have hzero : (ClientPc.prep x).counted loop = 0 := rfl
      dsimp only
      omega
    · have hlt := hmay.1
      dsimp only
      omega
    · intro hun
      exact absurd (hkeeps.symm.trans hun) (by decide)
    · dsimp only
      omega
    · have hlt := hmay.2 n hn
      dsimp only
      omega
    · simp [hlast]
  · rw [if_neg hkeeps]
    have hzero : (ClientPc.submit x).counted loop = 0 := if_neg hkeeps
    refine ⟨rfl, hhands, h.keeps, ?_, h.nonneg, h.le, fun _ => hmay, h.flying, ?_, by simp,
      by simp⟩
    · rw [hzero]
      exact hcount
    · simp [hlast]

theorem toPut (h : c.Accounts loop loops src dst peer kept sent) (hpc : peer.pc = .idle)
    (hhand : c.pc.hand .idle = [x]) (hcounted : c.pc.counted loop = 0)
    (hlast : loop.resets = false → 0 < loops → loops ≤ c.nr_submitted → c.submitted ≠ none)
    (site : PutAt) :
    ({ c with pc := .put x site } : Client).Accounts loop loops src dst ⟨peer.hands, .idle⟩ kept
      sent where
  calling := .inl rfl
  hands := by
    have hhands := h.hands
    rw [hpc, hhand] at hhands
    exact hhands
  keeps := h.keeps
  count := by
    have hcount := h.count
    rw [hcounted] at hcount
    exact hcount
  nonneg := h.nonneg
  le := h.le
  room hun := absurd hun id
  flying := h.flying
  last := ⟨by simp, hlast⟩
  done := by simp
  asleep := by simp

theorem submitted (h : c.Accounts loop loops src dst peer kept sent) (hpc : peer.pc = .idle)
    (hc : c.pc = .submit x) {r : xport} (hr : r ≠ NoPort) :
    (c.submitDone loop x r).Accounts loop loops src dst ⟨peer.hands.erase x, .idle⟩ kept
      (x ::ₘ sent) := by
  have hhands := h.hands
  have hcount := h.count
  have hlast := h.last.1 x (.inr hc)
  rw [hc, hpc] at hhands
  rw [hc] at hcount
  have hrest : (peer.hands.erase x).Perm kept := by
    have herase := hhands.erase x
    rwa [ClientPc.hand, List.singleton_append, List.erase_cons_head] at herase
  have hsent : (x ::ₘ sent).card = sent.card + 1 := Multiset.card_cons x sent
  unfold Client.submitDone
  by_cases hkeeps : loop.keeps = true
  · rw [if_pos hkeeps]
    have hone : (ClientPc.submit x).counted loop = 1 := if_pos hkeeps
    refine ⟨.inl rfl, hrest, h.keeps, ?_, h.nonneg, h.le, fun hun => absurd hun id, h.flying, ?_,
      by simp, by simp⟩
    · have hzero : ClientPc.receive.counted loop = 0 := rfl
      dsimp only
      omega
    · simp [hlast]
  · rw [if_neg hkeeps, if_neg hr]
    have hzero : (ClientPc.submit x).counted loop = 0 := if_neg hkeeps
    have hmay := h.room (by rw [hc]; exact Bool.eq_false_iff.mpr hkeeps)
    refine ⟨.inl rfl, hrest, h.keeps, ?_, h.nonneg, ?_, fun hun => absurd hun id,
      fun htrue => absurd htrue hkeeps, ?_, by simp, by simp⟩
    · have hzero' : ClientPc.receive.counted loop = 0 := rfl
      dsimp only
      omega
    · have hlt := hmay.1
      dsimp only
      omega
    · simp [hlast]

/-- `xseg_submit` has refused the request, and `cmd_submit_reqs` keeps it. -/
theorem refused (h : c.Accounts loop loops src dst peer kept sent) (hpc : peer.pc = .idle)
    (hc : c.pc = .submit x) : ∃ kept', (∀ y ∈ kept, y ∈ kept') ∧ (loop.keeps = true → x ∈ kept') ∧
      (c.submitDone loop x NoPort).Accounts loop loops src dst ⟨peer.hands, .idle⟩ kept' sent := by
  have hlast := h.last.1 x (.inr hc)
  unfold Client.submitDone
  by_cases hkeeps : loop.keeps = true
  · have hhands := h.hands
    have hcount := h.count
    rw [hc, hpc] at hhands
    rw [hc] at hcount
    have hone : (ClientPc.submit x).counted loop = 1 := if_pos hkeeps
    have hlength : (x :: kept).length = kept.length + 1 := List.length_cons
    refine ⟨x :: kept, fun y hy => List.mem_cons_of_mem x hy, fun _ => List.mem_cons_self, ?_⟩
    rw [if_pos hkeeps]
    refine ⟨.inl rfl, hhands, fun hfalse => absurd (hkeeps.symm.trans hfalse) (by decide), ?_,
      h.nonneg, h.le, fun hun => absurd hun id, h.flying, ?_, by simp,
      by simp⟩
    · have hzero : ClientPc.receive.counted loop = 0 := rfl
      dsimp only
      omega
    · simp [hlast]
  · refine ⟨kept, fun _ hy => hy, fun htrue => absurd htrue hkeeps, ?_⟩
    rw [if_neg hkeeps, if_pos rfl]
    refine h.toPut hpc (by rw [hc]; rfl) ?_ (fun _ _ _ => by rw [hlast]; simp) .submit
    rw [hc]
    exact if_neg hkeeps

theorem received (h : c.Accounts loop loops src dst peer kept sent) (hc : c.pc = .receive)
    (hx : x ∈ sent) : (c.receiveDone loop x).Accounts loop loops src dst
      ⟨x :: peer.hands, .idle⟩ kept (sent.erase x) := by
  have hhands := h.hands
  have hcount := h.count
  have hnonneg := h.nonneg
  have hcard : (sent.erase x).card + 1 = sent.card := Multiset.card_erase_add_one hx
  rw [hc] at hhands hcount
  have hzero : ClientPc.receive.counted loop = 0 := rfl
  have hzero' : (ClientPc.put x .receive).counted loop = 0 := rfl
  unfold Client.receiveDone
  refine ⟨.inl rfl, hhands.cons x, h.keeps, ?_, ?_, h.le, fun hun => absurd hun id,
    fun hkeeps => ?_, ⟨by simp, h.last.2⟩, by simp, by simp⟩
  · dsimp only
    omega
  · dsimp only
    omega
  · obtain ⟨hflying, hwindow⟩ := h.flying hkeeps
    rw [if_pos hkeeps]
    refine ⟨?_, fun n hn => ?_⟩
    · dsimp only
      omega
    · have hle := hwindow n hn
      dsimp only
      omega

/-- The request is out of hand while it is put back, and after that the loop goes on. -/
theorem putOut (h : c.Accounts loop loops src dst peer kept sent) {site : PutAt}
    (hc : c.pc = .put x site) (hhands : peer'.hands.Perm kept) :
    (peer'.pc = .idle → ({ c with pc := site.next } : Client).Accounts loop loops src dst peer'
      kept sent) ∧
    ((∃ p, peer'.pc = .putting x p) ∨ (∃ p, peer'.pc = .counting p) →
      c.Accounts loop loops src dst peer' kept sent) := by
  have hcount := h.count
  rw [hc] at hcount
  constructor
  · intro hidle
    cases site with
    | prep =>
      exact ⟨hidle, hhands, h.keeps, hcount, h.nonneg, h.le, fun hun => absurd hun id, h.flying,
        ⟨by simp [PutAt.next], h.last.2⟩, by simp [PutAt.next], by simp [PutAt.next]⟩
    | submit =>
      exact ⟨.inl hidle, hhands, h.keeps, hcount, h.nonneg, h.le, fun hun => absurd hun id,
        h.flying, ⟨by simp [PutAt.next], h.last.2⟩, by simp [PutAt.next], by simp [PutAt.next]⟩
    | receive =>
      exact ⟨hidle, hhands, h.keeps, hcount, h.nonneg, h.le, fun hun => absurd hun id, h.flying,
        ⟨by simp [PutAt.next], h.last.2⟩, by simp [PutAt.next], by simp [PutAt.next]⟩
  · intro hpc
    refine ⟨?_, ?_, h.keeps, h.count, h.nonneg, h.le, h.room, h.flying, h.last, h.done,
      h.asleep⟩
    · rw [hc]
      exact .inr hpc
    · have hnone : c.pc.hand peer'.pc = [] := by
        rw [hc]
        rcases hpc with ⟨p, hp⟩ | ⟨p, hp⟩
        · rw [hp]
          rfl
        · rw [hp]
          rfl
      rw [hnone]
      exact hhands

end Client.Accounts

end Libxseg
