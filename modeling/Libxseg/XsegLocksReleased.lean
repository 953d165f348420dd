import Libxseg.XsegLocks
import Libxseg.XsegSteps

/-!
# Which calls release every lock

Every call is followed from a state with all locks free to its exits. The exits that keep
a lock, and the loop of `xseg_submit` that may have no end, give the condition.
-/

namespace Libxseg

set_option autoImplicit false

open LockM

/-- A call of one of the operations that take a lock, with what the heap and the driver answer. -/
inductive LockCall where
  | allocRequests (portno : xport) (nr : UInt32) (mems : Nat → Option (xptr × UInt64))
  | freeRequests (portno : xport) (nr : Int)
  | getRequest (src_portno dst_portno : xport) (flags : UInt32) (mem : Option (xptr × UInt64))
  | putRequest (xreq : Option xptr) (portno : xport)
  | submit (xreq : Option xptr) (portno : xport) (flags : UInt32) (chunk : QueueChunk)
  | receive (portno : xport) (flags : UInt32)
  | accept (portno : xport) (flags : UInt32)
  | respond (xreq : Option xptr) (portno : xport) (flags : UInt32) (chunk : QueueChunk)
  | setMaxRequests (portno : xport) (nr_reqs : UInt64)
  | setFreequeueSize (portno : xport) (flags : UInt32) (chunk : QueueChunk)
  | bindPort (peer : XsegPeer) (id : UInt64) (req : UInt32) (sd : UInt64) (ans : BindAnswers)
  | bindDynport (peer : XsegPeer) (id : UInt64) (ans : BindAnswers)
  | leaveDynport (port : Option xptr)

/-- The port that the first loop of `xseg_submit` goes on to. -/
def Xseg.follow (s : Xseg) (dst next : xport) : xport :=
  if s.pathNext next ≠ NoPort then s.pathNext next else dst

/-- The loop ends at `next`: that is the destination, or what follows is no port or one with
flags. -/
def Xseg.EndsAt (s : Xseg) (dst next : xport) : Prop :=
  next = dst ∨ ∀ port, s.getPort (s.follow dst next) = some port → port.flags ≠ 0

def Xseg.PathEnds (s : Xseg) (dst cur : xport) : Prop := ∃ k, s.EndsAt dst ((s.follow dst)^[k] cur)

/-- There is room in the table, and the driver has a place there or gets one with its data. -/
def XsegPeerTypes.CanEnable (shared : XsegPeerTypes) (name : TypeName) (data : UInt64) : Prop :=
  shared.nr_peer_types.toNat < shared.peer_types.length ∧
    ∃ d, shared.peer_types.find? (fun d => d = .empty ∨ d = name) = some d ∧
      (d = .empty → data ≠ 0)

namespace LockCall
variable [Builtins]

def FreesIn (d : SegmentData) (turns : Nat) : LockCall → Prop
  | .allocRequests portno nr mems => Frees (SegM.allocRequests portno nr mems) ⟨d, ∅⟩
  | .freeRequests portno nr => Frees (SegM.freeRequests portno nr) ⟨d, ∅⟩
  | .getRequest src dst flags mem => Frees (SegM.getRequest src dst flags mem) ⟨d, ∅⟩
  | .putRequest xreq portno => Frees (SegM.putRequest xreq portno) ⟨d, ∅⟩
  | .submit xreq portno flags chunk => Frees (SegM.submit xreq portno flags chunk turns) ⟨d, ∅⟩
  | .receive portno flags => Frees (SegM.receive portno flags turns) ⟨d, ∅⟩
  | .accept portno flags => Frees (SegM.accept portno flags) ⟨d, ∅⟩
  | .respond xreq portno flags chunk => Frees (SegM.respond xreq portno flags chunk) ⟨d, ∅⟩
  | .setMaxRequests portno nr_reqs => Frees (SegM.setMaxRequests portno nr_reqs) ⟨d, ∅⟩
  | .setFreequeueSize portno flags chunk => Frees (SegM.setFreequeueSize portno flags chunk) ⟨d, ∅⟩
  | .bindPort peer id req sd ans => Frees (SegM.bindPort peer id req sd ans) ⟨d, ∅⟩
  | .bindDynport peer id ans => Frees (SegM.bindDynport peer id ans) ⟨d, ∅⟩
  | .leaveDynport port => Frees (SegM.leaveDynport port) ⟨d, ∅⟩

def Releases (call : LockCall) (d : SegmentData) : Prop := ∃ turns, call.FreesIn d turns

omit [Builtins] in
/-- None of the exits with a lock is taken, and the loop of `xseg_submit` ends. -/
def NoStuckExit (d : SegmentData) : LockCall → Prop
  | .freeRequests portno nr => ∀ port, d.reqs.getPort portno = some port →
      (port.queue .free).peekHead ≠ Noneidx ∧ 0 < nr
  | .submit (some xreq) _ _ _ =>
      let req := d.reqs.requests xreq
      d.reqs.validatePort req.transitPortno → d.reqs.validatePort req.effectiveDstPortno →
        d.reqs.PathEnds req.effectiveDstPortno req.transitPortno
  | .bindDynport peer _ ans => d.ports.shared.CanEnable peer.name ans.data
  | _ => True

end LockCall

namespace SegM
variable {d : SegmentData} {portno : xport} {flags : UInt32}

theorem frees_allocRequests (portno : xport) (nr : UInt32) (mems : Nat → Option (xptr × UInt64)) :
    Frees (allocRequests portno nr mems) ⟨d, ∅⟩ := by
  unfold allocRequests
  rw [frees_look_bind]
  cases d.reqs.getPort portno with
  | none => exact frees_pure _ d
  | some port => exact frees_critical_bind _ _ fun _ d => frees_pure _ d

theorem le_drainFree (s : Xseg) (portno : xport) (port : Port) (left i : Nat) :
    i ≤ (s.drainFree portno port left i).1 := by
  induction left generalizing s port i with
  | zero =>
    unfold Xseg.drainFree
    dsimp only
    by_cases hempty : (port.queue .free).popHead.1 = Noneidx
    · rw [if_pos hempty]
    · rw [if_neg hempty]
  | succ left ih =>
    unfold Xseg.drainFree
    dsimp only
    by_cases hempty : (port.queue .free).popHead.1 = Noneidx
    · rw [if_pos hempty]
    · rw [if_neg hempty]
      exact Nat.le_of_succ_le (ih ..)

theorem popHead_eq_peekHead (q : Xq) : q.popHead.1 = q.peekHead := by
  unfold Xq.popHead Xq.peekHead
  split <;> rfl

theorem drainFree_eq_zero (s : Xseg) (portno : xport) (port : Port) (left : Nat) :
    (s.drainFree portno port left 0).1 = 0 ↔ (port.queue .free).peekHead = Noneidx ∨ left = 0 := by
  unfold Xseg.drainFree
  dsimp only
  rw [popHead_eq_peekHead]
  by_cases hempty : (port.queue .free).peekHead = Noneidx
  · rw [if_pos hempty]
    exact iff_of_true rfl (.inl hempty)
  · rw [if_neg hempty]
    cases left with
    | zero => exact iff_of_true rfl (.inr rfl)
    | succ left =>
      have hpos := le_drainFree ((s.setPort portno
        (port.setQueue .free (port.queue .free).popHead.2)).putObj (port.queue .free).peekHead)
        portno (port.setQueue .free (port.queue .free).popHead.2) left 1
      refine iff_of_false (Nat.ne_of_gt hpos) ?_
      exact not_or_intro hempty (Nat.succ_ne_zero left)

theorem frees_freeRequests (portno : xport) (nr : Int) :
    Frees (freeRequests portno nr) ⟨d, ∅⟩ ↔ ∀ port, d.reqs.getPort portno = some port →
      (port.queue .free).peekHead ≠ Noneidx ∧ 0 < nr := by
  unfold freeRequests
  rw [frees_look_bind]
  cases hport : d.reqs.getPort portno with
  | none => exact iff_of_true (frees_pure _ d) nofun
  | some port =>
    have hcond : (∀ p, some port = some p → (p.queue .free).peekHead ≠ Noneidx ∧ 0 < nr) ↔
        (d.reqs.drainFree portno port nr.toNat 0).1 ≠ 0 := by
      rw [Ne, drainFree_eq_zero, not_or, Int.toNat_eq_zero, Int.not_le]
      exact ⟨fun h => h port rfl, fun h p hp => Option.some.inj hp ▸ h⟩
    rw [hcond, frees_acquire_bind, frees_act_bind]
    generalize hr : onReqs (fun s => s.drainFree portno port nr.toNat 0) d = r
    have hi : (d.reqs.drainFree portno port nr.toNat 0).1 = r.1 := hr ▸ rfl
    rw [hi]
    by_cases hnone : r.1 = 0
    · rw [if_pos hnone, frees_pure_iff]
      exact iff_of_false (Finset.singleton_ne_empty _) (not_not_intro hnone)
    · rw [if_neg hnone, frees_release_bind]
      exact iff_of_true (frees_critical_bind _ _ fun _ d => frees_pure _ d) hnone

theorem frees_setMaxRequests (portno : xport) (nr_reqs : UInt64) :
    Frees (setMaxRequests portno nr_reqs) ⟨d, ∅⟩ := by
  unfold setMaxRequests
  by_cases hmax : XSEG_MAX_ALLOCATED_REQS < nr_reqs
  · rw [if_pos hmax]
    exact frees_pure _ d
  · rw [if_neg hmax, frees_look_bind]
    cases d.reqs.getPort portno with
    | none => exact frees_pure _ d
    | some port =>
      apply frees_critical_bind
      intro r d
      rw [frees_act_bind]
      exact frees_pure ..

theorem frees_takeQueue_bind {α : Type} (flags : UInt32) (kind : QueueKind) (portno : xport)
    (f : Bool → SegM α) : Frees (takeQueue flags kind portno >>= f) ⟨d, ∅⟩ ↔
      Frees (f true) ⟨d, {.queue kind portno}⟩ := by
  unfold takeQueue
  by_cases hflag : flags &&& X_NONBLOCK ≠ 0
  · rw [if_pos hflag, frees_tryLock_bind]
  · rw [if_neg hflag, bind_assoc, frees_acquire_bind, pure_bind]

theorem frees_accept (portno : xport) (flags : UInt32) : Frees (accept portno flags) ⟨d, ∅⟩ := by
  unfold accept
  rw [frees_look_bind]
  cases d.reqs.getPort portno with
  | none => exact frees_pure _ d
  | some port =>
    rw [frees_takeQueue_bind, if_pos rfl, frees_act_bind, frees_release_bind]
    split
    · exact frees_pure ..
    · rw [frees_act_bind]
      exact frees_pure ..

section Builtin
variable [Builtins]

theorem frees_setFreequeueSize (portno : xport) (flags : UInt32) (chunk : QueueChunk) :
    Frees (setFreequeueSize portno flags chunk) ⟨d, ∅⟩ := by
  unfold setFreequeueSize
  rw [frees_look_bind]
  cases d.reqs.getPort portno with
  | none => exact frees_pure _ d
  | some port =>
    cases allocQueue chunk with
    | none => exact frees_pure _ d
    | some newq =>
      dsimp only
      rw [frees_takeQueue_bind, if_pos rfl, frees_act_bind, frees_release_bind]
      exact frees_pure ..

theorem frees_putRequest (xreq : Option xptr) (portno : xport) :
    Frees (putRequest xreq portno) ⟨d, ∅⟩ := by
  unfold putRequest
  cases xreq with
  | none => exact frees_pure _ d
  | some xreq =>
    rw [frees_look_bind, frees_look_bind]
    cases d.reqs.getPort (d.reqs.requests xreq).srcPortno with
    | none => exact frees_pure _ d
    | some port =>
      rw [frees_act_bind]
      apply Frees.bind
      · unfold countRequest
        split
        · exact frees_critical ..
        · exact frees_pure ..
      · intro _ d
        apply frees_critical_bind
        intro xqi d
        split
        · exact frees_pure ..
        · rw [frees_act_bind]
          exact frees_critical_bind _ _ fun _ d => frees_pure _ d

theorem frees_getDone (req : xptr) (src_portno dst_portno : xport) :
    Frees (getDone req src_portno dst_portno) ⟨d, ∅⟩ := by
  unfold getDone
  rw [frees_act_bind]
  split
  · exact frees_pure ..
  · exact (frees_putRequest ..).bind fun _ d => frees_pure _ d

theorem frees_getRequest (src_portno dst_portno : xport) (flags : UInt32)
    (mem : Option (xptr × UInt64)) :
    Frees (getRequest src_portno dst_portno flags mem) ⟨d, ∅⟩ := by
  unfold getRequest
  rw [frees_look_bind]
  cases d.reqs.getPort src_portno with
  | none => exact frees_pure _ d
  | some port =>
    apply frees_critical_bind
    intro xqi d
    by_cases hfree : xqi ≠ Noneidx
    · rw [if_pos hfree]
      exact frees_getDone ..
    · rw [if_neg hfree]
      by_cases hlocal : flags &&& X_LOCAL ≠ 0
      · rw [if_pos hlocal]
        exact frees_pure _ d
      · rw [if_neg hlocal]
        apply frees_critical_bind
        intro req d
        cases req with
        | none => exact frees_pure _ d
        | some req => exact frees_getDone ..

theorem frees_respond (xreq : Option xptr) (portno : xport) (flags : UInt32) (chunk : QueueChunk) :
    Frees (respond xreq portno flags chunk) ⟨d, ∅⟩ := by
  unfold respond
  cases xreq with
  | none => exact frees_pure _ d
  | some xreq =>
    rw [frees_act_bind]
    split
    · exact frees_pure ..
    · exact frees_critical_bind _ _ fun _ d => frees_pure _ d

theorem frees_bindPort (peer : XsegPeer) (id : UInt64) (req : UInt32) (sd : UInt64)
    (ans : BindAnswers) : Frees (bindPort peer id req sd ans) ⟨d, ∅⟩ := by
  unfold bindPort
  rw [frees_look_bind]
  dsimp only
  split
  · exact frees_pure ..
  · exact frees_critical ..

end Builtin

theorem frees_leaveDynport (port : Option xptr) : Frees (leaveDynport port) ⟨d, ∅⟩ := by
  unfold leaveDynport
  cases port with
  | none => exact frees_pure _ d
  | some port => exact frees_critical_bind _ _ fun _ d => frees_pure _ d

/-- A turn of `xseg_receive` that starts over has taken a request out of the queue. -/
theorem frees_receiveFrom (portno : xport) (port : Port) (flags : UInt32) (turns : Nat) {p : Port}
    (hport : d.reqs.getPort portno = some p) (hcount : (p.queue .reply).count.toNat < turns) :
    Frees (receiveFrom portno port flags turns) ⟨d, ∅⟩ := by
  induction turns generalizing d p with
  | zero => exact absurd hcount (Nat.not_lt_zero _)
  | succ turns ih =>
    unfold receiveFrom
    rw [frees_takeQueue_bind, if_pos rfl, frees_act_bind, frees_release_bind]
    have hat : portAt d.reqs portno port = p := by
      unfold portAt
      rw [hport]
      rfl
    have hxqi : (onReqs (popQueue .reply portno port) d).1 = (p.queue .reply).peekHead := by
      unfold onReqs popQueue
      rw [hat]
      exact popHead_eq_peekHead _
    by_cases hnone : (onReqs (popQueue .reply portno port) d).1 = Noneidx
    · rw [if_pos hnone]
      exact frees_pure ..
    · rw [if_neg hnone, frees_look_bind, frees_act_bind]
      split
      · have hlt := Xseg.popHead_count_lt (hxqi ▸ hnone)
        apply ih (p := p.setQueue .reply (p.queue .reply).popHead.2)
        · unfold onReqs_ onReqs popQueue
          rw [hat]
          exact (Xseg.getPort_setPort hport portno).trans (if_pos rfl)
        · unfold Port.setQueue
          dsimp only
          rw [Function.update_self]
          omega
      · exact frees_pure ..

theorem frees_receive (portno : xport) (flags : UInt32) :
    ∃ turns, Frees (receive portno flags turns) ⟨d, ∅⟩ := by
  unfold receive
  cases hport : d.reqs.getPort portno with
  | none =>
    refine ⟨0, ?_⟩
    rw [frees_look_bind, hport]
    exact frees_pure _ d
  | some port =>
    refine ⟨(port.queue .reply).count.toNat + 1, ?_⟩
    rw [frees_look_bind, hport]
    exact frees_receiveFrom portno port flags _ hport (Nat.lt_succ_self _)

theorem cNot_accept (flags : UInt32) : cNot flags &&& CAN_ACCEPT ≠ 0 ↔ flags = 0 := by
  unfold cNot
  by_cases hflags : flags = 0
  · rw [if_pos hflags]
    exact iff_of_true (by decide) hflags
  · rw [if_neg hflags]
    exact iff_of_false (by decide) hflags

theorem discover_missing {s : Xseg} {dst next : xport} (hne : next ≠ dst)
    (hport : s.getPort (s.follow dst next) = none) (turns : Nat) :
    s.discover dst (turns + 1) next = some none := by
  unfold Xseg.follow at hport
  rw [Xseg.discover, if_neg hne]
  dsimp only
  rw [hport]

theorem discover_port {s : Xseg} {dst next : xport} {port : Port} (hne : next ≠ dst)
    (hport : s.getPort (s.follow dst next) = some port) (turns : Nat) :
    s.discover dst (turns + 1) next =
      if cNot port.flags &&& CAN_ACCEPT ≠ 0 then s.discover dst turns (s.follow dst next)
      else some (some (s.follow dst next, port)) := by
  unfold Xseg.follow at hport ⊢
  rw [Xseg.discover, if_neg hne]
  dsimp only
  rw [hport]

theorem discover_of_endsAt {s : Xseg} {dst next : xport} (h : s.EndsAt dst next) (turns : Nat) :
    s.discover dst (turns + 1) next ≠ none := by
  by_cases hend : next = dst
  · rw [Xseg.discover, if_pos hend]
    exact Option.some_ne_none _
  · have hflags := h.resolve_left hend
    cases hport : s.getPort (s.follow dst next) with
    | none =>
      rw [discover_missing hend hport]
      exact Option.some_ne_none _
    | some port =>
      rw [discover_port hend hport,
        if_neg fun haccept => hflags port hport ((cNot_accept port.flags).mp haccept)]
      exact Option.some_ne_none _

theorem discover_of_not_endsAt {s : Xseg} {dst next : xport} (h : ¬ s.EndsAt dst next)
    (turns : Nat) :
    s.discover dst (turns + 1) next = s.discover dst turns (s.follow dst next) := by
  obtain ⟨hend, hport⟩ := not_or.mp h
  obtain ⟨port, hport⟩ := not_forall.mp hport
  obtain ⟨hport, hflags⟩ := Classical.not_imp.mp hport
  rw [discover_port hend hport]
  exact if_pos ((cNot_accept port.flags).mpr (not_not.mp hflags))

/-- The first loop of `xseg_submit` ends in so many turns when the chain of ports does. -/
theorem discover_ne_none (s : Xseg) (dst cur : xport) (turns : Nat) :
    s.discover dst turns cur ≠ none ↔ ∃ k < turns, s.EndsAt dst ((s.follow dst)^[k] cur) := by
  induction turns generalizing cur with
  | zero =>
    refine iff_of_false (not_not_intro rfl) ?_
    rintro ⟨k, hk, -⟩
    exact absurd hk (Nat.not_lt_zero k)
  | succ turns ih =>
    by_cases hend : s.EndsAt dst cur
    · exact iff_of_true (discover_of_endsAt hend turns) ⟨0, Nat.succ_pos turns, hend⟩
    · rw [discover_of_not_endsAt hend, ih]
      constructor
      · rintro ⟨k, hk, hat⟩
        exact ⟨k + 1, Nat.succ_lt_succ hk, hat⟩
      · rintro ⟨k, hk, hat⟩
        cases k with
        | zero => exact absurd hat hend
        | succ k => exact ⟨k, Nat.lt_of_succ_lt_succ hk, hat⟩

/-- The first loop of `xseg_submit` ends exactly where the chain of ports does. -/
theorem discover_ends (s : Xseg) (dst cur : xport) :
    (∃ turns, s.discover dst turns cur ≠ none) ↔ s.PathEnds dst cur := by
  constructor
  · rintro ⟨turns, hturns⟩
    obtain ⟨k, -, hk⟩ := (discover_ne_none s dst cur turns).mp hturns
    exact ⟨k, hk⟩
  · rintro ⟨k, hk⟩
    exact ⟨k + 1, (discover_ne_none s dst cur (k + 1)).mpr ⟨k, Nat.lt_succ_self k, hk⟩⟩

theorem frees_submit [Builtins] (xreq : xptr) (portno : xport) (flags : UInt32)
    (chunk : QueueChunk) (turns : Nat) :
    Frees (submit (some xreq) portno flags chunk turns) ⟨d, ∅⟩ ↔
      (d.reqs.validatePort (d.reqs.requests xreq).transitPortno →
        d.reqs.validatePort (d.reqs.requests xreq).effectiveDstPortno →
        d.reqs.discover (d.reqs.requests xreq).effectiveDstPortno turns
          (d.reqs.requests xreq).transitPortno ≠ none) := by
  unfold submit
  rw [frees_look_bind]
  dsimp only
  by_cases hcur : d.reqs.validatePort (d.reqs.requests xreq).transitPortno
  · rw [if_neg (not_not_intro hcur)]
    by_cases hdst : d.reqs.validatePort (d.reqs.requests xreq).effectiveDstPortno
    · rw [if_neg (not_not_intro hdst)]
      rcases d.reqs.discover (d.reqs.requests xreq).effectiveDstPortno turns
        (d.reqs.requests xreq).transitPortno with _ | _ | ⟨next, port⟩
      · exact iff_of_false frees_diverge fun h => h hcur hdst rfl
      · exact iff_of_true (frees_pure ..) fun _ _ => nofun
      · refine iff_of_true ?_ fun _ _ => nofun
        dsimp only
        split
        · exact frees_pure ..
        · rw [frees_act_bind]
          apply frees_critical_bind
          intro serial d
          split
          · rw [frees_act_bind]
            exact frees_pure ..
          · exact frees_pure ..
    · rw [if_pos hdst]
      exact iff_of_true (frees_pure ..) fun _ h => absurd h hdst
  · rw [if_pos hcur]
    exact iff_of_true (frees_pure ..) fun h => absurd h hcur

theorem scanDrivers_find (name : TypeName) (l : List TypeName) (r : Nat) :
    (scanDrivers name l r).map Prod.snd =
      (l.find? fun d => d = .empty ∨ d = name).map fun d => decide (d ≠ .empty) := by
  induction l generalizing r with
  | nil => rfl
  | cons d l ih =>
    unfold scanDrivers
    by_cases hempty : d = .empty
    · rw [if_pos hempty, List.find?_cons_of_pos (by simp [hempty])]
      simp [hempty]
    · rw [if_neg hempty]
      by_cases hname : d = name
      · rw [if_pos hname, List.find?_cons_of_pos (by simp [hname])]
        simp [hempty]
      · rw [if_neg hname, List.find?_cons_of_neg (by simp [hempty, hname])]
        exact ih (r + 1)

/-- `__enable_driver` fails exactly when the driver has no place in the table. -/
theorem enableDriver_neg (shared : XsegPeerTypes) (priv : XsegPrivate) (driver : XsegPeer)
    (data : UInt64) :
    (enableDriver shared priv driver data).1 < 0 ↔ ¬ shared.CanEnable driver.name data := by
  have hfind := scanDrivers_find driver.name shared.peer_types 0
  unfold enableDriver XsegPeerTypes.CanEnable
  dsimp only
  by_cases hfull : shared.peer_types.length ≤ shared.nr_peer_types.toNat
  · rw [if_pos hfull]
    exact iff_of_true (Int.negSucc_lt_zero _) fun h => absurd h.1 (Nat.not_lt.mpr hfull)
  · rw [if_neg hfull]
    rcases hscan : scanDrivers driver.name shared.peer_types 0 with _ | ⟨r, known⟩
    · rw [hscan] at hfind
      have hnone := Option.map_eq_none_iff.mp hfind.symm
      refine iff_of_true (Int.negSucc_lt_zero _) ?_
      rintro ⟨-, d, hd, -⟩
      rw [hnone] at hd
      cases hd
    · rw [hscan] at hfind
      obtain ⟨d, hd, hknown⟩ := Option.map_eq_some_iff.mp hfind.symm
      rw [hd]
      cases known with
      | true =>
        have hne : d ≠ .empty := of_decide_eq_true hknown
        refine iff_of_false (Int.not_lt.mpr (Int.natCast_nonneg r)) ?_
        exact not_not_intro ⟨Nat.not_le.mp hfull, d, rfl, fun h => absurd h hne⟩
      | false =>
        have hempty : d = .empty := not_not.mp (of_decide_eq_false hknown)
        dsimp only
        by_cases hdata : data = 0
        · rw [if_pos hdata]
          refine iff_of_true (Int.negSucc_lt_zero _) ?_
          rintro ⟨-, d', hd', hne⟩
          obtain rfl := Option.some.inj hd'
          exact hne hempty hdata
        · rw [if_neg hdata]
          refine iff_of_false (Int.not_lt.mpr (Int.natCast_nonneg r)) ?_
          exact not_not_intro ⟨Nat.not_le.mp hfull, d, rfl, fun _ => hdata⟩

/-- `xseg_bind_dynport` keeps the segment lock when it cannot enable the driver. -/
theorem frees_bindDynport [Builtins] (peer : XsegPeer) (id : UInt64) (ans : BindAnswers) :
    Frees (bindDynport peer id ans) ⟨d, ∅⟩ ↔ d.ports.shared.CanEnable peer.name ans.data := by
  have hneg := enableDriver_neg d.ports.shared d.priv peer ans.data
  unfold bindDynport
  rw [frees_acquire_bind, frees_act_bind]
  generalize hr : onPorts (fun s priv => ((enableDriver s.shared priv peer ans.data).1,
    { s with shared := (enableDriver s.shared priv peer ans.data).2.1 },
    (enableDriver s.shared priv peer ans.data).2.2)) d = r
  have hdriver : (enableDriver d.ports.shared d.priv peer ans.data).1 = r.1 := hr ▸ rfl
  rw [hdriver] at hneg
  by_cases hfail : r.1 < 0
  · rw [if_pos hfail, frees_pure_iff]
    exact iff_of_false (Finset.singleton_ne_empty _) (hneg.mp hfail)
  · rw [if_neg hfail, frees_act_bind, frees_release_bind]
    exact iff_of_true (frees_pure ..) (not_not.mp (mt hneg.mpr hfail))

end SegM

namespace LockCall
variable [Builtins]

/-- A call comes back with every lock free if and only if it takes no exit that keeps one. -/
theorem releases_iff (call : LockCall) (d : SegmentData) :
    call.Releases d ↔ call.NoStuckExit d := by
  unfold Releases
  cases call with
  | freeRequests portno nr =>
    exact exists_const_iff.trans (and_iff_right ⟨0⟩ |>.trans (SegM.frees_freeRequests portno nr))
  | bindDynport peer id ans =>
    exact exists_const_iff.trans (and_iff_right ⟨0⟩ |>.trans (SegM.frees_bindDynport peer id ans))
  | submit xreq portno flags chunk =>
    cases xreq with
    | none => exact iff_of_true ⟨0, frees_pure ..⟩ trivial
    | some xreq =>
      dsimp only [FreesIn, NoStuckExit]
      rw [← SegM.discover_ends]
      constructor
      · rintro ⟨turns, hturns⟩ hcur hdst
        exact ⟨turns, (SegM.frees_submit xreq portno flags chunk turns).mp hturns hcur hdst⟩
      · intro hends
        by_cases hvalid : d.reqs.validatePort (d.reqs.requests xreq).transitPortno ∧
            d.reqs.validatePort (d.reqs.requests xreq).effectiveDstPortno
        · obtain ⟨turns, hturns⟩ := hends hvalid.1 hvalid.2
          exact ⟨turns, (SegM.frees_submit ..).mpr fun _ _ => hturns⟩
        · exact ⟨0, (SegM.frees_submit ..).mpr fun hcur hdst => absurd ⟨hcur, hdst⟩ hvalid⟩
  | receive portno flags => exact iff_of_true (SegM.frees_receive portno flags) trivial
  | allocRequests portno nr mems =>
    exact iff_of_true ⟨0, SegM.frees_allocRequests portno nr mems⟩ trivial
  | getRequest src dst flags mem =>
    exact iff_of_true ⟨0, SegM.frees_getRequest src dst flags mem⟩ trivial
  | putRequest xreq portno => exact iff_of_true ⟨0, SegM.frees_putRequest xreq portno⟩ trivial
  | accept portno flags => exact iff_of_true ⟨0, SegM.frees_accept portno flags⟩ trivial
  | respond xreq portno flags chunk =>
    exact iff_of_true ⟨0, SegM.frees_respond xreq portno flags chunk⟩ trivial
  | setMaxRequests portno nr_reqs =>
    exact iff_of_true ⟨0, SegM.frees_setMaxRequests portno nr_reqs⟩ trivial
  | setFreequeueSize portno flags chunk =>
    exact iff_of_true ⟨0, SegM.frees_setFreequeueSize portno flags chunk⟩ trivial
  | bindPort peer id req sd ans =>
    exact iff_of_true ⟨0, SegM.frees_bindPort peer id req sd ans⟩ trivial
  | leaveDynport port => exact iff_of_true ⟨0, SegM.frees_leaveDynport port⟩ trivial

end LockCall

def newSegment [Builtins] : SegmentData where
  reqs := madeSeg 1 1024
  ports := ⟨1, 2, fun _ => 0, fun _ => ⟨fun _ => none, 0, 0, 0, 0, 0, 0, 0⟩,
    ⟨128, [], 0, 0, [], 0⟩, .init 255⟩
  priv := ⟨4096, List.replicate 255 none, List.replicate 255 0⟩

def stockedQueue [Builtins] : Xq :=
  [4096, 4608, 5120].foldl (fun q x => (q.appendTail x).2) (madePort.queue .free)

theorem stockedQueue_holding [Builtins] : Xseg.Holding stockedQueue [4096, 4608, 5120] :=
  (((madePort_holding .free).appendTail (by decide) 4096).appendTail (by decide) 4608).appendTail
    (by decide) 5120

/-- A new segment with three requests, all in the free queue of its port, where
`xseg_alloc_requests` puts them. -/
def stockedSegment [Builtins] : SegmentData :=
  { newSegment with
    reqs := { madeSeg 1 2048 with
      requestH := { (madeSeg 1 2048).requestH with list := [], nrFree := 1 } }.setPort 0
        (madePort.setQueue .free stockedQueue) }

theorem stockedSegment_port [Builtins] :
    stockedSegment.reqs.getPort 0 = some (madePort.setQueue .free stockedQueue) := by
  have hmade : (madeSeg 1 2048).getPort 0 = some madePort := madeSeg_getPort (by decide)
  exact (Xseg.getPort_setPort (s := { madeSeg 1 2048 with
    requestH := { (madeSeg 1 2048).requestH with list := [], nrFree := 1 } }) hmade 0).trans
      (if_pos rfl)

theorem stockedSegment_free [Builtins] {port : Port}
    (h : stockedSegment.reqs.getPort 0 = some port) :
    (port.queue .free).Repr [4096, 4608, 5120] := by
  obtain rfl := Option.some.inj (stockedSegment_port.symm.trans h)
  rw [Port.queue_setQueue]
  exact stockedQueue_holding.repr

/-- Freeing a request of the new port. -/
theorem not_releases : ¬ ∀ (_ : Builtins) (call : LockCall) (d : SegmentData), call.Releases d := by
  intro h
  let _ : Builtins := ⟨0⟩
  have hfree := (SegM.frees_freeRequests 0 1).mp (h ⟨0⟩ (.freeRequests 0 1) newSegment).choose_spec
  have hempty : (madePort.queue .free).peekHead = Noneidx := (Xq.repr_initEmpty ..).peekHead_nil
  exact (hfree _ (madeSeg_getPort (by decide))).1 hempty

end Libxseg
