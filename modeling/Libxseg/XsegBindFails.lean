import Libxseg.XsegPortsRuns

/-!
# A bind that fails

`xseg_bind_port` frees the port at hand when it breaks out of its loop, and empties the
entry of the array. That port is a new one, unless the call was for a number that is bound.
-/

namespace Libxseg

set_option autoImplicit false

namespace XsegPorts
variable {s s' : XsegPorts} {port : xptr} {n : xport} {priv : XsegPrivate} {peer : XsegPeer}
  {id sd : UInt64} {ans : BindAnswers}

/-- The array of ports is as before, and the mapped ports are, with all that is in them. -/
structure LeavesBound (s s' : XsegPorts) : Prop where
  table : s'.ports = s.ports
  kept : ∀ n port, s.getPort n = some port →
    s'.getPort n = some port ∧ s'.records port = s.records port ∧ port ∉ s'.port_h.list

def Rebinds (s : XsegPorts) (req : UInt32) : Prop :=
  s.dynports < s.nr_ports ∧ req < s.dynports ∧ s.ports req ≠ 0

theorem Unmoved.leavesBound (h : Unmoved s s') (htable : s'.Table) : LeavesBound s s' where
  table := h.ports
  kept := by
    intro n port hport
    obtain ⟨⟨hn, hne⟩, hentry⟩ := Option.ite_none_right_eq_some.mp hport
    obtain rfl := Option.some.inj hentry
    have hne' : s'.ports n ≠ 0 := by
      rwa [h.ports]
    have hget : s'.getPort n = some (s'.ports n) := if_pos ⟨h.nr_ports ▸ hn, hne'⟩
    have hfree := (htable.mapped n hne').2
    rw [h.ports] at hget hfree
    exact ⟨hget, h.records n hne, hfree⟩

theorem bindPortAt_fails (hfail : (s.bindPortAt priv peer id sd ans port n).1 = none) :
    ∃ shared, (s.bindPortAt priv peer id sd ans port n).2.1 =
      (freePort { s with shared := shared } port).map n 0 := by
  obtain ⟨shared, priv', heq | ⟨driver, sigdesc, heq⟩⟩ :=
    bindPortAt_cases s priv peer id sd ans port n
  · rw [heq]
    exact ⟨shared, rfl⟩
  · rw [heq] at hfail
    cases hfail

theorem bindPortAt_unmoved (hunmoved : Unmoved s s') (hhand : s'.InHand port)
    (hfree : s.ports n = 0) (hfail : (s'.bindPortAt priv peer id sd ans port n).1 = none) :
    Unmoved s (s'.bindPortAt priv peer id sd ans port n).2.1 := by
  obtain ⟨shared, heq⟩ := bindPortAt_fails hfail
  rw [heq]
  have hfreed := touches_freePort { s' with shared := shared } port n
  refine ⟨?_, fun m hm => ?_, hunmoved.dynports, hunmoved.nr_ports⟩
  · have hentry : (freePort { s' with shared := shared } port).ports = s'.ports := rfl
    have hsame : Function.update s'.ports n 0 = s'.ports := by
      rw [← hfree, ← hunmoved.ports, Function.update_eq_self]
    exact (hsame.trans hunmoved.ports : Function.update _ n 0 = s.ports)
  · have hne : s.ports m ≠ port := hunmoved.ports ▸ hhand.unmapped m
    exact (hfreed.records _ hne).trans (hunmoved.records m hm)

/-- The loop passes bound ports by when it may, and frees only a port that it has made. -/
theorem bindPortLoop_unmoved [Builtins] (h : s.Table) (hgood : s.port_h.GoodChunk ans.mem)
    {force : Bool} {turns : Nat} (hforce : force = true → s.ports n = 0)
    (hfail : (s.bindPortLoop priv peer id sd ans force turns n).1 = none) :
    Unmoved s (s.bindPortLoop priv peer id sd ans force turns n).2.1 := by
  induction turns generalizing n with
  | zero => exact .refl s
  | succ turns ih =>
    unfold bindPortLoop at hfail ⊢
    by_cases hfree : s.ports n = 0
    · rw [if_pos hfree] at hfail ⊢
      obtain ⟨-, hunmoved, hhand⟩ := allocPort_spec h X_ALLOC hgood
      generalize s.allocPort X_ALLOC ans = r at hunmoved hhand hfail ⊢
      obtain ⟨_ | port, s'⟩ := r
      · exact hunmoved
      · exact bindPortAt_unmoved hunmoved (hhand port rfl) hfree hfail
    · have hpass : ¬ force = true := fun hf => hfree (hforce hf)
      rw [if_neg hfree, if_neg hpass] at hfail ⊢
      exact ih (fun hf => absurd hf hpass) hfail

/-- A bind that fails leaves the bound ports alone if and only if it was not for one of them. -/
theorem bindPort_leavesBound_iff [Builtins] {req : UInt32} {priv' : XsegPrivate} (h : s.Table)
    (hgood : s.port_h.GoodChunk ans.mem)
    (hcall : s.bindPort priv peer id req sd ans = (none, s', priv')) :
    LeavesBound s s' ↔ ¬ s.Rebinds req := by
  have htable := (bindPort_spec h hgood priv peer id req sd).table
  rw [hcall] at htable
  unfold bindPort at hcall
  dsimp only at hcall
  by_cases hdyn : s.nr_ports ≤ s.dynports
  · rw [if_pos hdyn] at hcall
    obtain ⟨rfl, -⟩ := Prod.mk.inj (Prod.mk.inj hcall).2
    refine iff_of_true ((Unmoved.refl s).leavesBound htable) fun hre => ?_
    exact UInt32.not_le.mpr hre.1 hdyn
  rw [if_neg hdyn] at hcall
  by_cases hreq : s.dynports ≤ req
  · rw [if_pos hreq] at hcall
    have hfail := congrArg Prod.fst hcall
    have hunmoved := bindPortLoop_unmoved h hgood (fun hf => absurd hf Bool.false_ne_true) hfail
    rw [hcall] at hunmoved
    refine iff_of_true (hunmoved.leavesBound htable) fun hre => ?_
    exact UInt32.not_le.mpr hre.2.1 hreq
  rw [if_neg hreq] at hcall
  by_cases hfree : s.ports req = 0
  · have hunmoved := bindPortLoop_unmoved h hgood (fun _ => hfree) (congrArg Prod.fst hcall)
    rw [hcall] at hunmoved
    exact iff_of_true (hunmoved.leavesBound htable) fun hre => hre.2.2 hfree
  · refine iff_of_false ?_ (not_not_intro ⟨UInt32.not_le.mp hdyn, UInt32.not_le.mp hreq, hfree⟩)
    intro hleaves
    have hget : s.getPort req = some (s.ports req) :=
      if_pos ⟨UInt32.lt_trans (UInt32.not_le.mp hreq) (UInt32.not_le.mp hdyn), hfree⟩
    unfold bindPortLoop at hcall
    rw [if_neg hfree, if_pos rfl, hget] at hcall
    obtain ⟨shared, heq⟩ := bindPortAt_fails (congrArg Prod.fst hcall)
    dsimp only at hcall
    rw [hcall] at heq
    have hgone : s'.ports req = 0 := by
      rw [show s' = _ from heq]
      exact map_same _ req 0
    exact hfree ((congrFun hleaves.table req).symm.trans hgone)

open PortWorld

theorem table_sampleSegment : sampleSegment.Table := by
  have hinv : Inv (fun _ : Unit => samplePeer) ⟨sampleSegment, fun _ => newPrivate, fun _ => none⟩ :=
    created_sampleSegment.inv _
  exact hinv.table

theorem goodChunk_sampleAnswers : sampleSegment.port_h.GoodChunk sampleAnswers.mem := by
  intro c hc
  obtain rfl := Option.some.inj hc
  exact ⟨⟨by decide, nofun⟩, by decide⟩

def boundSegment [Builtins] : Option xptr × XsegPorts × XsegPrivate :=
  sampleSegment.bindPort newPrivate samplePeer.type 7 0 0 sampleAnswers

theorem table_boundSegment [Builtins] : boundSegment.2.1.Table :=
  (bindPort_spec table_sampleSegment goodChunk_sampleAnswers newPrivate
    samplePeer.type 7 0 0).table

def bareAnswers : BindAnswers := { sampleAnswers with mem := none, sigdesc := 0 }

/-- Port 0 is bound; for a new port there is no signal descriptor. -/
theorem bindPort_leavesBound_new : ∃ (_ : Builtins) (s' : XsegPorts) (priv' : XsegPrivate),
    boundSegment.2.1.getPort 0 = some 8192 ∧
      boundSegment.2.1.bindPort boundSegment.2.2 samplePeer.type 7 NoPort 0 bareAnswers =
        (none, s', priv') ∧
      LeavesBound boundSegment.2.1 s' := by
  let _ : Builtins := ⟨0⟩
  have hport : boundSegment.2.1.getPort 0 = some 8192 := by decide +kernel
  have hret : (boundSegment.2.1.bindPort boundSegment.2.2 samplePeer.type 7 NoPort 0
      bareAnswers).1 = none := by
    decide +kernel
  have htable := table_boundSegment
  have hdyn : boundSegment.2.1.dynports = 2 := by decide +kernel
  refine ⟨⟨0⟩, _, _, hport, Prod.ext hret rfl, ?_⟩
  refine (bindPort_leavesBound_iff htable (fun c hc => by cases hc) (Prod.ext hret rfl)).mpr ?_
  intro hre
  have hlt := hre.2.1
  rw [hdyn] at hlt
  exact absurd hlt (by decide)

/-- The process binds port 0 again, and there is no signal descriptor for it. -/
theorem not_bindPort_leavesBound : ¬ ∀ (_ : Builtins) (s s' : XsegPorts) (priv priv' : XsegPrivate)
    (peer : XsegPeer) (id sd : UInt64) (req : UInt32) (ans : BindAnswers), s.Table →
    s.port_h.GoodChunk ans.mem → s.bindPort priv peer id req sd ans = (none, s', priv') →
    LeavesBound s s' := by
  intro h
  let _ : Builtins := ⟨0⟩
  have hbound : boundSegment.2.1.ports 0 = 8192 := by decide +kernel
  have hagain : (boundSegment.2.1.bindPort boundSegment.2.2 samplePeer.type 7 0 0
      bareAnswers).1 = none := by
    decide +kernel
  have hgone : (boundSegment.2.1.bindPort boundSegment.2.2 samplePeer.type 7 0 0
      bareAnswers).2.1.ports 0 = 0 := by
    decide +kernel
  have hleaves := h ⟨0⟩ boundSegment.2.1 _ boundSegment.2.2 _ samplePeer.type 7 0 0 bareAnswers
    table_boundSegment (fun c hc => by cases hc) (Prod.ext hagain rfl)
  have hsame := (congrFun hleaves.table 0).symm.trans hgone
  rw [hbound] at hsame
  exact absurd hsame (by decide)

end XsegPorts

end Libxseg
