import Libxseg.Transition
import Libxseg.XsegOwners

/-!
# Dynamic ports in runs of any peers

Peers bind dynamic ports, leave them, and bind static ports, in any order. Who has a
number is written down beside the segment; the invariant compares that with the view of
the array of ports.
-/

namespace Libxseg

set_option autoImplicit false

structure PortPeer where
  id : UInt64
  type : XsegPeer

def PortPeer.owner (peer : PortPeer) : UInt64 := peer.id.toUInt32.toUInt64

inductive PortEvent (θ : Type) where
  /-- `xseg_bind_dynport`, with its result -/
  | bindDynport (t : θ) (ans : BindAnswers) (ret : Option xptr)
  /-- `xseg_leave_dynport` by the peer that has the port -/
  | leaveDynport (t : θ) (port : xptr)
  /-- `xseg_bind_port`, with its result -/
  | bindPort (t : θ) (req : UInt32) (sd : UInt64) (ans : BindAnswers) (ret : Option xptr)

/-- The segment, what each process keeps of it, and who has bound a number and not left it. -/
structure PortWorld (θ : Type) where
  segment : XsegPorts
  privs : θ → XsegPrivate
  held : xport → Option θ

namespace PortWorld

section Worlds
variable {θ : Type} [DecidableEq θ] [Builtins] {peers : θ → PortPeer}

/-- The calls are atomic under the segment lock, and the chunks they get are chunks of the heap. -/
def Step (peers : θ → PortPeer) (w : PortWorld θ) : PortEvent θ → PortWorld θ → Prop
  | .bindDynport t ans ret, w' => w.segment.port_h.GoodChunk ans.mem ∧ ∃ segment priv,
      w.segment.bindDynport (w.privs t) (peers t).type (peers t).id ans = (ret, segment, priv) ∧
      w' = {
        segment := segment
        privs := Function.update w.privs t priv
        held := match ret with
          | none => w.held
          | some port => Function.update w.held (segment.records port).portno (some t) }
  | .leaveDynport t port, w' =>
      let n := (w.segment.records port).portno
      w.held n = some t ∧ w.segment.ports n = port ∧
      w' = { w with
        segment := w.segment.leaveDynport port
        held := Function.update w.held n none }
  | .bindPort t req sd ans ret, w' => w.segment.port_h.GoodChunk ans.mem ∧ ∃ segment priv,
      w.segment.bindPort (w.privs t) (peers t).type (peers t).id req sd ans =
        (ret, segment, priv) ∧
      w' = { w with segment := segment, privs := Function.update w.privs t priv }

/-- A dynamic port goes to one peer at a time, and binding static ports leaves it alone. -/
structure Owned (peers : θ → PortPeer) (w : PortWorld θ) : Prop where
  dynamic : ∀ t ans port w', Step peers w (.bindDynport t ans (some port)) w' →
    ∃ n, w.segment.dynports ≤ n ∧ n < w.segment.nr_ports ∧ w.held n = none ∧
      (∀ m u, w.held m = some u → w.segment.ports m ≠ port) ∧
      w'.segment.ports n = port ∧ (w'.segment.records port).portno = n ∧
      (w'.segment.records port).owner = (peers t).owner
  static : ∀ t req sd ans ret w', Step peers w (.bindPort t req sd ans ret) w' →
    ∀ n, w.segment.dynports ≤ n → w'.segment.ports n = w.segment.ports n ∧
      (w.segment.ports n ≠ 0 → ret ≠ some (w.segment.ports n) ∧
        w.segment.ports n ∉ w'.segment.port_h.list)

/-- Under a number that is held stands the holder, and under any other dynamic number nobody. -/
structure Inv (peers : θ → PortPeer) (w : PortWorld θ) : Prop where
  table : w.segment.Table
  held : ∀ n t, w.held n = some t → w.segment.dynports ≤ n ∧
    ∃ port, w.segment.view n = some (port, (peers t).owner, n)
  left : ∀ n, w.segment.dynports ≤ n → w.held n = none →
    w.segment.view n = none ∨ ∃ port k, w.segment.view n = some (port, NoOwner, k)

omit [DecidableEq θ] [Builtins] in
theorem owner_ne_noOwner (peer : PortPeer) : peer.owner ≠ NoOwner := by
  intro h
  have hlt := peer.id.toUInt32.toNat_lt
  have hnat : peer.id.toUInt32.toNat = NoOwner.toNat := by
    rw [← h]
    exact (UInt32.toNat_toUInt64 _).symm
  have hno : NoOwner.toNat = 2 ^ 64 - 1 := rfl
  omega

section Steps
variable {w w' : PortWorld θ} {t : θ} {ans : BindAnswers} {port : xptr} {n : xport}

omit [DecidableEq θ] [Builtins] in
/-- A number that nobody has is found without an owner, and the other way round. -/
theorem Inv.held_none (h : Inv peers w)
    (hfree : w.segment.view n = none ∨ ∃ p k, w.segment.view n = some (p, NoOwner, k)) :
    w.held n = none := by
  cases hheld : w.held n with
  | none => rfl
  | some u =>
    obtain ⟨-, p, hview⟩ := h.held n u hheld
    rcases hfree with hnone | ⟨q, k, hsome⟩
    · rw [hnone] at hview
      cases hview
    · rw [hsome] at hview
      obtain ⟨-, hrest⟩ := Prod.mk.inj (Option.some.inj hview)
      exact absurd (Prod.mk.inj hrest).1.symm (owner_ne_noOwner _)

theorem Inv.dynamic (h : Inv peers w) (hstep : Step peers w (.bindDynport t ans (some port)) w') :
    ∃ n, w.segment.dynports ≤ n ∧ n < w.segment.nr_ports ∧ w.held n = none ∧
      (∀ m u, w.held m = some u → w.segment.ports m ≠ port) ∧
      w'.segment.ports n = port ∧ (w'.segment.records port).portno = n ∧
      (w'.segment.records port).owner = (peers t).owner := by
  obtain ⟨hgood, segment, priv, hcall, rfl⟩ := hstep
  have hspec := XsegPorts.bindDynport_spec h.table hgood (w.privs t) (peers t).type (peers t).id
  rw [hcall] at hspec
  obtain ⟨n, hdyn, hnr, hbefore, hview, hothers⟩ := hspec.bound port rfl
  obtain ⟨hport, hne, howner, hportno⟩ := XsegPorts.view_eq_some hview
  have hfree : w.held n = none := by
    apply h.held_none
    exact hbefore.imp_right fun ⟨k, hk⟩ => ⟨port, k, hk⟩
  refine ⟨n, hdyn, hnr, hfree, ?_, hport, hportno, howner⟩
  intro m u hm heq
  by_cases hmn : m = n
  · rw [hmn, hfree] at hm
    cases hm
  · obtain ⟨-, q, hq⟩ := h.held m u hm
    obtain ⟨hq', -⟩ := XsegPorts.view_eq_some hq
    have hafter := XsegPorts.view_eq_some ((hothers m hmn).trans hq)
    have hsame : segment.ports m = segment.ports n :=
      hafter.1.trans (hq'.symm.trans (heq.trans hport.symm))
    exact hmn (hspec.table.injective m n (hafter.1 ▸ hafter.2.1) hsame)

theorem Inv.static (h : Inv peers w) {req : UInt32} {sd : UInt64} {ret : Option xptr}
    (hstep : Step peers w (.bindPort t req sd ans ret) w') (hn : w.segment.dynports ≤ n) :
    w'.segment.ports n = w.segment.ports n ∧
      (w.segment.ports n ≠ 0 → ret ≠ some (w.segment.ports n) ∧
        w.segment.ports n ∉ w'.segment.port_h.list) := by
  obtain ⟨hgood, segment, priv, hcall, rfl⟩ := hstep
  have hspec := XsegPorts.bindPort_spec h.table hgood (w.privs t) (peers t).type (peers t).id req sd
  rw [hcall] at hspec
  have hview := hspec.view n hn
  have hports : segment.ports n = w.segment.ports n := XsegPorts.ports_of_view hview
  refine ⟨hports, fun hne => ⟨?_, ?_⟩⟩
  · intro hret
    obtain ⟨m, hm, hport⟩ := hspec.result _ hret
    have hmn : n = m :=
      hspec.table.injective n m (hports ▸ hne) (hports.trans hport.symm)
    exact absurd (hmn ▸ hm) (UInt32.not_lt.mpr hn)
  · rw [← hports] at hne ⊢
    exact (hspec.table.mapped n hne).2

theorem Inv.owned (h : Inv peers w) : Owned peers w :=
  ⟨fun _ _ _ _ hstep => h.dynamic hstep, fun _ _ _ _ _ _ hstep _ hn => h.static hstep hn⟩

theorem Inv.step {e : PortEvent θ} (h : Inv peers w) (hstep : Step peers w e w') :
    Inv peers w' := by
  cases e with
  | bindDynport t ans ret =>
    obtain ⟨hgood, segment, priv, hcall, rfl⟩ := hstep
    have hspec :=
      XsegPorts.bindDynport_spec h.table hgood (w.privs t) (peers t).type (peers t).id
    rw [hcall] at hspec
    cases ret with
    | none =>
      have hview := hspec.failed rfl
      refine ⟨hspec.table, ?_, ?_⟩
      · intro n u hn
        obtain ⟨hdyn, p, hp⟩ := h.held n u hn
        exact ⟨hspec.dynports.trans_le hdyn, p, (hview n).trans hp⟩
      · intro n hn hfree
        rw [hview n]
        exact h.left n (hspec.dynports.symm.trans_le hn) hfree
    | some port =>
      obtain ⟨n, hdyn, hnr, hbefore, hview, hothers⟩ := hspec.bound port rfl
      obtain ⟨hport, hne, howner, hportno⟩ := XsegPorts.view_eq_some hview
      dsimp only
      rw [hportno]
      refine ⟨hspec.table, ?_, ?_⟩
      · intro m u hm
        dsimp only at hm
        by_cases hmn : m = n
        · subst hmn
          rw [Function.update_self] at hm
          obtain rfl := Option.some.inj hm
          exact ⟨hspec.dynports.trans_le hdyn, port, hview⟩
        · rw [Function.update_of_ne hmn] at hm
          obtain ⟨hdyn', p, hp⟩ := h.held m u hm
          exact ⟨hspec.dynports.trans_le hdyn', p, (hothers m hmn).trans hp⟩
      · intro m hm hfree
        dsimp only at hfree
        by_cases hmn : m = n
        · subst hmn
          rw [Function.update_self] at hfree
          cases hfree
        · rw [Function.update_of_ne hmn] at hfree
          dsimp only
          rw [hothers m hmn]
          exact h.left m (hspec.dynports.symm.trans_le hm) hfree
  | leaveDynport t port =>
    obtain ⟨hheld, hport, rfl⟩ := hstep
    generalize hn : (w.segment.records port).portno = n at hheld hport ⊢
    obtain ⟨hdyn, p, hview⟩ := h.held n t hheld
    obtain ⟨hp, hne, -, -⟩ := XsegPorts.view_eq_some hview
    obtain rfl : p = port := hp.symm.trans hport
    have honly (m : xport) (hm : w.segment.ports m = p) : m = n :=
      h.table.injective m n (hm ▸ hne) (hm.trans hport.symm)
    have hothers (m : xport) (hmn : m ≠ n) :
        (w.segment.leaveDynport p).view m = w.segment.view m :=
      (XsegPorts.touches_setRecord w.segment p n _).view honly hmn
    refine ⟨h.table.write _ w.segment.shared, ?_, ?_⟩
    · intro m u hm
      dsimp only at hm
      by_cases hmn : m = n
      · subst hmn
        rw [Function.update_self] at hm
        cases hm
      · rw [Function.update_of_ne hmn] at hm
        obtain ⟨hdyn', q, hq⟩ := h.held m u hm
        exact ⟨hdyn', q, (hothers m hmn).trans hq⟩
    · intro m hm hfree
      dsimp only at hfree ⊢
      by_cases hmn : m = n
      · subst hmn
        refine .inr ⟨p, m, ?_⟩
        rw [XsegPorts.view_of_mapped (s := w.segment.leaveDynport p) hport hne]
        unfold XsegPorts.leaveDynport XsegPorts.setRecord
        dsimp only
        rw [Function.update_self, hn]
      · rw [Function.update_of_ne hmn] at hfree
        rw [hothers m hmn]
        exact h.left m hm hfree
  | bindPort t req sd ans ret =>
    obtain ⟨hgood, segment, priv, hcall, rfl⟩ := hstep
    have hspec :=
      XsegPorts.bindPort_spec h.table hgood (w.privs t) (peers t).type (peers t).id req sd
    rw [hcall] at hspec
    refine ⟨hspec.table, ?_, ?_⟩
    · intro n u hn
      obtain ⟨hdyn, p, hview⟩ := h.held n u hn
      exact ⟨hspec.dynports.trans_le hdyn, p, (hspec.view n hdyn).trans hview⟩
    · intro n hn hfree
      have hdyn : w.segment.dynports ≤ n := hspec.dynports.symm.trans_le hn
      rw [hspec.view n hdyn]
      exact h.left n hdyn hfree

/-- A segment as `xseg_create` leaves it: no number is mapped and no port was made. -/
structure Created (s : XsegPorts) : Prop where
  ports : ∀ n, s.ports n = 0
  allocated : s.port_h.allocated = []
  list : s.port_h.list = []
  size : 0 < s.port_h.objSize.toNat

omit [DecidableEq θ] [Builtins] in
theorem Created.inv {s : XsegPorts} (h : Created s) (privs : θ → XsegPrivate) :
    Inv peers ⟨s, privs, fun _ => none⟩ := by
  have hobjects : s.port_h.objects = [] := by
    unfold XobjectH.objects
    rw [h.allocated]
    rfl
  refine ⟨⟨⟨h.size, ?_, ?_⟩, ?_, ?_, ?_, ?_, ?_, ?_⟩, nofun, ?_⟩
  · rw [h.allocated]
    exact nofun
  · rw [h.allocated]
    exact .nil
  · rw [h.allocated]
    exact nofun
  · rw [h.list]
    exact .nil
  · rw [h.list]
    exact nofun
  · exact fun n hn => absurd (h.ports n) hn
  · exact fun n hn => absurd (h.ports n) hn
  · exact fun n m hn => absurd (h.ports n) hn
  · exact fun n _ _ => .inl (if_pos (h.ports n))

theorem run_owned {s : XsegPorts} (hs : Created s) {privs : θ → XsegPrivate}
    {es : List (PortEvent θ)} (hrun : Run (Step peers) ⟨s, privs, fun _ => none⟩ es w) :
    Owned peers w :=
  (hrun.invariant (I := Inv peers) (fun h hstep => h.step hstep) (hs.inv privs)).owned

end Steps

end Worlds

def sampleSegment : XsegPorts where
  dynports := 2
  nr_ports := 4
  ports := fun _ => 0
  records := fun _ => ⟨fun _ => none, 0, 0, 0, 0, 0, 0, 0⟩
  port_h := ⟨128, [], 0, 0, [], 0⟩
  shared := .init 255

theorem created_sampleSegment : Created sampleSegment :=
  ⟨fun _ => rfl, rfl, rfl, by decide⟩

def sampleAnswers : BindAnswers :=
  ⟨some (8192, 512), fun _ => some (4072, fun _ => 0), 12288, 16384, 0⟩

def samplePeer : PortPeer := ⟨7, ⟨⟨[97], by decide, by decide⟩⟩⟩

def newPrivate : XsegPrivate := ⟨4096, List.replicate 255 none, List.replicate 255 0⟩

def sampleWorld : PortWorld Unit := ⟨sampleSegment, fun _ => newPrivate, fun _ => none⟩

/-- A thread binds the first dynamic number and leaves it. -/
theorem run_owned_left : ∃ (_ : Builtins) (w : PortWorld Unit),
    Run (Step fun _ => samplePeer) sampleWorld
      [.bindDynport () sampleAnswers (some 8192), .leaveDynport () 8192] w ∧
    Owned (fun _ => samplePeer) w := by
  let _ : Builtins := ⟨0⟩
  have hret : (sampleSegment.bindDynport newPrivate samplePeer.type samplePeer.id
      sampleAnswers).1 = some 8192 := by
    decide +kernel
  have hportno : ((sampleSegment.bindDynport newPrivate samplePeer.type samplePeer.id
      sampleAnswers).2.1.records 8192).portno = 2 := by
    decide +kernel
  have hport : (sampleSegment.bindDynport newPrivate samplePeer.type samplePeer.id
      sampleAnswers).2.1.ports 2 = 8192 := by
    decide +kernel
  generalize hcall : sampleSegment.bindDynport newPrivate samplePeer.type samplePeer.id
    sampleAnswers = r at hret hportno hport
  obtain ⟨ret, segment, priv⟩ := r
  obtain rfl : ret = some 8192 := hret
  have hgood : sampleSegment.port_h.GoodChunk sampleAnswers.mem := by
    intro c hc
    obtain rfl := Option.some.inj hc
    exact ⟨⟨by decide, nofun⟩, by decide⟩
  have hbind : Step (fun _ => samplePeer) sampleWorld
      (.bindDynport () sampleAnswers (some 8192))
      ⟨segment, Function.update sampleWorld.privs () priv,
        Function.update sampleWorld.held 2 (some ())⟩ := by
    refine ⟨hgood, segment, priv, hcall, ?_⟩
    dsimp only
    rw [hportno]
  have hleave : Step (fun _ => samplePeer)
      ⟨segment, Function.update sampleWorld.privs () priv,
        Function.update sampleWorld.held 2 (some ())⟩
      (.leaveDynport () 8192)
      ⟨segment.leaveDynport 8192, Function.update sampleWorld.privs () priv,
        Function.update (Function.update sampleWorld.held 2 (some ())) 2 none⟩ := by
    dsimp only [Step]
    rw [hportno]
    exact ⟨Function.update_self .., hport, rfl⟩
  have hrun := (Run.single hbind).snoc hleave
  exact ⟨⟨0⟩, _, hrun, run_owned created_sampleSegment hrun⟩

end PortWorld

end Libxseg
