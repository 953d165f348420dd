import Libxseg.XsegSources

/-!
# Requests that xseg-tool finds dangling

The tool looks for a request in the queues of all ports and in the list of free objects. It finds
it in neither exactly if a peer has it: in hand, or on its way through `xseg_put_request`.
-/

namespace Libxseg

set_option autoImplicit false

open Xseg

def XobjectH.isFree (h : XobjectH) (ptr : xptr) : Bool := h.list.any fun node => node = ptr

namespace Xseg

/-- The three checks of `isDangling` at one port. -/
def Port.isQueued (port : Port) (xreq : xptr) : Bool :=
  (port.queue .free).check xreq ≠ 0 || (port.queue .request).check xreq ≠ 0 ||
    (port.queue .reply).check xreq ≠ 0

def isDangling (s : Xseg) (xreq : xptr) : Bool :=
  (List.range s.nrPorts.toNat).all fun i =>
    match s.getPort (UInt32.ofNat i) with
    | none => true
    | some port => !Port.isQueued port xreq

def isStray (s : Xseg) (xreq : xptr) : Bool := s.isDangling xreq && !s.requestH.isFree xreq

variable {s : Xseg} {x : xptr}

theorem isQueued_iff {p : xport} {port : Port} (hs : s.Wf) (hport : s.getPort p = some port) :
    Port.isQueued port x = true ↔ ∃ kind, x ∈ s.bag p kind := by
  have hcheck (kind : QueueKind) : (port.queue kind).check x ≠ 0 ↔ x ∈ s.bag p kind := by
    rw [(hs.queues hport kind).check, bag_eq hport, Multiset.mem_coe]
    split <;> simp_all
  simp only [Port.isQueued, Bool.or_eq_true, decide_eq_true_iff, hcheck]
  constructor
  · rintro ((h | h) | h)
    · exact ⟨_, h⟩
    · exact ⟨_, h⟩
    · exact ⟨_, h⟩
  · rintro ⟨kind, h⟩
    cases kind with
    | free => exact .inl (.inl h)
    | request => exact .inl (.inr h)
    | reply => exact .inr h

theorem isDangling_iff (hs : s.Wf) :
    s.isDangling x = true ↔ ∀ p kind, x ∉ s.bag p kind := by
  rw [isDangling, List.all_eq_true]
  constructor
  · intro h p kind hx
    cases hport : s.getPort p with
    | none =>
      rw [bag, hport] at hx
      exact Multiset.notMem_zero x hx
    | some port =>
      have hlt := UInt32.lt_iff_toNat_lt.mp (getPort_lt hport)
      have hp := h p.toNat (List.mem_range.mpr hlt)
      rw [UInt32.ofNat_toNat, hport] at hp
      have hqueued := (isQueued_iff hs hport).mpr ⟨kind, hx⟩
      simp [hqueued] at hp
  · intro h i _
    cases hport : s.getPort (UInt32.ofNat i) with
    | none => rfl
    | some port =>
      have hnot : Port.isQueued port x ≠ true := by
        intro hqueued
        obtain ⟨kind, hx⟩ := (isQueued_iff hs hport).mp hqueued
        exact h _ kind hx
      simp [hnot]

theorem isFree_iff {h : XobjectH} : h.isFree x = true ↔ x ∈ h.list := by
  simp [XobjectH.isFree]

theorem isStray_iff (hs : s.Wf) :
    s.isStray x = true ↔ (∀ p kind, x ∉ s.bag p kind) ∧ x ∉ s.requestH.list := by
  rw [isStray, Bool.and_eq_true, isDangling_iff hs, Bool.not_eq_true', Bool.eq_false_iff, Ne,
    isFree_iff]

end Xseg

variable {ι : Type} {w w' : World ι} {a : Flow ι} {x : xptr} {i : ι}

theorem Keeping.stray_iff (h : Keeping w a) (hx : x ∈ w.seg.requestH.objects) :
    w.seg.isStray x = true ↔ ∃ i, x ∈ (w.peers i).hands ∨ x ∈ (w.peers i).pc.held := by
  have hplace : a.place x ≠ none := (h.refines.objects.mp hx).resolve_right (h.none_lost x)
  obtain ⟨pl, hpl⟩ := Option.ne_none_iff_exists'.mp hplace
  have hmem (q : Place ι) : x ∈ contents w q ↔ q = pl := by
    rw [h.refines.mem_iff, hpl, Option.some_inj]
    exact eq_comm
  have hqueue (p : xport) (kind : QueueKind) : x ∈ w.seg.bag p kind ↔ .queue p kind = pl :=
    hmem (.queue p kind)
  have hlist : x ∈ w.seg.requestH.list ↔ .list = pl := hmem .list
  have hhand (i : ι) : x ∈ (w.peers i).hands ↔ .hand i = pl := hmem (.hand i)
  have hbusy (i : ι) : x ∈ (w.peers i).pc.held ↔ .busy i = pl := hmem (.busy i)
  rw [isStray_iff h.refines.wf]
  simp only [hqueue, hlist, hhand, hbusy]
  cases pl with
  | list => simp
  | queue p kind => simp
  | hand i => simp
  | busy i => simp

section Runs
variable [DecidableEq ι] [Builtins]

/-- In every run, the tool finds a request neither queued nor free exactly if a peer has it. -/
theorem run_stray_iff {as : List (ι × Event)} (hs : Start w)
    (h : Run (Guarded World.Step fun w b => w.seg.Sized ∧ b.2.Mapped w.seg) w as w') :
    ∀ x ∈ w'.seg.requestH.objects, w'.seg.isStray x = true ↔
      ∃ i, x ∈ (w'.peers i).hands ∨ x ∈ (w'.peers i).pc.held := by
  obtain ⟨⟨a, ha⟩, -⟩ := run_sourced hs h
  exact fun x hx => ha.stray_iff hx

end Runs

/-- The request that port 0 has got is stray. -/
theorem run_stray_iff_got : ∃ _ : Builtins, ∃ s : Xseg,
    Run (Guarded World.Step fun w b => w.seg.Sized ∧ b.2.Mapped w.seg)
      (solo (madeSeg 4 1024) [] .idle) [((), .miss 0 1 0), ((), .got 0 1 0 4096)]
      (solo s [4096] .idle) ∧ s.isStray 4096 = true := by
  let _ : Builtins := ⟨0⟩
  obtain ⟨s, hrun⟩ := run_got
  have hstart : Start (solo (madeSeg 4 1024) [] .idle) := madeSeg_start (by decide)
  obtain ⟨⟨a, ha⟩, -⟩ := run_sourced hstart hrun
  have hmem : (4096 : xptr) ∈ contents (solo s [4096] .idle) (.hand ()) :=
    Multiset.mem_coe.mpr List.mem_cons_self
  have hobject : (4096 : xptr) ∈ (solo s [4096] .idle).seg.requestH.objects :=
    ha.refines.objects.mpr (.inl (by simp [ha.refines.mem_iff.mp hmem]))
  exact ⟨⟨0⟩, s, hrun,
    (run_stray_iff hstart hrun 4096 hobject).mpr ⟨(), .inl List.mem_cons_self⟩⟩

end Libxseg
