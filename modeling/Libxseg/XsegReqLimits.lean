import Libxseg.XsegQueueSize

/-!
# The limit of a port and the capacity of its free queue

`xseg_set_max_requests` and `xseg_set_freequeue_size` change the two sides of one relation:
the free queue has room for no more requests than the port may allocate, and that is no more
than the segment allows. The first call writes the limit once more after its test, whatever
the test said, and the second makes no test.

A call is given the locks that others have while it runs.
-/

namespace Libxseg

set_option autoImplicit false

namespace Xseg
variable {s : Xseg} {p : xport} {port : Port}

/-- For every port `max_alloc_reqs` and the capacity of the free queue. -/
def limits (s : Xseg) (p : xport) : Option (UInt64 × xqindex) :=
  (s.getPort p).map fun port => (port.maxAllocReqs, (port.queue .free).size)

theorem limits_setPort (h : s.getPort p = some port) (port' : Port) :
    (s.setPort p port').limits =
      Function.update s.limits p (some (port'.maxAllocReqs, (port'.queue .free).size)) := by
  funext p'
  by_cases hp : p' = p
  · subst hp
    rw [limits, (changes_setPort h port').port, Function.update_self]
    rfl
  · rw [limits, (changes_setPort h port').others hp, Function.update_of_ne hp]
    rfl

/-- The test of `xseg_set_max_requests` and the assignment after it. -/
theorem limits_setMax (hport : s.getPort p = some port) (nr_reqs : UInt64) :
    let s' := (s.limitReqs p port nr_reqs).2
    (s'.setMaxAllocReqs p (SegM.portAt s' p port) nr_reqs).limits =
      Function.update s.limits p (some (nr_reqs, (port.queue .free).size)) := by
  dsimp only
  rw [limitReqs]
  split
  · have hport' := (changes_setPort hport { port with maxAllocReqs := nr_reqs }).port
    rw [SegM.portAt, hport', setMaxAllocReqs, Option.getD_some, limits_setPort hport',
      limits_setPort hport, Function.update_idem]
  · rw [SegM.portAt, hport, setMaxAllocReqs, Option.getD_some, limits_setPort hport]

/-- Dropping what does not fit ends with a queue that fits; the ports are not touched. -/
theorem dropExcess_fits (s : Xseg) (size : xqindex) (q : Xq) :
    ¬ size < (s.dropExcess size q).1.count ∧ (s.dropExcess size q).2.getPort = s.getPort := by
  fun_induction dropExcess s size q with
  | case1 s q hmany ih =>
    refine ⟨ih.1, ih.2.trans ?_⟩
    split
    · rfl
    · rfl
  | case2 s q hfits => exact ⟨hfits, rfl⟩

/-- The new queue takes the place of the old one, since the requests in it fit. -/
theorem limits_resizeFree [Builtins] {chunk : QueueChunk} {newq : Xq}
    (hport : s.getPort p = some port) (hnew : allocQueue chunk = some newq) :
    (s.resizeFree p port newq).1 = 0 ∧ (s.resizeFree p port newq).2.limits =
      Function.update s.limits p (some (port.maxAllocReqs, newq.size)) := by
  obtain ⟨hfits, hkept⟩ := dropExcess_fits s newq.size (port.queue .free)
  have hsize : newq.size ≠ Noneidx := by
    obtain ⟨c, -, rfl⟩ := Option.map_eq_some_iff.mp hnew
    exact snap_ne_noneidx _
  rw [resizeFree]
  generalize s.dropExcess newq.size (port.queue .free) = dropped at hfits hkept
  obtain ⟨q, s'⟩ := dropped
  dsimp only at hfits hkept ⊢
  have hnone : q.count ≠ Noneidx := by
    intro hcount
    rw [hcount, UInt64.not_lt, UInt64.le_iff_toNat_le] at hfits
    apply hsize
    rw [← UInt64.toNat_inj]
    have hlt := newq.size.toNat_lt
    have hmax : Noneidx.toNat = 2 ^ 64 - 1 := rfl
    omega
  have hport' : s'.getPort p = some port := by
    rw [hkept]
    exact hport
  rw [Xq.resize, if_neg hfits]
  dsimp only
  rw [if_neg hnone]
  refine ⟨rfl, ?_⟩
  rw [limits_setPort hport', Port.queue_setQueue, Xq.foldl_resizeCopy_size]
  have hlimits : s'.limits = s.limits := by
    funext p'
    rw [limits, hkept]
    rfl
  rw [hlimits]
  rfl

end Xseg

section Critical
variable {ι σ α : Type} [DecidableEq ι] {l : ι} {d : σ} {held : Finset ι}

theorem LockM.run_critical_busy (hl : l ∈ held) (f : σ → α × σ) :
    (LockM.critical l f : LockM ι σ α) ⟨d, held⟩ = none :=
  LockM.run_bind_none (if_pos hl) _

theorem LockM.run_critical_free (hl : l ∉ held) (f : σ → α × σ) :
    (LockM.critical l f : LockM ι σ α) ⟨d, held⟩ = some ((f d).1, ⟨(f d).2, held⟩) := by
  unfold LockM.critical
  rw [LockM.run_bind (if_neg hl), LockM.run_bind rfl, LockM.run_bind rfl]
  exact congrArg some (Prod.ext rfl (congrArg (Locked.mk _) (Finset.erase_insert hl)))

end Critical

inductive LimitEvent where
  | setMaxRequests (portno : xport) (nr_reqs : UInt64) (held : Finset SegmentLock) (ret : Int)
  | setFreequeueSize (portno : xport) (flags : UInt32) (chunk : QueueChunk)
      (held : Finset SegmentLock) (ret : Int)

def LimitEvent.ret : LimitEvent → Int
  | .setMaxRequests _ _ _ ret => ret
  | .setFreequeueSize _ _ _ _ ret => ret

/-- The capacity of every port is within its limit, and the limit within that of the segment. -/
def Limited (limits : xport → Option (UInt64 × xqindex)) : Prop :=
  ∀ p max size, limits p = some (max, size) → size ≤ max ∧ max ≤ XSEG_MAX_ALLOCATED_REQS

theorem Limited.update_iff {limits : xport → Option (UInt64 × xqindex)} (h : Limited limits)
    (p : xport) (max : UInt64) (size : xqindex) :
    Limited (Function.update limits p (some (max, size))) ↔
      size ≤ max ∧ max ≤ XSEG_MAX_ALLOCATED_REQS := by
  constructor
  · exact fun hupdate => hupdate p max size (Function.update_self ..)
  · intro hnew p' max' size' hp'
    by_cases hp : p' = p
    · subst hp
      rw [Function.update_self] at hp'
      obtain ⟨rfl, rfl⟩ := Prod.mk.inj (Option.some.inj hp')
      exact hnew
    · rw [Function.update_of_ne hp] at hp'
      exact h p' max' size' hp'

namespace SegmentData
variable [Builtins] {d d' d₀ : SegmentData} {e : LimitEvent} {portno : xport}
  {held : Finset SegmentLock} {ret : Int}

def Step (d : SegmentData) (e : LimitEvent) (d' : SegmentData) : Prop :=
  match e with
  | .setMaxRequests portno nr_reqs held ret =>
    SegM.setMaxRequests portno nr_reqs ⟨d, held⟩ = some (ret, ⟨d', held⟩)
  | .setFreequeueSize portno flags chunk held ret =>
    SegM.setFreequeueSize portno flags chunk ⟨d, held⟩ = some (ret, ⟨d', held⟩)

/-- A call that fails changes no limit and no capacity, and all are in their bounds after it. -/
def Respects (d : SegmentData) (e : LimitEvent) (d' : SegmentData) : Prop :=
  (e.ret = -1 → d'.reqs.limits = d.reqs.limits) ∧ Limited d'.reqs.limits

/-- A limit that is not refused for its size alone is no less than the capacity of the queue, and
a queue that is going to be the free queue of a port has no more room than its limit. -/
def Meets (d : SegmentData) : LimitEvent → Prop
  | .setMaxRequests portno nr_reqs _ _ => nr_reqs ≤ XSEG_MAX_ALLOCATED_REQS →
    ∀ max size, d.reqs.limits portno = some (max, size) → size ≤ nr_reqs
  | .setFreequeueSize portno _ chunk held _ => SegmentLock.queue .free portno ∉ held →
    ∀ max size newq, d.reqs.limits portno = some (max, size) → allocQueue chunk = some newq →
      newq.size ≤ max

/-- Either nothing happens, or the limit is written, whatever the result says. -/
theorem setMaxRequests_cases {nr_reqs : UInt64}
    (hstep : d.Step (.setMaxRequests portno nr_reqs held ret) d') :
    (ret = -1 ∧ d'.reqs.limits = d.reqs.limits ∧
      (XSEG_MAX_ALLOCATED_REQS < nr_reqs ∨ d.reqs.limits portno = none)) ∨
    ∃ max size, nr_reqs ≤ XSEG_MAX_ALLOCATED_REQS ∧ d.reqs.limits portno = some (max, size) ∧
      ret = (if size ≤ nr_reqs then 0 else -1) ∧
      d'.reqs.limits = Function.update d.reqs.limits portno (some (nr_reqs, size)) := by
  rw [Step, SegM.setMaxRequests] at hstep
  by_cases hlarge : XSEG_MAX_ALLOCATED_REQS < nr_reqs
  · rw [if_pos hlarge] at hstep
    obtain ⟨rfl, hd⟩ := Prod.mk.inj (Option.some.inj hstep)
    obtain rfl := (Locked.mk.inj hd).1
    exact .inl ⟨rfl, rfl, .inl hlarge⟩
  rw [if_neg hlarge, LockM.run_bind rfl] at hstep
  rcases hport : d.reqs.getPort portno with _ | port
  · rw [hport] at hstep
    obtain ⟨rfl, hd⟩ := Prod.mk.inj (Option.some.inj hstep)
    obtain rfl := (Locked.mk.inj hd).1
    refine .inl ⟨rfl, rfl, .inr ?_⟩
    rw [Xseg.limits, hport]
    rfl
  · rw [hport] at hstep
    dsimp only at hstep
    by_cases hheld : SegmentLock.queue .free portno ∈ held
    · rw [LockM.run_bind_none (LockM.run_critical_busy hheld _)] at hstep
      exact absurd hstep.symm (Option.some_ne_none _)
    · rw [LockM.run_bind (LockM.run_critical_free hheld _), LockM.run_bind rfl] at hstep
      obtain ⟨hret, hd⟩ := Prod.mk.inj (Option.some.inj hstep)
      obtain rfl := (Locked.mk.inj hd).1
      refine .inr ⟨_, _, UInt64.not_lt.mp hlarge, by rw [Xseg.limits, hport]; rfl, ?_,
        Xseg.limits_setMax hport nr_reqs⟩
      rw [← hret, SegM.onReqs, Xseg.limitReqs]
      split
      · rfl
      · rfl

theorem setFreequeueSize_cases {flags : UInt32} {chunk : QueueChunk}
    (hstep : d.Step (.setFreequeueSize portno flags chunk held ret) d') :
    (ret = -1 ∧ d'.reqs.limits = d.reqs.limits ∧ (d.reqs.limits portno = none ∨
      allocQueue chunk = none ∨ SegmentLock.queue .free portno ∈ held)) ∨
    ∃ max size newq, d.reqs.limits portno = some (max, size) ∧ allocQueue chunk = some newq ∧
      SegmentLock.queue .free portno ∉ held ∧ ret = 0 ∧
      d'.reqs.limits = Function.update d.reqs.limits portno (some (max, newq.size)) := by
  rw [Step, SegM.setFreequeueSize, LockM.run_bind rfl] at hstep
  rcases hport : d.reqs.getPort portno with _ | port
  · rw [hport] at hstep
    obtain ⟨rfl, hd⟩ := Prod.mk.inj (Option.some.inj hstep)
    obtain rfl := (Locked.mk.inj hd).1
    refine .inl ⟨rfl, rfl, .inl ?_⟩
    rw [Xseg.limits, hport]
    rfl
  rw [hport] at hstep
  dsimp only at hstep
  rcases hnew : allocQueue chunk with _ | newq
  · rw [hnew] at hstep
    obtain ⟨rfl, hd⟩ := Prod.mk.inj (Option.some.inj hstep)
    obtain rfl := (Locked.mk.inj hd).1
    exact .inl ⟨rfl, rfl, .inr (.inl rfl)⟩
  rw [hnew] at hstep
  dsimp only at hstep
  by_cases hheld : SegmentLock.queue .free portno ∈ held
  · by_cases hflag : flags &&& X_NONBLOCK ≠ 0
    · have htake := (HeapedM.run_takeQueue_busy d hheld).trans (if_pos hflag)
      rw [LockM.run_bind htake] at hstep
      obtain ⟨rfl, hd⟩ := Prod.mk.inj (Option.some.inj hstep)
      obtain rfl := (Locked.mk.inj hd).1
      exact .inl ⟨rfl, rfl, .inr (.inr hheld)⟩
    · have htake := (HeapedM.run_takeQueue_busy d hheld).trans (if_neg hflag)
      rw [LockM.run_bind_none htake] at hstep
      exact absurd hstep.symm (Option.some_ne_none _)
  · rw [LockM.run_bind (HeapedM.run_takeQueue_free hheld), if_pos rfl, LockM.run_bind rfl,
      LockM.run_bind rfl] at hstep
    obtain ⟨hret, hd⟩ := Prod.mk.inj (Option.some.inj hstep)
    obtain rfl := (Locked.mk.inj hd).1
    obtain ⟨hzero, hlimits⟩ := Xseg.limits_resizeFree hport hnew
    exact .inr ⟨_, _, newq, by rw [Xseg.limits, hport]; rfl, rfl, hheld, hret.symm.trans hzero,
      hlimits⟩

theorem respects_iff (h : Limited d.reqs.limits) (hstep : d.Step e d') :
    d.Respects e d' ↔ d.Meets e := by
  cases e with
  | setMaxRequests portno nr_reqs held ret =>
    rcases setMaxRequests_cases hstep with ⟨rfl, hsame, hwhy⟩ | ⟨max, size, hnr, hat, rfl, hnew⟩
    · refine iff_of_true ⟨fun _ => hsame, hsame ▸ h⟩ ?_
      intro hle max size hat
      rcases hwhy with hlarge | hnone
      · exact absurd hlarge (UInt64.not_lt.mpr hle)
      · exact absurd (hat.symm.trans hnone) (Option.some_ne_none _)
    · rw [Respects, hnew, h.update_iff]
      constructor
      · rintro ⟨-, hle, -⟩ - max' size' hat'
        obtain ⟨-, rfl⟩ := Prod.mk.inj (Option.some.inj (hat.symm.trans hat'))
        exact hle
      · intro hmeets
        have hle := hmeets hnr max size hat
        refine ⟨?_, hle, hnr⟩
        intro hret
        rw [LimitEvent.ret, if_pos hle] at hret
        exact absurd hret (by decide)
  | setFreequeueSize portno flags chunk held ret =>
    rcases setFreequeueSize_cases hstep with
      ⟨rfl, hsame, hwhy⟩ | ⟨max, size, newq, hat, halloc, hheld, rfl, hnew⟩
    · refine iff_of_true ⟨fun _ => hsame, hsame ▸ h⟩ ?_
      intro hfree max size newq hat halloc
      rcases hwhy with hnone | hnone | hbusy
      · exact absurd (hat.symm.trans hnone) (Option.some_ne_none _)
      · exact absurd (halloc.symm.trans hnone) (Option.some_ne_none _)
      · exact absurd hbusy hfree
    · rw [Respects, hnew, h.update_iff]
      constructor
      · rintro ⟨-, hle, -⟩ - max' size' newq' hat' halloc'
        obtain ⟨rfl, -⟩ := Prod.mk.inj (Option.some.inj (hat.symm.trans hat'))
        obtain rfl := Option.some.inj (halloc.symm.trans halloc')
        exact hle
      · intro hmeets
        refine ⟨?_, hmeets hheld max size newq hat halloc, (h portno max size hat).2⟩
        intro hret
        have hzero : (0 : Int) = -1 := hret
        exact absurd hzero (by decide)

/-- After calls that meet the condition the limits are kept, and a further call keeps them exactly
if it meets the condition as well. -/
theorem run_limited {es : List LimitEvent} (h : Limited d₀.reqs.limits)
    (hrun : Run (Guarded Step Meets) d₀ es d) :
    Limited d.reqs.limits ∧ ∀ e d', d.Step e d' → (d.Respects e d' ↔ d.Meets e) := by
  have hkept : Limited d.reqs.limits :=
    hrun.invariant (I := fun d => Limited d.reqs.limits)
      (fun h hstep => ((respects_iff h hstep.2).mpr hstep.1).2) h
  exact ⟨hkept, fun e d' hstep => respects_iff hkept hstep⟩

theorem setMaxRequests_step {nr_reqs : UInt64} {port : Port}
    (hport : d.reqs.getPort portno = some port) (hle : ¬ XSEG_MAX_ALLOCATED_REQS < nr_reqs)
    (hheld : SegmentLock.queue .free portno ∉ held)
    (hret : (d.reqs.limitReqs portno port nr_reqs).1 = ret) :
    ∃ d', d.Step (.setMaxRequests portno nr_reqs held ret) d' := by
  rw [← hret]
  unfold Step SegM.setMaxRequests
  dsimp only
  rw [if_neg hle, LockM.run_bind rfl, hport]
  dsimp only
  rw [LockM.run_bind (LockM.run_critical_free hheld _), LockM.run_bind rfl]
  exact ⟨_, rfl⟩

theorem newSegment_limited : Limited newSegment.reqs.limits := by
  intro p max size hp
  obtain ⟨port, hport, hpair⟩ := Option.map_eq_some_iff.mp hp
  obtain rfl := Option.some.inj (hport.symm.trans (madeSeg_getPort (Xseg.getPort_lt hport)))
  obtain ⟨rfl, rfl⟩ := Prod.mk.inj hpair
  rw [(madePort_holding .free).size]
  exact ⟨(by decide : (256 : UInt64) ≤ 1024), (by decide : (1024 : UInt64) ≤ 10000)⟩

theorem newSegment_step (nr_reqs : UInt64) (hle : ¬ XSEG_MAX_ALLOCATED_REQS < nr_reqs) :
    ∃ d', newSegment.Step
      (.setMaxRequests 0 nr_reqs ∅ (if 256 ≤ nr_reqs then 0 else -1)) d' := by
  have hport : newSegment.reqs.getPort 0 = some madePort := madeSeg_getPort (by decide)
  apply setMaxRequests_step hport hle (Finset.notMem_empty _)
  rw [Xseg.limitReqs, (madePort_holding .free).size]
  split
  · rfl
  · rfl

theorem newSegment_meets {nr_reqs : UInt64} {held : Finset SegmentLock} {ret : Int} :
    newSegment.Meets (.setMaxRequests 0 nr_reqs held ret) ↔
      (nr_reqs ≤ XSEG_MAX_ALLOCATED_REQS → 256 ≤ nr_reqs) := by
  have hlimits : newSegment.reqs.limits 0 = some (1024, 256) := by
    have hport : newSegment.reqs.getPort 0 = some madePort := madeSeg_getPort (by decide)
    rw [Xseg.limits, hport, Option.map_some, (madePort_holding .free).size]
    rfl
  constructor
  · exact fun hmeets hle => hmeets hle 1024 256 hlimits
  · intro hmeets hle max size hat
    obtain ⟨-, rfl⟩ := Prod.mk.inj (Option.some.inj (hlimits.symm.trans hat))
    exact hmeets hle

omit [Builtins] in
/-- The limit of the new port is made smaller. -/
theorem run_limited_lower : ∃ (_ : Builtins) (d : SegmentData),
    Run (Guarded Step Meets) newSegment [.setMaxRequests 0 512 ∅ 0] d ∧
      Limited d.reqs.limits ∧ ∀ e d', d.Step e d' → (d.Respects e d' ↔ d.Meets e) := by
  let _ : Builtins := ⟨0⟩
  obtain ⟨d, hstep⟩ := newSegment_step 512 (by decide)
  have hrun : Run (Guarded Step Meets) newSegment [.setMaxRequests 0 512 ∅ 0] d :=
    .single ⟨newSegment_meets.mpr fun _ => by decide, hstep⟩
  exact ⟨⟨0⟩, d, hrun, run_limited newSegment_limited hrun⟩

omit [Builtins] in
/-- A limit below the capacity of the queue is refused, and written all the same. -/
theorem not_run_limited : ¬ ∀ (_ : Builtins) (d₀ d : SegmentData) (es : List LimitEvent),
    Limited d₀.reqs.limits → Run Step d₀ es d →
      Limited d.reqs.limits ∧ ∀ e d', d.Step e d' → d.Respects e d' := by
  intro hall
  let _ : Builtins := ⟨0⟩
  obtain ⟨d, hstep⟩ := newSegment_step 2 (by decide)
  have hrespects := (hall ⟨0⟩ newSegment newSegment [] newSegment_limited (.refl _)).2 _ d hstep
  have hmeets := newSegment_meets.mp ((respects_iff newSegment_limited hstep).mp hrespects)
  exact absurd (hmeets (by decide)) (by decide)

end SegmentData

end Libxseg
