import Libxseg.XsegAccountsCalls
import Libxseg.XsegAccountsKept
import Libxseg.XsegBulk

/-!
# Runs in which the accounts are right

The books of a ledger balance after every section if `xseg_alloc_requests` keeps no request and
`xseg_set_freequeue_size` drops none: the first one draws requests without increasing
`alloc_reqs`, the second one puts them back without decreasing it.
-/

namespace Libxseg

set_option autoImplicit false

open Xseg

variable {ι : Type}

theorem repr_allocQueue [Builtins] {chunk : QueueChunk} {newq : Xq} (h : allocQueue chunk = some newq) :
    newq.Repr [] := by
  obtain ⟨c, -, rfl⟩ := Option.map_eq_some_iff.mp h
  exact Xq.repr_initEmpty _ _

theorem few_of_even [Builtins] {s : Xseg} {portno : xport} {port : Port} {nr : UInt32}
    {mems : Nat → Option (xptr × UInt64)} (hport : s.getPort portno = some port)
    (h : (AccountCall.allocRequests portno nr mems).Even s) :
    (s.requestH.getObj X_ALLOC (mems 0)).1 = none ∨
      nr.toNat ≠ 0 ∧ (port.queue .free).count = (port.queue .free).size := by
  rcases h with hnone | ⟨hnr, hfull⟩
  · exact .inl hnone
  · exact .inr ⟨fun hzero => hnr (UInt32.toNat_inj.mp hzero), hfull port hport⟩

namespace Ledger

variable {l l' m : Ledger ι} {a a' : Flow ι} {i : ι} {p portno : xport} {w : World ι} {s : Xseg}
  {xs : Finset xptr} {as bs : List (ι × AccountCall)} {b : ι × AccountCall}

theorem Kept.call (h : Kept l a) (i : ι) {s : Xseg} (hr' : Refines { l.world with seg := s } a')
    (hrest : ∀ {x pl}, a'.place x = some pl → pl ≠ .list → a.place x = some pl)
    (hsources : ∀ x, (s.requests x).srcPortno = (l.world.seg.requests x).srcPortno)
    (hports : ∀ {p}, (s.getPort p).isSome → (l.world.seg.getPort p).isSome)
    (hdrawn : s.drawn ⊆ l.world.seg.drawn) (freeing : ι → Option (xport × Nat)) :
    Kept (l.put s portno freeing) a' := by
  have haccount : l.charge s portno = l.account := charge_eq hdrawn portno
  refine h.frame (i := i) (fun _ => False) hr' (fun hpl hlist _ => hrest hpl hlist)
    (fun _ _ => ⟨hsources _, congrFun haccount _⟩) (fun hm => absurd hm id) hports (fun _ _ => rfl)
    (fun _ hm => absurd hm id) ?_ ?_
  · intro x src hpc
    exact (congrFun haccount x).trans (h.putting hpc)
  · intro x hpc hsome
    have hsource := hsources x
    dsimp only [put] at hsome ⊢
    rw [hsource] at hsome ⊢
    rw [haccount]
    exact h.aborting hpc (hports hsome)

theorem drawn_of_relisted {s : Xseg} {xs : Finset xptr} (h : Refines w a)
    (hs : Relisted w a portno xs s a') : s.drawn = w.seg.drawn \ xs := by
  ext x
  refine hs.refines.mem_drawn.trans ?_
  rw [hs.out, Finset.mem_sdiff, h.mem_drawn]

theorem Kept.relisted (h : Kept l a) (i : ι) {s : Xseg} {xs : Finset xptr}
    (hs : Relisted l.world a portno xs s a') (freeing : ι → Option (xport × Nat)) :
    Kept (l.put s portno freeing) a' := by
  refine h.call i hs.refines hs.rest hs.steady.sources (isSome_of_allocs_eq hs.steady.allocs) ?_ _
  rw [drawn_of_relisted h.refines hs]
  exact Finset.sdiff_subset

section Entries
variable [DecidableEq ι]

theorem due_put (s : Xseg) (owed : Option (xport × Nat)) :
    (l.put s portno (Function.update l.freeing i owed)).due =
      Function.update l.due i fun p => (l.world.peers i).pc.due p + freeingDue owed p := by
  funext j p
  have hput : (l.put s portno (Function.update l.freeing i owed)).due j p =
      (l.world.peers j).pc.due p + freeingDue (Function.update l.freeing i owed j) p := rfl
  rw [hput]
  rcases eq_or_ne j i with rfl | hj
  · rw [Function.update_self, Function.update_self]
  · rw [Function.update_of_ne hj, Function.update_of_ne hj, due]

theorem entry_relisted (h : Kept l a) {s : Xseg} (hs : Relisted l.world a portno ∅ s a') :
    Books.Entry l.books (l.put s portno l.freeing).books := by
  have hdrawn := drawn_of_relisted h.refines hs
  rw [Finset.sdiff_empty] at hdrawn
  exact .same (fun x _ => congrFun (charge_eq hdrawn.subset portno) x) hdrawn
    (count_same hs.steady.allocs) rfl

/-- The first section of `xseg_free_requests`: the subtraction is due. -/
theorem entry_drained (h : Kept l a) (hidle : l.Idle i) {s : Xseg} {xs : Finset xptr}
    (hs : Relisted l.world a portno xs s a') :
    Books.Entry l.books (l.put s portno (Function.update l.freeing i
      (if xs.card = 0 then none else some (portno, xs.card)))).books := by
  have hdrawn := drawn_of_relisted h.refines hs
  have hsub : s.drawn ⊆ l.world.seg.drawn := by
    rw [hdrawn]
    exact Finset.sdiff_subset
  refine .giveBack i portno xs (fun x _ => congrFun (charge_eq hsub portno) x) ?_ hdrawn
    (count_same hs.steady.allocs) ?_
  · intro x hx
    have hpl := hs.queued x hx
    exact Books.mem_out.mpr ⟨h.refines.mem_drawn.mpr (.of_place hpl (by simp)), h.agrees hpl⟩
  · have hzero : l.due i = fun _ => 0 := by
      rw [due_own hidle.2, hidle.1]
      rfl
    have hdue : l.books.due = l.due := rfl
    refine (due_put _ _).trans ?_
    rw [hidle.1, hdue, hzero]
    congr 1
    funext p
    rw [Function.update_apply]
    by_cases hempty : xs.card = 0
    · simp [hempty, Pc.due, freeingDue]
    · simp [hempty, Pc.due, freeingDue, eq_comm]

/-- The last section of `xseg_free_requests`: the subtraction is made. -/
theorem entry_freed [Fintype ι] (hbal : l.books.Balanced) {n : Nat} {port : Port}
    (hfreeing : l.freeing i = some (portno, n)) (hport : l.world.seg.getPort portno = some port) :
    Books.Entry l.books (l.put (l.world.seg.settleFreed portno port n) portno
      (Function.update l.freeing i none)).books := by
  have hdue (p : xport) :
      l.books.due i p = (l.world.peers i).pc.due p + if portno = p then n else 0 := by
    have hp : l.books.due i p = (l.world.peers i).pc.due p + freeingDue (l.freeing i) p := rfl
    rw [hp, hfreeing]
    rfl
  have hown : n ≤ l.books.due i portno := by
    rw [hdue, if_pos rfl]
    omega
  have hcount := (hbal.due_le_count i portno).trans' hown
  refine .settle i portno n (fun x _ => congrFun (charge_eq (Finset.Subset.refl _) portno) x) hown rfl
    ?_ ?_
  · have hpred : (port.allocReqs - UInt64.ofNat n).toNat = l.books.count portno - n := by
      rw [count_eq hport] at hcount ⊢
      have hlt := port.allocReqs.toNat_lt
      have hn : (UInt64.ofNat n).toNat = n := UInt64.toNat_ofNat_of_lt' (hcount.trans_lt hlt)
      rw [UInt64.toNat_sub_of_le _ _ (UInt64.le_iff_toNat_le.mpr (hn.trans_le hcount)), hn]
    rw [← hpred]
    exact count_update (allocs_setPort hport _)
  · refine (due_put _ _).trans ?_
    have hbooks : l.due = l.books.due := rfl
    rw [hbooks]
    congr 1
    funext p
    rw [Function.update_apply, hdue, hdue]
    by_cases hp : p = portno
    · simp [hp, freeingDue]
    · simp [hp, Ne.symm hp, freeingDue]

end Entries

theorem Opening.kept [Builtins] (h : Opening l) : Kept l (Flow.start l.world) where
  refines := h.start.refines
  agrees := by
    intro x pl hx
    simp only [Flow.start] at hx
    split at hx
    · obtain rfl := Option.some.inj hx
      exact trivial
    · cases hx
  putting := by
    intro i x src hpc
    rw [h.start.peers i] at hpc
    cases hpc
  aborting := by
    intro i x hpc
    rw [h.start.peers i] at hpc
    cases hpc

theorem Opening.balanced [Fintype ι] [Builtins] (h : Opening l) : l.books.Balanced := by
  intro p
  have hdrawn : l.books.drawn = ∅ := by
    have hall := List.toFinset_eq_of_perm _ _ h.start.list
    exact Finset.sdiff_eq_empty_iff_subset.mpr hall.ge
  have hout : l.books.out p = ∅ := by
    rw [Books.out, hdrawn, Finset.filter_empty]
  have hpending : l.books.pending p = 0 := by
    refine Finset.sum_eq_zero fun i _ => ?_
    have hdue : l.books.due i = l.due i := rfl
    rw [hdue, due_own (h.freeing i), h.start.peers i]
    rfl
  have hcount : l.books.count p = 0 := by
    have hp : l.books.count p = ((l.world.seg.allocs p).map UInt64.toNat).getD 0 := rfl
    rw [hp, Xseg.allocs]
    cases hport : l.world.seg.getPort p with
    | none => rfl
    | some port =>
      rw [Option.map_some, h.allocs hport]
      rfl
  rw [hout, hpending, hcount]
  rfl

theorem Kept.accounted [Fintype ι] (h : Kept l a) (hbal : l.books.Balanced) : l.Accounted where
  count := by
    intro p port hport
    rw [← count_eq hport]
    exact hbal p
  enough := by
    intro p port hport i
    rw [← count_eq hport]
    exact hbal.due_le_count i p
  queued := by
    intro p x hx
    have hpl := (h.refines.mem_iff (p := .queue p .free)).mp hx
    exact mem_drawnFor.mpr ⟨h.refines.mem_drawn.mpr (.of_place hpl (by simp)), h.agrees hpl⟩
  live := by
    intro pl x hx hlive
    have hpl := h.refines.mem_iff.mp hx
    have hlist : pl ≠ .list := fun heq => by simp [heq, Place.Live] at hlive
    exact mem_drawnFor.mpr ⟨h.refines.mem_drawn.mpr (.of_place hpl hlist),
      (hlive.agrees_iff.mp (h.agrees hpl)).symm⟩

theorem Accounted.returns [Fintype ι] (h : l.Accounted) (h' : l'.Accounted) : l.Returns l' := by
  intro p port port' hport hport' hdue hdue' hsame
  have hcount := h.count hport
  have hcount' := h'.count hport'
  rw [Finset.sum_eq_zero fun i _ => hdue i] at hcount
  rw [Finset.sum_eq_zero fun i _ => hdue' i, hsame] at hcount'
  exact UInt64.toNat_inj.mp (hcount'.trans hcount.symm)

theorem Kept.located (h : Kept l a) (hc : Conserved l.world) : l.Located := by
  intro p x hx
  obtain ⟨hdrawn, haccount⟩ := mem_drawnFor.mp hx
  rw [drawn, Finset.mem_sdiff, List.mem_toFinset, List.mem_toFinset] at hdrawn
  obtain ⟨pl, hpl, -⟩ := hc.one x hdrawn.1
  have hagrees := h.agrees (h.refines.mem_iff.mp hpl)
  rw [haccount] at hagrees
  cases pl with
  | list => exact absurd (Multiset.mem_coe.mp hpl) hdrawn.2
  | queue q kind =>
    cases kind with
    | free =>
      obtain rfl : p = q := hagrees
      exact .inl hpl
    | request => exact .inr (.inl ⟨.queue q .request, trivial, hpl, hagrees⟩)
    | reply => exact .inr (.inl ⟨.queue q .reply, trivial, hpl, hagrees⟩)
  | hand i => exact .inr (.inl ⟨.hand i, trivial, hpl, hagrees⟩)
  | busy i => exact .inr (.inr ⟨i, hpl⟩)

/-- No queue is too large for `__snap`, and the call leaves the accounts even. -/
def Careful [Builtins] (l : Ledger ι) (b : ι × AccountCall) : Prop :=
  l.world.seg.Sized ∧ b.2.Even l.world.seg

section Runs
variable [DecidableEq ι] [Builtins]

theorem keeping_step (h : Keeping l.world a) (hok : l.Careful b) (hloss : b.2.Lossless l.world.seg)
    (hstep : l.Step b l') : ∃ a', Keeping l'.world a' := by
  obtain ⟨hsized, heven⟩ := hok
  cases hstep with
  | base hfree hstep => exact h.step hsized hloss hstep
  | @allocRequests i portno nr mems port n s hidle hport hchunks hfill =>
    obtain ⟨a', hs, hlost⟩ :=
      fillFree_relists i h.refines hport (hchunks.1 0) (few_of_even hport heven) hfill
    exact ⟨a', h.relisted hs hlost⟩
  | @freeRequests i portno nr port n s hidle hport hdrain =>
    obtain ⟨xs, a', -, hs, hlost⟩ := drainFree_relists i nr.toNat h.refines hport hdrain
    exact ⟨a', h.relisted hs (hlost (hloss port hport))⟩
  | @freed i portno n port hfreeing hport =>
    have hquiet := settleFreed_quiet h.refines.wf hport n
    have hrefines : Refines { l.world with seg := l.world.seg.settleFreed portno port n } a :=
      act_self l.world i _ ▸ h.refines.still hquiet rfl rfl
    exact ⟨a, hrefines, h.home, h.none_lost, h.none_refused⟩
  | @setFreequeueSize i portno chunk port newq ret s hidle hport hnew hresize =>
    have hs := resizeFree_relists i h.refines hport (repr_allocQueue hnew)
      (heven port newq hport hnew) hresize
    exact ⟨a, h.relisted hs rfl⟩

variable [Fintype ι]

theorem Kept.step (h : Kept l a) (hbal : l.books.Balanced) (hok : l.Careful b)
    (hstep : l.Step b l') : ∃ a', Kept l' a' ∧ l'.books.Balanced := by
  obtain ⟨hsized, heven⟩ := hok
  cases hstep with
  | base hfree hstep =>
    obtain ⟨a', hkept, hentry⟩ := h.base hbal hsized heven hfree hstep
    exact ⟨a', hkept, hbal.entry hentry⟩
  | @allocRequests i portno nr mems port n s hidle hport hchunks hfill =>
    obtain ⟨a', hs, -⟩ :=
      fillFree_relists i h.refines hport (hchunks.1 0) (few_of_even hport heven) hfill
    exact ⟨a', h.relisted i hs _, hbal.entry (entry_relisted h hs)⟩
  | @freeRequests i portno nr port n s hidle hport hdrain =>
    obtain ⟨xs, a', rfl, hs, -⟩ := drainFree_relists i nr.toNat h.refines hport hdrain
    rw [Nat.zero_add]
    exact ⟨a', h.relisted i hs _, hbal.entry (entry_drained h hidle hs)⟩
  | @freed i portno n port hfreeing hport =>
    have hquiet := settleFreed_quiet h.refines.wf hport n
    refine ⟨a, h.call i (s := l.world.seg.settleFreed portno port n) ?_ (fun hpl _ => hpl)
      (fun _ => rfl) ?_ (Finset.Subset.refl _) _, hbal.entry (entry_freed hbal hfreeing hport)⟩
    · exact act_self l.world i _ ▸ h.refines.still hquiet rfl rfl
    · intro p hsome
      rw [settleFreed, getPort_setPort hport] at hsome
      split at hsome
      · rename_i hp
        rw [hp, hport]
        rfl
      · exact hsome
  | @setFreequeueSize i portno chunk port newq ret s hidle hport hnew hresize =>
    have hs := resizeFree_relists i h.refines hport (repr_allocQueue hnew)
      (heven port newq hport hnew) hresize
    exact ⟨a, h.relisted i hs _, hbal.entry (entry_relisted h hs)⟩

/-- In every run in which `xseg_alloc_requests` keeps no request and `xseg_set_freequeue_size` drops
none, `alloc_reqs` is what is drawn on behalf of the port. If moreover no request is lost, all
that is drawn can be found. -/
theorem run_accounted (ho : Opening l) :
    (∀ {as bs m l'}, Run (Guarded Step Careful) l as m → Run (Guarded Step Careful) m bs l' →
      l'.Accounted ∧ m.Returns l') ∧
    ∀ {as l'}, Run (Guarded Step fun l b => l.Careful b ∧ b.2.Lossless l.world.seg) l as l' →
      l'.Located := by
  have hkeep : ∀ {l b l'}, (∃ a, Kept l a ∧ l.books.Balanced) → Guarded (Step (ι := ι)) Careful l b l' →
      ∃ a, Kept l' a ∧ l'.books.Balanced := by
    rintro l b l' ⟨a, h, hbal⟩ ⟨hok, hstep⟩
    exact h.step hbal hok hstep
  have hall : ∀ {as m}, Run (Guarded Step Careful) l as m → ∃ a, Kept m a ∧ m.books.Balanced :=
    fun hrun => hrun.invariant (I := fun l => ∃ a, Kept l a ∧ l.books.Balanced) hkeep
      ⟨_, ho.kept, ho.balanced⟩
  constructor
  · intro as bs m l' hrun hrun'
    obtain ⟨_, hm, hbm⟩ := hall hrun
    obtain ⟨_, hl, hbl⟩ := hall (hrun.trans hrun')
    exact ⟨hl.accounted hbl, (hm.accounted hbm).returns (hl.accounted hbl)⟩
  · intro as l' hrun
    obtain ⟨_, hl, -⟩ := hall (hrun.mono fun hstep => ⟨hstep.1.1, hstep.2⟩)
    obtain ⟨_, hkeeping⟩ := hrun.invariant (I := fun l => ∃ a, Keeping l.world a)
      (fun ⟨_, h⟩ hstep => keeping_step h hstep.1.1 hstep.1.2 hstep.2) ⟨_, ho.start.keeping⟩
    exact hl.located hkeeping.conserved

end Runs

def made (s : Xseg) : Ledger Unit := ⟨solo s [] .idle, fun _ => 0, fun _ => none⟩

theorem made_opening [Builtins] {nr : UInt32} {bytes : UInt64}
    (hb : 4096 + bytes.toNat < 2 ^ 64) : (made (madeSeg nr bytes)).Opening where
  start := madeSeg_start hb
  allocs := by
    intro p port hport
    have hp : p < nr := getPort_lt hport
    obtain rfl := Option.some.inj (hport.symm.trans (madeSeg_getPort hp))
    rfl
  freeing := fun _ => rfl

/-- A request that port 0 gets and submits. -/
theorem run_accounted_submit : ∃ _ : Builtins, ∃ l l' : Ledger Unit, Opening l ∧
    Run (Guarded Step fun l b => l.Careful b ∧ b.2.Lossless l.world.seg) l
      [((), .base (.miss 0 1 0)), ((), .base (.got 0 1 0 4096)),
        ((), .base (.submit 4096 0 0 1))] l' ∧ l'.Accounted ∧ l'.Located := by
  let _ : Builtins := ⟨0⟩
  obtain ⟨s2, s3, step1, step2, step3, hsized, hsized2, hmapped⟩ := first_steps rfl
  let l0 := made (madeSeg 4 1024)
  let l1 := l0.after (.miss 0 1 0) (solo l0.world.seg [] (.getting 0 1 0))
  let l2 := l1.after (.got 0 1 0 4096) (solo s2 [4096] .idle)
  let l3 := l2.after (.submit 4096 0 0 1) (solo s3 [] .idle)
  have hstep1 : Step l0 ((), .base (.miss 0 1 0)) l1 := .base rfl step1
  have hstep2 : Step l1 ((), .base (.got 0 1 0 4096)) l2 := .base rfl step2
  have hstep3 : Step l2 ((), .base (.submit 4096 0 0 1)) l3 := .base rfl step3
  have hrun : Run (Guarded Step fun l b => l.Careful b ∧ b.2.Lossless l.world.seg) l0
      [((), .base (.miss 0 1 0)), ((), .base (.got 0 1 0 4096)),
        ((), .base (.submit 4096 0 0 1))] l3 :=
    Run.cons ⟨⟨⟨hsized, trivial⟩, hmapped⟩, hstep1⟩
      (Run.cons ⟨⟨⟨hsized, trivial⟩, hmapped⟩, hstep2⟩
        (Run.single ⟨⟨⟨hsized2, trivial⟩, trivial⟩, hstep3⟩))
  have hopening : Opening l0 := made_opening (by decide)
  obtain ⟨haccounted, hlocated⟩ := run_accounted hopening
  exact ⟨⟨0⟩, l0, l3, hopening, hrun,
    (haccounted (.refl l0) (hrun.mono fun hstep => ⟨hstep.1.1, hstep.2⟩)).1, hlocated hrun⟩

/-- `xseg_alloc_requests` puts a request into the free queue, and the counter stays 0. -/
theorem not_run_accounted : ¬ ∀ (_ : Builtins) (l l' : Ledger Unit)
    (as : List (Unit × AccountCall)), Opening l → Run Step l as l' → l'.Accounted := by
  intro h
  let _ : Builtins := ⟨0⟩
  obtain ⟨helems, hsize⟩ := SegM.threeRequests_queue
  have hlist : (madeSeg 1 2048).requestH.list = [4096, 4608, 5120] := SegM.threeRequests_list
  have hport : (madeSeg 1 2048).getPort 0 = some madePort := SegM.threeRequests_port
  have hfree : (madeSeg 1 2048).FreeIs 0 madePort [] :=
    ⟨hport, (madePort_holding .free).repr, by rw [hsize]; decide⟩
  have hmems (i : Nat) : XobjectH.InSpace ((fun _ => none : Nat → Option (xptr × UInt64)) i) :=
    fun _ hc => by cases hc
  obtain ⟨s', xs, lost, hfill, hfilled, hlength, -⟩ :=
    fillFree_moves hmems 1 (i := 0) hfree (by rw [hlist]; decide)
  have hone : xs.length = 1 := by
    rw [hlength, XobjectH.obtainable_none, hlist, hsize]
    rfl
  have hchunks : HeapChunks (madeSeg 1 2048).requestH fun _ => none :=
    ⟨fun _ _ hc => (Option.some_ne_none _ hc.symm).elim,
      fun _ _ _ _ _ hc => (Option.some_ne_none _ hc.symm).elim⟩
  have hstep : Step (made (madeSeg 1 2048)) ((), .allocRequests 0 1 fun _ => none)
      ((made (madeSeg 1 2048)).put s' 0 fun _ => none) :=
    .allocRequests ⟨rfl, rfl⟩ hport hchunks hfill
  have hacc := h ⟨0⟩ _ _ _ (made_opening (by decide)) (.single hstep)
  obtain ⟨port', hfree'⟩ := hfilled.queue
  have hzero : port'.allocReqs = 0 := by
    have hallocs := congrFun (steady_fillFree hport hfill).allocs 0
    rw [allocs, allocs, hfree'.getPort_eq, hport] at hallocs
    exact Option.some.inj hallocs
  have hmem : xs.head (List.ne_nil_of_length_pos (by omega)) ∈ s'.bag 0 .free := by
    rw [hfree'.bag]
    exact Multiset.mem_coe.mpr (List.head_mem _)
  have hpos := Finset.card_pos.mpr ⟨_, hacc.queued hmem⟩
  have hcount := hacc.count hfree'.getPort_eq
  rw [hzero, UInt64.toNat_zero] at hcount
  omega

end Ledger

end Libxseg
