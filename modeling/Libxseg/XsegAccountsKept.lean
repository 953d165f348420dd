import Libxseg.XsegAccountsSteps

/-!
# Sections of a base call as entries in the books

`Kept` says on whose account a request is that lies in a place. Every section of a base call
keeps it, and what it does to the counters is an entry in the books.
-/

namespace Libxseg

set_option autoImplicit false

open Xseg

variable {ι : Type}

def Place.Agrees (source account : xport) : Place ι → Prop
  | list => True
  | queue p .free => account = p
  | busy _ => True
  | _ => source = account

theorem Place.Live.agrees_iff {source account : xport} {pl : Place ι} (h : pl.Live) :
    pl.Agrees source account ↔ source = account := by
  cases pl with
  | list => exact absurd h id
  | queue p kind =>
    cases kind with
    | free => exact absurd h id
    | _ => rfl
  | hand i => rfl
  | busy i => exact absurd h id

namespace Ledger

/-- The flow knows where the requests are, and each is out on account of the port that its place
or its source says. -/
structure Kept (l : Ledger ι) (a : Flow ι) : Prop where
  refines : Refines l.world a
  agrees : ∀ {x pl}, a.place x = some pl →
    pl.Agrees (l.world.seg.requests x).srcPortno (l.account x)
  putting : ∀ {i x src}, (l.world.peers i).pc = .putting x src → l.account x = src
  aborting : ∀ {i x}, (l.world.peers i).pc = .aborting x →
    (l.world.seg.getPort (l.world.seg.requests x).srcPortno).isSome →
    (l.world.seg.requests x).srcPortno = l.account x

variable {l l' : Ledger ι} {a a' : Flow ι} {i j : ι} {p q src dst portno : xport} {x : xptr}
  {flags : UInt32} {e : Event} {w w' : World ι}

theorem charge_of_mem (s : Xseg) (p : xport) (hx : x ∈ l.world.seg.drawn) :
    l.charge s p x = l.account x := if_neg fun h => h.2 hx

theorem charge_new {s : Xseg} (p : xport) (hx : x ∈ s.drawn) (hnew : x ∉ l.world.seg.drawn) :
    l.charge s p x = p := if_pos ⟨hx, hnew⟩

theorem charge_eq {s : Xseg} (hdrawn : s.drawn ⊆ l.world.seg.drawn) (p : xport) :
    l.charge s p = l.account := by
  funext x
  exact if_neg fun h => h.2 (hdrawn h.1)

theorem count_same (h : l'.world.seg.allocs = l.world.seg.allocs) :
    l'.books.count = l.books.count := by
  funext p
  exact congrArg (fun n => (Option.map UInt64.toNat n).getD 0) (congrFun h p)

theorem count_update {n : UInt64}
    (h : l'.world.seg.allocs = Function.update l.world.seg.allocs p (some n)) :
    l'.books.count = Function.update l.books.count p n.toNat := by
  funext q
  have hq : l'.books.count q = ((l'.world.seg.allocs q).map UInt64.toNat).getD 0 := rfl
  rw [hq, h, Function.update_apply, Function.update_apply]
  split <;> rfl

theorem count_eq {port : Port} (h : l.world.seg.getPort p = some port) :
    l.books.count p = port.allocReqs.toNat := by
  have hp : l.books.count p = ((l.world.seg.allocs p).map UInt64.toNat).getD 0 := rfl
  rw [hp, allocs, h]
  rfl

theorem due_own (hfree : l.freeing i = none) : l.due i = (l.world.peers i).pc.due := by
  funext p
  rw [due, hfree]
  rfl

theorem due_eq_zero {pc : Pc} (h : ∀ src, pc ≠ .counting src) : pc.due = fun _ => 0 := by
  funext p
  cases pc with
  | counting src => exact absurd rfl (h src)
  | _ => rfl

/-- A section of peer `i` after which all requests but those of `moved` are where they were or in
the list. -/
theorem Kept.frame (h : Kept l a) (moved : xptr → Prop) (hr : Refines l'.world a')
    (hplace : ∀ {x pl}, a'.place x = some pl → pl ≠ .list → ¬ moved x → a.place x = some pl)
    (hsame : ∀ {x}, a.Out x → ¬ moved x →
      (l'.world.seg.requests x).srcPortno = (l.world.seg.requests x).srcPortno ∧
        l'.account x = l.account x)
    (hmoved : ∀ {x pl}, moved x → a'.place x = some pl →
      pl.Agrees (l'.world.seg.requests x).srcPortno (l'.account x))
    (hports : ∀ {p}, (l'.world.seg.getPort p).isSome → (l.world.seg.getPort p).isSome)
    (hpeers : ∀ j, j ≠ i → l'.world.peers j = l.world.peers j)
    (hbusy : ∀ {j x}, j ≠ i → moved x → a.place x ≠ some (.busy j))
    (hputting : ∀ {x src}, (l'.world.peers i).pc = .putting x src → l'.account x = src)
    (haborting : ∀ {x}, (l'.world.peers i).pc = .aborting x →
      (l'.world.seg.getPort (l'.world.seg.requests x).srcPortno).isSome →
      (l'.world.seg.requests x).srcPortno = l'.account x) : Kept l' a' := by
  have hother : ∀ {j x}, j ≠ i → x ∈ (l.world.peers j).pc.held →
      (l'.world.seg.requests x).srcPortno = (l.world.seg.requests x).srcPortno ∧
        l'.account x = l.account x := by
    intro j x hj hx
    have hpl : a.place x = some (.busy j) := (h.refines.mem_iff (p := .busy j)).mp hx
    exact hsame (.of_place hpl (by simp)) fun hm => hbusy hj hm hpl
  refine ⟨hr, ?_, ?_, ?_⟩
  · intro x pl hpl
    by_cases hm : moved x
    · exact hmoved hm hpl
    by_cases hlist : pl = .list
    · rw [hlist]
      exact trivial
    have hold := hplace hpl hlist hm
    obtain ⟨hsource, haccount⟩ := hsame (.of_place hold hlist) hm
    rw [hsource, haccount]
    exact h.agrees hold
  · intro j x src hpc
    rcases eq_or_ne j i with rfl | hj
    · exact hputting hpc
    · rw [hpeers j hj] at hpc
      rw [(hother hj (by simp [hpc, Pc.held])).2]
      exact h.putting hpc
  · intro j x hpc hsome
    rcases eq_or_ne j i with rfl | hj
    · exact haborting hpc hsome
    · rw [hpeers j hj] at hpc
      obtain ⟨hsource, haccount⟩ := hother hj (x := x) (by simp [hpc, Pc.held])
      rw [hsource] at hsome ⊢
      rw [haccount]
      exact h.aborting hpc (hports hsome)

theorem obtains_from (h : Refines w a) {s : Xseg} (ho : w.Obtains i src dst flags x s) :
    s.requests = w.seg.requests ∧
      (s.allocs = w.seg.allocs ∧ a.place x = some (.queue src .free) ∨
        ∃ port, w.seg.getPort src = some port ∧ port.allocReqs < port.maxAllocReqs ∧
          s.allocs = Function.update w.seg.allocs src (some (port.allocReqs + 1)) ∧ ¬ a.Out x) := by
  cases ho with
  | @free port x s _ hport hget hx =>
    have hsteady := steady_getFree hport hget
    obtain ⟨xqi, q, hpop, -, ⟨hnone, -⟩ | htaken⟩ := popQueue_spec h.wf hport .free
    · simp only [getFree, hpop] at hget
      obtain ⟨rfl, -⟩ := Prod.mk.inj hget
      exact absurd hnone hx
    · simp only [getFree, hpop] at hget
      obtain ⟨rfl, rfl⟩ := Prod.mk.inj hget
      exact ⟨rfl, .inl ⟨hsteady.allocs, (h.mem_iff (p := .queue src .free)).mp htaken.mem⟩⟩
  | @alloc port mem x s _ hport hmem halloc =>
    obtain ⟨hlt, hreq, hallocs⟩ := getAlloc_some hport halloc
    refine ⟨hreq, .inr ⟨port, hport, hlt, hallocs, ?_⟩⟩
    obtain ⟨-, -, -, -, ⟨hnone, -⟩ | ⟨y, fresh, hsome, hlist, -, -, hfresh⟩⟩ :=
      getAlloc_spec h.wf hport hmem halloc
    · cases hnone
    obtain rfl := Option.some.inj hsome
    rintro ⟨hknown, hplace⟩
    have hx : x ∈ fresh ++ w.seg.requestH.list := hlist ▸ List.mem_cons_self
    rcases List.mem_append.mp hx with hx | hx
    · exact hfresh x hx (h.objects.mpr hknown)
    · exact hplace ((h.mem_iff (p := .list)).mp (Multiset.mem_coe.mpr hx))

/-- What is given to `xseg_put_request` is out on account of the port that gets it. -/
theorem Kept.gives [Builtins] (h : Kept l a) {peer : Peer} (hg : (l.world.peers i).Gives x peer)
    {xqi : xqindex} {s : Xseg} (hput : l.world.seg.putFree x = some (src, xqi, s)) :
    l.account x = src ∧ peer.pc = .idle ∧
      (a.place x = some (.hand i) ∨ a.place x = some (.busy i)) := by
  obtain ⟨rfl, hsome, -, -⟩ := putFree_source hput
  cases hg with
  | held _ hx =>
    have hhand := h.refines.in_hand hx
    have hagree : (l.world.seg.requests x).srcPortno = l.account x := h.agrees hhand
    exact ⟨hagree.symm, rfl, .inl hhand⟩
  | aborted hpc =>
    have hbusy : a.place x = some (.busy i) := by
      apply h.refines.mem_iff.mp
      simp [hpc, Pc.held]
    exact ⟨(h.aborting hpc hsome).symm, rfl, .inr hbusy⟩

section Entries
variable [DecidableEq ι]

/-- After a section of a base call only the peer that took it can owe something else. -/
theorem due_base (hpeers : ∀ j, j ≠ i → w'.peers j = l.world.peers j) (hfree : l.freeing i = none)
    (account : xptr → xport) :
    Ledger.due ⟨w', account, l.freeing⟩ = Function.update l.due i (w'.peers i).pc.due := by
  funext j
  rcases eq_or_ne j i with rfl | hj
  · rw [Function.update_self]
    exact due_own hfree
  · rw [Function.update_of_ne hj]
    funext p
    rw [due, hpeers j hj]
    rfl

variable [Builtins]

theorem due_same (hfree : l.freeing i = none) (hstep : l.world.Step (i, e) w')
    (hobj : ∀ x, e ≠ .putObj x) (hdone : e ≠ .putDone) (account : xptr → xport) :
    Ledger.due ⟨w', account, l.freeing⟩ = l.due := by
  have hbefore : (l.world.peers i).pc.due = fun _ => 0 :=
    due_eq_zero fun src hpc => hdone (hstep.of_counting hpc)
  have hafter : (w'.peers i).pc.due = fun _ => 0 := by
    refine due_eq_zero fun src hpc => ?_
    obtain ⟨x, rfl, -⟩ := hstep.counting hpc
    exact hobj x rfl
  rw [due_base (fun j hj => hstep.peers_of_ne hj) hfree, hafter, ← hbefore, ← due_own hfree,
    Function.update_eq_self]

theorem entry_same (h : Refines l.world a) (hflow : FlowStep a (i, e) a')
    (hr' : Refines w' a') (hfree : l.freeing i = none) (hstep : l.world.Step (i, e) w')
    (hclient : e.client = none) (hobj : ∀ x, e ≠ .putObj x) (hdone : e ≠ .putDone)
    (hallocs : w'.seg.allocs = l.world.seg.allocs) :
    Books.Entry l.books (Ledger.books { l with world := w' }) := by
  refine .same (fun _ _ => rfl) ?_ (count_same hallocs) (due_same hfree hstep hobj hdone _)
  ext x
  exact hr'.mem_drawn.trans ((hflow.out_iff hclient hobj).trans h.mem_drawn.symm)

theorem entry_draw (h : Kept l a) (hr' : Refines w' a') (hfree : l.freeing i = none)
    (hstep : l.world.Step (i, e) w') (hclient : e.client = some src) (hx : a'.Out x)
    (hout : ∀ y, a'.Out y ↔ y = x ∨ a.Out y)
    (hfrom : w'.seg.allocs = l.world.seg.allocs ∧ a.Out x ∨
      ∃ port, l.world.seg.getPort src = some port ∧ port.allocReqs < port.maxAllocReqs ∧
        w'.seg.allocs = Function.update l.world.seg.allocs src (some (port.allocReqs + 1)) ∧
        ¬ a.Out x) :
    Books.Entry l.books (Ledger.books { l with world := w', account := l.charge w'.seg src }) := by
  have hfollows : ∀ y ∈ l.world.seg.drawn, l.charge w'.seg src y = l.account y :=
    fun y hy => charge_of_mem w'.seg src hy
  have hdue := due_same hfree hstep (fun y he => by simp [he, Event.client] at hclient)
    (fun he => by simp [he, Event.client] at hclient) (l.charge w'.seg src)
  rcases hfrom with ⟨hallocs, hold⟩ | ⟨port, hport, hlt, hallocs, hnew⟩
  · refine .same hfollows ?_ (count_same hallocs) hdue
    ext y
    refine hr'.mem_drawn.trans (Iff.trans ?_ h.refines.mem_drawn.symm)
    rw [hout]
    exact or_iff_right_of_imp fun heq => heq ▸ hold
  · have hx' : x ∈ w'.seg.drawn := hr'.mem_drawn.mpr hx
    have hxl : x ∉ l.world.seg.drawn := fun hmem => hnew (h.refines.mem_drawn.mp hmem)
    have hsucc : (port.allocReqs + 1).toNat = l.books.count src + 1 := by
      have hmax := port.maxAllocReqs.toNat_lt
      have hlt' := UInt64.lt_iff_toNat_lt.mp hlt
      rw [count_eq hport, UInt64.toNat_add, UInt64.toNat_one]
      omega
    refine .draw x src hfollows hxl ?_ (charge_new src hx' hxl) ?_ hdue
    · ext y
      refine hr'.mem_drawn.trans ?_
      rw [hout, Finset.mem_insert]
      exact or_congr_right h.refines.mem_drawn.symm
    · rw [← hsucc]
      exact count_update hallocs

/-- `xseg_put_request` puts the request back, and has to subtract 1. -/
theorem entry_putObj (h : Kept l a) (hr' : Refines w' a') (hflow : FlowStep a (i, .putObj x) a')
    (hfree : l.freeing i = none) (hstep : l.world.Step (i, .putObj x) w') :
    Books.Entry l.books (Ledger.books { l with world := w' }) := by
  have hpeers (j : ι) (hj : j ≠ i) : w'.peers j = l.world.peers j := hstep.peers_of_ne hj
  cases hstep with
  | @putObj _ _ src hpc =>
  have hbusy : a.place x = some (.busy i) := by
    apply h.refines.mem_iff.mp
    simp [hpc, Pc.held]
  have hdrawn : x ∈ l.world.seg.drawn := h.refines.mem_drawn.mpr (.of_place hbusy (by simp))
  have hzero : l.due i = fun _ => 0 := by
    rw [due_own hfree, hpc]
    rfl
  refine .giveBack i src {x} (fun _ _ => rfl) ?_ ?_ (count_same rfl) ?_
  · rw [Finset.singleton_subset_iff]
    exact Books.mem_out.mpr ⟨hdrawn, h.putting hpc⟩
  · ext y
    refine hr'.mem_drawn.trans ?_
    rw [hflow.out_putObj, Finset.mem_sdiff, Finset.mem_singleton, and_comm]
    exact and_congr_left fun _ => h.refines.mem_drawn.symm
  · refine (due_base hpeers hfree l.account).trans ?_
    have hdue : l.books.due = l.due := rfl
    rw [act_peers_self, hdue, hzero]
    congr 1
    funext p
    rw [Function.update_apply]
    simp [Pc.due, eq_comm]

theorem entry_putDone [Fintype ι] (hr : Refines l.world a) (hr' : Refines w' a')
    (hflow : FlowStep a (i, .putDone) a') (hbal : l.books.Balanced) (hfree : l.freeing i = none)
    (hstep : l.world.Step (i, .putDone) w') :
    Books.Entry l.books (Ledger.books { l with world := w' }) := by
  have hpeers (j : ι) (hj : j ≠ i) : w'.peers j = l.world.peers j := hstep.peers_of_ne hj
  cases hstep with
  | @putDone _ src port hpc hport =>
  have hone : l.due i = fun p => if src = p then 1 else 0 := by
    rw [due_own hfree, hpc]
    rfl
  have hdue : l.books.due = l.due := rfl
  have hown : 1 ≤ l.books.due i src := by
    rw [hdue, hone]
    simp
  have hcount := (hbal.due_le_count i src).trans' hown
  refine .settle i src 1 (fun _ _ => rfl) hown ?_ ?_ ?_
  · ext y
    exact hr'.mem_drawn.trans ((hflow.out_iff rfl (by simp)).trans hr.mem_drawn.symm)
  · have hpred : (port.allocReqs - 1).toNat = l.books.count src - 1 := by
      rw [count_eq hport] at hcount ⊢
      exact UInt64.toNat_sub_of_le _ _ (UInt64.le_iff_toNat_le.mpr hcount)
    rw [← hpred]
    exact count_update (allocs_setPort hport _)
  · refine (due_base hpeers hfree l.account).trans ?_
    rw [act_peers_self, hdue, hone]
    congr 1
    funext p
    rw [Function.update_apply]
    simp [Pc.due, eq_comm]

end Entries

section Sections
variable [DecidableEq ι] [Builtins]

theorem Kept.plain (h : Kept l a) (moved : xptr → Prop) (hstep : l.world.Step (i, e) w')
    (hr' : Refines w' a')
    (hpc : (w'.peers i).pc.held = 0)
    (hports : ∀ {p}, (w'.seg.getPort p).isSome → (l.world.seg.getPort p).isSome)
    (hsource : ∀ y, (w'.seg.requests y).srcPortno = (l.world.seg.requests y).srcPortno)
    (hplace : ∀ y, ¬ moved y → a'.place y = a.place y)
    (hmoved : ∀ {y pl}, moved y → a'.place y = some pl →
      pl.Agrees (l.world.seg.requests y).srcPortno (l.account y))
    (hbusy : ∀ {j y}, j ≠ i → moved y → a.place y ≠ some (.busy j)) :
    Kept { l with world := w' } a' := by
  refine h.frame moved hr' ?_ ?_ ?_ hports (fun j hj => hstep.peers_of_ne hj) hbusy ?_ ?_
  · intro y pl hpl _ hm
    rwa [← hplace y hm]
  · exact fun _ _ => ⟨hsource _, rfl⟩
  · intro y pl hm hpl
    rw [hsource]
    exact hmoved hm hpl
  · intro y src hputting
    rw [hputting] at hpc
    exact absurd hpc (Multiset.singleton_ne_zero y)
  · intro y haborting
    rw [haborting] at hpc
    exact absurd hpc (Multiset.singleton_ne_zero y)

/-- A request goes from a place where its path counts to a place of this kind, or it is lost. -/
theorem Kept.plain_step (h : Kept l a) (hflow : FlowStep a (i, e) a') (hr' : Refines w' a')
    (hstep : l.world.Step (i, e) w') (he : e.Plain) : Kept { l with world := w' } a' := by
  have hsteady := hstep.steady h.refines he
  have hpc := hstep.pc_held he
  have hports {p : xport} : (w'.seg.getPort p).isSome → (l.world.seg.getPort p).isSome :=
    isSome_of_allocs_eq hsteady.allocs
  -- the request of the section is `x`; it was at `p`
  have hone {x : xptr} {p : Place ι} (hx : a.place x = some p) (hp : p.Live ∨ p = .busy i)
      (hrest : ∀ y, y ≠ x → a'.place y = a.place y)
      (hq : ∀ q, a'.place x = some q → q = .list ∨ p.Live ∧ q.Live) :
      Kept { l with world := w' } a' := by
    refine h.plain (fun y => y = x) hstep hr' hpc hports hsteady.sources hrest ?_ ?_
    · rintro y q rfl hpl
      rcases hq q hpl with rfl | ⟨hlive, hlive'⟩
      · exact trivial
      · exact hlive'.agrees_iff.mpr (hlive.agrees_iff.mp (h.agrees hx))
    · rintro j y hj rfl hpl
      obtain rfl := Option.some.inj (hx.symm.trans hpl)
      rcases hp with hlive | hown
      · exact hlive
      · exact hj (Place.busy.inj hown)
  have hsent {x : xptr} {p q : Place ι} {path : List xport} {t : xport} (hx : a.place x = some p)
      (ha : a' = a.move x q path t) (hp : p.Live) (hq : q.Live) : Kept { l with world := w' } a' := by
    subst ha
    refine hone hx (.inl hp) (fun y hy => Flow.place_move_of_ne hy) fun r hr => .inr ⟨hp, ?_⟩
    rw [Flow.place_move_self] at hr
    exact Option.some.inj hr ▸ hq
  cases hflow with
  | still _ =>
    exact h.plain (fun _ => False) hstep hr' hpc hports hsteady.sources (fun _ _ => rfl)
      (fun hm => absurd hm id) (fun _ hm => absurd hm id)
  | got _ _ _ => exact absurd he id
  | refused _ _ _ => exact absurd he id
  | put _ => exact absurd he id
  | putFull _ => exact absurd he id
  | lost hx =>
    exact hone hx (.inr rfl) (fun y hy => by simp [Flow.lose, hy]) (by simp [Flow.lose])
  | drop hx _ =>
    exact hone hx (.inl trivial) (fun y hy => by simp [Flow.lose, hy]) (by simp [Flow.lose])
  | putObj hx =>
    exact hone hx (.inr rfl) (fun y hy => by simp [Flow.move, hy]) (by simp [Flow.move])
  | submit hx _ => exact hsent hx rfl trivial trivial
  | forward hx _ => exact hsent hx rfl trivial trivial
  | accept hx => exact hsent hx rfl trivial trivial
  | respond hx _ _ _ => exact hsent hx rfl trivial trivial
  | trim hx _ => exact hsent hx rfl trivial trivial
  | receive hx _ => exact hsent hx rfl trivial trivial

/-- A request is obtained, and comes to the place `q` of the peer. -/
theorem Kept.obtained (h : Kept l a) {s : Xseg} {ok : Bool} {fresh : List xptr} {q r : Place ι}
    {path : List xport} {t : xport} (hfree : l.freeing i = none)
    (hstep : l.world.Step (i, e) w') (hclient : e.client = some src)
    (ho : l.world.Obtains i src dst flags x s) (hdone : s.getDone x src dst = (ok, w'.seg))
    (hnew : a.New fresh) (hx : (a.extend fresh).place x = some r)
    (horigin : r = .list ∨ r = .queue src .free)
    (hr' : Refines w' ((a.extend fresh).move x q path t))
    (hq : ok = true ∧ q = .hand i ∧ (w'.peers i).pc = .idle ∨
      ok = false ∧ q = .busy i ∧ (w'.peers i).pc = .aborting x ∧
        (l.world.seg.getPort (l.world.seg.requests x).srcPortno = none ∨
          (l.world.seg.requests x).srcPortno = src)) :
    Kept { l with world := w', account := l.charge w'.seg src } ((a.extend fresh).move x q path t) ∧
      Books.Entry l.books
        (Ledger.books { l with world := w', account := l.charge w'.seg src }) := by
  obtain ⟨hreq, hfrom⟩ := obtains_from h.refines ho
  obtain ⟨hallocs, hothers, hsource⟩ := getDone_source hdone
  rw [hreq] at hothers hsource
  rw [← hallocs] at hfrom
  have hqlist : q ≠ .list := by
    rcases hq with ⟨-, rfl, -⟩ | ⟨-, rfl, -⟩ <;> simp
  have hout (y : xptr) : ((a.extend fresh).move x q path t).Out y ↔ y = x ∨ a.Out y := by
    rw [Flow.out_move hqlist, Flow.out_extend hnew]
  have hxout : ((a.extend fresh).move x q path t).Out x := (hout x).mpr (.inl rfl)
  have hcharge : l.charge w'.seg src x = src := by
    rcases hfrom with ⟨-, hpl⟩ | ⟨_, -, -, -, hnot⟩
    · rw [charge_of_mem _ _ (h.refines.mem_drawn.mpr (.of_place hpl (by simp)))]
      exact h.agrees hpl
    · exact charge_new _ (hr'.mem_drawn.mpr hxout) fun hmem => hnot (h.refines.mem_drawn.mp hmem)
  have hports {p : xport} (hsome : (w'.seg.getPort p).isSome) : (l.world.seg.getPort p).isSome := by
    rcases hfrom with ⟨hsame, -⟩ | ⟨port, hport, -, hupdate, -⟩
    · exact isSome_of_allocs_eq hsame hsome
    · rcases eq_or_ne p src with rfl | hp
      · rw [hport]
        rfl
      · rwa [isSome_getPort, hupdate, Function.update_of_ne hp, ← isSome_getPort] at hsome
  refine ⟨h.frame (i := i) (fun y => y = x) hr' ?_ ?_ ?_ hports
    (fun j hj => hstep.peers_of_ne hj) ?_ ?_ ?_, ?_⟩
  · intro y pl hpl hlist hy
    rw [Flow.place_move_of_ne hy] at hpl
    exact Flow.place_of_extend hlist hpl
  · intro y hold hy
    exact ⟨hothers y hy, charge_of_mem _ _ (h.refines.mem_drawn.mpr hold)⟩
  · rintro y pl rfl hpl
    rw [Flow.place_move_self] at hpl
    obtain rfl := Option.some.inj hpl
    rcases hq with ⟨rfl, rfl, -⟩ | ⟨-, rfl, -⟩
    · exact hsource.trans hcharge.symm
    · exact trivial
  · rintro j y _ rfl hpl
    have hbusy : (a.extend fresh).place y = some (.busy j) := by
      have hnot : y ∉ fresh := fun hy => by simp [(hnew y hy).1] at hpl
      exact (if_neg hnot).trans hpl
    obtain rfl := Option.some.inj (hx.symm.trans hbusy)
    rcases horigin with heq | heq <;> cases heq
  · intro y src' hpc
    rcases hq with ⟨-, -, hidle⟩ | ⟨-, -, habort, -⟩
    · rw [hidle] at hpc
      cases hpc
    · rw [habort] at hpc
      cases hpc
  · intro y hpc hsome
    rcases hq with ⟨-, -, hidle⟩ | ⟨rfl, -, habort, hknown⟩
    · rw [hidle] at hpc
      cases hpc
    · rw [habort] at hpc
      cases hpc
      refine hsource.trans ?_
      rcases hknown with hnone | hsrc
      · have hsome' := hports hsome
        rw [hsource, if_neg Bool.false_ne_true, hnone] at hsome'
        cases hsome'
      · exact hsrc.trans hcharge.symm
  · refine entry_draw h hr' hfree hstep hclient hxout hout ?_
    rcases hfrom with ⟨hsame, hpl⟩ | hdrawn
    · exact .inl ⟨hsame, .of_place hpl (by simp)⟩
    · exact .inr hdrawn

/-- A request is offered to the free queue of its source port, and comes to the place `q`. -/
theorem Kept.offered (h : Kept l a) {peer : Peer} {q : Place ι} {path : List xport} {t : xport}
    (hstep : l.world.Step (i, e) w') (hg : (l.world.peers i).Gives x peer) {xqi : xqindex}
    (hput : l.world.seg.putFree x = some (src, xqi, w'.seg))
    (hr' : Refines w' (a.move x q path t))
    (hq : q = .queue src .free ∧ (w'.peers i).pc = .idle ∨
      q = .busy i ∧ (w'.peers i).pc = .putting x src) :
    Kept { l with world := w' } (a.move x q path t) := by
  obtain ⟨-, -, hallocs, hothers⟩ := putFree_source hput
  obtain ⟨haccount, -, hwas⟩ := h.gives hg hput
  refine h.frame (i := i) (fun y => y = x) hr' ?_ ?_ ?_ (isSome_of_allocs_eq hallocs)
    (fun j hj => hstep.peers_of_ne hj) ?_ ?_ ?_
  · intro y pl hpl _ hy
    rwa [Flow.place_move_of_ne hy] at hpl
  · exact fun _ hy => ⟨hothers _ hy, rfl⟩
  · rintro y pl rfl hpl
    rw [Flow.place_move_self] at hpl
    obtain rfl := Option.some.inj hpl
    rcases hq with ⟨rfl, -⟩ | ⟨rfl, -⟩
    · exact haccount
    · exact trivial
  · rintro j y hj rfl hpl
    rcases hwas with hhand | hbusy
    · cases hhand.symm.trans hpl
    · cases hbusy.symm.trans hpl
      exact hj rfl
  · intro y src' hpc
    rcases hq with ⟨-, hidle⟩ | ⟨-, hputting⟩
    · rw [hidle] at hpc
      cases hpc
    · rw [hputting] at hpc
      cases hpc
      exact haccount
  · intro y hpc
    rcases hq with ⟨-, hidle⟩ | ⟨-, hputting⟩
    · rw [hidle] at hpc
      cases hpc
    · rw [hputting] at hpc
      cases hpc

/-- A section of a base call keeps the places and is an entry in the books. -/
theorem Kept.base (h : Kept l a) [Fintype ι] (hbal : l.books.Balanced) (hsized : l.world.seg.Sized)
    (hknown : e.KnownSource l.world.seg) (hfree : l.freeing i = none)
    (hstep : l.world.Step (i, e) w') :
    ∃ a', Kept (l.after e w') a' ∧ Books.Entry l.books (l.after e w').books := by
  obtain ⟨a', hflow, hr'⟩ := hstep.simulates h.refines hsized
  have hplain (he : e.Plain) (hclient : e.client = none) (hobj : ∀ x, e ≠ .putObj x)
      (hdone : e ≠ .putDone) :
      Kept { l with world := w' } a' ∧ Books.Entry l.books (Ledger.books { l with world := w' }) :=
    ⟨h.plain_step hflow hr' hstep he, entry_same h.refines hflow hr' hfree hstep hclient hobj hdone
      (hstep.steady h.refines he).allocs⟩
  cases e with
  | got src dst flags x =>
    cases hflow with
    | still he => exact absurd he id
    | got hnew hx horigin =>
    have hstep' := hstep
    cases hstep with
    | got ho hdone =>
      exact ⟨_, h.obtained hfree hstep' rfl ho hdone hnew hx horigin hr'
        (.inl ⟨rfl, rfl, by rw [act_peers_self]⟩)⟩
  | refused src dst flags x =>
    cases hflow with
    | still he => exact absurd he id
    | refused hnew hx horigin =>
    have hstep' := hstep
    cases hstep with
    | refused ho hdone =>
      exact ⟨_, h.obtained hfree hstep' rfl ho hdone hnew hx horigin hr'
        (.inr ⟨rfl, rfl, by rw [act_peers_self], hknown⟩)⟩
  | put x =>
    have hentry := entry_same h.refines hflow hr' hfree hstep rfl (by simp) (by simp)
    have hstep' := hstep
    cases hflow with
    | still he => exact absurd he id
    | @put _ _ p hx =>
    cases hstep with
    | @put _ _ peer src xqi s hg hput hne =>
    obtain ⟨-, hpc, -⟩ := h.gives hg hput
    have hnone : x ≠ Noneidx := by
      rcases hx with hx | hx
      · exact h.refines.ne_noneidx hx
      · exact h.refines.ne_noneidx hx
    have hinto := (putFree_spec h.refines.wf hsized hnone hput).2.into hne
    have hqueue : (a.move x (.queue p .free) (a.path x) (a.transit x)).place x =
        some (.queue src .free) := by
      apply hr'.mem_iff.mp
      rw [contents_queue, act_seg, hinto]
      exact Multiset.mem_cons_self x _
    rw [Flow.place_move_self] at hqueue
    exact ⟨_, h.offered hstep' hg hput hr' (.inl ⟨Option.some.inj hqueue, by rw [act_peers_self, hpc]⟩),
      hentry (putFree_source hput).2.2.1⟩
  | putFull x =>
    have hentry := entry_same h.refines hflow hr' hfree hstep rfl (by simp) (by simp)
    have hstep' := hstep
    cases hflow with
    | still he => exact absurd he id
    | putFull hx =>
    cases hstep with
    | putFull hg hput =>
      exact ⟨_, h.offered hstep' hg hput hr' (.inr ⟨rfl, by rw [act_peers_self]⟩),
        hentry (putFree_source hput).2.2.1⟩
  | putObj x =>
    exact ⟨a', h.plain_step hflow hr' hstep trivial, entry_putObj h hr' hflow hfree hstep⟩
  | putDone =>
    have hentry := entry_putDone h.refines hr' hflow hbal hfree hstep
    have hstep' := hstep
    cases hflow with
    | still _ =>
    cases hstep with
    | @putDone _ src port hpc hport =>
    refine ⟨a, h.plain (fun _ => False) hstep' hr' (by rw [act_peers_self]; rfl) ?_
      (fun _ => rfl) (fun _ _ => rfl) (fun hm => absurd hm id) (fun _ hm => absurd hm id), hentry⟩
    intro p hsome
    rw [act_seg, putDone, getPort_setPort hport] at hsome
    split at hsome
    · rename_i hp
      rw [hp, hport]
      rfl
    · exact hsome
  | _ => exact ⟨a', hplain trivial rfl (by simp) (by simp)⟩

end Sections

end Ledger

end Libxseg
