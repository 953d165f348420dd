import Libxseg.XsegAccounts

/-!
# What a step does to the account of a port

A section of a call leaves `alloc_reqs` of every port and the source port of every request
alone, unless it is one of those that draw, put back or count requests.
-/

namespace Libxseg

set_option autoImplicit false

open Xseg

namespace Xseg
variable {s s' : Xseg} {p src dst portno : xport} {port : Port} {x y : xptr} {flags : UInt32}

theorem isSome_getPort : (s.getPort p).isSome = (s.allocs p).isSome := Option.isSome_map.symm

theorem isSome_of_allocs_eq (h : s'.allocs = s.allocs) (hsome : (s'.getPort p).isSome) :
    (s.getPort p).isSome := by
  rwa [isSome_getPort, h, ← isSome_getPort] at hsome

@[simp] theorem allocs_setRequest (s : Xseg) (x : xptr) (req : Request) :
    (s.setRequest x req).allocs = s.allocs := rfl

@[simp] theorem allocs_countRequest (s : Xseg) (elapsed : UInt64) :
    (s.countRequest elapsed).allocs = s.allocs := by
  funext p
  rw [allocs, getPort_countRequest]
  rfl

theorem allocs_setPort (h : s.getPort p = some port) (port' : Port) :
    (s.setPort p port').allocs = Function.update s.allocs p (some port'.allocReqs) := by
  funext q
  rw [allocs, getPort_setPort h, Function.update_apply]
  split
  · rfl
  · rfl

theorem allocs_setPort_same (h : s.getPort p = some port) {port' : Port}
    (heq : port'.allocReqs = port.allocReqs) : (s.setPort p port').allocs = s.allocs := by
  have hp : s.allocs p = some port'.allocReqs := by rw [allocs, h, heq]; rfl
  rw [allocs_setPort h, ← hp, Function.update_eq_self]

theorem allocs_setQueue (h : s.getPort p = some port) (kind : QueueKind) (q : Xq) :
    (s.setPort p (port.setQueue kind q)).allocs = s.allocs := allocs_setPort_same h rfl

structure Steady (s s' : Xseg) : Prop where
  allocs : s'.allocs = s.allocs
  sources : ∀ x, (s'.requests x).srcPortno = (s.requests x).srcPortno

theorem Steady.refl (s : Xseg) : Steady s s := ⟨rfl, fun _ => rfl⟩

theorem Steady.trans {s'' : Xseg} (h : Steady s s') (h' : Steady s' s'') : Steady s s'' :=
  ⟨h'.allocs.trans h.allocs, fun x => (h'.sources x).trans (h.sources x)⟩

theorem Steady.setRequest (s : Xseg) {x : xptr} {req : Request}
    (h : req.srcPortno = (s.requests x).srcPortno) : Steady s (s.setRequest x req) where
  allocs := rfl
  sources := by
    intro y
    rcases eq_or_ne y x with rfl | hy
    · rw [requests_setRequest, h]
    · rw [requests_setRequest_of_ne hy]

theorem Steady.setPath (s : Xseg) (x : xptr) (path : Xq) : Steady s (s.setPath x path) :=
  .setRequest s rfl

theorem Steady.setQueue (h : s.getPort p = some port) (kind : QueueKind) (q : Xq) :
    Steady s (s.setPort p (port.setQueue kind q)) := ⟨allocs_setQueue h kind q, fun _ => rfl⟩

theorem steady_appendQueue [Builtins] (h : s.getPort p = some port) (kind : QueueKind) (x : xptr)
    (flags : UInt32) (chunk : QueueChunk) :
    Steady s (s.appendQueue p port kind x flags chunk).2 := .setQueue h kind _

theorem steady_deliver [Builtins] (h : s.getPort p = some port) (x : xptr) (cur : xport)
    (flags : UInt32) (chunk : QueueChunk) : Steady s (s.deliver x cur p port flags chunk).2 := by
  unfold deliver
  dsimp only
  split
  · exact .refl s
  · have hset := Steady.setPath s x ((s.requests x).path.appendHead cur.toUInt64).2
    have happ := hset.trans (steady_appendQueue (s := s.setPath x _) h .request x flags chunk)
    split
    · exact happ.trans (.setPath _ x _)
    · exact happ

theorem steady_submit [Builtins] {chunk : QueueChunk} {fuel : Nat} {r : xport}
    (h : s.submit x portno flags chunk fuel = some (r, s')) : Steady s s' := by
  simp only [submit] at h
  split at h
  · cases h
    exact .refl s
  split at h
  · cases h
    exact .refl s
  split at h
  · cases h
  · cases h
    exact .refl s
  · rename_i next port hnext
    have hdel := steady_deliver (discover_spec hnext) x (s.requests x).transitPortno flags chunk
    rw [Option.some.inj h] at hdel
    exact hdel

theorem steady_forward [Builtins] {newDst : xport} {chunk : QueueChunk} {fuel : Nat} {r : xport}
    (h : s.forward x newDst portno flags chunk fuel = some (r, s')) : Steady s s' := by
  simp only [forward] at h
  split at h
  · cases h
    exact .refl s
  · refine (Steady.setRequest s ?_).trans (steady_submit h)
    rfl

theorem steady_accept {r : Option xptr} (h : s.accept portno = (r, s')) : Steady s s' := by
  simp only [accept] at h
  split at h
  · cases h
    exact .refl s
  · rename_i port hport
    have hq := Steady.setQueue hport .request (port.queue .request).popHead.2
    split at h
    · cases h
      exact hq
    · cases h
      exact hq.trans (.setRequest _ rfl)

theorem steady_respond [Builtins] {l : List xport} (hl : PathIs (s.requests x).path l)
    {chunk : QueueChunk} {r : xport} (h : s.respond x portno flags chunk = (r, s')) :
    Steady s s' := by
  obtain ⟨_, -, -, hstop⟩ := respondTo_spec (s := s) hl
  simp only [respond] at h
  split at h
  · cases h
    exact .setPath s x _
  · rename_i dst port path heq
    obtain ⟨hport, -⟩ := hstop dst port (by rw [heq])
    cases h
    exact (Steady.setPath s x path).trans
      (steady_appendQueue (s := s.setPath x path) hport .reply x flags chunk)

theorem steady_receive {r : Received} (h : s.receive portno = (r, s')) : Steady s s' := by
  simp only [receive] at h
  split at h
  · cases h
    exact .refl s
  · rename_i port hport
    have hq := Steady.setQueue hport .reply (port.queue .reply).popHead.2
    split at h
    · cases h
      exact hq
    · cases h
      exact hq.trans (.setPath _ _ _)

theorem steady_getFree (hport : s.getPort p = some port) {xqi : xqindex}
    (h : s.getFree p port = (xqi, s')) : Steady s s' := by
  cases h
  exact .setQueue hport .free _

/-- The request is emptied, and the source it had is the port of the free queue. -/
theorem putFree_source [Builtins] {xqi : xqindex} (h : s.putFree x = some (src, xqi, s')) :
    src = (s.requests x).srcPortno ∧ (s.getPort src).isSome ∧ s'.allocs = s.allocs ∧
      ∀ y, y ≠ x → (s'.requests y).srcPortno = (s.requests y).srcPortno := by
  simp only [putFree] at h
  split at h
  · cases h
  rename_i port hport
  simp only [Option.some.injEq, Prod.mk.injEq] at h
  obtain ⟨rfl, rfl, rfl⟩ := h
  have hport' := (getPort_countRequest (s.setRequest x (emptied (s.requests x)))
    (emptied (s.requests x)).elapsed _).trans hport
  refine ⟨rfl, by rw [hport]; rfl, ?_, fun y hy => ?_⟩
  · rw [allocs_setQueue hport', allocs_countRequest, allocs_setRequest]
  · have hsame := requests_setRequest_of_ne (s := s) hy (emptied (s.requests x))
    rw [← hsame]
    unfold countRequest
    split <;> rfl

theorem getDone_source [Builtins] {ok : Bool} (h : s.getDone x src dst = (ok, s')) :
    s'.allocs = s.allocs ∧ (∀ y, y ≠ x → (s'.requests y).srcPortno = (s.requests y).srcPortno) ∧
      (s'.requests x).srcPortno = if ok then src else (s.requests x).srcPortno := by
  have hset : ∀ req : Request, ∀ y, y ≠ x →
      ((s.setRequest x req).requests y).srcPortno = (s.requests y).srcPortno := by
    intro req y hy
    rw [requests_setRequest_of_ne hy]
  have hkept : (false, s.setRequest x (clearBuffers (s.requests x))) = (ok, s') →
      s'.allocs = s.allocs ∧ (∀ y, y ≠ x → (s'.requests y).srcPortno = (s.requests y).srcPortno) ∧
        (s'.requests x).srcPortno = if ok then src else (s.requests x).srcPortno := by
    intro heq
    obtain ⟨rfl, rfl⟩ := Prod.mk.inj heq
    refine ⟨rfl, hset _, ?_⟩
    rw [requests_setRequest]
    rfl
  by_cases hsrc : s.validatePort src
  · by_cases hdst : s.validatePort dst
    · simp only [getDone, prepPorts, hsrc, hdst, not_true, if_false] at h
      obtain ⟨rfl, rfl⟩ := Prod.mk.inj h
      refine ⟨rfl, hset _, ?_⟩
      rw [requests_setRequest]
      rfl
    · simp only [getDone, prepPorts, hsrc, hdst, not_true, not_false_eq_true, if_true,
        if_false] at h
      exact hkept h
  · simp only [getDone, prepPorts, hsrc, not_false_eq_true, if_true] at h
    exact hkept h

theorem steady_fillFree {mems : Nat → Option (xptr × UInt64)} {left i n : Nat}
    (hport : s.getPort p = some port) (h : s.fillFree p port mems left i = (n, s')) :
    Steady s s' := by
  induction left generalizing s port i with
  | zero =>
    unfold fillFree at h
    split at h
    · cases h
      exact ⟨rfl, fun _ => rfl⟩
    · cases h
      exact ⟨rfl, fun _ => rfl⟩
  | succ left ih =>
    unfold fillFree at h
    split at h
    · cases h
      exact ⟨rfl, fun _ => rfl⟩
    · rename_i req h' hget
      have hport' : Xseg.getPort { s with requestH := h' } p = some port := hport
      have hqueue := Steady.setQueue hport' .free ((port.queue .free).appendTail req).2
      have hsteady : Steady s (Xseg.setPort { s with requestH := h' } p
          (port.setQueue .free ((port.queue .free).appendTail req).2)) :=
        ⟨hqueue.allocs, hqueue.sources⟩
      dsimp only at h
      split at h
      · cases h
        exact ⟨hsteady.allocs, hsteady.sources⟩
      · exact hsteady.trans (ih ((getPort_setPort hport' p).trans (if_pos rfl)) h)

theorem settleFreed_quiet (hs : s.Wf) (hport : s.getPort p = some port) (n : Nat) :
    Quiet s (s.settleFreed p port n) := by
  let port' : Port := { port with allocReqs := port.allocReqs - UInt64.ofNat n }
  exact ⟨(hs.setPort_same port' hport rfl 0).wf, rfl, rfl, bag_setPort_same port' hport rfl⟩

theorem getAlloc_none {mem : Option (xptr × UInt64)}
    (h : s.getAlloc p port flags mem = (none, s')) : Steady s s' := by
  simp only [getAlloc] at h
  split at h
  · split at h
    · cases h
      exact ⟨rfl, fun _ => rfl⟩
    · cases h
  · cases h
    exact .refl s

theorem getAlloc_some (hport : s.getPort p = some port) {mem : Option (xptr × UInt64)}
    (h : s.getAlloc p port flags mem = (some x, s')) :
    port.allocReqs < port.maxAllocReqs ∧ s'.requests = s.requests ∧
      s'.allocs = Function.update s.allocs p (some (port.allocReqs + 1)) := by
  simp only [getAlloc] at h
  split at h
  · rename_i hlt
    split at h
    · cases h
    · rename_i req h' heq
      cases h
      have hport' : getPort { s with requestH := h' } p = some port := hport
      exact ⟨hlt, rfl, allocs_setPort hport' _⟩
  · cases h

end Xseg

variable {ι : Type}

namespace Flow
variable {a : Flow ι} {pl : Place ι} {l : List xport} {t : xport} {x y : xptr} {fresh : List xptr}

def Out (a : Flow ι) (x : xptr) : Prop := (a.place x ≠ none ∨ a.lost x) ∧ a.place x ≠ some .list

theorem Out.of_place (h : a.place x = some pl) (hpl : pl ≠ .list) : a.Out x := by
  rw [Out, h]
  exact ⟨.inl (Option.some_ne_none pl), fun heq => hpl (Option.some.inj heq)⟩

theorem place_move_self : (a.move x pl l t).place x = some pl := Function.update_self ..

theorem place_move_of_ne (h : y ≠ x) : (a.move x pl l t).place y = a.place y :=
  Function.update_of_ne h ..

theorem place_of_extend (hpl : pl ≠ .list) (h : (a.extend fresh).place x = some pl) :
    a.place x = some pl := by
  by_cases hx : x ∈ fresh
  · have hlist : (a.extend fresh).place x = some .list := if_pos hx
    exact absurd (Option.some.inj (h.symm.trans hlist)) hpl
  · have hsame : (a.extend fresh).place x = a.place x := if_neg hx
    rwa [← hsame]

theorem out_move (hpl : pl ≠ .list) : (a.move x pl l t).Out y ↔ y = x ∨ a.Out y := by
  rcases eq_or_ne y x with rfl | hy
  · simp [Out, move, hpl]
  · simp [Out, move, hy]

theorem out_move_list : (a.move x .list l t).Out y ↔ y ≠ x ∧ a.Out y := by
  rcases eq_or_ne y x with rfl | hy
  · simp [Out, move]
  · simp [Out, move, hy]

theorem out_lose (h : a.Out x) : (a.lose x).Out y ↔ a.Out y := by
  rcases eq_or_ne y x with rfl | hy
  · exact iff_of_true (by simp [Out, lose]) h
  · simp [Out, lose, hy]

theorem out_extend (h : a.New fresh) : (a.extend fresh).Out y ↔ a.Out y := by
  by_cases hy : y ∈ fresh
  · simp [Out, extend, hy, h y hy]
  · simp [Out, extend, hy]

theorem out_stay (h : a.Out x) (hpl : pl ≠ .list) : (a.move x pl l t).Out y ↔ a.Out y := by
  rw [out_move hpl]
  exact or_iff_right_of_imp fun heq => heq ▸ h

end Flow

theorem Refines.mem_drawn {w : World ι} {a : Flow ι} {x : xptr} (h : Refines w a) :
    x ∈ w.seg.drawn ↔ a.Out x := by
  have hlist : x ∈ w.seg.requestH.list ↔ a.place x = some .list := h.mem_iff (p := .list)
  rw [drawn, Finset.mem_sdiff, List.mem_toFinset, List.mem_toFinset, h.objects, hlist]
  rfl

namespace FlowStep
variable {a a' : Flow ι} {i : ι} {e : Event} {src dst : xport} {flags : UInt32} {x y : xptr}

theorem out_putObj (h : FlowStep a (i, .putObj x) a') : a'.Out y ↔ y ≠ x ∧ a.Out y := by
  cases h with
  | still he => exact absurd he id
  | putObj hx => exact Flow.out_move_list

/-- Every other step takes nothing out of the handler and puts nothing back. -/
theorem out_iff (h : FlowStep a (i, e) a') (hclient : e.client = none)
    (hput : ∀ x, e ≠ .putObj x) : a'.Out y ↔ a.Out y := by
  cases h with
  | still _ => rfl
  | got _ _ _ => cases hclient
  | refused _ _ _ => cases hclient
  | lost hx => exact Flow.out_lose (.of_place hx (by simp))
  | submit hx _ => exact Flow.out_stay (.of_place hx (by simp)) (by simp)
  | forward hx _ => exact Flow.out_stay (.of_place hx (by simp)) (by simp)
  | accept hx => exact Flow.out_stay (.of_place hx (by simp)) (by simp)
  | respond hx _ _ _ => exact Flow.out_stay (.of_place hx (by simp)) (by simp)
  | trim hx _ => exact Flow.out_stay (.of_place hx (by simp)) (by simp)
  | receive hx _ => exact Flow.out_stay (.of_place hx (by simp)) (by simp)
  | drop hx _ => exact Flow.out_lose (.of_place hx (by simp))
  | put hx =>
    rcases hx with hx | hx
    · exact Flow.out_stay (.of_place hx (by simp)) (by simp)
    · exact Flow.out_stay (.of_place hx (by simp)) (by simp)
  | putFull hx =>
    rcases hx with hx | hx
    · exact Flow.out_stay (.of_place hx (by simp)) (by simp)
    · exact Flow.out_stay (.of_place hx (by simp)) (by simp)
  | putObj _ => exact absurd rfl (hput _)

end FlowStep

def Event.Plain : Event → Prop
  | got _ _ _ _ => False
  | refused _ _ _ _ => False
  | put _ => False
  | putFull _ => False
  | putDone => False
  | _ => True

namespace World.Step
variable [DecidableEq ι] [Builtins] {w w' : World ι} {a : Flow ι} {i : ι} {e : Event} {src : xport}

theorem steady (h : Refines w a) (hstep : w.Step (i, e) w') (he : e.Plain) :
    Steady w.seg w'.seg := by
  cases hstep with
  | miss hm =>
    cases hm with
    | port _ _ => exact .refl _
    | free _ hport hget => exact steady_getFree hport hget
    | alloc _ _ _ halloc => exact getAlloc_none halloc
  | got _ _ => exact absurd he id
  | refused _ _ => exact absurd he id
  | submit _ _ _ hsub => exact steady_submit hsub
  | forward _ _ _ hfwd => exact steady_forward hfwd
  | accept _ hacc => exact steady_accept hacc
  | acceptBusy _ _ => exact .refl _
  | respond _ hx _ hres => exact steady_respond (h.tracks (h.in_hand hx) trivial).path hres
  | receiveNull _ hrec => exact steady_receive hrec
  | receiveBusy _ _ => exact .refl _
  | receive _ hrec => exact steady_receive hrec
  | drop _ hrec => exact steady_receive hrec
  | putRefused _ _ _ => exact .refl _
  | lost _ _ => exact .refl _
  | put _ _ _ => exact absurd he id
  | putFull _ _ => exact absurd he id
  | putObj _ => exact ⟨rfl, fun _ => rfl⟩
  | putDone _ _ => exact absurd he id
  | fill payload _ _ => exact .setRequest _ rfl

/-- Only `refused` and `putFull` leave a peer with a request in hand inside a call. -/
theorem pc_held (hstep : w.Step (i, e) w') (he : e.Plain) : (w'.peers i).pc.held = 0 := by
  cases hstep with
  | miss hm =>
    rw [act_peers_self]
    cases hm with
    | free hidle _ _ =>
      dsimp only
      split <;> rfl
    | _ => rfl
  | refused _ _ => exact absurd he id
  | put _ _ _ => exact absurd he id
  | putFull _ _ => exact absurd he id
  | _ =>
    rw [act_peers_self]
    rfl

/-- Only the last section of `xseg_put_request` makes a subtraction that is due. -/
theorem of_counting (hstep : w.Step (i, e) w') (hpc : (w.peers i).pc = .counting src) :
    e = .putDone := by
  cases hstep with
  | putDone _ _ => rfl
  | miss hm => cases hm <;> simp_all
  | got ho _ => cases ho <;> simp_all
  | refused ho _ => cases ho <;> simp_all
  | put hg _ _ => cases hg <;> simp_all
  | putFull hg _ => cases hg <;> simp_all
  | _ => simp_all

theorem counting (hstep : w.Step (i, e) w') (hpc : (w'.peers i).pc = .counting src) :
    ∃ x, e = .putObj x ∧ (w.peers i).pc = .putting x src := by
  cases hstep with
  | putObj hputting =>
    rw [act_peers_self] at hpc
    cases hpc
    exact ⟨_, rfl, hputting⟩
  | miss hm =>
    rw [act_peers_self] at hpc
    cases hm with
    | free _ _ _ =>
      dsimp only at hpc
      split at hpc <;> cases hpc
    | _ => cases hpc
  | put hg _ _ =>
    rw [act_peers_self] at hpc
    cases hg <;> cases hpc
  | _ =>
    rw [act_peers_self] at hpc
    cases hpc

end World.Step

end Libxseg
