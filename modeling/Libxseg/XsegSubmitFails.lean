import Libxseg.XsegRouting

/-!
# A submit that fails

The path is pushed before the append is tried, and popped when that fails. Moving the
requests into a queue of twice the size turns their order around, so no failure may come
after it: the chunk for the new queue is always large enough for one more request.
-/

namespace Libxseg

set_option autoImplicit false

namespace Xseg

/-- An append that fails leaves the queue, which is full, as it was. -/
theorem appendTail_fails {q q' : Xq} {l : List xptr} {x : xptr} (h : q.Repr l) (hx : x ≠ Noneidx)
    (htail : q.appendTail x = (Noneidx, q')) : q' = q ∧ l.length = q.size.toNat := by
  unfold Xq.appendTail at htail
  split at htail
  · rename_i hfull
    have hle := Nat.le_trans h.fits (Xq.window_le_size _)
    have hlt := h.length_lt
    rw [UInt64.le_iff_toNat_le, UInt64.toNat_add, h.count, UInt64.toNat_one] at hfull
    exact ⟨(Prod.mk.inj htail).2.symm, by omega⟩
  · exact absurd (Prod.mk.inj htail).1 hx

theorem size_le_of_full {q : Xq} {l : List xptr} (h : q.Repr l) (hfull : l.length = q.size.toNat) :
    l.length ≤ 2 ^ 30 := by
  rcases h.snapped with hzero | ⟨k, hk, hsize⟩
  · rw [hfull, hzero]
    exact Nat.zero_le _
  · by_cases hk31 : k < 31
    · rw [hfull, hsize, snapOf_toNat hk31]
      exact Nat.pow_le_pow_right (by decide) (by omega)
    · have hlt := h.length_lt
      rw [hfull, hsize, snapOf, if_neg hk31] at hlt
      exact absurd hlt (by decide)

/-- An append that fails, after its attempt to grow the queue too, leaves the requests in their
order. -/
theorem appendGrowing_fails [Builtins] {q q' : Xq} {l : List xptr} {x : xptr} {flags : UInt32}
    {chunk : QueueChunk} (h : q.Repr l) (hx : x ≠ Noneidx) (hheap : FromHeap chunk (q.size * 2))
    (happ : appendGrowing q x flags chunk = (Noneidx, q')) : q'.elems = l := by
  have hkept : (Noneidx, q) = (Noneidx, q') → q'.elems = l := by
    intro heq
    obtain ⟨-, rfl⟩ := Prod.mk.inj heq
    exact h.elems_eq
  rcases htail : q.appendTail x with ⟨serial, q₀⟩
  by_cases hserial : serial = Noneidx
  swap
  · have hgrow : appendGrowing q x flags chunk = (serial, q₀) := by
      unfold appendGrowing
      rw [htail]
      exact if_neg fun hc => hserial hc.2
    rw [hgrow] at happ
    exact absurd (Prod.mk.inj happ).1 hserial
  obtain rfl := hserial
  obtain ⟨hsame, hfull⟩ := appendTail_fails h hx htail
  rw [hsame] at htail
  unfold appendGrowing at happ
  rw [htail] at happ
  dsimp only at happ
  split at happ
  swap
  · exact hkept happ
  cases hnew : allocQueue chunk with
  | none =>
    rw [hnew] at happ
    exact hkept happ
  | some newq =>
    rw [hnew] at happ
    dsimp only at happ
    have hempty : newq.Repr [] := by
      obtain ⟨c, -, rfl⟩ := Option.map_eq_some_iff.mp hnew
      exact Xq.repr_initEmpty _ _
    rcases Nat.lt_or_ge newq.size.toNat l.length with hsmall | hroom
    · rw [Xq.resize_full h hsmall, if_pos rfl] at happ
      exact hkept happ
    have hlen := size_le_of_full h hfull
    obtain ⟨q₁, hresize, -, hrepr, hsize⟩ := Xq.Repr.resize_room h hempty hroom
    rw [hresize] at happ
    dsimp only at happ
    split at happ
    · exact hkept happ
    obtain ⟨rfl, hfull₁⟩ := appendTail_fails hrepr hx happ
    rw [hrepr.elems_eq]
    -- the new queue is full as well, so there was nothing to turn around
    cases l with
    | nil => rfl
    | cons y l =>
      have htwice : (q.size * 2).toNat = 2 * (y :: l).length := by
        rw [UInt64.toNat_mul, ← hfull]
        simp only [UInt64.reduceToNat]
        omega
      have hmore := hheap.room hnew (by rw [htwice, List.length_cons]; omega) (by omega)
      have hwindow := Xq.window_le_size newq.size
      rw [hsize, List.length_reverse] at hfull₁
      omega

variable {s s' : Xseg} {p : xport} {port : Port} {x : xptr} {l : List xport}

/-- The requests in a queue of port `p`, in their order; `none` if there is no port `p`. -/
def content (s : Xseg) (p : xport) (kind : QueueKind) : Option (List xptr) :=
  (s.getPort p).map fun port => (port.queue kind).elems

/-- The path of `x` and all queues hold the same sequences in `s` and in `s'`. -/
structure ChangesNothing (s s' : Xseg) (x : xptr) : Prop where
  path : (s'.requests x).path.elems = (s.requests x).path.elems
  queues : ∀ p kind, s'.content p kind = s.content p kind

theorem content_setPort {q : Xq} {kind : QueueKind} (hport : s.getPort p = some port)
    (hq : q.elems = (port.queue kind).elems) (p' : xport) (kind' : QueueKind) :
    (s.setPort p (port.setQueue kind q)).content p' kind' = s.content p' kind' := by
  have hch := changes_setPort hport (port.setQueue kind q)
  unfold content
  by_cases hp : p' = p
  · rw [hp, hch.port, hport, Option.map_some, Option.map_some]
    by_cases hkind : kind' = kind
    · rw [hkind, Port.queue_setQueue, hq]
    · rw [Port.queue_setQueue_of_ne _ hkind]
  · rw [hch.others hp]

theorem path_popped {path path' : Xq} {cur : xport} {pushed : xqindex} (h : PathIs path l)
    (hpush : path.appendHead cur.toUInt64 = (pushed, path')) (hpushed : pushed ≠ Noneidx) :
    path'.popHead.2.elems = path.elems := by
  rcases h.push cur with hfull | ⟨path₁, hpush₁, hpath₁⟩
  · rw [hfull] at hpush
    exact absurd (Prod.mk.inj hpush).1.symm hpushed
  · rw [hpush₁] at hpush
    obtain ⟨-, rfl⟩ := Prod.mk.inj hpush
    obtain ⟨path₂, hpop, hpath₂⟩ := hpath₁.pop
    rw [hpop, hpath₂.repr.elems_eq, h.repr.elems_eq]

/-- A submit that fails leaves the path of the request and all queues as they were. -/
theorem submit_changesNothing [Builtins] {portno : xport} {flags : UInt32} {chunk : QueueChunk}
    {turns : Nat} (hs : s.Wf) (hx : x ≠ Noneidx) (hpath : PathIs (s.requests x).path l)
    (hchunk : s.DoubledChunk x turns chunk)
    (hsub : s.submit x portno flags chunk turns = some (NoPort, s')) :
    s.ChangesNothing s' x := by
  rcases submit_cases hsub with
    ⟨-, rfl⟩ | ⟨p, port, pushed, path, serial, q, hfound, hpush, hpushed, happ, hr⟩
  · exact ⟨rfl, fun _ _ => rfl⟩
  have hport := discover_spec hfound
  by_cases hserial : serial = Noneidx
  · rw [if_pos hserial] at hr
    obtain ⟨-, rfl⟩ := Prod.mk.inj hr
    rw [hserial] at happ
    have hq := appendGrowing_fails (hs.queues hport _) hx (hchunk p port hfound) happ
    refine ⟨?_, fun p' kind => ?_⟩
    · rw [setPath, requests_setRequest]
      exact path_popped hpath hpush hpushed
    · have hport' : (s.setPath x path).getPort p = some port := hport
      exact content_setPort hport' hq p' kind
  · rw [if_neg hserial] at hr
    exact absurd (Prod.mk.inj hr).1.symm (getPort_ne_noPort hport)

def fullQueue : Xq := ⟨1, -256, 256, fun i => 8192 + 512 * i⟩

theorem fullQueue_length : fullQueue.elems.length = 256 := by
  rw [Xq.elems, List.length_map, List.length_range]
  rfl

theorem repr_fullQueue : fullQueue.Repr fullQueue.elems where
  snapped := .inr ⟨8, by decide, rfl⟩
  count := by
    rw [fullQueue_length]
    rfl
  fits := by
    rw [fullQueue_length]
    decide
  elems := by
    intro i y hi
    rw [Xq.elems, List.getElem?_map, Option.map_eq_some_iff] at hi
    obtain ⟨k, hk, hy⟩ := hi
    obtain ⟨hlt, rfl⟩ := List.getElem?_eq_some_iff.mp hk
    rw [List.getElem_range] at hy
    exact hy

def fullPort [Builtins] : Port := madePort.setQueue .request fullQueue

def fullSeg [Builtins] : Xseg := (sentSeg 3).setPort 2 fullPort

/-- The queue of port 2 is full, and the heap has no chunk for another one. -/
theorem submit_changesNothing_full : ∃ (_ : Builtins) (s' : Xseg),
    fullSeg.submit 4096 0 X_ALLOC none 1 = some (NoPort, s') ∧ fullSeg.ChangesNothing s' 4096 := by
  let _ : Builtins := ⟨0⟩
  have hpath : PathIs (fullSeg.requests 4096).path [] := PathIs.emptyPath _
  have hport : fullSeg.getPort 2 = some fullPort := rfl
  have hwf : fullSeg.Wf := by
    refine ⟨fun {p port} hp kind => ?_, (sentSeg_wf 3).handler⟩
    have hat : (sentSeg 3).getPort 2 = some madePort := rfl
    rw [fullSeg, getPort_setPort hat] at hp
    split at hp
    · obtain rfl := Option.some.inj hp
      by_cases hkind : kind = .request
      · rw [hkind, fullPort, Port.queue_setQueue]
        exact repr_fullQueue
      · rw [fullPort, Port.queue_setQueue_of_ne madePort hkind]
        exact (sentSeg_wf 3).queues hat kind
    · exact (sentSeg_wf 3).queues hp kind
  have hfull : appendGrowing fullQueue 4096 X_ALLOC none = (Noneidx, fullQueue) := by
    unfold appendGrowing
    rw [repr_fullQueue.appendTail_full fullQueue_length]
    rfl
  obtain ⟨s', hsub⟩ : ∃ s', fullSeg.submit 4096 0 X_ALLOC none 1 = some (NoPort, s') := by
    have hcur : fullSeg.validatePort (fullSeg.requests 4096).transitPortno :=
      show (0 : xport) < 4 by decide
    have hdst : fullSeg.validatePort (fullSeg.requests 4096).effectiveDstPortno :=
      show (2 : xport) < 4 by decide
    have hfound : fullSeg.discover (fullSeg.requests 4096).effectiveDstPortno 1
        (fullSeg.requests 4096).transitPortno = some (some (2, _)) :=
      discover_takes (show (0 : xport) ≠ 2 by decide) hport (show (3 : UInt32) ≠ 0 by decide) 0
    unfold submit deliver appendQueue
    dsimp only
    rw [if_neg (not_not_intro hcur), if_neg (not_not_intro hdst), hfound]
    dsimp only
    split
    · exact ⟨_, rfl⟩
    · exact ⟨_, congrArg some (if_pos (congrArg Prod.fst hfull))⟩
  have hchunk : fullSeg.DoubledChunk 4096 1 none := fun _ _ _ _ h => by cases h
  exact ⟨⟨0⟩, s', hsub, submit_changesNothing hwf (by decide) hpath hchunk hsub⟩

end Xseg

end Libxseg
