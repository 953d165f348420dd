import Libxseg.Xseg

/-!
# The requests that a port keeps: xseg_alloc_requests and its neighbours

`xseg_alloc_requests` fills the free queue of a port with new requests, `xseg_free_requests`
empties it again, `xseg_set_freequeue_size` moves it into another queue, and
`xseg_set_max_requests` sets the limit of the port. The two loops look at the next request
before they count, so they take one request more than they keep.
-/

namespace Libxseg

set_option autoImplicit false

def XSEG_MAX_ALLOCATED_REQS : UInt64 := 10000

namespace Xseg

/-- The loop of `xseg_alloc_requests` with `i` requests in the queue and `left` turns until
`i < nr` fails; the request that was drawn before is lost then. The result is `i`. -/
def fillFree (s : Xseg) (portno : xport) (port : Port) (mems : Nat → Option (xptr × UInt64))
    (left i : Nat) : Nat × Xseg :=
  match s.requestH.getObj X_ALLOC (mems i) with
  | (none, h) => (i, { s with requestH := h })
  | (some req, h) =>
    let s := { s with requestH := h }
    match left with
    | 0 => (i, s)
    | left + 1 =>
      let (xqi, q) := (port.queue .free).appendTail req
      let port := port.setQueue .free q
      let s := s.setPort portno port
      if xqi = Noneidx then (i, s.putObj req) else fillFree s portno port mems left (i + 1)

/-- The loop of `xseg_free_requests`, as `fillFree`. -/
def drainFree (s : Xseg) (portno : xport) (port : Port) (left i : Nat) : Nat × Xseg :=
  let (xqi, q) := (port.queue .free).popHead
  let port := port.setQueue .free q
  let s := s.setPort portno port
  if xqi = Noneidx then (i, s)
  else
    match left with
    | 0 => (i, s)
    | left + 1 => drainFree (s.putObj xqi) portno port left (i + 1)

/-- `port->alloc_reqs -= i` -/
def settleFreed (s : Xseg) (portno : xport) (port : Port) (i : Nat) : Xseg :=
  s.setPort portno { port with allocReqs := port.allocReqs - UInt64.ofNat i }

/-- The section of `xseg_set_max_requests` under `fq_lock`, with the result. -/
def limitReqs (s : Xseg) (portno : xport) (port : Port) (nr_reqs : UInt64) : Int × Xseg :=
  if (port.queue .free).size ≤ nr_reqs then
    (0, s.setPort portno { port with maxAllocReqs := nr_reqs })
  else (-1, s)

/-- `port->max_alloc_reqs = nr_reqs` -/
def setMaxAllocReqs (s : Xseg) (portno : xport) (port : Port) (nr_reqs : UInt64) : Xseg :=
  s.setPort portno { port with maxAllocReqs := nr_reqs }

theorem popHead_count_sub_one {q : Xq} (h : q.count ≠ 0) : q.popHead.2.count = q.count - 1 := by
  rw [Xq.popHead, if_neg h]
  simp only [Xq.count]
  grind

/-- The loop of `xseg_set_freequeue_size`: requests that do not fit are put back. -/
def dropExcess (s : Xseg) (size : xqindex) (q : Xq) : Xq × Xseg :=
  if size < q.count then
    dropExcess (if q.popHead.1 = Noneidx then s else s.putObj q.popHead.1) size q.popHead.2
  else (q, s)
termination_by q.count.toNat
decreasing_by
  have hpos := UInt64.lt_iff_toNat_lt.mp ‹size < q.count›
  have hcount : q.count ≠ 0 := fun h0 => by
    rw [h0, UInt64.toNat_zero] at hpos
    omega
  rw [popHead_count_sub_one hcount, UInt64.toNat_sub, UInt64.toNat_one]
  omega

/-- The section of `xseg_set_freequeue_size` under `fq_lock`, with the result. -/
def resizeFree (s : Xseg) (portno : xport) (port : Port) (newq : Xq) : Int × Xseg :=
  let (q, s) := s.dropExcess newq.size (port.queue .free)
  match q.resize newq with
  | (r, newq) =>
    if r = Noneidx then (-1, s.setPort portno (port.setQueue .free q))
    else (0, s.setPort portno (port.setQueue .free newq))

end Xseg

end Libxseg
