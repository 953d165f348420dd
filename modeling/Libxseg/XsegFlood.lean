import Libxseg.XsegSteps

/-!
# Flooding a reply queue

For a queue of 2^31 elements `__snap` computes the size 0xFFFFFFFF80000000. Such a
queue never fills up, and uses a slot again before the request in it was taken.
Here the requests of many ports are brought into the reply queue of port 0, which
begins with 256 slots as all queues do and doubles whenever it is full.
-/

namespace Libxseg

set_option autoImplicit false

open Xseg

section Stock
variable {h : XobjectH} {i : Nat}

/-- Chunks were taken one after the other, at most one for each of `i` calls. -/
structure Stocked (i : Nat) (h : XobjectH) : Prop where
  objSize : h.objSize = 456
  chunks : ∀ d ∈ h.allocated, d.1.toNat + d.2.toNat ≤ 4096 + 32768 * i
  list : ∀ x ∈ h.list, x ≠ Noneidx

/-- The next chunk: 64 requests and a header fill less than eight pages. -/
def nextChunk (i : Nat) : xptr × UInt64 := (UInt64.ofNat (4096 + 32768 * i), 32744)

theorem nextChunk_fst (hi : i < 2 ^ 32) : (nextChunk i).1.toNat = 4096 + 32768 * i :=
  UInt64.toNat_ofNat_of_lt' (show 4096 + 32768 * i < 2 ^ 64 by omega)

theorem Stocked.heapChunk (hs : Stocked i h) (hi : i < 2 ^ 32) : h.HeapChunk (nextChunk i) := by
  have hsize : (nextChunk i).2.toNat = 32744 := rfl
  refine ⟨?_, fun d hd => .inr ?_⟩
  · rw [nextChunk_fst hi, hsize]
    omega
  · rw [nextChunk_fst hi]
    exact hs.chunks d hd

theorem Stocked.getObj (hs : Stocked i h) (hi : i < 2 ^ 32) :
    ∃ mem x h', (∀ c, mem = some c → h.HeapChunk c) ∧
      h.getObj (X_ALLOC &&& X_ALLOC) mem = (some x, h') ∧ x ≠ Noneidx ∧ Stocked (i + 1) h' := by
  have hmore {d : xptr × UInt64} (hd : d.1.toNat + d.2.toNat ≤ 4096 + 32768 * i) :
      d.1.toNat + d.2.toNat ≤ 4096 + 32768 * (i + 1) := by
    omega
  cases hlist : h.list with
  | cons x rest =>
    refine ⟨none, x, { h with list := rest, nrFree := h.nrFree - 1 }, by simp, ?_,
      hs.list x (by simp [hlist]), hs.objSize, fun d hd => hmore (hs.chunks d hd), fun y hy => ?_⟩
    · simp only [XobjectH.getObj, hlist, XobjectH.popObj_cons hlist]
    · exact hs.list y (by rw [hlist]; exact List.mem_cons_of_mem x hy)
  | nil =>
    have hchunk := hs.heapChunk hi
    have hsize : (nextChunk i).2.toNat = 32744 := rfl
    obtain ⟨x, rest, hobjs⟩ : ∃ x rest, h.chunkObjects (nextChunk i) = x :: rest := by
      unfold XobjectH.chunkObjects
      rw [hs.objSize, carve, if_pos (by rw [hsize]; decide)]
      exact ⟨_, _, rfl⟩
    have hne {y : xptr} (hy : y ∈ h.chunkObjects (nextChunk i)) : y ≠ Noneidx :=
      XobjectH.ne_noneidx hchunk.1 hy
    obtain ⟨h1, halloc⟩ : ∃ h1, h.allocObj (some (nextChunk i)) = some h1 := by
      unfold XobjectH.allocObj
      dsimp only
      rw [hobjs]
      exact ⟨_, rfl⟩
    obtain ⟨c, x', rest', hc, hobjs', hobjSize, hallocated, hlist1, -⟩ :=
      XobjectH.allocObj_inv halloc
    obtain rfl := Option.some.inj hc
    obtain ⟨rfl, rfl⟩ := List.cons.inj (hobjs.symm.trans hobjs')
    rw [hlist, List.append_nil] at hlist1
    refine ⟨some (nextChunk i), x, { h1 with list := rest, nrFree := h1.nrFree - 1 }, ?_, ?_,
      hne (by simp [hobjs]), hobjSize.trans hs.objSize, fun d hd => ?_, fun y hy => ?_⟩
    · rintro c hc
      obtain rfl := Option.some.inj hc
      exact hchunk
    · have hflag : ¬ X_ALLOC &&& X_ALLOC &&& X_ALLOC = 0 := by decide
      simp only [XobjectH.getObj, hlist, if_neg hflag, halloc, XobjectH.popObj_cons hlist1]
    · rcases List.mem_cons.mp (hallocated ▸ hd) with rfl | hd
      · rw [nextChunk_fst hi, hsize]
        omega
      · exact hmore (hs.chunks d hd)
    · exact hne (by rw [hobjs]; exact List.mem_cons_of_mem x hy)

end Stock

section Replies
variable {i : Nat} {q : Xq}

structure Replies (i : Nat) (q : Xq) : Prop where
  head : q.head = 1
  tail : q.tail = 0 - UInt64.ofNat i
  doubled : ∃ k, 8 ≤ k ∧ k ≤ 31 ∧ q.size = snapOf k ∧ (k < 31 → ∃ l, q.Repr l)

theorem Replies.count (h : Replies i q) : q.count = UInt64.ofNat i := by
  rw [Xq.count, h.head, h.tail]
  grind

theorem Replies.length (h : Replies i q) (hi : i < 2 ^ 64) {l : List xptr} (hl : q.Repr l) :
    l.length = i := by
  rw [← hl.count, h.count, UInt64.toNat_ofNat_of_lt' hi]

/-- The queue could not have got so many requests with a right size. -/
theorem Replies.size (h : Replies i q) (hi : i < 2 ^ 64) (hlt : 2 ^ 30 < i) :
    q.size = snapOf 31 := by
  obtain ⟨k, -, hk, hsize, hrepr⟩ := h.doubled
  rcases Nat.lt_or_eq_of_le hk with hk | rfl
  · obtain ⟨l, hl⟩ := hrepr hk
    have hfits := hl.fits
    have hpow : 2 ^ k ≤ 2 ^ 30 := Nat.pow_le_pow_right (by decide) (by omega)
    rw [hsize, window_snapOf (by omega), h.length hi hl] at hfits
    omega
  · exact hsize

theorem replies_of_repr {l : List xptr} {x : xptr} {k : Nat} (hhead : q.head = 1)
    (hrepr : q.Repr (l ++ [x])) (hlen : l.length = i) (hi : i + 1 < 2 ^ 64) (hk8 : 8 ≤ k)
    (hk : k ≤ 31) (hsize : q.size = snapOf k) :
    Replies (i + 1) q ∧ q.get (q.tail + 1) = x := by
  have hcount : q.count = UInt64.ofNat (i + 1) := by
    apply UInt64.toNat_inj.mp
    rw [hrepr.count, List.length_append, hlen, UInt64.toNat_ofNat_of_lt' hi]
    rfl
  have htail : q.tail = 0 - UInt64.ofNat (i + 1) := by
    rw [← hcount, Xq.count, hhead]
    grind
  refine ⟨⟨hhead, htail, k, hk8, hk, hsize, fun _ => ⟨_, hrepr⟩⟩, ?_⟩
  have hlast : (l ++ [x])[i]? = some x := by
    rw [← hlen]
    simp
  rw [← hrepr.elems hlast, hhead, htail]
  congr 1
  rw [UInt64.ofNat_add]
  grind

/-- With the size of 2^31 elements there is room for any number of them. -/
theorem Replies.append_wrong [Builtins] (h : Replies i q) (hsize : q.size = snapOf 31)
    (hi : i < 2 ^ 31 + 2) {x : xptr} (hx : x ≠ Noneidx) :
    ∃ q', appendGrowing q x X_ALLOC none = (x, q') ∧ Replies (i + 1) q' ∧
      q'.get (q'.tail + 1) = x := by
  have hroom : ¬ ¬ q.count + 1 ≤ q.size := by
    rw [not_not, h.count, hsize, UInt64.le_iff_toNat_le, UInt64.toNat_add,
      UInt64.toNat_ofNat_of_lt' (show i < 2 ^ 64 by omega)]
    have hw : (snapOf 31).toNat = 0xFFFFFFFF80000000 := by decide
    rw [hw, UInt64.toNat_one]
    omega
  have happ : q.appendTail x = (x, { q with tail := q.tail - 1 }.put (q.tail - 1 + 1) x) :=
    if_neg hroom
  refine ⟨{ q with tail := q.tail - 1 }.put (q.tail - 1 + 1) x, ?_, ⟨h.head, ?_, 31, by decide,
    Nat.le_refl _, hsize, fun hlt => absurd hlt (Nat.lt_irrefl _)⟩, Xq.get_put_same _ _ _⟩
  · simp only [appendGrowing, happ, hx, and_false, if_false]
  · rw [Xq.put_tail, h.tail, UInt64.ofNat_add]
    grind

/-- One more request finds its place: there is room, or the queue doubles. -/
theorem Replies.append [Builtins] (h : Replies i q) (hi : i < 2 ^ 31 + 2) {x : xptr}
    (hx : x ≠ Noneidx) :
    ∃ chunk q', FromHeap chunk (q.size * 2) ∧ appendGrowing q x X_ALLOC chunk = (x, q') ∧
      Replies (i + 1) q' ∧ q'.get (q'.tail + 1) = x := by
  obtain ⟨k, hk8, hk, hsize, hrepr⟩ := h.doubled
  rcases Nat.lt_or_eq_of_le hk with hk31 | rfl
  swap
  · obtain ⟨q', happ⟩ := h.append_wrong hsize hi hx
    exact ⟨none, q', .none _, happ⟩
  obtain ⟨l, hl⟩ := hrepr hk31
  have hlen := h.length (by omega) hl
  have hw : window q.size = 2 ^ k := by rw [hsize, window_snapOf hk]
  rcases Nat.lt_or_ge i (2 ^ k) with hroom | hfull
  · obtain ⟨q', happ, hr, hs⟩ := hl.appendTail (show l.length < window q.size by omega) x
    have hhead : q'.head = 1 := by
      rw [← h.head]
      simpa [happ] using Xq.appendTail_head q x
    refine ⟨none, q', .none _, ?_, replies_of_repr hhead hr hlen (by omega) hk8 hk (hs.trans hsize)⟩
    simp only [appendGrowing, happ, hx, and_false, if_false]
  · -- the queue is full: its requests go to one of twice the size
    have hfits := hl.fits
    have hlen' : l.length = q.size.toNat := by
      rw [hsize, snapOf_toNat hk31]
      omega
    obtain ⟨c, hheap, hnew⟩ := exists_doubled hk31 hk8
    have hempty := Xq.repr_initEmpty ((c.1 - 48) / 8) c.2
    have hwnew : window (Xq.initEmpty ((c.1 - 48) / 8) c.2).size = 2 ^ (k + 1) := by
      rw [hnew, window_snapOf hk31]
    have hpow : 2 ^ k < 2 ^ (k + 1) := Nat.pow_lt_pow_right (by decide) (Nat.lt_succ_self k)
    obtain ⟨q₁, hq₁, hr₁, hs₁⟩ := hl.resize hempty (by omega)
    obtain ⟨q₂, hq₂, hr₂, hs₂⟩ := hr₁.appendTail
      (show l.reverse.length < window q₁.size by rw [hs₁, List.length_reverse]; omega) x
    have hhead : q₂.head = 1 := by
      have h₁ : q₁.head = 1 := by
        have hsame := Xq.resize_head q (Xq.initEmpty ((c.1 - 48) / 8) c.2)
        rwa [hq₁] at hsame
      rw [← h₁]
      simpa [hq₂] using Xq.appendTail_head q₁ x
    have hnr : q.count ≠ Noneidx := by
      intro hcount
      have hn := hl.count
      rw [hcount] at hn
      have hnone : Noneidx.toNat = 2 ^ 64 - 1 := by decide
      omega
    refine ⟨some c, q₂, hsize ▸ hheap, ?_, replies_of_repr hhead hr₂ (by simpa using hlen)
      (by omega) (by omega) hk31 ((hs₂.trans hs₁).trans hnew)⟩
    have halloc : X_ALLOC &&& X_ALLOC ≠ 0 := by decide
    simp only [appendGrowing, hl.appendTail_full hlen', halloc, ne_eq, not_false_eq_true, true_and,
      if_true, allocQueue, Option.map_some, hq₁, if_neg hnr, hq₂]

end Replies

section Flood
variable {s s' : Xseg} {i : Nat}

/-- A segment in which `i` requests wait in the reply queue of port 0. Port 1 passes requests on,
and port `k + 2` has got a request for each `i` with `i / 1024 = k`. -/
structure Flooded (i : Nat) (s : Xseg) : Prop where
  nr : s.nrPorts = 0x400000
  next : s.pathNext = fun _ => NoPort
  stock : Stocked i s.requestH
  zero : ∃ port, s.getPort 0 = some port ∧ port.flags = 3 ∧
    Xseg.Holding (port.queue .request) [] ∧ Replies i (port.queue .reply) ∧
    (0 < i → ∃ x k t, x ≠ Noneidx ∧ k ≠ 0 ∧ Xseg.Tracks (s.requests x) [0, k] t ∧
      (port.queue .reply).get ((port.queue .reply).tail + 1) = x)
  one : ∃ port, s.getPort 1 = some port ∧ port.flags = 3 ∧
    Xseg.Holding (port.queue .request) []
  sources : ∀ k, i / 1024 ≤ k → k < 0x3FFFFE → ∃ port,
    s.getPort (UInt32.ofNat (k + 2)) = some port ∧ (port.queue .free).Repr [] ∧
    port.maxAllocReqs = 1024 ∧
    port.allocReqs = if k = i / 1024 then UInt64.ofNat (i % 1024) else 0

/-- A round of the flood: the source port `k` gets a request and submits it to port 0, which
forwards it to port 1, which responds. -/
def roundEvents (k : xport) (x : xptr) : List (Unit × Event) :=
  [((), .miss k 0 X_ALLOC), ((), .got k 0 X_ALLOC x), ((), .submit x k 0 0),
    ((), .accept 0 0 (some x)), ((), .forward x 1 0 0 1), ((), .accept 1 0 (some x)),
    ((), .respond x 1 X_ALLOC 0)]

theorem round_run [Builtins] {k : xport} {x : xptr} {portk port0 : Port}
    {mem : Option (xptr × UInt64)} {chunk : QueueChunk} {s s1 s2 s3 s4 s5 s6 s7 : Xseg}
    (hportk : s.getPort k = some portk) (h0 : s.getPort 0 = some port0)
    (hfree : (portk.queue .free).Repr []) (hmem : ∀ c, mem = some c → s.requestH.HeapChunk c)
    (halloc : s.getAlloc k portk X_ALLOC mem = (some x, s1))
    (hdone : s1.getDone x k 0 = (true, s2))
    (hsub : s2.submit x k 0 none 1 = some (0, s3)) (hacc : s3.accept 0 = (some x, s4))
    (hfwd : s4.forward x 1 0 0 none 1 = some (1, s5)) (hacc' : s5.accept 1 = (some x, s6))
    (hchunk : s6.DoubledReply x chunk) (hresp : s6.respond x 1 X_ALLOC chunk = (0, s7)) :
    Run (Guarded World.Step fun w b => b.2.Mapped w.seg) (solo s [] .idle) (roundEvents k x)
      (solo s7 [] .idle) := by
  have hmapped : (s.getPort k).isSome ∧ (s.getPort 0).isSome := by simp [hportk, h0]
  have hidle : ∀ (s : Xseg) (hands : List xptr),
      (solo s hands .idle).peers () = ⟨hands, .idle⟩ := fun _ _ => rfl
  have hx : ∀ s : Xseg, x ∈ ((solo s [x] .idle).peers ()).hands := fun _ =>
    List.mem_singleton_self x
  have hone : [x].erase x = [] := by simp
  have hmiss := miss_step (show X_ALLOC &&& X_LOCAL = 0 by decide) (hidle s []) hportk hfree 0
  have hgot :=
    got_step (w := solo s [] (.getting k 0 X_ALLOC)) (i := ()) rfl hportk hmem halloc hdone
  have hsub := submit_step k (hidle s2 [x]) (hx s2) (by decide) hsub
  have hacc := accept_step (hidle s3 []) hacc
  have hfwd := forward_step 0 (hidle s4 [x]) (hx s4) (by decide) hfwd
  have hacc' := accept_step (hidle s5 []) hacc'
  have hresp := respond_step 1 (hidle s6 [x]) (hx s6) (by decide) hchunk hresp
  rw [act_solo] at hmiss hgot hsub hacc hfwd hacc' hresp
  rw [hone] at hsub hfwd hresp
  refine Run.cons ⟨hmapped, hmiss⟩ (Run.cons ⟨hmapped, hgot⟩ ?_)
  refine Run.cons ⟨trivial, hsub⟩ (Run.cons ⟨trivial, hacc⟩ ?_)
  exact Run.cons ⟨trivial, hfwd⟩ (Run.cons ⟨trivial, hacc'⟩ (Run.single ⟨trivial, hresp⟩))

theorem source_toNat {n : Nat} (hn : n < 0x3FFFFE) :
    (UInt32.ofNat (n + 2)).toNat = n + 2 :=
  UInt32.toNat_ofNat_of_lt' (show n + 2 < 2 ^ 32 by omega)

theorem source_ne {n : Nat} {p : xport} (hp : p.toNat = n + 2) : p ≠ 0 ∧ p ≠ 1 := by
  constructor
  · rintro rfl
    simp at hp
  · rintro rfl
    rw [UInt32.toNat_one] at hp
    omega

/-- Another request has been drawn for the source port of the round. -/
theorem Flooded.sources_succ (h : Flooded i s) (hi : i < 2 ^ 31 + 2) {k : xport}
    (hk : k = UInt32.ofNat (i / 1024 + 2)) {portk : Port} (hportk : s.getPort k = some portk)
    (hnew : s'.getPort k = some { portk with allocReqs := portk.allocReqs + 1 })
    (hothers : ∀ {p}, p ≠ 0 → p ≠ 1 → p ≠ k → s'.getPort p = s.getPort p) (n : Nat)
    (hn : (i + 1) / 1024 ≤ n) (hlt : n < 0x3FFFFE) : ∃ port,
      s'.getPort (UInt32.ofNat (n + 2)) = some port ∧ (port.queue .free).Repr [] ∧
      port.maxAllocReqs = 1024 ∧
      port.allocReqs = if n = (i + 1) / 1024 then UInt64.ofNat ((i + 1) % 1024) else 0 := by
  rcases Nat.lt_or_ge (i / 1024) n with hgt | hle
  · obtain ⟨hp0, hp1⟩ := source_ne (source_toNat hlt)
    have hpk : UInt32.ofNat (n + 2) ≠ k := by
      intro heq
      have hsame := congrArg UInt32.toNat (heq.trans hk)
      rw [source_toNat hlt, source_toNat (by omega)] at hsame
      omega
    obtain ⟨port, hport, hfree, hmax, halloc⟩ := h.sources n (by omega) hlt
    refine ⟨port, (hothers hp0 hp1 hpk).trans hport, hfree, hmax, ?_⟩
    rw [halloc, if_neg (by omega)]
    split
    · rw [show (i + 1) % 1024 = 0 by omega]
      rfl
    · rfl
  · obtain rfl : n = i / 1024 := by omega
    obtain ⟨port, hport, hfree, hmax, halloc⟩ := h.sources _ (Nat.le_refl _) hlt
    obtain rfl : port = portk := Option.some.inj (hport.symm.trans (hk ▸ hportk))
    rw [hk] at hnew
    refine ⟨_, hnew, hfree, hmax, ?_⟩
    have hsame : i / 1024 = (i + 1) / 1024 := by omega
    have hmod : (i + 1) % 1024 = i % 1024 + 1 := by omega
    rw [if_pos hsame, hmod, halloc, if_pos rfl, UInt64.ofNat_add]
    rfl

/-- One more request comes to the reply queue of port 0: a port gets it and submits it to port 0,
which forwards it to port 1, which responds. -/
theorem Flooded.round [Builtins] (h : Flooded i s) (hi : i < 2 ^ 31 + 2) :
    ∃ as s', Run (Guarded World.Step fun w b => b.2.Mapped w.seg) (solo s [] .idle) as
        (solo s' [] .idle) ∧ Flooded (i + 1) s' := by
  obtain ⟨port0, h0, hf0, hq0, hreplies, -⟩ := h.zero
  obtain ⟨port1, h1, hf1, hq1⟩ := h.one
  have hk : i / 1024 < 0x3FFFFE := by omega
  obtain ⟨portk, hportk, hfree, hmax, halloc⟩ := h.sources _ (Nat.le_refl _) hk
  obtain ⟨k, hk'⟩ : ∃ k, k = UInt32.ofNat (i / 1024 + 2) := ⟨_, rfl⟩
  obtain ⟨hk0, hk1⟩ : k ≠ 0 ∧ k ≠ 1 := source_ne (hk' ▸ source_toNat hk)
  rw [← hk'] at hportk
  obtain ⟨mem, x, h', hmem, hobj, hx, hstock⟩ := h.stock.getObj (by omega)
  have hlt : portk.allocReqs < portk.maxAllocReqs := by
    rw [halloc, if_pos rfl, hmax, UInt64.lt_iff_toNat_lt,
      UInt64.toNat_ofNat_of_lt' (show i % 1024 < 2 ^ 64 by omega)]
    exact Nat.mod_lt i (by decide)
  -- the source port gets the request
  obtain ⟨s1, s2, hget1, hget2, hnr2, hnext2, hlist2, hk2, hother2, ht2, he2⟩ :=
    obtain_reaches hportk hlt hobj (getPort_lt h0)
  have h02 : s2.getPort 0 = some port0 := (hother2 hk0.symm).trans h0
  have h12 : s2.getPort 1 = some port1 := (hother2 hk1.symm).trans h1
  -- it submits it to port 0
  obtain ⟨s3, q3, hsub, hch3, hq3, ht3⟩ := submit_reaches hx ht2 he2 (getPort_lt hk2)
    hk0 (by rw [hnext2, h.next]) h02 (by rw [hf0]; decide) hq0 (by decide) k 0
  obtain ⟨s4, q4, hacc4, hch4, hq4, ht4⟩ :=
    accept_reaches hx ht3 hch3.port (by simpa using hq3)
  have h14 : s4.getPort 1 = some port1 := by
    rw [hch4.others (by decide), hch3.others (by decide), h12]
  -- port 0 forwards it to port 1
  obtain ⟨s5, q5, hfwd, hch5, hq5, ht5⟩ := forward_reaches 1 hx ht4
    (getPort_lt hch4.port) (by decide) (by rw [hch4.next, hch3.next, hnext2, h.next]) h14
    (by rw [hf1]; decide) hq1 (by simp) 0
  obtain ⟨s6, q6, hacc6, hch6, hq6, ht6⟩ :=
    accept_reaches hx ht5 hch5.port (by simpa using hq5)
  -- and port 1 responds
  obtain ⟨port0', hport0'⟩ : ∃ port, port = (port0.setQueue .request q3).setQueue .request q4 :=
    ⟨_, rfl⟩
  have h06 : s6.getPort 0 = some port0' := by
    rw [hch6.others (by decide), hch5.others (by decide), hch4.port, hport0']
  have hreply : port0'.queue .reply = port0.queue .reply := by
    rw [hport0', Port.queue_setQueue_of_ne _ (by decide), Port.queue_setQueue_of_ne _ (by decide)]
  have hreq0 : port0'.queue .request = q4 := by
    rw [hport0', Port.queue_setQueue]
  have hf0' : port0'.flags = 3 := by rw [hport0']; exact hf0
  obtain ⟨chunk, q7, hchunk, happ, hreplies7, hget7⟩ := hreplies.append hi hx
  rw [← hreply] at hchunk happ
  obtain ⟨s7, hresp, hch7, ht7⟩ := respond_reaches ht6 h06 hf0' happ hx 1
  have hchunk6 : s6.DoubledReply x chunk := by
    intro p port path hto
    rw [respondTo_reaches ht6 h06 hf0'] at hto
    cases hto
    exact hchunk
  have hothers : ∀ {p : xport}, p ≠ 0 → p ≠ 1 → s7.getPort p = s2.getPort p := by
    intro p hp0 hp1
    rw [hch7.others hp0, hch6.others hp1, hch5.others hp1, hch4.others hp0, hch3.others hp0]
  have hstock7 : s7.requestH = h' := by
    rw [hch7.list, hch6.list, hch5.list, hch4.list, hch3.list, hlist2]
  refine ⟨roundEvents k x, s7, ?_, ?_⟩
  · exact round_run hportk h0 hfree hmem hget1 hget2 hsub hacc4 hfwd hacc6 hchunk6 hresp
  · constructor
    · rw [hch7.nr, hch6.nr, hch5.nr, hch4.nr, hch3.nr, hnr2, h.nr]
    · rw [hch7.next, hch6.next, hch5.next, hch4.next, hch3.next, hnext2, h.next]
    · rw [hstock7]
      exact hstock
    · refine ⟨_, hch7.port, hf0', ?_, ?_⟩
      · rw [Port.queue_setQueue_of_ne _ (by decide), hreq0]
        exact hq4
      · rw [Port.queue_setQueue]
        exact ⟨hreplies7, fun _ => ⟨x, k, 1, hx, hk0, ht7, hget7⟩⟩
    · refine ⟨_, (hch7.others (by decide)).trans hch6.port, hf1, ?_⟩
      rw [Port.queue_setQueue]
      exact hq6
    · refine h.sources_succ hi hk' hportk ?_ fun hp0 hp1 hpk => ?_
      · exact (hothers hk0 hk1).trans hk2
      · exact (hothers hp0 hp1).trans (hother2 hpk)

theorem Replies.not_nodup_elems {q : Xq} (h : Replies i q) (hi : i = 2 ^ 31 + 2) :
    ¬ q.elems.Nodup := by
  intro hnd
  have hcount : q.count.toNat = i := by
    rw [h.count, UInt64.toNat_ofNat_of_lt' (show i < 2 ^ 64 by omega)]
  obtain ⟨m, hm⟩ : ∃ m, m = 2 ^ 31 + 1 := ⟨_, rfl⟩
  have hslot : q.get (q.head - 1 - UInt64.ofNat 1) = q.get (q.head - 1 - UInt64.ofNat m) := by
    have hcounter : UInt64.ofNat m = 0x80000001 := by
      rw [hm]
      rfl
    rw [h.head, hcounter]
    unfold Xq.get Xq.slot
    rw [h.size (by omega) (by omega)]
    exact congrArg q.queue (by decide)
  have := List.inj_on_of_nodup_map hnd (x := 1) (List.mem_range.mpr (by omega)) (y := m)
    (List.mem_range.mpr (by omega)) hslot
  omega

end Flood

section Flood
variable [Builtins]

def emptyHandler : XobjectH where
  objSize := 456
  allocated := []
  nrAllocated := 0
  allocatedSpace := 0
  list := []
  nrFree := 0

def floodSeg : Xseg := madeWith 0x400000 emptyHandler

theorem floodSeg_start : Start (solo floodSeg [] .idle) := by
  refine madeWith_start ⟨by decide, ?_, List.Pairwise.nil⟩ (List.Perm.refl _)
  intro c hc
  exact absurd hc List.not_mem_nil

theorem floodSeg_flooded : Flooded 0 floodSeg where
  nr := rfl
  next := rfl
  stock := by
    refine ⟨rfl, fun d hd => ?_, fun x hx => ?_⟩
    · exact absurd hd List.not_mem_nil
    · exact absurd hx List.not_mem_nil
  zero := by
    have hholding := madePort_holding .reply
    refine ⟨_, madeWith_getPort (by decide), rfl, madePort_holding .request, ⟨rfl, rfl, 8,
      Nat.le_refl _, by decide, hholding.size, fun _ => ⟨_, hholding.repr⟩⟩,
      fun h => absurd h (Nat.lt_irrefl 0)⟩
  one := ⟨_, madeWith_getPort (by decide), rfl, madePort_holding .request⟩
  sources := by
    intro k _ hk
    have hkn : (UInt32.ofNat (k + 2)).toNat = k + 2 := by
      rw [UInt32.toNat_ofNat_of_lt' (show k + 2 < 2 ^ 32 by omega)]
    have hlt : UInt32.ofNat (k + 2) < 0x400000 := by
      rw [UInt32.lt_iff_toNat_lt, hkn]
      have : (0x400000 : UInt32).toNat = 0x400000 := by decide
      omega
    refine ⟨_, madeWith_getPort hlt, (madePort_holding .free).repr, rfl, ?_⟩
    split <;> rfl

/-- The reply queue of port 0 can be made to take any number of requests up to 2^31 + 2. -/
theorem flood_run {n : Nat} (hn : n ≤ 2 ^ 31 + 2) :
    ∃ as s, Run (Guarded World.Step fun w b => b.2.Mapped w.seg) (solo floodSeg [] .idle) as
      (solo s [] .idle) ∧ Flooded n s := by
  induction n with
  | zero => exact ⟨[], floodSeg, .refl _, floodSeg_flooded⟩
  | succ n ih =>
    obtain ⟨as, s, hrun, hflood⟩ := ih (by omega)
    obtain ⟨bs, s', hround, hflood'⟩ := hflood.round (by omega)
    exact ⟨as ++ bs, s', hrun.trans hround, hflood'⟩

end Flood

section Receive
variable [Builtins] {s : Xseg} {hands : List xptr} {pc : Pc} {port : Port} {q : Xq}

/-- The segment after the head `y` of the reply queue of port 0 was popped, and the path of `y`
with it. -/
structure PoppedReply (s s' : Xseg) (port : Port) (q : Xq) : Prop where
  port : s'.getPort 0 = some (port.setQueue .reply { q with head := q.head - 1 })
  others : ∀ z, z ≠ q.get (q.head - 1) → s'.requests z = s.requests z
  popped : q.get (q.head - 1) ≠ Noneidx →
    (s'.requests (q.get (q.head - 1))).path = (s.requests (q.get (q.head - 1))).path.popHead.2

/-- Whatever the head of the queue is, one turn of receive pops it. -/
theorem receive_pops (hands : List xptr) (pc : Pc) (hpc : pc = .idle ∨ pc = .receiving 0 0)
    (hport : s.getPort 0 = some port)
    (hq : port.queue .reply = q) (hcount : q.count ≠ 0) :
    ∃ e hands' pc' s', (solo s hands pc).Step ((), e) (solo s' hands' pc') ∧
      (pc' = .idle ∨ pc' = .receiving 0 0) ∧ PoppedReply s s' port q := by
  have hpop : q.popHead = (q.get (q.head - 1), { q with head := q.head - 1 }) := if_neg hcount
  have hpc' : ((solo s hands pc).peers ()).pc = .idle ∨
      ((solo s hands pc).peers ()).pc = .receiving 0 0 := hpc
  have hseg : (solo s hands pc).seg.receive 0 = s.receive 0 := rfl
  have hch := changes_setPort hport (port.setQueue .reply { q with head := q.head - 1 })
  by_cases hnone : q.get (q.head - 1) = Noneidx
  · have hrec : s.receive 0 = (.null, s.setPort 0 (port.setQueue .reply
        { q with head := q.head - 1 })) := by
      simp only [receive, hport, hq, hpop, hnone, if_true]
    have hstep := World.Step.receiveNull (w := solo s hands pc) hpc' hrec
    rw [act_solo] at hstep
    exact ⟨_, _, _, _, hstep, .inl rfl, hch.port, fun _ _ => rfl, fun hne => absurd hnone hne⟩
  · obtain ⟨s', hs'⟩ : ∃ s', s' = (s.setPort 0 (port.setQueue .reply
        { q with head := q.head - 1 })).setPath (q.get (q.head - 1))
          (s.requests (q.get (q.head - 1))).path.popHead.2 := ⟨_, rfl⟩
    have hresult : PoppedReply s s' port q := by
      rw [hs']
      refine ⟨hch.port, fun z hz => requests_setRequest_of_ne hz _, fun _ => ?_⟩
      rw [setPath, requests_setRequest]
    have hrec : s.receive 0 =
        (if (s.requests (q.get (q.head - 1))).path.popHead.1 = Noneidx
          then .retry (q.get (q.head - 1)) else .request (q.get (q.head - 1)), s') := by
      simp only [receive, hport, hq, hpop, if_neg hnone, hs']
      rfl
    by_cases hserial : (s.requests (q.get (q.head - 1))).path.popHead.1 = Noneidx
    · rw [if_pos hserial] at hrec
      have hstep := World.Step.drop (w := solo s hands pc) hpc' hrec
      rw [act_solo] at hstep
      exact ⟨_, _, _, _, hstep, .inr rfl, hresult⟩
    · rw [if_neg hserial] at hrec
      have hstep := World.Step.receive (w := solo s hands pc) hpc' hrec
      rw [act_solo] at hstep
      exact ⟨_, _, _, _, hstep, .inl rfl, hresult⟩

omit [Builtins] in
theorem tail_mem_elems (hcount : q.count ≠ 0) : q.get (q.tail + 1) ∈ q.elems := by
  have hpos : 0 < q.count.toNat := by
    have : q.count.toNat ≠ 0 := fun h0 => hcount (UInt64.toNat_inj.mp h0)
    omega
  rw [Xq.elems, List.mem_map]
  refine ⟨q.count.toNat - 1, List.mem_range.mpr (by omega), congrArg q.get ?_⟩
  have hc : UInt64.ofNat (q.count.toNat - 1) = q.count - 1 := by
    have hlt := q.count.toNat_lt
    apply UInt64.toNat_inj.mp
    rw [UInt64.toNat_ofNat_of_lt' (show q.count.toNat - 1 < 2 ^ 64 by omega), UInt64.toNat_sub,
      UInt64.toNat_one]
    omega
  rw [hc, Xq.count]
  grind

end Receive

end Libxseg
