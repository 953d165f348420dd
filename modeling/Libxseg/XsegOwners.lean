import Libxseg.XsegPorts

/-!
# Owners of dynamic ports

What the array of ports and the handler say together: the mapped ports are different
objects, none of them free. Every call is described by what it does to the view of the
array: the port, the owner and the number that a peer finds under a number.
-/

namespace Libxseg

set_option autoImplicit false

def XobjectH.GoodChunk (h : XobjectH) (mem : Option (xptr × UInt64)) : Prop :=
  ∀ c, mem = some c → h.HeapChunk c ∧ c.1 ≠ 0

namespace XsegPorts

structure Table (s : XsegPorts) : Prop where
  wf : s.port_h.Wf
  chunks : ∀ c ∈ s.port_h.allocated, c.1 ≠ 0
  nodup : s.port_h.list.Nodup
  objects : ∀ x ∈ s.port_h.list, x ∈ s.port_h.objects
  bounded : ∀ n, s.ports n ≠ 0 → n < s.nr_ports
  mapped : ∀ n, s.ports n ≠ 0 → s.ports n ∈ s.port_h.objects ∧ s.ports n ∉ s.port_h.list
  injective : ∀ n m, s.ports n ≠ 0 → s.ports n = s.ports m → n = m

structure Slot (s : XsegPorts) (port : xptr) (n : xport) : Prop where
  object : port ∈ s.port_h.objects
  inUse : port ∉ s.port_h.list
  only : ∀ m, s.ports m = port → m = n
  free : s.ports n = 0 ∨ s.ports n = port
  bound : n < s.nr_ports

def view (s : XsegPorts) (n : xport) : Option (xptr × UInt64 × xport) :=
  if s.ports n = 0 then none
  else some (s.ports n, (s.records (s.ports n)).owner, (s.records (s.ports n)).portno)

section Handler
variable {h : XobjectH} {c : xptr × UInt64} {x : xptr}

theorem ne_zero_of_chunks (hw : h.Wf) (hchunks : ∀ c ∈ h.allocated, c.1 ≠ 0) (hx : x ∈ h.objects) :
    x ≠ 0 := by
  obtain ⟨c, hc, hx⟩ := List.mem_flatMap.mp hx
  have hlow := (mem_carve (hw.bound c hc) hx).1
  have hpos : c.1.toNat ≠ 0 := fun h0 => hchunks c hc (UInt64.toNat_inj.mp h0)
  intro h0
  rw [h0, UInt64.toNat_zero] at hlow
  omega

theorem getObj_allocated (h : XobjectH) (flags : UInt32) (mem : Option (xptr × UInt64)) :
    (h.getObj flags mem).2.allocated = h.allocated ∨
      ∃ c, mem = some c ∧ (h.getObj flags mem).2.allocated = c :: h.allocated := by
  unfold XobjectH.getObj
  cases hl : h.list with
  | cons x list =>
    dsimp only
    rw [XobjectH.popObj_cons hl]
    exact .inl rfl
  | nil =>
    dsimp only
    by_cases hflag : flags &&& X_ALLOC = 0
    · rw [if_pos hflag]
      exact .inl rfl
    · rw [if_neg hflag]
      cases mem with
      | none => exact .inl rfl
      | some c =>
        cases hobjs : h.chunkObjects c with
        | nil =>
          unfold XobjectH.allocObj
          dsimp only
          rw [hobjs]
          exact .inl rfl
        | cons x l =>
          unfold XobjectH.allocObj
          dsimp only
          rw [hobjs]
          exact .inr ⟨c, rfl, rfl⟩

end Handler

section Primitives
variable {s s' : XsegPorts} {port : xptr} {n m : xport}

theorem Table.ne_zero (h : s.Table) (hport : port ∈ s.port_h.objects) : port ≠ 0 :=
  ne_zero_of_chunks h.wf h.chunks hport

/-- What is written into the ports, and the drivers, do not matter. -/
theorem Table.write (h : s.Table) (records : xptr → XsegPort) (shared : XsegPeerTypes) :
    Table { s with records := records, shared := shared } :=
  ⟨h.wf, h.chunks, h.nodup, h.objects, h.bounded, h.mapped, h.injective⟩

theorem Slot.write (h : s.Slot port n) (records : xptr → XsegPort) (shared : XsegPeerTypes) :
    Slot { s with records := records, shared := shared } port n :=
  ⟨h.object, h.inUse, h.only, h.free, h.bound⟩

theorem map_same (s : XsegPorts) (n : xport) (port : xptr) : (s.map n port).ports n = port :=
  Function.update_self ..

theorem map_other (s : XsegPorts) (port : xptr) (hm : m ≠ n) : (s.map n port).ports m = s.ports m :=
  Function.update_of_ne hm ..

theorem Table.map (h : s.Table) (hslot : s.Slot port n) : (s.map n port).Table where
  wf := h.wf
  chunks := h.chunks
  nodup := h.nodup
  objects := h.objects
  bounded := by
    intro m hm
    by_cases hmn : m = n
    · rw [hmn]
      exact hslot.bound
    · rw [map_other s port hmn] at hm
      exact h.bounded m hm
  mapped := by
    intro m hm
    by_cases hmn : m = n
    · rw [hmn, map_same]
      exact ⟨hslot.object, hslot.inUse⟩
    · rw [map_other s port hmn] at hm ⊢
      exact h.mapped m hm
  injective := by
    intro m k hm hmk
    by_cases hmn : m = n
    · by_cases hkn : k = n
      · rw [hmn, hkn]
      · rw [hmn, map_same, map_other s port hkn] at hmk
        exact absurd (hslot.only k hmk.symm) hkn
    · rw [map_other s port hmn] at hm hmk
      by_cases hkn : k = n
      · rw [hkn, map_same] at hmk
        rw [hkn]
        exact hslot.only m hmk
      · rw [map_other s port hkn] at hmk
        exact h.injective m k hm hmk

theorem Slot.map (h : s.Slot port n) : (s.map n port).Slot port n where
  object := h.object
  inUse := h.inUse
  only := by
    intro m hm
    by_contra hmn
    rw [map_other s port hmn] at hm
    exact hmn (h.only m hm)
  free := .inr (map_same s n port)
  bound := h.bound

theorem Table.unmap (h : s.Table) (n : xport) : (s.map n 0).Table where
  wf := h.wf
  chunks := h.chunks
  nodup := h.nodup
  objects := h.objects
  bounded := by
    intro m hm
    by_cases hmn : m = n
    · rw [hmn, map_same] at hm
      exact absurd rfl hm
    · rw [map_other s 0 hmn] at hm
      exact h.bounded m hm
  mapped := by
    intro m hm
    by_cases hmn : m = n
    · rw [hmn, map_same] at hm
      exact absurd rfl hm
    · rw [map_other s 0 hmn] at hm ⊢
      exact h.mapped m hm
  injective := by
    intro m k hm hmk
    by_cases hmn : m = n
    · rw [hmn, map_same] at hm
      exact absurd rfl hm
    · rw [map_other s 0 hmn] at hm hmk
      by_cases hkn : k = n
      · rw [hkn, map_same] at hmk
        exact absurd hmk hm
      · rw [map_other s 0 hkn] at hmk
        exact h.injective m k hm hmk

/-- What is found under a number is a matter of its entry and of that port. -/
theorem view_congr (hports : s'.ports m = s.ports m)
    (hrecord : s'.records (s.ports m) = s.records (s.ports m)) : s'.view m = s.view m := by
  unfold view
  rw [hports, hrecord]

structure Touches (port : xptr) (n : xport) (s s' : XsegPorts) : Prop where
  ports : ∀ m, m ≠ n → s'.ports m = s.ports m
  records : ∀ x, x ≠ port → s'.records x = s.records x
  dynports : s'.dynports = s.dynports
  nr_ports : s'.nr_ports = s.nr_ports

theorem Touches.refl (port : xptr) (n : xport) (s : XsegPorts) : Touches port n s s :=
  ⟨fun _ _ => rfl, fun _ _ => rfl, rfl, rfl⟩

theorem Touches.trans {s'' : XsegPorts} (h : Touches port n s s') (h' : Touches port n s' s'') :
    Touches port n s s'' where
  ports := fun m hm => (h'.ports m hm).trans (h.ports m hm)
  records := fun x hx => (h'.records x hx).trans (h.records x hx)
  dynports := h'.dynports.trans h.dynports
  nr_ports := h'.nr_ports.trans h.nr_ports

theorem touches_shared (s : XsegPorts) (port : xptr) (n : xport) (shared : XsegPeerTypes) :
    Touches port n s { s with shared := shared } := ⟨fun _ _ => rfl, fun _ _ => rfl, rfl, rfl⟩

theorem touches_setRecord (s : XsegPorts) (port : xptr) (n : xport) (record : XsegPort) :
    Touches port n s (s.setRecord port record) :=
  ⟨fun _ _ => rfl, fun _ hx => Function.update_of_ne hx .., rfl, rfl⟩

theorem touches_map (s : XsegPorts) (port entry : xptr) (n : xport) :
    Touches port n s (s.map n entry) :=
  ⟨fun _ hm => map_other s entry hm, fun _ _ => rfl, rfl, rfl⟩

theorem touches_freePort (s : XsegPorts) (port : xptr) (n : xport) :
    Touches port n s (s.freePort port) := by
  refine ⟨fun _ _ => rfl, fun x hx => ?_, rfl, rfl⟩
  unfold freePort putPort setQueue setRecord
  dsimp only
  rw [Function.update_of_ne hx, Function.update_of_ne hx, Function.update_of_ne hx]

theorem Touches.view (h : Touches port n s s') (honly : ∀ m, s.ports m = port → m = n)
    (hmn : m ≠ n) : s'.view m = s.view m :=
  view_congr (h.ports m hmn) (h.records _ fun hm => hmn (honly m hm))

end Primitives

section Alloc
variable {s s' : XsegPorts} {port : xptr} {n : xport} {h' : XobjectH}

structure InHand (s : XsegPorts) (port : xptr) : Prop where
  object : port ∈ s.port_h.objects
  inUse : port ∉ s.port_h.list
  unmapped : ∀ m, s.ports m ≠ port

theorem Table.take (h : s.Table) {flags : UInt32} {mem : Option (xptr × UInt64)}
    (hgood : s.port_h.GoodChunk mem) (hget : s.port_h.getObj flags mem = (some port, h')) :
    Table { s with port_h := h' } ∧ InHand { s with port_h := h' } port := by
  rcases XobjectH.getObj_spec flags h.wf fun c hc => (hgood c hc).1 with
    hnone | ⟨x, fresh, list, h₁, hsome, hwf, hlist, hcons, hobjects, hnodup, hnew⟩
  · rw [hnone] at hget
    cases hget
  · rw [hsome] at hget
    obtain ⟨hx, rfl⟩ := Prod.mk.inj hget
    obtain rfl := Option.some.inj hx
    have hall : (x :: list).Nodup := by
      rw [hcons]
      refine List.nodup_append.mpr ⟨hnodup, h.nodup, ?_⟩
      intro a ha b hb hab
      exact hnew a ha (hab ▸ h.objects b hb)
    have hmem (y : xptr) (hy : y ∈ x :: list) : y ∈ h₁.objects ∧ ∀ m, s.ports m ≠ 0 →
        s.ports m ≠ y := by
      rw [hcons] at hy
      rw [hobjects]
      rcases List.mem_append.mp hy with hy | hy
      · refine ⟨List.mem_append_left _ hy, fun m hm heq => ?_⟩
        exact hnew y hy (heq ▸ (h.mapped m hm).1)
      · refine ⟨List.mem_append_right _ (h.objects y hy), fun m hm heq => ?_⟩
        exact (h.mapped m hm).2 (heq ▸ hy)
    have hchunks : ∀ c ∈ h₁.allocated, c.1 ≠ 0 := by
      have hkeep := getObj_allocated s.port_h flags mem
      rw [hsome] at hkeep
      rcases hkeep with heq | ⟨c, hc, heq⟩
      · rw [heq]
        exact h.chunks
      · rw [heq]
        intro d hd
        rcases List.mem_cons.mp hd with rfl | hd
        · exact (hgood d hc).2
        · exact h.chunks d hd
    refine ⟨⟨hwf, hchunks, ?_, ?_, h.bounded, ?_, h.injective⟩, ⟨?_, ?_, ?_⟩⟩
    · rw [hlist]
      exact hall.of_cons
    · intro y hy
      rw [hlist] at hy
      exact (hmem y (List.mem_cons_of_mem _ hy)).1
    · intro m hm
      refine ⟨?_, fun hy => ?_⟩
      · rw [hobjects]
        exact List.mem_append_right _ (h.mapped m hm).1
      · rw [hlist] at hy
        exact (hmem _ (List.mem_cons_of_mem _ hy)).2 m hm rfl
    · exact (hmem x (List.mem_cons_self ..)).1
    · rw [hlist]
      exact (List.nodup_cons.mp hall).1
    · intro m heq
      have hx0 : x ≠ 0 := ne_zero_of_chunks hwf hchunks (hmem x (List.mem_cons_self ..)).1
      exact (hmem x (List.mem_cons_self ..)).2 m (fun h0 => hx0 (heq.symm.trans h0)) heq

theorem Table.put (h : s.Table) (hhand : s.InHand port) : (s.putPort port).Table where
  wf := ⟨h.wf.size, h.wf.bound, h.wf.apart⟩
  chunks := h.chunks
  nodup := List.nodup_cons.mpr ⟨hhand.inUse, h.nodup⟩
  objects := by
    intro x hx
    rcases List.mem_cons.mp hx with rfl | hx
    · exact hhand.object
    · exact h.objects x hx
  bounded := h.bounded
  mapped := by
    intro m hm
    obtain ⟨hobject, hfree⟩ := h.mapped m hm
    refine ⟨hobject, fun hx => ?_⟩
    rcases List.mem_cons.mp hx with heq | hx
    · exact hhand.unmapped m heq
    · exact hfree hx
  injective := h.injective

theorem Slot.unmapped (h : s.Slot port n) (hne : port ≠ 0) : (s.map n 0).InHand port := by
  refine ⟨h.object, h.inUse, fun m hm => ?_⟩
  by_cases hmn : m = n
  · rw [hmn, map_same] at hm
    exact hne hm.symm
  · rw [map_other s 0 hmn] at hm
    exact hmn (h.only m hm)

theorem Table.release (h : s.Table) (hslot : s.Slot port n) :
    ((s.freePort port).map n 0).Table := by
  have hhand := hslot.unmapped (h.ne_zero hslot.object)
  exact ((h.unmap n).write _ s.shared).put ⟨hhand.object, hhand.inUse, hhand.unmapped⟩

structure Unmoved (s s' : XsegPorts) : Prop where
  ports : s'.ports = s.ports
  records : ∀ m, s.ports m ≠ 0 → s'.records (s.ports m) = s.records (s.ports m)
  dynports : s'.dynports = s.dynports
  nr_ports : s'.nr_ports = s.nr_ports

theorem Unmoved.view (h : Unmoved s s') (m : xport) : s'.view m = s.view m := by
  by_cases hm : s.ports m = 0
  · unfold XsegPorts.view
    rw [h.ports, if_pos hm, if_pos hm]
  · exact view_congr (congrFun h.ports m) (h.records m hm)

theorem Unmoved.of_records (hunmapped : ∀ m, s.ports m ≠ port) (hports : s'.ports = s.ports)
    (hrecords : ∀ x, x ≠ port → s'.records x = s.records x) (hdyn : s'.dynports = s.dynports)
    (hnr : s'.nr_ports = s.nr_ports) : Unmoved s s' :=
  ⟨hports, fun m _ => hrecords _ (hunmapped m), hdyn, hnr⟩

theorem setQueue_records (kind : QueueKind) (q : Option Xq) {x : xptr} (hx : x ≠ port) :
    (s.setQueue port kind q).records x = s.records x := Function.update_of_ne hx ..

/-- With an object of the handler, `xseg_alloc_port` writes to that object only, and keeps it or
gives it back. -/
theorem allocPort_cases [Builtins] {flags : UInt32} {ans : BindAnswers}
    (hget : s.port_h.getObj flags ans.mem = (some port, h')) :
    ∃ records : xptr → XsegPort, (∀ x, x ≠ port → records x = s.records x) ∧
      (s.allocPort flags ans = (none, putPort { s with port_h := h', records := records } port) ∨
        s.allocPort flags ans = (some port, { s with port_h := h', records := records })) := by
  unfold allocPort
  rw [hget]
  dsimp only
  cases allocQueue (ans.queues .free) with
  | none => exact ⟨s.records, fun _ _ => rfl, .inl rfl⟩
  | some q =>
    dsimp only
    cases allocQueue (ans.queues .request) with
    | none =>
      refine ⟨_, ?_, .inl rfl⟩
      intro x hx
      rw [Function.update_of_ne hx]
      exact Function.update_of_ne hx ..
    | some q' =>
      dsimp only
      cases allocQueue (ans.queues .reply) with
      | none =>
        refine ⟨_, ?_, .inl rfl⟩
        intro x hx
        rw [Function.update_of_ne hx]
        rw [setQueue_records _ _ hx, setQueue_records _ _ hx]
        exact Function.update_of_ne hx ..
      | some q'' =>
        refine ⟨_, ?_, .inr rfl⟩
        intro x hx
        rw [Function.update_of_ne hx]
        rw [setQueue_records _ _ hx, setQueue_records _ _ hx]
        exact Function.update_of_ne hx ..

theorem allocPort_spec [Builtins] (h : s.Table) (flags : UInt32) {ans : BindAnswers}
    (hgood : s.port_h.GoodChunk ans.mem) :
    (s.allocPort flags ans).2.Table ∧ Unmoved s (s.allocPort flags ans).2 ∧
      ∀ port, (s.allocPort flags ans).1 = some port → (s.allocPort flags ans).2.InHand port := by
  rcases hget : s.port_h.getObj flags ans.mem with ⟨_ | port, h'⟩
  · have hsame : s.port_h = h' := by
      rcases XobjectH.getObj_spec flags h.wf fun c hc => (hgood c hc).1 with
        hnone | ⟨x, fresh, list, h₁, hsome, -⟩
      · exact (Prod.mk.inj (hnone.symm.trans hget)).2
      · cases (Prod.mk.inj (hsome.symm.trans hget)).1
    have halloc : s.allocPort flags ans = (none, s) := by
      unfold allocPort
      rw [hget, ← hsame]
    rw [halloc]
    refine ⟨h, ⟨rfl, fun _ _ => rfl, rfl, rfl⟩, ?_⟩
    intro port hp
    cases hp
  · obtain ⟨htable, hhand⟩ := h.take hgood hget
    obtain ⟨records, hrecords, halloc | halloc⟩ := allocPort_cases hget
    · rw [halloc]
      refine ⟨?_, .of_records hhand.unmapped rfl hrecords rfl rfl, ?_⟩
      · exact (htable.write records s.shared).put ⟨hhand.object, hhand.inUse, hhand.unmapped⟩
      · intro port hp
        cases hp
    · rw [halloc]
      refine ⟨htable.write records s.shared, .of_records hhand.unmapped rfl hrecords rfl rfl, ?_⟩
      intro port' hp
      obtain rfl := Option.some.inj hp
      exact ⟨hhand.object, hhand.inUse, hhand.unmapped⟩

end Alloc

section Bind
variable {s s' : XsegPorts} {port : xptr} {n m : xport}

theorem InHand.slot (h : s.InHand port) (hfree : s.ports n = 0) (hn : n < s.nr_ports) :
    s.Slot port n :=
  ⟨h.object, h.inUse, fun m hm => absurd hm (h.unmapped m), .inl hfree, hn⟩

theorem Table.slot (h : s.Table) (hget : s.getPort n = some port) : s.Slot port n := by
  unfold getPort at hget
  obtain ⟨⟨hn, hne⟩, hport⟩ := Option.ite_none_right_eq_some.mp hget
  obtain rfl := Option.some.inj hport
  obtain ⟨hobject, hinUse⟩ := h.mapped n hne
  refine ⟨hobject, hinUse, fun m hm => ?_, .inr rfl, hn⟩
  exact (h.injective n m hne hm.symm).symm

structure Bound (port : xptr) (n : xport) (s s' : XsegPorts) (ret : Option xptr) : Prop where
  table : s'.Table
  touches : Touches port n s s'
  result : ∀ p, ret = some p → p = port ∧ s'.ports n = port

theorem bindPortAt_cases (s : XsegPorts) (priv : XsegPrivate) (peer : XsegPeer) (id sd : UInt64)
    (ans : BindAnswers) (port : xptr) (n : xport) : ∃ shared priv',
    s.bindPortAt priv peer id sd ans port n =
      (none, (freePort { s with shared := shared } port).map n 0, priv') ∨
    ∃ driver sigdesc, s.bindPortAt priv peer id sd ans port n =
      (some port, ((setSignalDesc { s with shared := shared } port sigdesc).bindRecord port n
        driver id).map n port, priv') := by
  unfold bindPortAt
  generalize enableDriver s.shared priv peer ans.data = r
  obtain ⟨driver, shared, priv⟩ := r
  dsimp only
  by_cases hdriver : driver < 0
  · rw [if_pos hdriver]
    exact ⟨shared, priv, .inl rfl⟩
  · rw [if_neg hdriver]
    generalize (if sd = 0 then newSignalDesc shared priv driver.toNat ans
      else (some (sd - priv.segment), priv)) = r
    obtain ⟨_ | sigdesc, priv⟩ := r
    · exact ⟨shared, priv, .inl rfl⟩
    · exact ⟨shared, priv, .inr ⟨_, sigdesc, rfl⟩⟩

theorem bindPortAt_spec (h : s.Table) (hslot : s.Slot port n) (priv : XsegPrivate)
    (peer : XsegPeer) (id sd : UInt64) (ans : BindAnswers) :
    Bound port n s (s.bindPortAt priv peer id sd ans port n).2.1
      (s.bindPortAt priv peer id sd ans port n).1 := by
  obtain ⟨shared, priv', heq | ⟨driver, sigdesc, heq⟩⟩ :=
    bindPortAt_cases s priv peer id sd ans port n
  · rw [heq]
    refine ⟨(h.write s.records shared).release (hslot.write s.records shared), ?_, ?_⟩
    · exact (touches_shared s port n shared).trans
        ((touches_freePort _ port n).trans (touches_map _ port 0 n))
    · intro p hp
      cases hp
  · rw [heq]
    refine ⟨(h.write _ shared).map (hslot.write _ shared), ?_, ?_⟩
    · exact (touches_shared s port n shared).trans
        (((touches_setRecord _ port n _).trans (touches_setRecord _ port n _)).trans
          (touches_map _ port port n))
    · intro p hp
      obtain rfl := Option.some.inj hp
      exact ⟨rfl, map_same _ n _⟩

/-- A call of `xseg_bind_port` leaves every dynamic number alone and returns a static port. -/
structure Static (s s' : XsegPorts) (ret : Option xptr) : Prop where
  table : s'.Table
  view : ∀ n, s.dynports ≤ n → s'.view n = s.view n
  dynports : s'.dynports = s.dynports
  nr_ports : s'.nr_ports = s.nr_ports
  result : ∀ p, ret = some p → ∃ n, n < s.dynports ∧ s'.ports n = p

theorem Bound.static {ret : Option xptr} (hunmoved : Unmoved s s') {s'' : XsegPorts}
    (h : Bound port n s' s'' ret) (hslot : s'.Slot port n) (hn : n < s.dynports) :
    Static s s'' ret where
  table := h.table
  view := by
    intro m hm
    have hmn : m ≠ n := fun heq => absurd (heq ▸ hn) (UInt32.not_lt.mpr hm)
    exact (h.touches.view hslot.only hmn).trans (hunmoved.view m)
  dynports := h.touches.dynports.trans hunmoved.dynports
  nr_ports := h.touches.nr_ports.trans hunmoved.nr_ports
  result := by
    intro p hp
    obtain ⟨rfl, hport⟩ := h.result p hp
    exact ⟨n, hn, hport⟩

theorem Static.none (h : s'.Table) (hunmoved : Unmoved s s') : Static s s' none :=
  ⟨h, fun n _ => hunmoved.view n, hunmoved.dynports, hunmoved.nr_ports, nofun⟩

theorem Unmoved.refl (s : XsegPorts) : Unmoved s s := ⟨rfl, fun _ _ => rfl, rfl, rfl⟩

theorem succ_toNat {k : xport} (hn : n < k) : (n + 1).toNat = n.toNat + 1 := by
  have hlt := UInt32.lt_iff_toNat_lt.mp hn
  have hk := k.toNat_lt
  rw [UInt32.toNat_add, UInt32.toNat_one]
  exact Nat.mod_eq_of_lt (by omega)

theorem bindPortLoop_spec [Builtins] (h : s.Table) {ans : BindAnswers}
    (hgood : s.port_h.GoodChunk ans.mem) (priv : XsegPrivate) (peer : XsegPeer) (id sd : UInt64)
    (force : Bool) (turns : Nat) (hturns : n.toNat + turns ≤ s.dynports.toNat)
    (hdyn : s.dynports < s.nr_ports) :
    Static s (s.bindPortLoop priv peer id sd ans force turns n).2.1
      (s.bindPortLoop priv peer id sd ans force turns n).1 := by
  induction turns generalizing n with
  | zero => exact .none h (.refl s)
  | succ turns ih =>
    have hn : n < s.dynports := UInt32.lt_iff_toNat_lt.mpr (by omega)
    have hnr : n < s.nr_ports := UInt32.lt_trans hn hdyn
    unfold bindPortLoop
    by_cases hfree : s.ports n = 0
    · rw [if_pos hfree]
      obtain ⟨htable, hunmoved, hhand⟩ := allocPort_spec h X_ALLOC hgood
      generalize s.allocPort X_ALLOC ans = r at htable hunmoved hhand
      obtain ⟨_ | port, s'⟩ := r
      · exact .none htable hunmoved
      · have hslot : s'.Slot port n := (hhand port rfl).slot
          ((congrFun hunmoved.ports n).trans hfree) (hunmoved.nr_ports ▸ hnr)
        exact (bindPortAt_spec htable hslot priv peer id sd ans).static hunmoved hslot hn
    · rw [if_neg hfree]
      cases force with
      | true =>
        rw [if_pos rfl]
        cases hget : s.getPort n with
        | none => exact .none h (.refl s)
        | some port =>
          have hslot := h.slot hget
          exact (bindPortAt_spec h hslot priv peer id sd ans).static (.refl s) hslot hn
      | false =>
        rw [if_neg Bool.false_ne_true]
        have hnext := succ_toNat hn
        exact ih (by omega)

theorem bindPort_spec [Builtins] (h : s.Table) {ans : BindAnswers}
    (hgood : s.port_h.GoodChunk ans.mem) (priv : XsegPrivate) (peer : XsegPeer) (id : UInt64)
    (req : UInt32) (sd : UInt64) :
    Static s (s.bindPort priv peer id req sd ans).2.1 (s.bindPort priv peer id req sd ans).1 := by
  unfold bindPort
  dsimp only
  by_cases hnone : s.nr_ports ≤ s.dynports
  · rw [if_pos hnone]
    exact .none h (.refl s)
  · rw [if_neg hnone]
    have hdyn : s.dynports < s.nr_ports := UInt32.not_le.mp hnone
    by_cases hreq : s.dynports ≤ req
    · rw [if_pos hreq]
      exact bindPortLoop_spec h hgood priv peer _ sd false _ (by simp) hdyn
    · rw [if_neg hreq]
      have hlt := UInt32.lt_iff_toNat_lt.mp (UInt32.not_le.mp hreq)
      exact bindPortLoop_spec h hgood priv peer _ sd true 1 hlt hdyn

end Bind

section BindDynport
variable {s s' : XsegPorts} {port : xptr} {n m : xport}

theorem view_of_mapped (hport : s.ports n = port) (hne : port ≠ 0) :
    s.view n = some (port, (s.records port).owner, (s.records port).portno) := by
  subst hport
  exact if_neg hne

theorem view_eq_some {owner : UInt64} {k : xport} (h : s.view n = some (port, owner, k)) :
    s.ports n = port ∧ port ≠ 0 ∧ (s.records port).owner = owner ∧
      (s.records port).portno = k := by
  obtain ⟨hne, hsome⟩ := Option.ite_none_left_eq_some.mp h
  obtain ⟨hport, hrest⟩ := Prod.mk.inj (Option.some.inj hsome)
  obtain ⟨howner, hportno⟩ := Prod.mk.inj hrest
  subst hport
  exact ⟨rfl, hne, howner, hportno⟩

theorem ports_of_view (h : s'.view n = s.view n) : s'.ports n = s.ports n := by
  unfold view at h
  by_cases hzero : s.ports n = 0
  · rw [if_pos hzero] at h
    rw [hzero]
    by_contra hne
    rw [if_neg hne] at h
    cases h
  · rw [if_neg hzero] at h
    exact (view_eq_some h).1

theorem view_setSignalDesc (s : XsegPorts) (port sigdesc : xptr) (m : xport) :
    (s.setSignalDesc port sigdesc).view m = s.view m := by
  by_cases hm : s.ports m = port
  · unfold view setSignalDesc setRecord
    dsimp only
    rw [hm, Function.update_self]
  · exact view_congr rfl (Function.update_of_ne hm ..)

/-- What `xseg_bind_dynport` comes to: nothing that can be seen, or a number that had no owner is
bound to the caller. -/
structure Dynamic (id : UInt64) (s s' : XsegPorts) (ret : Option xptr) : Prop where
  table : s'.Table
  dynports : s'.dynports = s.dynports
  nr_ports : s'.nr_ports = s.nr_ports
  failed : ret = none → ∀ m, s'.view m = s.view m
  bound : ∀ p, ret = some p → ∃ n, s.dynports ≤ n ∧ n < s.nr_ports ∧
    (s.view n = none ∨ ∃ k, s.view n = some (p, NoOwner, k)) ∧ s'.view n = some (p, id, n) ∧
    ∀ m, m ≠ n → s'.view m = s.view m

theorem bindDynportAt_cases (s : XsegPorts) (priv : XsegPrivate) (driver : Nat) (id : UInt64)
    (ans : BindAnswers) (has_sd port_allocated : Bool) (port : xptr) (n : xport) :
    (∃ priv', s.bindDynportAt priv driver id ans has_sd port_allocated port n =
      (none, if port_allocated then (s.freePort port).map n 0 else s, priv')) ∨
    ∃ sigdesc priv', s.bindDynportAt priv driver id ans has_sd port_allocated port n =
      (some port, (s.setSignalDesc port sigdesc).bindRecord port n (UInt64.ofNat driver) id,
        priv') := by
  unfold bindDynportAt
  generalize (if has_sd = true then (some (s.records port).signal_desc, priv)
    else newSignalDesc s.shared priv driver ans) = r
  obtain ⟨_ | sigdesc, priv'⟩ := r
  · exact .inl ⟨priv', rfl⟩
  · exact .inr ⟨sigdesc, priv', rfl⟩

/-- A port that is bound shows its new owner under its number and changes no other number. -/
theorem bindRecord_view (h : s.Table) (hslot : s.Slot port n) (hport : s.ports n = port)
    (sigdesc : xptr) (driver id : UInt64) :
    ((s.setSignalDesc port sigdesc).bindRecord port n driver id).Table ∧
      ((s.setSignalDesc port sigdesc).bindRecord port n driver id).view n = some (port, id, n) ∧
      ∀ m, m ≠ n → ((s.setSignalDesc port sigdesc).bindRecord port n driver id).view m = s.view m := by
  refine ⟨h.write _ s.shared, ?_, ?_⟩
  · have hview : ((s.setSignalDesc port sigdesc).bindRecord port n driver id).view n = _ :=
      view_of_mapped hport (h.ne_zero hslot.object)
    rw [hview]
    unfold bindRecord setRecord
    dsimp only
    rw [Function.update_self]
  · intro m hmn
    rw [← view_setSignalDesc s port sigdesc m]
    exact (touches_setRecord _ port n _).view hslot.only hmn

theorem bindDynportAt_new (h : s'.Table) (hunmoved : Unmoved s s') (hhand : s'.InHand port)
    (hfree : s.ports n = 0) (hnr : n < s.nr_ports) (hdyn : s.dynports ≤ n) (priv : XsegPrivate)
    (driver : Nat) (id : UInt64) (ans : BindAnswers) :
    Dynamic id s ((s'.map n port).bindDynportAt priv driver id ans false true port n).2.1
      ((s'.map n port).bindDynportAt priv driver id ans false true port n).1 := by
  have hslot : s'.Slot port n :=
    hhand.slot ((congrFun hunmoved.ports n).trans hfree) (hunmoved.nr_ports ▸ hnr)
  have hmapped : (s'.map n port).ports n = port := map_same s' n port
  have hempty : s.view n = none := if_pos hfree
  rcases bindDynportAt_cases (s'.map n port) priv driver id ans false true port n with
    ⟨priv', heq⟩ | ⟨sigdesc, priv', heq⟩
  · rw [heq]
    refine ⟨(h.map hslot).release hslot.map, hunmoved.dynports, hunmoved.nr_ports, ?_, ?_⟩
    · intro _ m
      by_cases hmn : m = n
      · rw [hmn, hempty]
        exact if_pos (map_same _ n 0)
      · have htouches := (touches_map s' port port n).trans
          ((touches_freePort _ port n).trans (touches_map _ port 0 n))
        exact (htouches.view hslot.only hmn).trans (hunmoved.view m)
    · intro p hp
      cases hp
  · rw [heq]
    obtain ⟨htable, hview, hothers⟩ := bindRecord_view (h.map hslot) hslot.map hmapped sigdesc
      (UInt64.ofNat driver) id
    refine ⟨htable, hunmoved.dynports, hunmoved.nr_ports, nofun, ?_⟩
    intro p hp
    obtain rfl := Option.some.inj hp
    refine ⟨n, hdyn, hnr, .inl hempty, hview, fun m hmn => ?_⟩
    exact (hothers m hmn).trans
      (((touches_map s' port port n).view hslot.only hmn).trans (hunmoved.view m))

theorem bindDynportAt_left (h : s.Table) (hslot : s.Slot port n) (hport : s.ports n = port)
    (howner : (s.records port).owner = NoOwner) (hdyn : s.dynports ≤ n) (priv : XsegPrivate)
    (driver : Nat) (id : UInt64) (ans : BindAnswers) (has_sd : Bool) :
    Dynamic id s (s.bindDynportAt priv driver id ans has_sd false port n).2.1
      (s.bindDynportAt priv driver id ans has_sd false port n).1 := by
  rcases bindDynportAt_cases s priv driver id ans has_sd false port n with
    ⟨priv', heq⟩ | ⟨sigdesc, priv', heq⟩
  · rw [heq]
    exact ⟨h, rfl, rfl, fun _ _ => rfl, nofun⟩
  · rw [heq]
    obtain ⟨htable, hview, hothers⟩ :=
      bindRecord_view h hslot hport sigdesc (UInt64.ofNat driver) id
    refine ⟨htable, rfl, rfl, nofun, ?_⟩
    intro p hp
    obtain rfl := Option.some.inj hp
    refine ⟨n, hdyn, hslot.bound, .inr ⟨(s.records port).portno, ?_⟩, hview, hothers⟩
    rw [view_of_mapped hport (h.ne_zero hslot.object), howner]

theorem Dynamic.abandoned {id : UInt64} {sigdesc : xptr} {ret : Option xptr}
    (h : Dynamic id (s.setSignalDesc port sigdesc) s' ret) : Dynamic id s s' ret where
  table := h.table
  dynports := h.dynports
  nr_ports := h.nr_ports
  failed := fun hret m => (h.failed hret m).trans (view_setSignalDesc s port sigdesc m)
  bound := by
    intro p hp
    obtain ⟨n, hdyn, hnr, hbefore, hview, hothers⟩ := h.bound p hp
    rw [view_setSignalDesc] at hbefore
    refine ⟨n, hdyn, hnr, hbefore, hview, fun m hmn => ?_⟩
    exact (hothers m hmn).trans (view_setSignalDesc s port sigdesc m)

theorem Dynamic.none (h : s'.Table) (hunmoved : Unmoved s s') (id : UInt64) :
    Dynamic id s s' none :=
  ⟨h, hunmoved.dynports, hunmoved.nr_ports, fun _ => hunmoved.view, nofun⟩

theorem bindDynportLoop_spec [Builtins] (h : s.Table) {ans : BindAnswers}
    (hgood : s.port_h.GoodChunk ans.mem) (priv : XsegPrivate) (driver : Nat) (id : UInt64)
    (turns : Nat) (hturns : turns ≤ s.nr_ports.toNat - n.toNat) (hdyn : s.dynports ≤ n) :
    Dynamic id s (s.bindDynportLoop priv driver id ans turns n).2.1
      (s.bindDynportLoop priv driver id ans turns n).1 := by
  induction turns generalizing n with
  | zero => exact .none h (.refl s) id
  | succ turns ih =>
    have hnr : n < s.nr_ports := UInt32.lt_iff_toNat_lt.mpr (by omega)
    unfold bindDynportLoop
    by_cases hfree : s.ports n = 0
    · rw [if_pos hfree]
      obtain ⟨htable, hunmoved, hhand⟩ := allocPort_spec h X_ALLOC hgood
      generalize s.allocPort X_ALLOC ans = r at htable hunmoved hhand
      obtain ⟨_ | port, s'⟩ := r
      · exact .none htable hunmoved id
      · exact bindDynportAt_new htable hunmoved (hhand port rfl) hfree hnr hdyn priv driver id ans
    · rw [if_neg hfree]
      have hget : s.getPort n = some (s.ports n) := if_pos ⟨hnr, hfree⟩
      have hslot := h.slot hget
      rw [hget]
      dsimp only
      by_cases howner : (s.records (s.ports n)).owner = NoOwner
      · rw [if_neg (not_not_intro howner)]
        by_cases hsd : (s.records (s.ports n)).signal_desc = 0
        · rw [if_neg (not_not_intro hsd)]
          exact bindDynportAt_left h hslot rfl howner hdyn priv driver id ans false
        · rw [if_pos hsd]
          by_cases htype : (s.records (s.ports n)).peer_type = UInt64.ofNat driver
          · rw [if_pos htype]
            exact bindDynportAt_left h hslot rfl howner hdyn priv driver id ans true
          · rw [if_neg htype]
            have htable : (s.setSignalDesc (s.ports n) 0).Table := h.write _ s.shared
            have hslot' : (s.setSignalDesc (s.ports n) 0).Slot (s.ports n) n :=
              hslot.write _ s.shared
            have howner' : ((s.setSignalDesc (s.ports n) 0).records (s.ports n)).owner = NoOwner := by
              unfold setSignalDesc setRecord
              dsimp only
              rw [Function.update_self]
              exact howner
            exact (bindDynportAt_left htable hslot' rfl howner' hdyn priv driver id ans
              false).abandoned
      · rw [if_pos howner]
        have hnext := succ_toNat hnr
        apply ih (by omega)
        rw [UInt32.le_iff_toNat_le] at hdyn ⊢
        omega

theorem Dynamic.shared {id : UInt64} {shared : XsegPeerTypes} {ret : Option xptr}
    (h : Dynamic id { s with shared := shared } s' ret) : Dynamic id s s' ret :=
  ⟨h.table, h.dynports, h.nr_ports, h.failed, h.bound⟩

theorem bindDynport_spec [Builtins] (h : s.Table) {ans : BindAnswers}
    (hgood : s.port_h.GoodChunk ans.mem) (priv : XsegPrivate) (peer : XsegPeer) (id : UInt64) :
    Dynamic id.toUInt32.toUInt64 s (s.bindDynport priv peer id ans).2.1
      (s.bindDynport priv peer id ans).1 := by
  unfold bindDynport
  generalize enableDriver s.shared priv peer ans.data = r
  obtain ⟨driver, shared, priv⟩ := r
  dsimp only
  by_cases hdriver : driver < 0
  · rw [if_pos hdriver]
    exact (Dynamic.none (h.write s.records shared) (.refl _) _).shared
  · rw [if_neg hdriver]
    have hloop := bindDynportLoop_spec (h.write s.records shared) hgood priv driver.toNat
      id.toUInt32.toUInt64 _ (Nat.le_refl _) (UInt32.le_refl _)
    exact hloop.shared

end BindDynport

end XsegPorts

end Libxseg
