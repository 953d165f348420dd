import Libxseg.XcacheHeapSections

/-!
# The array and the heap evict the same entries

The two caches take the same steps, with the same results, from any state in which the
heap tracks the array (`Mirrors.rel_perform`): of any number of clients, and whatever memory an
insertion finds. A removal that leaves entries is what breaks this. `xbinheap_extract`
takes out the smallest key, when the raised one was to go.
-/

namespace Libxseg

set_option autoImplicit false

namespace Xcache

variable {ι : Type} {c c' : Xcache} {l l' : HeapLru} {E R E' R' : Finset xqindex}
  {idx g h v z : xqindex} {mem : InsertMemory} {result : InsertResult}

def World.withHeap (w : World ι) (l : HeapLru) : World ι := { w with cache := w.cache.withHeap l }

/-- A removal that finds an entry under the name finds that of the node, and there is no other. -/
def CacheCall.Lone (c : Xcache) : CacheCall → Prop
  | base (.invalidate name _ _) => ∀ h, c.Cached (.arg name) h → ∀ idx, c.HasEntry idx → idx = h
  | remove h _ => ∀ g, c.Cached (.node h) g → ∀ idx, c.HasEntry idx → idx = h
  | _ => True

def InRm (c : Xcache) (idx : xqindex) : Prop := ∃ name, c.Removed name idx

theorem inRm_iff (c : Xcache) (idx : xqindex) :
    c.InRm idx ↔
      ∃ i < c.rm_entries.size, c.rm_entries.itemValid i = true ∧ c.rm_entries.vals i = idx := by
  constructor
  · rintro ⟨name, i, ⟨hlt, hvalid, -⟩, hval⟩
    exact ⟨i, hlt, hvalid, hval⟩
  · rintro ⟨i, hlt, hvalid, hval⟩
    exact ⟨c.rm_entries.kvs i, i, ⟨hlt, hvalid, decide_eq_true rfl⟩, hval⟩

theorem inRm_congr (h : c'.rm_entries = c.rm_entries) : c'.InRm idx ↔ c.InRm idx := by
  rw [inRm_iff, inRm_iff, h]

theorem Tables.inRm_iff (ht : Tables c E R) : c.InRm idx ↔ idx ∈ R := by
  constructor
  · rintro ⟨name, hheld⟩
    exact (ht.rm_entries.holds.mp hheld).1
  · intro hmem
    exact ⟨.node idx, ht.rm_entries.holds.mpr ⟨hmem, rfl⟩⟩

/-- The nodes in `rm_entries` after an insertion were there before, or were entries. -/
theorem tables_of_outcome (ht : Tables c E R) (hbelow : c.TimeBelow)
    (ho : InsertOutcome c E R h mem result E' R' ∨ LostOutcome c E R h mem result E' R') :
    Tables result.cache E' R' ∧ ∀ j ∈ R', j ∈ R ∨ j ∈ E := by
  rcases ho with ho | ho
  · cases ho with
    | @found idx => exact ⟨ht.touch idx, fun j hj => Or.inl hj⟩
    | fresh _ _ hv hent => exact ⟨(hent hbelow).tables, hv.cases.2⟩
    | back _ _ _ _ _ _ hv hent =>
      exact ⟨(hent hbelow).tables, fun j hj => (hv.cases.2 j hj).imp_left Finset.mem_of_mem_erase⟩
    | refused _ _ _ hv ht' =>
      refine ⟨ht', fun j hj => ?_⟩
      rcases hv with ⟨-, rfl⟩ | hv
      · exact Or.inl hj
      · exact hv.cases.2 j hj
  · cases ho with
    | victim _ _ _ ht' => exact ⟨ht', fun j hj => Or.inl hj⟩
    | back _ _ _ hv ht' =>
      refine ⟨ht', fun j hj => ?_⟩
      rcases hv with ⟨-, rfl⟩ | hv
      · exact Or.inl (Finset.mem_of_mem_erase hj)
      · exact (hv.cases.2 j hj).imp_left Finset.mem_of_mem_erase
    | both _ _ _ _ ht' => exact ⟨ht', fun j hj => Or.inl (Finset.mem_of_mem_erase hj)⟩

/-- The heap tracks the times, and a node that may be inserted has no handle. -/
structure Mirrors (w : World ι) (l : HeapLru) : Prop where
  tracks : Tracks w.cache l
  unlisted : ∀ idx, w.cache.InRm idx ∨ idx ∈ w.fresh → w.cache.Unlisted l idx

variable {w w' v' : World ι} {free : List xqindex}

theorem Mirrors.of_keeps (hmir : Mirrors w l) (hm : Timed w.cache E)
    (htracks : Tracks w'.cache l') (hk : Keeps w.cache l w'.cache l')
    (hrm : ∀ idx, w'.cache.InRm idx → w.cache.InRm idx ∨ idx ∈ E)
    (hfresh : ∀ idx ∈ w'.fresh, idx ∈ w.fresh ∨ w'.cache.Unlisted l' idx) : Mirrors w' l' := by
  refine ⟨htracks, fun idx hidx => ?_⟩
  rcases hidx with hidx | hidx
  · rcases hrm idx hidx with hidx | hidx
    · exact hk idx (hmir.unlisted idx (Or.inl hidx))
    · exact hk idx fun hmax => absurd hmax ((hm.cached idx).mpr hidx)
  · rcases hfresh idx hidx with hidx | hset
    · exact hk idx (hmir.unlisted idx (Or.inr hidx))
    · exact hset

/-- The two worlds after a step: the same but for the heap, which tracks the array again. -/
def Alike (w v : World ι) : Prop := ∃ l, v = w.withHeap l ∧ Mirrors w l

theorem rel_ite {α β : Type} {r : α → β → Prop} {p q : Prop} [Decidable p] [Decidable q] {a : α}
    {b : β} (hpq : p ↔ q) (h : p → r a b) :
    Option.Rel r (if p then some a else none) (if q then some b else none) := by
  by_cases hp : p
  · rw [if_pos hp, if_pos (hpq.mp hp)]
    exact .some (h hp)
  · rw [if_neg hp, if_neg fun hq => hp (hpq.mpr hq)]
    exact .none

variable [DecidableEq ι]

theorem Mirrors.act (hmir : Mirrors w l) (hm : Timed w.cache E) (i : ι) (client : Client)
    (htracks : Tracks c' l') (hk : Keeps w.cache l c' l')
    (hrm : ∀ idx, c'.InRm idx → w.cache.InRm idx ∨ idx ∈ E) :
    Alike (w.act i c' client) ((w.withHeap l).act i (c'.withHeap l') client) :=
  ⟨l', rfl, hmir.of_keeps hm htracks hk hrm fun _ hidx => Or.inl hidx⟩

theorem Mirrors.same (hmir : Mirrors w l) (hm : Timed w.cache E) (i : ι) (client : Client)
    (hflags : c'.flags = w.cache.flags) (hsize : c'.size = w.cache.size)
    (htimes : c'.times = w.cache.times) (hrm : c'.rm_entries = w.cache.rm_entries) :
    Alike (w.act i c' client) ((w.withHeap l).act i (c'.withHeap l) client) :=
  hmir.act hm i client (hmir.tracks.congr hflags hsize htimes) (Keeps.of_times htimes)
    fun _ hidx => Or.inl ((inRm_congr hrm).mp hidx)

theorem Mirrors.entryPutRef (hmir : Mirrors w l) (ht : Tables w.cache E R) (hm : Timed w.cache E)
    (i : ι) (idx : xqindex) (client : Bool → Client) :
    ∃ last c', w.cache.entryPutRef idx = some (last, c') ∧
      (w.withHeap l).cache.entryPutRef idx = some (last, c'.withHeap l) ∧
      Alike (w.act i c' (client last)) ((w.withHeap l).act i (c'.withHeap l) (client last)) := by
  obtain ⟨last, c', R', hrun, ht', -, hf, -, -, -, hout⟩ := entryPutRef_spec ht (fun _ => hm) idx
  have htimes : c'.times = w.cache.times := by
    obtain ⟨c₁, rfl, rfl | ⟨-, rfl⟩ | ⟨r, hremove, -⟩⟩ := entryPutRef_inv hrun
    · rfl
    · rfl
    · obtain ⟨rm_entries, -, rfl⟩ := removeRm_inv hremove
      rfl
  have hsub {j : xqindex} (hj : j ∈ R') : j ∈ R := by
    cases hout with
    | removed => exact Finset.mem_of_mem_erase hj
    | _ => exact hj
  refine ⟨last, c', hrun, ?_, hmir.act hm i _ (hmir.tracks.congr hf.flags hf.size htimes)
    (Keeps.of_times htimes) fun j hj => Or.inl ?_⟩
  · change (w.cache.withHeap l).entryPutRef idx = _
    rw [hmir.tracks.toBeside.entryPutRef, hrun]
    rfl
  · exact ht.inRm_iff.mpr (hsub (ht'.inRm_iff.mp hj))

section Sections
variable [Fintype ι] {lost : xqindex → Nat}

/-- The node gets a name and no handle. It had no time, as it was on neither table. -/
theorem Mirrors.rel_init (hmir : Mirrors w l) (hi : Inv (w.haunted lost) free E R) (i : ι)
    (idx : xqindex) (name : CString) (r : Int) :
    Option.Rel Alike (w.perform i (.init idx name r))
      ((w.withHeap l).perform i (.init idx name r)) := by
  have hm : Timed w.cache E := hi.stored.ordered hmir.tracks.array
  apply rel_ite Iff.rfl
  intro hpc
  have hidx : w.cache.times idx = XCACHE_LRU_MAX := by
    have hown : ((w.haunted lost).clients (some i)).pc.Owns idx := Pc.owns_allocating hpc
    by_contra hne
    exact (hi.out hown).2.2.1 ((hm.cached idx).mp hne)
  obtain ⟨l', hinit, hl', hk, hset⟩ := hmir.tracks.entryInit hidx name r
  have hinit' : (w.withHeap l).cache.entryInit idx name r = _ := hinit
  rw [hinit']
  have hsame : (w.cache.entryInit idx name r).2.rm_entries = w.cache.rm_entries := rfl
  have hrm (j : xqindex) (hj : (w.cache.entryInit idx name r).2.InRm j) :
      w.cache.InRm j ∨ j ∈ E := Or.inl ((inRm_congr hsame).mp hj)
  by_cases hr : 0 ≤ (w.cache.entryInit idx name r).1
  · rw [if_pos hr, if_pos hr]
    refine ⟨l', rfl, hmir.of_keeps hm hl' hk hrm fun j hj => ?_⟩
    rcases Finset.mem_insert.mp hj with rfl | hj
    · exact Or.inr hset
    · exact Or.inl hj
  · rw [if_neg hr, if_neg hr]
    exact ⟨l', rfl, hmir.of_keeps hm hl' hk hrm fun j hj => Or.inl hj⟩

theorem Mirrors.rel_insert (hmir : Mirrors w l) (hi : Inv (w.haunted lost) free E R)
    (hearly : w.Early) (i : ι) (h : xcache_handler) (mem : InsertMemory)
    (ret lru reinsert : xcache_handler) :
    Option.Rel Alike (w.perform i (.insert h mem ret lru reinsert))
      ((w.withHeap l).perform i (.insert h mem ret lru reinsert)) := by
  have ht : Tables w.cache E R := hi.stored.tables
  have hm : Timed w.cache E := hi.stored.ordered hmir.tracks.array
  by_cases hguard : (w.clients i).pc = .idle ∧ h ∈ w.fresh ∧ 0 < (w.clients i).held h
  · obtain ⟨hidle, hfresh, hpos⟩ := hguard
    have hh : h.toNat < w.cache.nr_nodes.toNat := by
      apply hi.known
      have hidle' : ((w.haunted lost).clients (some i)).pc = .idle := hidle
      rw [hi.fresh_refs hidle' hfresh hpos]
      exact hpos
    obtain ⟨result, l', hrun, hrun', hl', hk⟩ := hmir.tracks.insertRaw ht hm hearly.timeBelow
      hearly hh (hmir.unlisted h (Or.inr hfresh))
      (fun idx hidx => hmir.unlisted idx (Or.inl (ht.inRm_iff.mpr hidx))) mem
    obtain ⟨_, E', R', hspec, hout⟩ := insertRaw_cases ht (fun _ => hm) hh mem
      fun _ _ => hm.victimCached ht.entries_low
    rw [hrun] at hspec
    cases hspec
    obtain ⟨ht', hsub⟩ := tables_of_outcome ht hearly.timeBelow hout
    have hrun' : (w.withHeap l).cache.insertRaw h mem = _ := hrun'
    simp only [World.perform]
    rw [hrun, hrun', Option.bind_some, Option.bind_some]
    refine rel_ite Iff.rfl fun _ => ⟨l', rfl, hmir.of_keeps hm
      (hl'.congr rfl rfl rfl) (hk.trans (Keeps.of_times rfl)) (fun j hj => ?_) fun j hj => ?_⟩
    · have hj : result.cache.InRm j := hj
      rw [ht'.inRm_iff] at hj
      rw [ht.inRm_iff]
      exact hsub j hj
    · exact Or.inl (Finset.mem_of_mem_erase hj)
  · have hnone (v : World ι) (hclients : v.clients = w.clients) (hfresh : v.fresh = w.fresh) :
        v.perform i (.insert h mem ret lru reinsert) = none := by
      refine Option.bind_eq_none_iff.mpr fun result _ => if_neg ?_
      rw [hclients, hfresh]
      rintro ⟨hidle, hmem, hpos, -⟩
      exact hguard ⟨hidle, hmem, hpos⟩
    rw [hnone w rfl rfl, hnone (w.withHeap l) rfl rfl]
    exact .none

theorem Mirrors.rel_lookup (hmir : Mirrors w l) (hi : Inv (w.haunted lost) free E R)
    (hearly : w.Early) (i : ι) (name : CString) (ret : xcache_handler) :
    Option.Rel Alike (w.perform i (.lookup name ret))
      ((w.withHeap l).perform i (.lookup name ret)) := by
  have hm : Timed w.cache E := hi.stored.ordered hmir.tracks.array
  obtain ⟨⟨ret', c'⟩, l', hrun, hrun', hl', hk⟩ :=
    hmir.tracks.lookupAndGet hi.stored.tables hm hearly.timeBelow (.arg name)
  have hrm : c'.rm_entries = w.cache.rm_entries := by
    obtain ⟨-, ⟨-, rfl⟩ | ⟨-, rfl⟩⟩ := lookupAndGetEntries_inv hrun
    · exact (ranked_updateAccessTime (w.cache.entryGet ret') ret').rm_entries
    · rfl
  have hlookup : w.cache.lookup name = some (ret', c') := hrun
  have hlookup' : (w.withHeap l).cache.lookup name = some (ret', c'.withHeap l') := hrun'
  simp only [World.perform]
  rw [hlookup, hlookup', Option.bind_some, Option.bind_some]
  exact rel_ite Iff.rfl fun _ => hmir.act hm i _ hl' hk fun j hj =>
    Or.inl ((inRm_congr hrm).mp hj)

theorem Mirrors.rel_invalidate (hmir : Mirrors w l) (hi : Inv (w.haunted lost) free E R) (i : ι)
    (name : CString) (r : Int) (h : xcache_handler)
    (hlone : CacheCall.Lone w.cache (.base (.invalidate name r h))) :
    Option.Rel Alike (w.perform i (.invalidate name r h))
      ((w.withHeap l).perform i (.invalidate name r h)) := by
  have ht : Tables w.cache E R := hi.stored.tables
  have hm : Timed w.cache E := hi.stored.ordered hmir.tracks.array
  have hlone' : ∀ h ∈ E, (w.cache.nodes h).name = name → ∀ idx ∈ E, idx = h := by
    intro h hmem hname idx hidx
    exact hlone h (ht.entries.holds.mpr ⟨hmem, hname⟩) idx ((ht.cached_iff idx).mpr hidx)
  obtain ⟨r', h', c', l', hrun, hrun', hl', hk⟩ := hmir.tracks.invalidateRaw ht hm name hlone'
  obtain ⟨h₁, c₁, E', R', hspec, -, ht', -, hout⟩ := invalidateRaw_spec ht (fun _ => hm) name
  rw [hrun] at hspec
  cases hspec
  have hrm (j : xqindex) (hj : c'.InRm j) : w.cache.InRm j ∨ j ∈ E := by
    rw [ht'.inRm_iff] at hj
    rw [ht.inRm_iff]
    cases hout with
    | removed => exact Or.inl (Finset.mem_of_mem_erase hj)
    | _ => exact Or.inl hj
  have hdetached : (w.withHeap l).cache.detached name = w.cache.detached name :=
    detached_withHeap w.cache l name
  have hinvalidate' : (w.withHeap l).cache.invalidateRaw name = _ := hrun'
  simp only [World.perform]
  rw [hrun, hinvalidate', Option.bind_some, Option.bind_some, hdetached]
  exact rel_ite Iff.rfl fun _ => ⟨l', rfl, hmir.of_keeps hm hl' hk hrm fun j hj => Or.inl hj⟩

theorem Mirrors.rel_perform (hmir : Mirrors w l) (hi : Inv (w.haunted lost) free E R)
    (hearly : w.Early) (i : ι) (event : Event) (hlone : CacheCall.Lone w.cache (.base event)) :
    Option.Rel Alike (w.perform i event) ((w.withHeap l).perform i event) := by
  have ht : Tables w.cache E R := hi.stored.tables
  have hm : Timed w.cache E := hi.stored.ordered hmir.tracks.array
  cases event with
  | full => exact rel_ite Iff.rfl fun _ => hmir.same hm i _ rfl rfl rfl rfl
  | pop idx => exact rel_ite Iff.rfl fun _ => hmir.same hm i _ rfl rfl rfl rfl
  | init idx name r => exact hmir.rel_init hi i idx name r
  | undo idx => exact rel_ite Iff.rfl fun _ => hmir.same hm i _ rfl rfl rfl rfl
  | insert h mem ret lru reinsert => exact hmir.rel_insert hi hearly i h mem ret lru reinsert
  | lookup name ret => exact hmir.rel_lookup hi hearly i name ret
  | get h =>
    apply rel_ite Iff.rfl
    intro _
    have hget : (w.withHeap l).cache.get h = (w.cache.get h).withHeap l :=
      entryGet_withHeap w.cache l h
    rw [hget]
    exact hmir.same hm i _ rfl rfl rfl rfl
  | put h last =>
    obtain ⟨last', c', hrun, hrun', hdone⟩ := hmir.entryPutRef ht hm i h fun last =>
      ⟨Function.update (w.clients i).held h ((w.clients i).held h - 1), .afterPut h last⟩
    simp only [World.perform]
    rw [hrun, hrun', Option.bind_some, Option.bind_some]
    exact rel_ite Iff.rfl fun _ => hdone
  | settle idx last =>
    obtain ⟨last', c', hrun, hrun', hdone⟩ := hmir.entryPutRef ht hm i idx fun last =>
      ⟨(w.clients i).held, .afterPut idx last⟩
    simp only [World.perform]
    rw [hrun, hrun', Option.bind_some, Option.bind_some]
    exact rel_ite Iff.rfl fun _ => hdone
  | free idx new =>
    apply rel_ite Iff.rfl
    intro _
    cases new with
    | true => exact hmir.same hm i _ rfl rfl rfl rfl
    | false => exact hmir.same hm i _ rfl rfl rfl rfl
  | invalidate name r h => exact hmir.rel_invalidate hi i name r h hlone
  | freeNew h =>
    apply rel_ite Iff.rfl
    intro _
    have hdrop : (w.withHeap l).cache.dropNew h = (w.cache.dropNew h).withHeap l :=
      modify_withHeap w.cache l h fun _ _ => rfl
    rw [hdrop]
    exact hmir.same hm i _ rfl rfl rfl rfl

end Sections

theorem World.perform_of_step {event : Event} {i : ι} (h : World.Step w (i, event) w') :
    w.perform i event = some w' := by
  cases h with
  | full hpc hpop =>
    simp only [World.perform]
    rw [hpop]
    exact if_pos ⟨hpc, rfl⟩
  | pop hpc hpop hne =>
    simp only [World.perform]
    rw [hpop]
    exact if_pos ⟨hpc, rfl, hne⟩
  | init hpc hrun hr =>
    simp only [World.perform]
    rw [if_pos hpc, hrun]
    exact congrArg some (if_pos hr)
  | fail hpc hrun hr =>
    simp only [World.perform]
    rw [if_pos hpc, hrun]
    exact congrArg some (if_neg (Int.not_le.mpr hr))
  | undo hpc => exact if_pos hpc
  | insert hpc hmem hpos hrun =>
    simp only [World.perform]
    rw [hrun, Option.bind_some]
    exact if_pos ⟨hpc, hmem, hpos, rfl, rfl, rfl⟩
  | lookup hpc hrun =>
    simp only [World.perform]
    rw [hrun, Option.bind_some]
    exact if_pos ⟨hpc, rfl⟩
  | get hpc hpos => exact if_pos ⟨hpc, hpos⟩
  | put hpc hpos hrun =>
    simp only [World.perform]
    rw [hrun, Option.bind_some]
    exact if_pos ⟨hpc, hpos, rfl⟩
  | settle hpc hrun =>
    simp only [World.perform]
    rw [hrun, Option.bind_some]
    exact if_pos ⟨hpc, rfl⟩
  | free hpc => exact if_pos hpc
  | invalidate hpc hrun =>
    simp only [World.perform]
    rw [hrun, Option.bind_some]
    exact if_pos ⟨hpc, rfl, rfl⟩
  | freeNew hpc hmem hpos => exact if_pos ⟨hpc, hmem, hpos⟩

/-- The calls of `Event`, and `xcache_remove` of an entry or of a node that the client has a
reference to. -/
inductive CacheCall.LiveStep (w : World ι) : ι × CacheCall → World ι → Prop
  | base {i event w'} : World.Step w (i, event) w' → LiveStep w (i, .base event) w'
  | remove {i h r cache} :
      (w.clients i).pc = .idle → 0 < (w.clients i).held h ∨ w.cache.HasEntry h →
      w.cache.remove h = some (r, cache) →
      LiveStep w (i, .remove h r)
        (w.act i cache ⟨if r < 0 then (w.clients i).held else hand (w.clients i).held h, .idle⟩)

def CacheCall.perform (w : World ι) (i : ι) : CacheCall → Option (World ι)
  | base event => w.perform i event
  | remove h r =>
    (w.cache.remove h).bind fun (r', cache) =>
      if (w.clients i).pc = .idle ∧ (0 < (w.clients i).held h ∨ w.cache.HasEntry h) ∧ r' = r then
        some (w.act i cache
          ⟨if r' < 0 then (w.clients i).held else hand (w.clients i).held h, .idle⟩)
      else none

theorem CacheCall.step_iff_perform {i : ι} {call : CacheCall} :
    CacheCall.LiveStep w (i, call) w' ↔ call.perform w i = some w' := by
  constructor
  · intro h
    cases h with
    | base h => exact World.perform_of_step h
    | remove hpc hlive hrun =>
      simp only [CacheCall.perform]
      rw [hrun, Option.bind_some]
      exact if_pos ⟨hpc, hlive, rfl⟩
  · intro h
    cases call with
    | base event => exact .base (World.step_of_perform h)
    | remove hd r =>
      obtain ⟨⟨r', cache⟩, hrun, h⟩ := Option.bind_eq_some_iff.mp h
      obtain ⟨⟨hpc, hlive, rfl⟩, rfl⟩ := of_ite_some h
      exact .remove hpc hlive hrun

/-- Such a call removes the entry of the node itself, or fails. -/
theorem CacheCall.LiveStep.removesOwn {i : ι} {call : CacheCall} (ht : Tables w.cache E R)
    (hstep : CacheCall.LiveStep w (i, call) w') (hlone : call.Lone w.cache) :
    CacheCall.Step w (i, call) w' ∨ w' = w := by
  cases hstep with
  | base hstep => exact Or.inl (.base hstep)
  | @remove _ h _ _ hpc _ hrun =>
    by_cases hfound : ∃ g, w.cache.Cached (.node h) g
    · obtain ⟨g, hg⟩ := hfound
      obtain rfl := hlone g hg g ⟨_, hg⟩
      exact Or.inl (.remove hpc ⟨_, hg⟩ hrun)
    · obtain ⟨hmissed, -⟩ :=
        ht.removeEntries_missed ⟨0, fun _ => 0, w.cache.binheap, fun _ => 0⟩ (not_exists.mp hfound)
      have hmissed : w.cache.remove h = some (-XHASH_ENOENT, w.cache) := hmissed
      rw [hmissed] at hrun
      cases hrun
      have hclient : (⟨(w.clients i).held, .idle⟩ : Client) = w.clients i := by
        rw [← hpc]
      refine Or.inr ((congrArg (w.act i w.cache) hclient).trans ?_)
      rw [World.act, Function.update_eq_self]

theorem CacheCall.run_iff_execute {ok : World ι → ι × CacheCall → Prop} [∀ w b, Decidable (ok w b)]
    {as : List (ι × CacheCall)} : Run (Guarded CacheCall.LiveStep ok) w as w' ↔
      execute (fun w b => b.2.perform w b.1) ok w as = some w' := by
  constructor
  · intro hrun
    exact hrun.execute_eq fun _ _ _ h => step_iff_perform.mp h
  · intro h
    exact .of_execute (fun _ b _ hb => step_iff_perform (i := b.1).mpr hb) h

/-- Both worlds can take the same steps, and are alike again after them. -/
theorem CacheCall.rel_perform [Fintype ι] {lost : xqindex → Nat}
    (hi : Inv (w.haunted lost) free E R) (hmir : Mirrors w l) (hearly : w.Early) (i : ι)
    (call : CacheCall) (hlone : call.Lone w.cache) :
    Option.Rel Alike (call.perform w i) (call.perform (w.withHeap l) i) := by
  cases call with
  | base event => exact hmir.rel_perform hi hearly i event hlone
  | remove h r =>
    have ht : Tables w.cache E R := hi.stored.tables
    have hm : Timed w.cache E := hi.stored.ordered hmir.tracks.array
    have hguard (r' : Int) : (w.clients i).pc = .idle ∧
          (0 < (w.clients i).held h ∨ w.cache.HasEntry h) ∧ r' = r ↔
        ((w.withHeap l).clients i).pc = .idle ∧
          (0 < ((w.withHeap l).clients i).held h ∨ (w.withHeap l).cache.HasEntry h) ∧ r' = r := by
      change _ ↔ _ ∧ (_ ∨ (w.cache.withHeap l).HasEntry h) ∧ _
      rw [hasEntry_withHeap]
      exact Iff.rfl
    simp only [CacheCall.perform]
    by_cases hfound : ∃ g, w.cache.Cached (.node h) g
    · obtain ⟨g, hg⟩ := hfound
      obtain rfl := hlone g hg g ⟨_, hg⟩
      have hmem : g ∈ E := (ht.cached_iff g).mp ⟨_, hg⟩
      obtain ⟨c', l', hrun, hrun', hl', hk⟩ := hmir.tracks.removeEntries ht hm hmem
        fun idx hidx => hlone g hg idx ((ht.cached_iff idx).mpr hidx)
      obtain ⟨c₁, hspec, ht', -, -⟩ := removeEntries_mem ht (fun _ => hm) hmem
      rw [hrun] at hspec
      cases hspec
      have hrm (j : xqindex) (hj : c'.InRm j) : w.cache.InRm j ∨ j ∈ E := by
        rw [ht'.inRm_iff] at hj
        exact Or.inl (ht.inRm_iff.mpr hj)
      have hremove : w.cache.remove g = some (0, c') := hrun
      have hremove' : (w.withHeap l).cache.remove g = some (0, c'.withHeap l') := hrun'
      rw [hremove, hremove', Option.bind_some, Option.bind_some]
      exact rel_ite (hguard 0) fun _ => hmir.act hm i _ hl' hk hrm
    · obtain ⟨hrun, hrun'⟩ := ht.removeEntries_missed l (not_exists.mp hfound)
      have hremove : w.cache.remove h = some (-XHASH_ENOENT, w.cache) := hrun
      have hremove' : (w.withHeap l).cache.remove h = some (-XHASH_ENOENT, w.cache.withHeap l) :=
        hrun'
      rw [hremove, hremove', Option.bind_some, Option.bind_some]
      exact rel_ite (hguard _) fun _ =>
        hmir.act hm i _ hmir.tracks (Keeps.of_times rfl) fun j hj => Or.inl hj

theorem roomy_withHeap (c : Xcache) (l : HeapLru) (call : CacheCall) :
    call.Roomy (c.withHeap l) ↔ call.Roomy c := by
  cases call with
  | remove => exact Iff.rfl
  | base event =>
    cases event with
    | insert =>
      simp only [CacheCall.Roomy, Event.Roomy, cached_withHeap, removed_withHeap]
      exact Iff.rfl
    | lookup =>
      simp only [CacheCall.Roomy, Event.Roomy, cached_withHeap]
      exact Iff.rfl
    | _ => exact Iff.rfl

theorem lone_withHeap (c : Xcache) (l : HeapLru) (call : CacheCall) :
    call.Lone (c.withHeap l) ↔ call.Lone c := by
  cases call with
  | remove => simp only [CacheCall.Lone, hasEntry_withHeap, cached_withHeap]
  | base event =>
    cases event with
    | invalidate => simp only [CacheCall.Lone, hasEntry_withHeap, cached_withHeap]
    | _ => exact Iff.rfl

/-- The calls for which the two caches are promised to agree. -/
def Agreeable (w : World ι) (b : ι × CacheCall) : Prop :=
  w.Early ∧ b.2.Roomy w.cache ∧ b.2.Lone w.cache

/-- A cache with the array and one with the heap, made with the same arguments. What `malloc` finds
is the same for both, but for the memory of the heap. -/
structure Twins [Builtins] (w₀ v₀ : World ι) : Prop where
  start : Start w₀
  start' : Start v₀
  caches : ∃ xcache_size ops flags flags' mem indexes heapNodes,
    init xcache_size ops flags mem = some w₀.cache ∧
      init xcache_size ops flags' { mem with indexes := indexes, heapNodes := heapNodes } =
        some v₀.cache
  array : w₀.cache.has XCACHE_LRU_ARRAY = true
  not_array : v₀.cache.has XCACHE_LRU_ARRAY = false
  heap : v₀.cache.has XCACHE_LRU_HEAP = true
  rmTable : v₀.cache.has XCACHE_USE_RMTABLE = w₀.cache.has XCACHE_USE_RMTABLE

/-- The two caches make the same runs: the same calls with the same results and victims, after
which all but the LRU is the same. -/
structure SameRuns (ok : World ι → ι × CacheCall → Prop) (w₀ v₀ : World ι) : Prop where
  heap : ∀ as w, Run (Guarded CacheCall.LiveStep ok) w₀ as w →
    ∃ l, Run (Guarded CacheCall.LiveStep ok) v₀ as (w.withHeap l)
  array : ∀ as v, Run (Guarded CacheCall.LiveStep ok) v₀ as v →
    ∃ w l, v = w.withHeap l ∧ Run (Guarded CacheCall.LiveStep ok) w₀ as w

variable [Fintype ι]

/-- The array side also keeps the invariant of all runs. -/
def Paired (w v : World ι) : Prop :=
  Alike w v ∧ ∃ lost free E R, Inv (w.haunted lost) free E R

omit [DecidableEq ι] [Fintype ι] in
/-- A new heap holds nothing, and no node has a time. -/
theorem Twins.tracks [Builtins] {w₀ v₀ : World ι} (htwins : Twins w₀ v₀) :
    ∃ l, v₀.cache = w₀.cache.withHeap l ∧ Tracks w₀.cache l := by
  obtain ⟨xcache_size, ops, flags, flags', mem, indexes, heapNodes, hinit, hinit'⟩ :=
    htwins.caches
  unfold init at hinit hinit'
  by_cases hzero : xcache_size = 0
  · rw [if_pos hzero] at hinit
    cases hinit
  rw [if_neg hzero] at hinit hinit'
  have hw := Option.some.inj hinit
  have hv := Option.some.inj hinit'
  refine ⟨⟨flags', fun _ => XCACHE_LRU_MAX, v₀.cache.binheap, fun idx => (v₀.cache.nodes idx).h⟩,
    ?_, ?_⟩
  · rw [← hw, ← hv]
    rfl
  have htimes (idx : xqindex) : w₀.cache.times idx = XCACHE_LRU_MAX := by
    rw [← hw]
  have hheap : v₀.cache.binheap = Xbinheap.init (roundSize xcache_size).toUInt64 XBINHEAP_MIN
      indexes heapNodes := by
    rw [← hv]
  have hflags : v₀.cache.flags = flags' := by
    rw [← hv]
  have hempty : v₀.cache.binheap.count = 0 := by
    rw [hheap]
    rfl
  have hnot := htwins.not_array
  have hhas := htwins.heap
  have hrm := htwins.rmTable
  rw [has, hflags] at hnot hhas
  rw [has, hflags] at hrm
  refine ⟨⟨htwins.array, hnot, hhas, hrm⟩, ?_, ?_, ?_, fun idx hidx => ?_, fun hd e he => ?_⟩
  · rw [hheap]
    exact Xbinheap.wf_init ..
  · rw [hheap]
    change (XBINHEAP_MIN &&& XBINHEAP_MAX != 0) = false
    decide
  · rw [hheap, ← hw]
    exact UInt32.toNat_toUInt64 _
  · exact absurd (htimes idx) hidx
  · have hplaced : v₀.cache.binheap.Placed := by
      rw [hheap]
      exact (Xbinheap.wf_init ..).placed
    have hnone := hplaced.live_eq_none_iff.mpr hempty hd
    rw [hnone] at he
    cases he

omit [DecidableEq ι] in
theorem Twins.paired [Builtins] {w₀ v₀ : World ι} (htwins : Twins w₀ v₀) : Paired w₀ v₀ := by
  obtain ⟨l, hcache, htracks⟩ := htwins.tracks
  have hs := htwins.start
  have hs' := htwins.start'
  have hworld : v₀ = w₀.withHeap l := by
    have hclients : v₀.clients = w₀.clients := funext fun i => by rw [hs.clients, hs'.clients]
    rw [World.withHeap, ← hcache, ← hclients, hs.fresh, ← hs'.fresh, hs.evicted, ← hs'.evicted,
      hs.failed, ← hs'.failed]
  have hstart : Start (w₀.haunted fun _ => 0) := by
    refine ⟨hs.cache, fun j => ?_, hs.fresh, hs.evicted, hs.failed⟩
    cases j with
    | none => rfl
    | some j => exact hs.clients j
  have hi := hstart.inv
  refine ⟨⟨l, hworld, htracks, fun idx hidx => ?_⟩, _, _, _, _, hi⟩
  have ht : Tables w₀.cache _ _ := hi.stored.tables
  rcases hidx with hidx | hidx
  · exact absurd (ht.inRm_iff.mp hidx) (Finset.notMem_empty idx)
  · rw [hs.fresh] at hidx
    cases hidx

omit [Fintype ι] [DecidableEq ι] in
theorem agreeable_withHeap (w : World ι) (l : HeapLru) (b : ι × CacheCall) :
    Agreeable (w.withHeap l) b ↔ Agreeable w b :=
  and_congr Iff.rfl (and_congr (roomy_withHeap w.cache l b.2) (lone_withHeap w.cache l b.2))

theorem Paired.inv_step {b : ι × CacheCall} (hp : Paired w v')
    (hstep : CacheCall.LiveStep w b w') (hok : Agreeable w b) :
    ∃ lost free E R, Inv (w'.haunted lost) free E R := by
  obtain ⟨⟨l, -, hmir⟩, lost, free, E, R, hi⟩ := hp
  have ht : Tables w.cache E R := hi.stored.tables
  rcases hstep.removesOwn ht hok.2.2 with hstep | rfl
  · obtain ⟨lost', free', E', R', hi', -⟩ := hi.step_call hmir.tracks.array hstep hok.1 hok.2.1
    exact ⟨lost', free', E', R', hi'⟩
  · exact ⟨lost, free, E, R, hi⟩

theorem Paired.rel {b : ι × CacheCall} {v : World ι} (hp : Paired w v) (hok : Agreeable w b) :
    Option.Rel Alike (b.2.perform w b.1) (b.2.perform v b.1) := by
  obtain ⟨⟨l, rfl, hmir⟩, lost, free, E, R, hi⟩ := hp
  exact CacheCall.rel_perform hi hmir hok.1 b.1 b.2 hok.2.2

theorem Paired.step {b : ι × CacheCall} {v : World ι} (hp : Paired w v)
    (hstep : Guarded CacheCall.LiveStep Agreeable w b w') :
    ∃ v', Guarded CacheCall.LiveStep Agreeable v b v' ∧ Paired w' v' := by
  obtain ⟨hok, hstep⟩ := hstep
  have hrel := hp.rel hok
  rw [CacheCall.step_iff_perform.mp hstep] at hrel
  generalize hv : b.2.perform v b.1 = next at hrel
  cases hrel with
  | @some _ v' halike =>
    refine ⟨v', ⟨?_, CacheCall.step_iff_perform.mpr hv⟩, halike, hp.inv_step hstep hok⟩
    obtain ⟨⟨l, rfl, -⟩, -⟩ := hp
    exact (agreeable_withHeap w l b).mpr hok

theorem Paired.step_back {b : ι × CacheCall} {v : World ι} (hp : Paired w v)
    (hstep : Guarded CacheCall.LiveStep Agreeable v b v') :
    ∃ w', Guarded CacheCall.LiveStep Agreeable w b w' ∧ Paired w' v' := by
  obtain ⟨hok, hstep⟩ := hstep
  have hok : Agreeable w b := by
    obtain ⟨⟨l, rfl, -⟩, -⟩ := hp
    exact (agreeable_withHeap w l b).mp hok
  have hrel := hp.rel hok
  rw [CacheCall.step_iff_perform.mp hstep] at hrel
  generalize hw : b.2.perform w b.1 = next at hrel
  cases hrel with
  | @some w' _ halike =>
    have hstep' := CacheCall.step_iff_perform.mpr hw
    exact ⟨w', ⟨hok, hstep'⟩, halike, hp.inv_step hstep' hok⟩

theorem run_sameRuns [Builtins] {w₀ v₀ : World ι} (htwins : Twins w₀ v₀) :
    SameRuns Agreeable w₀ v₀ := by
  constructor
  · intro as w hrun
    obtain ⟨v, hrun', ⟨l, rfl, -⟩, -⟩ :=
      hrun.simulate (R := Paired) (T := Guarded CacheCall.LiveStep Agreeable)
        (fun hp hstep => hp.step hstep) htwins.paired
    exact ⟨l, hrun'⟩
  · intro as v hrun
    obtain ⟨w, hrun', ⟨l, rfl, -⟩, -⟩ :=
      hrun.simulate (R := fun v w => Paired w v) (T := Guarded CacheCall.LiveStep Agreeable)
        (fun hp hstep => hp.step_back hstep) htwins.paired
    exact ⟨w, l, rfl, hrun'⟩

instance (c : Xcache) {p : xqindex → Prop} [DecidablePred p] :
    Decidable (∀ idx, c.HasEntry idx → p idx) :=
  decidable_of_iff (∀ i < c.entries.size, c.entries.itemValid i = true → p (c.entries.vals i)) <| by
    constructor
    · intro h idx hidx
      obtain ⟨i, hlt, hvalid, rfl⟩ := (c.exists_cached_iff idx).mp hidx
      exact h i hlt hvalid
    · intro h i hlt hvalid
      exact h _ ((c.exists_cached_iff _).mpr ⟨i, hlt, hvalid, rfl⟩)

instance (c : Xcache) : (call : CacheCall) → Decidable (call.Roomy c)
  | .base event => inferInstanceAs (Decidable (event.Roomy c))
  | .remove _ _ => isTrue trivial

instance (c : Xcache) : (call : CacheCall) → Decidable (call.Lone c)
  | .base (.invalidate name _ _) => inferInstanceAs
    (Decidable (∀ h, c.Cached (.arg name) h → ∀ idx, c.HasEntry idx → idx = h))
  | .remove h _ => inferInstanceAs
    (Decidable (∀ g, c.Cached (.node h) g → ∀ idx, c.HasEntry idx → idx = h))
  | .base .full | .base (.pop _) | .base (.init ..) | .base (.undo _) | .base (.insert ..) |
    .base (.lookup ..) | .base (.get _) | .base (.put ..) | .base (.settle ..) |
    .base (.free ..) | .base (.freeNew _) => isTrue trivial

instance (w : World ι) (b : ι × CacheCall) : Decidable (Agreeable w b) :=
  inferInstanceAs (Decidable (w.Early ∧ b.2.Roomy w.cache ∧ b.2.Lone w.cache))

/-- The world with a new cache of two entries in which one client has made these calls. -/
def attempt [Builtins] (ok : World Unit → Unit × CacheCall → Prop) [∀ w b, Decidable (ok w b)]
    (flags : UInt32) (as : List (Unit × CacheCall)) : Option (World Unit) :=
  (init 2 allHooks flags blankMemory).bind fun cache =>
    execute (fun w b => b.2.perform w b.1) ok (World.start cache) as

def called (events : List Event) : List (Unit × CacheCall) :=
  events.map fun event => ((), .base event)

def evictingCalls : List (Unit × CacheCall) :=
  called [.pop 0, .init 0 nameA 0, .insert 0 plenty 0 NoEntry NoEntry, .invalidate nameA 0 0,
    .settle 0 false, .put 0 true, .free 0 false, .pop 0, .init 0 nameA 0,
    .insert 0 plenty 0 NoEntry NoEntry, .pop 3, .init 3 nameD 0, .insert 3 plenty 3 NoEntry NoEntry,
    .lookup nameA 0, .pop 2, .init 2 nameE 0, .insert 2 plenty 2 3 NoEntry]

def removingCalls : List (Unit × CacheCall) :=
  called [.pop 0, .init 0 nameA 0, .insert 0 plenty 0 NoEntry NoEntry, .pop 3, .init 3 nameD 0,
    .insert 3 plenty 3 NoEntry NoEntry, .invalidate nameD 0 3, .settle 3 false, .pop 2,
    .init 2 nameE 0, .insert 2 plenty 2 NoEntry NoEntry, .pop 1, .init 1 nameB 0,
    .insert 1 plenty 1 0 NoEntry]

theorem start_new [Builtins] {flags : UInt32} (hinit : init 2 allHooks flags blankMemory = some c) :
    Start (World.start c : World Unit) :=
  ⟨⟨2, allHooks, flags, blankMemory, hinit⟩, fun _ => rfl, rfl, rfl, rfl⟩

theorem has_init [Builtins] {flags : UInt32} (hinit : init 2 allHooks flags blankMemory = some c)
    (flag : UInt32) : c.has flag = (flags &&& flag != 0) := by
  obtain rfl := Option.some.inj hinit
  rfl

theorem twins_start [Builtins] : ∃ c d, init 2 allHooks XCACHE_LRU_ARRAY blankMemory = some c ∧
    init 2 allHooks XCACHE_LRU_HEAP blankMemory = some d ∧
    Twins (World.start c : World Unit) (World.start d) := by
  obtain ⟨c, hc⟩ : ∃ c, init 2 allHooks XCACHE_LRU_ARRAY blankMemory = some c := ⟨_, rfl⟩
  obtain ⟨d, hd⟩ : ∃ d, init 2 allHooks XCACHE_LRU_HEAP blankMemory = some d := ⟨_, rfl⟩
  refine ⟨c, d, hc, hd, ⟨start_new hc, start_new hd, ⟨2, allHooks, XCACHE_LRU_ARRAY,
    XCACHE_LRU_HEAP, blankMemory, blankMemory.indexes, blankMemory.heapNodes, hc, hd⟩,
    (has_init hc _).trans ?_, (has_init hd _).trans ?_, (has_init hd _).trans ?_,
    (has_init hd _).trans ((has_init hc _).trans ?_).symm⟩⟩
  all_goals decide

/-- A run with a removal of the only entry, and an eviction that spares an entry looked up. -/
theorem run_sameRuns_evicting : ∃ (_ : Builtins) (w₀ v₀ w : World Unit) (l : HeapLru),
    Twins w₀ v₀ ∧ Run (Guarded CacheCall.LiveStep Agreeable) w₀ evictingCalls w ∧
      Run (Guarded CacheCall.LiveStep Agreeable) v₀ evictingCalls (w.withHeap l) := by
  let _ : Builtins := ⟨0⟩
  obtain ⟨c, d, hc, -, htwins⟩ := twins_start
  have hsome : (attempt Agreeable XCACHE_LRU_ARRAY evictingCalls).isSome = true := by
    decide +kernel
  rw [attempt, hc, Option.bind_some] at hsome
  obtain ⟨w, hw⟩ := Option.isSome_iff_exists.mp hsome
  have hrun := CacheCall.run_iff_execute.mpr hw
  obtain ⟨l, hrun'⟩ := (run_sameRuns htwins).heap _ _ hrun
  exact ⟨_, _, _, w, l, htwins, hrun, hrun'⟩

/-- Two entries are cached and the newer one is removed. The heap has lost the older one then, so
that the next eviction takes an entry that was inserted later. -/
theorem not_run_sameRuns : ¬ ∀ [Builtins] (w₀ v₀ : World Unit), Twins w₀ v₀ →
    SameRuns (fun w b => w.Early ∧ b.2.Roomy w.cache) w₀ v₀ := by
  let _ : Builtins := ⟨0⟩
  intro hall
  obtain ⟨c, d, hc, hd, htwins⟩ := twins_start
  have hsome : (attempt (fun w b => w.Early ∧ b.2.Roomy w.cache) XCACHE_LRU_ARRAY
      removingCalls).isSome = true := by decide +kernel
  have hnone : (attempt (fun w b => w.Early ∧ b.2.Roomy w.cache) XCACHE_LRU_HEAP
      removingCalls).isSome = false := by decide +kernel
  rw [attempt, hc, Option.bind_some] at hsome
  rw [attempt, hd, Option.bind_some] at hnone
  obtain ⟨w, hw⟩ := Option.isSome_iff_exists.mp hsome
  obtain ⟨l, hrun⟩ := (hall _ _ htwins).heap _ _ (CacheCall.run_iff_execute.mpr hw)
  rw [CacheCall.run_iff_execute.mp hrun] at hnone
  cases hnone

end Xcache

end Libxseg
