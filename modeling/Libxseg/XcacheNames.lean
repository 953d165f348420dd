import Libxseg.XcacheFiled
import Libxseg.XcacheShadowed
import Libxseg.XqStack

/-!
# Names that are too long

An entry keeps the first `XSEG_MAX_TARGETLEN` characters of its name, and an insertion goes by
what the entry keeps. A lookup goes by the string of the caller. So the two agree on names that
are not cut, and two longer names with the same beginning are one name to an insertion and none
to a lookup.

Which name a node was given is no part of the cache: `given` reads it off the history.
-/

namespace Libxseg

set_option autoImplicit false

namespace Xcache

variable {ι : Type} {c c' : Xcache} {h g idx : xqindex} {r : Int}

def CacheCall.gives (idx : xqindex) : CacheCall → Option CString
  | base (.init j name _) => if j = idx then some name else none
  | _ => none

def given (as : List (ι × CacheCall)) (idx : xqindex) : Option CString :=
  as.foldl (fun name b => (b.2.gives idx).or name) none

theorem given_snoc (as : List (ι × CacheCall)) (b : ι × CacheCall) (idx : xqindex) :
    given (as ++ [b]) idx = (b.2.gives idx).or (given as idx) := by
  rw [given, List.foldl_append]
  rfl

theorem given_snoc_ne_none {as : List (ι × CacheCall)} (b : ι × CacheCall)
    (h : given as idx ≠ none) : given (as ++ [b]) idx ≠ none := by
  rw [given_snoc]
  cases b.2.gives idx with
  | none => exact h
  | some name => exact Option.some_ne_none name

def Pc.About : Pc → xqindex → Prop
  | idle, _ => False
  | allocating j, idx => j = idx
  | undoing j, idx => j = idx
  | putting j, idx => j = idx
  | freeing j _, idx => j = idx

def Proper (clients : ι → Client) : Prop :=
  ∀ i idx, 0 < (clients i).held idx ∨ (clients i).pc.About idx → Xhash.NotMark idx

/-- The cache and its clients agree with the history on what nodes are called. -/
structure Labelled (as : List (ι × CacheCall)) (w : World ι) : Prop where
  name : ∀ idx string, given as idx = some string →
    (w.cache.nodes idx).name = string.take XSEG_MAX_TARGETLEN
  mark : ∀ idx, given as idx ≠ none → Xhash.NotMark idx
  fresh : ∀ idx ∈ w.fresh, given as idx ≠ none
  entries : Filed (given as · ≠ none) w.cache.entries
  rm_entries : Filed (given as · ≠ none) w.cache.rm_entries
  times : ∀ idx, w.cache.times idx ≠ XCACHE_LRU_MAX → given as idx ≠ none
  queue : w.cache.free_nodes.Stacked Xhash.NotMark
  clients : Proper w.clients

section Steps
variable [DecidableEq ι] {w w' : World ι} {b : ι × Event} {as : List (ι × CacheCall)} {i : ι}

omit [DecidableEq ι] in
theorem Labelled.mark_of_lookup (hl : Labelled as w) {name : NamePtr}
    (hrun : w.cache.lookupEntries name = some g) (hne : g ≠ NoEntry) : Xhash.NotMark g :=
  (hl.entries.found hrun hne).2.1

theorem Proper.act (h : Proper w.clients) {client : Client}
    (hclient : ∀ idx, 0 < client.held idx ∨ client.pc.About idx → Xhash.NotMark idx) :
    Proper (Function.update w.clients i client) := by
  intro j idx
  by_cases hj : j = i
  · rw [hj, Function.update_self]
    exact hclient idx
  · rw [Function.update_of_ne hj]
    exact h j idx

omit [DecidableEq ι] in
theorem Proper.hand (h : Proper w.clients) {ret : xcache_handler}
    (hret : ret ≠ NoEntry → Xhash.NotMark ret) (idx : xqindex)
    (hpos : 0 < hand (w.clients i).held ret idx) : Xhash.NotMark idx := by
  rw [hand_apply] at hpos
  by_cases hheld : 0 < (w.clients i).held idx
  · exact h i idx (Or.inl hheld)
  · have hand : idx = ret ∧ ret ≠ NoEntry := by
      by_contra hnot
      rw [if_neg hnot] at hpos
      exact hheld hpos
    rw [hand.1]
    exact hret hand.2

omit [DecidableEq ι] in
theorem Proper.drop (h : Proper w.clients) {g idx : xqindex} {n : Nat} (hn : n ≤ (w.clients i).held g)
    (hpos : 0 < Function.update (w.clients i).held g n idx) : Xhash.NotMark idx := by
  by_cases hidx : idx = g
  · rw [hidx, Function.update_self] at hpos
    rw [hidx]
    exact h i g (Or.inl (Nat.lt_of_lt_of_le hpos hn))
  · rw [Function.update_of_ne hidx] at hpos
    exact h i idx (Or.inl hpos)

omit [DecidableEq ι] in
theorem Pc.about_toPut (h : (Pc.toPut g).About idx) : g ≠ NoEntry ∧ g = idx := by
  unfold Pc.toPut at h
  split at h
  · cases h
  · exact ⟨‹_›, h⟩

omit [DecidableEq ι] in
theorem Pc.about_afterPut {last : Bool} (h : (Pc.afterPut g last).About idx) : g = idx := by
  unfold Pc.afterPut at h
  split at h
  · exact h
  · cases h

omit [DecidableEq ι] in
/-- The node that an invalidation is to put was found under the name. -/
theorem invalidateRaw_found {string : CString} (hrun : c.invalidateRaw string = some (r, h, c'))
    (hne : h ≠ NoEntry) : c.lookupEntries (.arg string) = some h := by
  rcases invalidateRaw_inv hrun with ⟨g, -, hfound, -, hret⟩ | ⟨hnone, -⟩
  · split at hret
    · rw [hret]
      exact hfound
    · exact absurd hret hne
  · exact absurd hnone hne

/-- What a call has at hand after an event comes from the queue, from a table or from before. -/
theorem Labelled.handles (hl : Labelled as w)
    (hvictim : ∀ h mem ret lru reinsert, b.2 = .insert h mem ret lru reinsert →
      w.cache.lru.1 ≠ NoEntry → given as w.cache.lru.1 ≠ none)
    (hstep : World.Step w b w') :
    w'.cache.free_nodes.Stacked Xhash.NotMark ∧ Proper w'.clients ∧
      (∀ idx ∈ w'.fresh, idx ∈ w.fresh ∨ ∃ string r, b.2 = .init idx string r) ∧
      ∀ idx string r, b.2 = .init idx string r → Xhash.NotMark idx := by
  have hlasting := lasting_filed (given as · ≠ none)
  have hsame {c' : Xcache} (hlasts : Lasts (given as · ≠ none) (Filed (given as · ≠ none)) w.cache c') :
      c'.free_nodes.Stacked Xhash.NotMark := by
    rw [hlasts.free_nodes]
    exact hl.queue
  cases hstep with
  | @full i _ _ hpop =>
    obtain rfl := (Prod.ext_iff.mp hpop).2
    exact ⟨hl.queue.popHead.2, hl.clients.act (hl.clients i), fun _ => Or.inl,
      fun _ _ _ => Event.noConfusion⟩
  | @pop i _ _ _ hpop hne =>
    obtain ⟨rfl, rfl⟩ := Prod.ext_iff.mp hpop
    refine ⟨hl.queue.popHead.2, hl.clients.act ?_, fun _ => Or.inl, fun _ _ _ => Event.noConfusion⟩
    rintro j (hpos | rfl)
    · exact hl.clients i j (Or.inl hpos)
    · exact hl.queue.popHead.1 hne
  | @init i idx string r _ _ hpc hrun _ =>
    obtain rfl := (Prod.ext_iff.mp hrun).2
    have hmark : Xhash.NotMark idx := hl.clients i idx (Or.inr (by rw [hpc]; rfl))
    refine ⟨hl.queue, hl.clients.act ?_, fun j hj => ?_, fun j _ _ heq => ?_⟩
    · rintro j (hpos | habout)
      · exact hl.clients.hand (fun _ => hmark) j hpos
      · cases habout
    · rcases Finset.mem_insert.mp hj with rfl | hj
      · exact Or.inr ⟨string, r, rfl⟩
      · exact Or.inl hj
    · cases heq
      exact hmark
  | @fail i idx _ _ _ _ hpc hrun _ =>
    obtain rfl := (Prod.ext_iff.mp hrun).2
    have hmark : Xhash.NotMark idx := hl.clients i idx (Or.inr (by rw [hpc]; rfl))
    refine ⟨hl.queue, hl.clients.act ?_, fun _ => Or.inl, fun j _ _ heq => ?_⟩
    · rintro j (hpos | rfl)
      · exact hl.clients i j (Or.inl hpos)
      · exact hmark
    · cases heq
      exact hmark
  | @undo i idx hpc =>
    have hmark : Xhash.NotMark idx := hl.clients i idx (Or.inr (by rw [hpc]; rfl))
    refine ⟨hl.queue.appendHead hmark, hl.clients.act ?_, fun _ => Or.inl,
      fun _ _ _ => Event.noConfusion⟩
    rintro j (hpos | habout)
    · exact hl.clients i j (Or.inl hpos)
    · cases habout
  | @insert i h mem result _ hmem _ hrun =>
    have hmark := hl.mark h (hl.fresh h hmem)
    have hvictim := hvictim _ _ _ _ _ rfl
    have hlasts := hlasting.insertRaw (hl.fresh h hmem) hvictim hl.entries hl.rm_entries hrun
    refine ⟨hsame ((hlasts.trans (.call ..)).trans (.call ..)), hl.clients.act ?_,
      fun j hj => Or.inl (Finset.mem_of_mem_erase hj), fun _ _ _ => Event.noConfusion⟩
    rintro j (hpos | habout)
    · dsimp only at hpos
      split at hpos
      · exact hl.clients i j (Or.inl hpos)
      · refine hl.clients.hand (fun hne => ?_) j hpos
        exact hl.mark _ (insertRaw_lookup hmark hl.entries hl.rm_entries (hl.fresh h hmem)
          hrun hne).1
    · obtain ⟨hne, rfl⟩ := Pc.about_toPut habout
      have hlru := (insertRaw_lru hrun).resolve_left hne
      rw [hlru] at hne ⊢
      exact hl.mark _ (hvictim hne)
  | @lookup i string ret _ _ hrun =>
    refine ⟨hsame (hlasting.lookupAndGet hl.entries hrun), hl.clients.act ?_, fun _ => Or.inl,
      fun _ _ _ => Event.noConfusion⟩
    rintro j (hpos | habout)
    · refine hl.clients.hand (fun hne => ?_) j hpos
      exact hl.mark_of_lookup (lookupAndGetEntries_inv hrun).1 hne
    · cases habout
  | @get i h _ hheld =>
    refine ⟨hl.queue, hl.clients.act ?_, fun _ => Or.inl,
      fun _ _ _ => Event.noConfusion⟩
    rintro j (hpos | habout)
    · exact hl.clients.hand (fun _ => hl.clients i h (Or.inl hheld)) j hpos
    · cases habout
  | @put i h last _ _ hheld hput =>
    refine ⟨hsame (hlasting.entryPutRef hput), hl.clients.act ?_, fun _ => Or.inl,
      fun _ _ _ => Event.noConfusion⟩
    rintro j (hpos | habout)
    · exact hl.clients.drop (Nat.sub_le _ _) hpos
    · rw [← Pc.about_afterPut habout]
      exact hl.clients i h (Or.inl hheld)
  | @settle i idx last _ hpc hput =>
    refine ⟨hsame (hlasting.entryPutRef hput), hl.clients.act ?_, fun _ => Or.inl,
      fun _ _ _ => Event.noConfusion⟩
    rintro j (hpos | habout)
    · exact hl.clients i j (Or.inl hpos)
    · rw [← Pc.about_afterPut habout]
      exact hl.clients i idx (Or.inr (by rw [hpc]; rfl))
  | @free i idx new hpc =>
    have hmark : Xhash.NotMark idx := hl.clients i idx (Or.inr (by rw [hpc]; rfl))
    refine ⟨?_, hl.clients.act ?_, fun _ => Or.inl,
      fun _ _ _ => Event.noConfusion⟩
    · cases new with
      | true => exact hl.queue.appendHead hmark
      | false => exact hl.queue.appendHead hmark
    · rintro j (hpos | habout)
      · exact hl.clients i j (Or.inl hpos)
      · cases habout
  | @invalidate i string _ h _ _ hrun =>
    refine ⟨hsame (hlasting.invalidateRaw hrun), hl.clients.act ?_, fun _ => Or.inl,
      fun _ _ _ => Event.noConfusion⟩
    rintro j (hpos | habout)
    · exact hl.clients i j (Or.inl hpos)
    · obtain ⟨hne, rfl⟩ := Pc.about_toPut habout
      exact hl.mark_of_lookup (invalidateRaw_found hrun hne) hne
  | @freeNew i h _ _ hheld =>
    refine ⟨hl.queue, hl.clients.act ?_, fun _ => Or.inl,
      fun _ _ _ => Event.noConfusion⟩
    rintro j (hpos | rfl)
    · exact hl.clients.drop (Nat.zero_le _) hpos
    · exact hl.clients i h (Or.inl hheld)

end Steps

section Runs
variable [DecidableEq ι] {w w' w₀ : World ι} {b : ι × CacheCall} {as : List (ι × CacheCall)}

/-- The array names a node that was accessed, and the heap is given a node that the table has. -/
def VictimKnown (c : Xcache) : Prop :=
  c.has XCACHE_LRU_ARRAY = true ∨ c.lru.1 = NoEntry ∨ ∃ name, c.Cached name c.lru.1

def CacheCall.Known (c : Xcache) : CacheCall → Prop
  | base (.insert ..) => VictimKnown c
  | _ => True

def CacheCall.Short : CacheCall → Prop
  | base (.init _ string _) => string.chars.length ≤ XSEG_MAX_TARGETLEN
  | _ => True

omit [DecidableEq ι] in
theorem Labelled.victim (hl : Labelled as w) (hknown : VictimKnown w.cache)
    (hne : w.cache.lru.1 ≠ NoEntry) : given as w.cache.lru.1 ≠ none := by
  rcases hknown with harray | hnone | ⟨name, i, ⟨hi, hvalid, -⟩, hval⟩
  · have hlru : w.cache.lru = (((List.range w.cache.nr_nodes.toNat).foldl
        (lruScan w.cache.times) (-2, Noneidx)).2, w.cache) := if_pos harray
    rcases lruScan_foldl w.cache.times (-2) w.cache.nr_nodes.toNat with
      ⟨hbest, -⟩ | ⟨i, -, hbest, hlt, -⟩
    · rw [hlru, hbest] at hne
      exact absurd rfl hne
    · rw [hlru, hbest]
      refine hl.times _ fun heq => ?_
      rw [heq] at hlt
      exact absurd hlt (by decide)
  · exact absurd hnone hne
  · rw [← hval]
    exact (hl.entries i hi hvalid).2

theorem Labelled.step (hl : Labelled as w) (hknown : b.2.Known w.cache)
    (hstep : CacheCall.HeldStep w b w') : Labelled (as ++ [b]) w' := by
  have hkeep {idx : xqindex} (h : given as idx ≠ none) : given (as ++ [b]) idx ≠ none :=
    given_snoc_ne_none b h
  cases hstep with
  | @remove i h r cache _ hheld hrun =>
    have hlasts := (lasting_filed (given as · ≠ none)).removeEntries hrun
    have hgiven (idx : xqindex) : given (as ++ [(i, .remove h r)]) idx = given as idx :=
      given_snoc as _ idx
    obtain ⟨hentries, hrm⟩ := hlasts.tables hl.entries hl.rm_entries
    refine ⟨fun idx string hs => ?_, fun idx hne => ?_, fun idx hmem => hkeep (hl.fresh idx hmem),
      hentries.mono fun _ => hkeep, hrm.mono fun _ => hkeep, fun idx hne => ?_, ?_, ?_⟩
    · rw [hgiven] at hs
      exact (hlasts.name idx).trans (hl.name idx string hs)
    · rw [hgiven] at hne
      exact hl.mark idx hne
    · exact hkeep ((hlasts.times idx hne).elim (hl.times idx) id)
    · have hfree : cache.free_nodes = w.cache.free_nodes := hlasts.free_nodes
      show cache.free_nodes.Stacked Xhash.NotMark
      rw [hfree]
      exact hl.queue
    · apply hl.clients.act
      rintro j (hpos | habout)
      · dsimp only at hpos
        split at hpos
        · exact hl.clients i j (Or.inl hpos)
        · exact hl.clients.hand (fun _ => hl.clients i h (Or.inl hheld)) j hpos
      · cases habout
  | @base i event _ hstep =>
    have hvictim (h : xcache_handler) (mem : InsertMemory) (ret lru reinsert : xcache_handler)
        (heq : event = .insert h mem ret lru reinsert) (hne : w.cache.lru.1 ≠ NoEntry) :
        given as w.cache.lru.1 ≠ none := by
      rw [heq] at hknown
      exact hl.victim hknown hne
    obtain ⟨hqueue, hclients, hfresh, hmark⟩ := hl.handles hvictim hstep
    have hfresh' (idx : xqindex) (hmem : idx ∈ w'.fresh) :
        given (as ++ [(i, .base event)]) idx ≠ none := by
      rcases hfresh idx hmem with hmem | ⟨string, r, heq⟩
      · exact hkeep (hl.fresh idx hmem)
      · obtain rfl : event = .init idx string r := heq
        rw [given_snoc]
        show (if idx = idx then some string else none).or (given as idx) ≠ none
        rw [if_pos rfl]
        exact Option.some_ne_none string
    rcases (lasting_filed (given as · ≠ none)).step hstep hl.fresh hvictim hl.entries hl.rm_entries
      with ⟨hlasts, hnot⟩ | ⟨idx, string, r, heq, hcache⟩
    · have hgiven (idx : xqindex) : given (as ++ [(i, .base event)]) idx = given as idx := by
        rw [given_snoc]
        cases event with
        | init j string r => exact absurd rfl (hnot j string r)
        | _ => rfl
      obtain ⟨hentries, hrm⟩ := hlasts.tables hl.entries hl.rm_entries
      refine ⟨fun idx string hs => ?_, fun idx hne => ?_, hfresh', hentries.mono fun _ => hkeep,
        hrm.mono fun _ => hkeep, fun idx hne => ?_, hqueue, hclients⟩
      · rw [hgiven] at hs
        exact (hlasts.name idx).trans (hl.name idx string hs)
      · rw [hgiven] at hne
        exact hl.mark idx hne
      · exact hkeep ((hlasts.times idx hne).elim (hl.times idx) id)
    · obtain rfl : event = .init idx string r := heq
      have hgiven (j : xqindex) : given (as ++ [(i, .base (.init idx string r))]) j =
          if idx = j then some string else given as j := by
        rw [given_snoc]
        show (if idx = j then some string else none).or (given as j) = _
        split <;> rfl
      refine ⟨fun j name hs => ?_, fun j hne => ?_, hfresh', ?_, ?_, fun j hne => ?_, hqueue,
        hclients⟩
      · rw [hgiven] at hs
        rw [hcache]
        split at hs
        · rename_i hj
          cases hs
          rw [← hj]
          exact congrArg XcacheEntry.name (modify_nodes_self w.cache idx fun _ =>
            ⟨1, .NODE_ACTIVE, string.take XSEG_MAX_TARGETLEN, NoNode⟩)
        · rename_i hj
          have hsame : ((w.cache.entryInit idx string r).2.nodes j) = w.cache.nodes j :=
            modify_nodes_of_ne w.cache (fun _ =>
              ⟨1, .NODE_ACTIVE, string.take XSEG_MAX_TARGETLEN, NoNode⟩) (Ne.symm hj)
          rw [hsame]
          exact hl.name j name hs
      · rw [hgiven] at hne
        split at hne
        · rename_i hj
          rw [← hj]
          exact hmark idx string r rfl
        · exact hl.mark j hne
      · rw [hcache]
        exact hl.entries.mono fun _ => hkeep
      · rw [hcache]
        exact hl.rm_entries.mono fun _ => hkeep
      · rw [hcache] at hne
        exact hkeep (hl.times j hne)

omit [DecidableEq ι] in
theorem Labelled.start [Builtins] (hs : Start w) : Labelled [] w := by
  obtain ⟨xcache_size, ops, flags, mem, hinit⟩ := hs.cache
  have hnone (idx : xqindex) : ¬ given ([] : List (ι × CacheCall)) idx ≠ none := fun h => h rfl
  have hqueue : w.cache.free_nodes.Stacked Xhash.NotMark := by
    have hstored := init_stored hinit
    refine hstored.queue.stacked ?_ fun idx hmem => notMark_of_low (hstored.low idx hmem)
    unfold init at hinit
    split at hinit
    · cases hinit
    · rw [← Option.some.inj hinit]
      rfl
  have hclients : Proper w.clients := by
    rintro i idx hpos
    rw [hs.clients] at hpos
    rcases hpos with hpos | habout
    · exact absurd hpos (Nat.lt_irrefl 0)
    · cases habout
  unfold init at hinit
  split at hinit
  · cases hinit
  have hcache := Option.some.inj hinit
  refine ⟨fun idx string h => ?_, fun idx hne => absurd hne (hnone idx), fun idx hmem => ?_, ?_, ?_,
    fun idx hne => ?_, hqueue, hclients⟩
  · cases h
  · rw [hs.fresh] at hmem
    exact absurd hmem (Finset.notMem_empty idx)
  · rw [← hcache]
    exact Xhash.every_initRaw _ _ _ _
  · rw [← hcache]
    exact Xhash.every_initRaw _ _ _ _
  · rw [← hcache] at hne
    exact absurd rfl hne

theorem run_labelled [Builtins] (hs : Start w₀)
    (hrun : Run (Guarded CacheCall.HeldStep fun w b => b.2.Known w.cache ∧ b.2.Short) w₀ as w) :
    Labelled as w ∧
      ∀ idx string, given as idx = some string → string.chars.length ≤ XSEG_MAX_TARGETLEN := by
  apply hrun.history (I := fun as w => Labelled as w ∧
    ∀ idx string, given as idx = some string → string.chars.length ≤ XSEG_MAX_TARGETLEN)
  · rintro as w b w' ⟨hl, hall⟩ ⟨⟨hknown, hshort⟩, hstep⟩
    refine ⟨hl.step hknown hstep, fun idx string hgiven => ?_⟩
    rw [given_snoc] at hgiven
    cases hgives : b.2.gives idx with
    | none =>
      rw [hgives] at hgiven
      exact hall idx string hgiven
    | some name =>
      rw [hgives] at hgiven
      cases hgiven
      obtain ⟨i, call⟩ := b
      cases call with
      | remove => cases hgives
      | base event =>
        cases event with
        | init j name' r =>
          obtain ⟨-, heq⟩ := Option.ite_none_right_eq_some.mp hgives
          cases heq
          exact hshort
        | _ => cases hgives
  · exact ⟨.start hs, fun idx string h => by cases h⟩

end Runs

theorem CString.take_of_le {string : CString} {n : Nat} (h : string.chars.length ≤ n) :
    string.take n = string := by
  cases string
  rw [CString.take, CString.mk.injEq]
  exact List.take_of_length_le h

structure KeepsName (as : List (ι × CacheCall)) (string : CString) (ret : xcache_handler)
    (c : Xcache) : Prop where
  same : given as ret = some string
  found : ∃ c', c.lookup string = some (ret, c')

/-- In every run in which no name is longer than what an entry keeps, an insertion returns a node
that was given the name, and the name then leads to it. -/
theorem run_keepsName [DecidableEq ι] [Builtins] {w w₀ : World ι} {as : List (ι × CacheCall)}
    {string : CString} {mem : InsertMemory} {ret : xcache_handler} (hs : Start w₀)
    (hrun : Run (Guarded CacheCall.HeldStep fun w b => b.2.Known w.cache ∧ b.2.Short) w₀ as w)
    (hgiven : given as h = some string) (hins : w.cache.insert h mem = some (ret, c'))
    (hne : ret ≠ NoEntry) : KeepsName as string ret c' := by
  obtain ⟨hl, hshort⟩ := run_labelled hs hrun
  obtain ⟨result, hraw, rfl, hentries⟩ := insert_lookupEntries hins
  have hok : given as h ≠ none := by
    rw [hgiven]
    exact Option.some_ne_none string
  obtain ⟨hret, hname, hlookup⟩ := insertRaw_lookup (hl.mark h hok) hl.entries hl.rm_entries hok hraw hne
  have hown : (w.cache.nodes h).name = string := by
    rw [hl.name h string hgiven, CString.take_of_le (hshort h string hgiven)]
  rw [hown] at hname hlookup
  constructor
  · obtain ⟨other, hother⟩ := Option.ne_none_iff_exists'.mp hret
    rw [hother, ← hname, hl.name _ other hother, CString.take_of_le (hshort _ other hother)]
  · exact lookup_of_entries ((hentries _).trans hlookup)

theorem Labelled.long_name [DecidableEq ι] {w : World ι} {as : List (ι × CacheCall)}
    {string : CString} (hl : Labelled as w) (hlong : XSEG_MAX_TARGETLEN < string.chars.length)
    (hne : g ≠ NoEntry) : w.cache.lookupEntries (.arg string) ≠ some g := by
  intro hrun
  obtain ⟨hok, -, hname⟩ := hl.entries.found hrun hne
  obtain ⟨other, hother⟩ := Option.ne_none_iff_exists'.mp hok
  have hread : (w.cache.nodes g).name = string := hname
  have hlen : ((w.cache.nodes g).name).chars.length ≤ XSEG_MAX_TARGETLEN := by
    rw [hl.name g other hother]
    exact List.length_take_le _ _
  rw [hread] at hlen
  omega

instance : (call : CacheCall) → Decidable call.Short
  | .base (.init _ string _) =>
    inferInstanceAs (Decidable (string.chars.length ≤ XSEG_MAX_TARGETLEN))
  | .base .full | .base (.pop _) | .base (.undo _) | .base (.insert ..) | .base (.lookup ..)
  | .base (.get _) | .base (.put ..) | .base (.settle ..) | .base (.free ..)
  | .base (.invalidate ..) | .base (.freeNew _) | .remove .. => isTrue trivial

def baseCalls (events : List Event) : List (Unit × CacheCall) :=
  (events.map fun event => ((), event)).map fun b => (b.1, .base b.2)

theorem run_keepsName_two : ∃ (_ : Builtins) (w₀ w : World Unit) (as : List (Unit × CacheCall))
    (c' : Xcache), (Start w₀ ∧
      Run (Guarded CacheCall.HeldStep fun w b => b.2.Known w.cache ∧ b.2.Short) w₀ as w ∧
      given as 0 = some nameA ∧ w.cache.HasEntry 0 ∧ given as 3 = some nameD ∧
      w.cache.insert 3 plenty = some (3, c')) ∧
    KeepsName as nameD 3 c' := by
  let _ : Builtins := ⟨0⟩
  let events : List Event := [.pop 0, .init 0 nameA 0, .insert 0 plenty 0 NoEntry NoEntry, .pop 3,
    .init 3 nameD 0]
  have hsome : (trial (fun w event => w.cache.has XCACHE_LRU_ARRAY = true ∧
      (CacheCall.base event).Short) 2 XCACHE_LRU_ARRAY events).any
        (fun w => w.cache.HasEntry 0 ∧ (w.cache.insert 3 plenty).any fun r => r.1 == 3) = true := by
    decide +kernel
  obtain ⟨w₀, w, hs, -, hrun, hcheck⟩ := run_of_trial hsome
  obtain ⟨hentry, hcheck⟩ := of_decide_eq_true hcheck
  have hrun : Run (Guarded CacheCall.HeldStep fun w b => b.2.Known w.cache ∧ b.2.Short) w₀
      (baseCalls events) w := by
    refine hrun.map _ fun {w b w'} h => ⟨⟨?_, h.1.2⟩, .base h.2⟩
    obtain ⟨i, event⟩ := b
    cases event with
    | insert => exact Or.inl h.1.1
    | _ => trivial
  obtain ⟨⟨ret, c'⟩, hins, hret⟩ := (Option.any_eq_true _ _).mp hcheck
  obtain rfl : ret = 3 := eq_of_beq hret
  have hgiven : given (baseCalls events) 3 = some nameD := rfl
  exact ⟨_, w₀, w, _, c', ⟨hs, hrun, rfl, hentry, hgiven, hins⟩,
    run_keepsName hs hrun hgiven hins (by decide)⟩

def longName (last : Int8) (h : last ≠ 0) : CString where
  chars := List.replicate XSEG_MAX_TARGETLEN 97 ++ [last]
  noNul hmem := by
    rcases List.mem_append.mp hmem with hmem | hmem
    · exact absurd (List.eq_of_mem_replicate hmem) (by decide)
    · exact h (List.mem_singleton.mp hmem).symm
  short := by
    rw [List.length_append, List.length_replicate, List.length_singleton]
    decide

/-- Two names that differ in the character that is cut off. -/
theorem not_run_keepsName : ¬ ∀ (_ : Builtins) (w₀ w : World Unit) (as : List (Unit × CacheCall))
    (h ret : xcache_handler) (string : CString) (mem : InsertMemory) (c' : Xcache), Start w₀ →
      Run CacheCall.HeldStep w₀ as w → given as h = some string →
      w.cache.insert h mem = some (ret, c') → ret ≠ NoEntry → KeepsName as string ret c' := by
  intro hall
  let _ : Builtins := ⟨0⟩
  let nameB : CString := longName 98 (by decide)
  let nameC : CString := longName 99 (by decide)
  let events : List Event := [.pop 0, .init 0 nameB 0, .insert 0 plenty 0 NoEntry NoEntry, .pop 1,
    .init 1 nameC 0]
  have hsome : (trial (fun _ _ => True) 1 XCACHE_LRU_ARRAY events).any
      (fun w => (w.cache.insert 1 plenty).any fun r => r.1 == 0) = true := by
    decide +kernel
  obtain ⟨w₀, w, hs, -, hrun, hcheck⟩ := run_of_trial hsome
  have hrun : Run CacheCall.HeldStep w₀ (baseCalls events) w := heldRun_base hrun
  cases hins : w.cache.insert 1 plenty with
  | none =>
    rw [hins] at hcheck
    cases hcheck
  | some r =>
    rw [hins, Option.any_some] at hcheck
    obtain ⟨ret, c'⟩ := r
    obtain rfl := eq_of_beq hcheck
    have hkeeps := hall _ w₀ w _ 1 0 nameC plenty c' hs hrun rfl hins (by decide)
    have hgiven : given (baseCalls events) 0 = some nameB := rfl
    have hsame : nameB = nameC := Option.some.inj (hgiven.symm.trans hkeeps.same)
    have hlast : [(98 : Int8)] = [99] := List.append_cancel_left (congrArg CString.chars hsame)
    exact absurd hlast (by decide)

end Xcache

end Libxseg
