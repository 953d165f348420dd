import Libxseg.XbinheapRuns

/-!
# The keys of handles that are not live

`xbinheap_getkey` takes a handle for dead if its position is above `count`. The handle at
position `count` is dead as well: it is the one that the next insertion hands out, and for
it the key that is left there is returned. None of this depends on the order of the nodes,
so the keys of live handles may change in either direction here.
-/

namespace Libxseg

set_option autoImplicit false

/-- A store of entries under handles below `size`. Which entry an extraction takes and what the
other calls return is left open. -/
inductive HandleStep (size : Nat) :
    (Nat → Option XbinheapEntry) → XbinheapEvent → (Nat → Option XbinheapEntry) → Prop where
  | insert {s : Nat → Option XbinheapEntry} {hd : Nat} (key value : xbinheapidx) :
      hd < size → s hd = none →
      HandleStep size s (.insert key value hd) (Function.update s hd (some ⟨key, value⟩))
  | insertFull {s : Nat → Option XbinheapEntry} (key value : xbinheapidx) :
      (∀ hd, hd < size → s hd ≠ none) → HandleStep size s (.insert key value NoNode) s
  | extract {s : Nat → Option XbinheapEntry} {hd : Nat} {e : XbinheapEntry} :
      s hd = some e → HandleStep size s (.extract e.value) (Function.update s hd none)
  | extractEmpty {s : Nat → Option XbinheapEntry} :
      (∀ hd, s hd = none) → HandleStep size s (.extract (.ofNat NoNode)) s
  | increasekey {s : Nat → Option XbinheapEntry} {hd : Nat} {e : XbinheapEntry}
      (newkey : xbinheapidx) : s hd = some e →
      HandleStep size s (.increasekey hd newkey)
        (Function.update s hd (some { e with key := newkey }))
  | decreasekey {s : Nat → Option XbinheapEntry} {hd : Nat} {e : XbinheapEntry}
      (newkey : xbinheapidx) : s hd = some e →
      HandleStep size s (.decreasekey hd newkey)
        (Function.update s hd (some { e with key := newkey }))
  | peak {s : Nat → Option XbinheapEntry} (ret : xbinheapidx) : HandleStep size s (.peak ret) s
  | empty {s : Nat → Option XbinheapEntry} (ret : Bool) : HandleStep size s (.empty ret) s
  | getkey {s : Nat → Option XbinheapEntry} (idx : Nat) (ret : xbinheapidx) :
      HandleStep size s (.getkey idx ret) s

def keyOf (s : Nat → Option XbinheapEntry) (hd : Nat) : xbinheapidx :=
  (s hd).elim (.ofNat NoNode) XbinheapEntry.key

namespace Xbinheap
variable {h h' : Xbinheap} {n hd : Nat} {e : XbinheapEntry} {newkey : xbinheapidx}

def KeysLive (h : Xbinheap) : XbinheapEvent → Prop
  | .increasekey idx _ => ∃ e, h.live idx = some e
  | .decreasekey idx _ => ∃ e, h.live idx = some e
  | _ => True

def ClearOfBoundary (h : Xbinheap) (hd : Nat) : Prop :=
  h.indexes hd = h.count → (h.nodes h.count).key = .ofNat NoNode

theorem Placed.keyChanged (hp : h.Placed) (he : h.live hd = some e)
    (hr : Rearranged h.count (h.setKey (h.indexes hd) newkey) h') :
    h'.Placed ∧ h'.size = h.size ∧
      h'.live = Function.update h.live hd (some { e with key := newkey }) := by
  refine ⟨⟨hr.perm, ?_⟩, hr.size, ?_⟩
  · rw [hr.count, hr.size]
    exact hp.count_le
  · rw [← setKey_live hp he, live, hr.count]
    exact hr.liveBelow

theorem Placed.keyUp (hp : h.Placed) (he : h.live hd = some e) :
    Rearranged h.count (h.setKey (h.indexes hd) newkey)
      ((h.setKey (h.indexes hd) newkey).heapifyUp (h.indexes hd)) := by
  obtain ⟨⟨-, hlt⟩, -⟩ := liveBelow_some.mp he
  exact heapifyUp_rearranged _ _ (setNode_perm h _ _ _ hp.perm) hlt hp.count_le

theorem Placed.keyDown (hp : h.Placed) :
    Rearranged h.count (h.setKey (h.indexes hd) newkey)
      ((h.setKey (h.indexes hd) newkey).heapifyDown (h.indexes hd)) :=
  heapifyDown_rearranged _ _ (setNode_perm h _ _ _ hp.perm) hp.count_le

theorem Placed.increasekey (hp : h.Placed) (he : h.live hd = some e) :
    Rearranged h.count (h.setKey (h.indexes hd) newkey) (h.increasekey hd newkey) := by
  rw [Xbinheap.increasekey]
  by_cases hmax : h.isMaxHeap = true
  · simp only [hmax, if_true]
    exact hp.keyUp he
  · simp only [hmax]
    exact hp.keyDown

theorem Placed.decreasekey (hp : h.Placed) (he : h.live hd = some e) :
    Rearranged h.count (h.setKey (h.indexes hd) newkey) (h.decreasekey hd newkey) := by
  rw [Xbinheap.decreasekey]
  by_cases hmax : h.isMaxHeap = true
  · simp only [hmax, if_true]
    exact hp.keyDown
  · simp only [hmax]
    exact hp.keyUp he

theorem Placed.step (hp : h.Placed) {ev : XbinheapEvent} (hkeys : h.KeysLive ev)
    (hs : h.Step ev h') :
    HandleStep h.size h.live ev h'.live ∧ h'.Placed ∧ h'.size = h.size := by
  cases ev with
  | insert key value ret =>
    rw [Step] at hs
    by_cases hc : h.count < h.size
    · obtain ⟨hd, h2, hins, hp2, hsz, -, hlt, hfree, hlive⟩ := hp.insert hc key value
      rw [hins, Prod.mk.injEq] at hs
      obtain ⟨rfl, rfl⟩ := hs
      exact ⟨hlive ▸ .insert key value hlt hfree, hp2, hsz⟩
    · rw [insert_full (by omega), Prod.mk.injEq] at hs
      obtain ⟨rfl, rfl⟩ := hs
      refine ⟨.insertFull key value fun hd hhd hnone => ?_, hp, rfl⟩
      exact liveBelow_none.mp hnone ⟨hhd, (hp.perm.index_lt hd hhd).trans_le (by omega)⟩
  | extract ret =>
    rw [Step] at hs
    by_cases hc : h.count = 0
    · rw [extract_empty hc, Prod.mk.injEq] at hs
      obtain ⟨rfl, rfl⟩ := hs
      exact ⟨.extractEmpty (hp.live_eq_none_iff.mpr hc), hp, rfl⟩
    · obtain ⟨h2, hext, hp2, hsz, -, hlive⟩ := hp.extract hc
      rw [hext, Prod.mk.injEq] at hs
      obtain ⟨rfl, rfl⟩ := hs
      have hle := hp.count_le
      have hroot : h.live (h.nodes 0).h = some ⟨(h.nodes 0).key, (h.nodes 0).value⟩ :=
        hp.perm.liveBelow_handle (by omega) (by omega)
      exact ⟨hlive ▸ .extract hroot, hp2, hsz⟩
  | peak ret =>
    obtain ⟨-, rfl⟩ := hs
    exact ⟨.peak ret, hp, rfl⟩
  | empty ret =>
    obtain ⟨-, rfl⟩ := hs
    exact ⟨.empty ret, hp, rfl⟩
  | increasekey idx newkey =>
    obtain ⟨e, he⟩ := hkeys
    obtain rfl := hs
    have hr : Rearranged h.count (h.setKey (h.indexes idx) newkey) (h.increasekey idx newkey) :=
      hp.increasekey he
    obtain ⟨hp', hsz, hlive⟩ := hp.keyChanged he hr
    exact ⟨hlive ▸ .increasekey newkey he, hp', hsz⟩
  | decreasekey idx newkey =>
    obtain ⟨e, he⟩ := hkeys
    obtain rfl := hs
    have hr : Rearranged h.count (h.setKey (h.indexes idx) newkey) (h.decreasekey idx newkey) :=
      hp.decreasekey he
    obtain ⟨hp', hsz, hlive⟩ := hp.keyChanged he hr
    exact ⟨hlive ▸ .decreasekey newkey he, hp', hsz⟩
  | getkey idx ret =>
    obtain ⟨-, rfl⟩ := hs
    exact ⟨.getkey idx ret, hp, rfl⟩

/-- Of the dead handles the one at position `count` is the only one that has a key. -/
theorem getkey_iff (hhd : hd < h.size) :
    h.getkey hd = keyOf h.live hd ↔ h.ClearOfBoundary hd := by
  rcases Nat.lt_trichotomy (h.indexes hd) h.count with hlt | heq | hgt
  · have he : h.live hd = some _ := liveBelow_some.mpr ⟨⟨hhd, hlt⟩, rfl⟩
    rw [getkey_live he, keyOf, he]
    exact iff_of_true rfl fun heq => absurd heq hlt.ne
  · have hnone : h.live hd = none := liveBelow_none.mpr (by omega)
    rw [getkey, if_neg (by omega), keyOf, hnone, ClearOfBoundary, heq]
    exact ⟨fun hkey _ => hkey, fun hkey => hkey rfl⟩
  · have hnone : h.live hd = none := liveBelow_none.mpr (by omega)
    rw [getkey, if_pos hgt, keyOf, hnone]
    exact iff_of_true rfl fun heq => absurd heq hgt.ne'

/-- After any calls the live handles are those of the store with the same calls and results, and a
handle has the key of the store exactly if it is clear of the boundary. -/
theorem run_getkey_iff (size : xbinheapidx) (flags : UInt32) (indexes0 : Nat → Nat)
    (nodes0 : Nat → XbinheapNode) {evs : List XbinheapEvent}
    (hrun : Run (Guarded Step KeysLive) (init size flags indexes0 nodes0) evs h) :
    Run (HandleStep size.toNat) (fun _ => none) evs h.live ∧
      ∀ hd < size.toNat, h.getkey hd = keyOf h.live hd ↔ h.ClearOfBoundary hd := by
  obtain ⟨s, hs, rfl, hp, hsize⟩ := hrun.simulate (T := HandleStep size.toNat)
    (R := fun h s => h.live = s ∧ h.Placed ∧ h.size = size.toNat)
    (by
      rintro h ev h' s ⟨rfl, hp, hsz⟩ ⟨hlive, hstep⟩
      obtain ⟨hs, hp', hsz'⟩ := hp.step hlive hstep
      rw [hsz] at hs
      exact ⟨h'.live, hs, rfl, hp', hsz'.trans hsz⟩)
    (x := fun _ => none)
    ⟨by funext hd; simp [live, liveBelow, init], (wf_init size flags indexes0 nodes0).placed, rfl⟩
  exact ⟨hs, fun hd hhd => getkey_iff (hsize ▸ hhd)⟩

def insertExtract : List XbinheapEvent :=
  let h0 := init 2 XBINHEAP_MAX (fun _ => 0) (fun _ => ⟨0, 0, 0⟩)
  let h1 := (h0.insert 5 50).2
  [.insert 5 50 (h0.insert 5 50).1, .extract h1.extract.1]

theorem run_insertExtract : Run (Guarded Step KeysLive)
    (init 2 XBINHEAP_MAX (fun _ => 0) (fun _ => ⟨0, 0, 0⟩)) insertExtract
    ((init 2 XBINHEAP_MAX (fun _ => 0) (fun _ => ⟨0, 0, 0⟩)).insert 5 50).2.extract.2 :=
  .cons ⟨trivial, rfl⟩ (.single ⟨trivial, rfl⟩)

theorem run_getkey_iff_insertExtract :
    let h := ((init 2 XBINHEAP_MAX (fun _ => 0) (fun _ => ⟨0, 0, 0⟩)).insert 5 50).2.extract.2
    Run (HandleStep 2) (fun _ => none) insertExtract h.live ∧
      ∀ hd < 2, h.getkey hd = keyOf h.live hd ↔ h.ClearOfBoundary hd :=
  run_getkey_iff 2 XBINHEAP_MAX (fun _ => 0) (fun _ => ⟨0, 0, 0⟩) run_insertExtract

/-- The handle of an extracted element has its old key until the next insertion. -/
theorem not_run_getkey : ¬ ∀ (size : xbinheapidx) (flags : UInt32) (indexes0 : Nat → Nat)
    (nodes0 : Nat → XbinheapNode) (evs : List XbinheapEvent) (h : Xbinheap),
    Run (Guarded Step KeysLive) (init size flags indexes0 nodes0) evs h →
    ∀ hd < size.toNat, h.getkey hd = keyOf h.live hd := by
  intro hall
  have hkey := hall 2 XBINHEAP_MAX (fun _ => 0) (fun _ => ⟨0, 0, 0⟩) _ _ run_insertExtract 0
    (by decide)
  exact absurd hkey (by decide +kernel)

end Xbinheap

end Libxseg
