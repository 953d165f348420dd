import Mathlib.Data.List.FinRange
import Mathlib.Data.List.Induction
import Mathlib.Data.List.Nodup
import Mathlib.Logic.Function.Basic
import Libxseg.Transition
import Libxseg.XsegSpec

/-!
# Drivers: the table of peer types of a segment

A segment has a table of the names of its peer types; the serial of a type is its place
in there. The table is append-only, a name is looked for from its start and the first
entry without a name is bound. Every process that has joined keeps its own arrays of the
drivers and their data. The memory of a new segment is zero: no entry has a name.
-/

namespace Libxseg

set_option autoImplicit false

def NoNul (bytes : List UInt8) : Prop := ∀ c ∈ bytes, c ≠ 0

instance (bytes : List UInt8) : Decidable (NoNul bytes) := List.decidableBAll _ bytes

/-- The name of a peer type: a string that fits into `XSEG_TNAMESIZE` with its NUL. Two of them
are equal for `strncmp` if they are the same bytes. -/
structure TypeName where
  bytes : List UInt8
  no_nul : NoNul bytes
  length_lt : bytes.length < XSEG_TNAMESIZE
  deriving DecidableEq

def TypeName.empty : TypeName := ⟨[], by decide, by decide⟩

structure XsegPeer where
  name : TypeName
  deriving DecidableEq

/-- What is shared of the table; there is room for `max_peer_types` names. -/
structure XsegPeerTypes where
  peer_types : List TypeName
  peer_type_data : List UInt64
  nr_peer_types : UInt32

/-- What a process has of the table, and where the segment is in its memory. -/
structure XsegPrivate where
  segment : UInt64
  peer_types : List (Option XsegPeer)
  peer_type_data : List UInt64

/-- The data of a serial in the memory of this process, or a null pointer. -/
def getPeerTypeData (shared : XsegPeerTypes) (priv : XsegPrivate) (serial : Nat) :
    UInt64 × XsegPrivate :=
  if shared.peer_types.length ≤ serial then (0, priv)
  else
    let data := priv.peer_type_data.getD serial 0
    if data ≠ 0 then (data, priv)
    else if shared.peer_types.getD serial .empty = .empty then (0, priv)
    else
      let data := priv.segment + shared.peer_type_data.getD serial 0
      (data, { priv with peer_type_data := priv.peer_type_data.set serial data })

/-- The loop of `__enable_driver` from the serial `r` on: a serial to bind, or one that has the
name already. -/
def scanDrivers (name : TypeName) : List TypeName → Nat → Option (Nat × Bool)
  | [], _ => none
  | d :: drivers, r =>
    if d = .empty then some (r, false)
    else if d = name then some (r, true)
    else scanDrivers name drivers (r + 1)

/-- The label `success`. -/
def XsegPrivate.enable (priv : XsegPrivate) (r : Nat) (driver : XsegPeer) (data : UInt64) :
    XsegPrivate :=
  { priv with
    peer_types := priv.peer_types.set r (some driver)
    peer_type_data := priv.peer_type_data.set r data }

def XsegPeerTypes.bind (shared : XsegPeerTypes) (r : Nat) (name : TypeName) (data : UInt64) :
    XsegPeerTypes where
  peer_types := shared.peer_types.set r name
  peer_type_data := shared.peer_type_data.set r data
  nr_peer_types := UInt32.ofNat (r + 1)

/-- `__enable_driver`, whose call of `alloc_data` would give `data`. -/
def enableDriver (shared : XsegPeerTypes) (priv : XsegPrivate) (driver : XsegPeer)
    (data : UInt64) : Int × XsegPeerTypes × XsegPrivate :=
  let max_drivers := shared.peer_types.length
  if max_drivers ≤ shared.nr_peer_types.toNat then (-1, shared, priv)
  else
    match scanDrivers driver.name shared.peer_types 0 with
    | none => (-666, shared, priv)
    | some (r, true) =>
      let (data, priv) := getPeerTypeData shared priv r
      (r, shared, priv.enable r driver data)
    | some (r, false) =>
      if data = 0 then (-1, shared, priv)
      else (r, shared.bind r driver.name (data - priv.segment), priv.enable r driver data)

namespace XsegPeerTypes

structure Holds (shared : XsegPeerTypes) (bound : List TypeName) (room : Nat) : Prop where
  names : shared.peer_types = bound ++ List.replicate room .empty
  count : shared.nr_peer_types.toNat = bound.length
  nonempty : ∀ name ∈ bound, name ≠ .empty
  nodup : bound.Nodup
  small : bound.length + room < 2 ^ 32

def init (max_peer_types : UInt32) : XsegPeerTypes where
  peer_types := List.replicate max_peer_types.toNat .empty
  peer_type_data := List.replicate max_peer_types.toNat 0
  nr_peer_types := 0

theorem holds_init (max_peer_types : UInt32) :
    (init max_peer_types).Holds [] max_peer_types.toNat where
  names := rfl
  count := rfl
  nonempty := fun _ h => absurd h List.not_mem_nil
  nodup := List.nodup_nil
  small := by
    rw [List.length_nil, Nat.zero_add]
    exact max_peer_types.toNat_lt

theorem scanDrivers_known {name : TypeName} {bound : List TypeName} (rest : List TypeName) (r : Nat)
    (hbound : ∀ name ∈ bound, name ≠ .empty) (hname : name ∈ bound) :
    scanDrivers name (bound ++ rest) r = some (r + bound.idxOf name, true) := by
  induction bound generalizing r with
  | nil => exact absurd hname List.not_mem_nil
  | cons d bound ih =>
    have hd := hbound d (List.mem_cons_self ..)
    rw [List.cons_append, scanDrivers, if_neg hd]
    by_cases hdn : d = name
    · rw [if_pos hdn, hdn, List.idxOf_cons_self, Nat.add_zero]
    · rw [if_neg hdn, List.idxOf_cons_ne _ hdn]
      have htail := (List.mem_cons.mp hname).resolve_left (Ne.symm hdn)
      rw [ih (r + 1) (fun n hn => hbound n (List.mem_cons_of_mem _ hn)) htail]
      congr 2
      omega

theorem scanDrivers_new {name : TypeName} {bound : List TypeName} (rest : List TypeName) (r : Nat)
    (hbound : ∀ name ∈ bound, name ≠ .empty) (hname : name ∉ bound) :
    scanDrivers name (bound ++ .empty :: rest) r = some (r + bound.length, false) := by
  induction bound generalizing r with
  | nil => rfl
  | cons d bound ih =>
    have hd := hbound d (List.mem_cons_self ..)
    have hdn : d ≠ name := fun heq => hname (List.mem_cons.mpr (.inl heq.symm))
    have htail : name ∉ bound := fun hn => hname (List.mem_cons_of_mem _ hn)
    rw [List.cons_append, scanDrivers, if_neg hd, if_neg hdn,
      ih (r + 1) (fun n hn => hbound n (List.mem_cons_of_mem _ hn)) htail, List.length_cons]
    congr 2
    omega

theorem Holds.bind {shared : XsegPeerTypes} {bound : List TypeName} {room : Nat} {name : TypeName}
    (h : shared.Holds bound (room + 1)) (hname : name ≠ .empty) (hnew : name ∉ bound)
    (data : UInt64) : (shared.bind bound.length name data).Holds (bound ++ [name]) room where
  names := by
    unfold XsegPeerTypes.bind
    dsimp only
    rw [h.names, List.set_append_right _ _ (le_refl _), Nat.sub_self, List.append_assoc]
    rfl
  count := by
    have hsmall := h.small
    unfold XsegPeerTypes.bind
    rw [List.length_append, UInt32.toNat_ofNat']
    exact Nat.mod_eq_of_lt (by omega)
  nonempty := by
    intro n hn
    rcases List.mem_append.mp hn with hn | hn
    · exact h.nonempty n hn
    · rwa [List.mem_singleton.mp hn]
  nodup := List.nodup_append.mpr ⟨h.nodup, List.nodup_singleton _, by
    intro a ha b hb
    rw [List.mem_singleton.mp hb]
    exact fun heq => hnew (heq ▸ ha)⟩
  small := by
    have hsmall := h.small
    rw [List.length_append, List.length_singleton]
    omega

theorem Holds.getElem? {shared : XsegPeerTypes} {bound : List TypeName} {room r : Nat}
    {name : TypeName} (h : shared.Holds bound room) (hname : name ≠ .empty)
    (hr : shared.peer_types[r]? = some name) : bound[r]? = some name := by
  rw [h.names] at hr
  rcases Nat.lt_or_ge r bound.length with hlt | hge
  · rwa [List.getElem?_append_left hlt] at hr
  · rw [List.getElem?_append_right hge] at hr
    have hempty := List.eq_of_mem_replicate (List.mem_of_getElem? hr)
    exact absurd hempty hname

inductive Outcome (shared : XsegPeerTypes) (bound : List TypeName) (name : TypeName) :
    Nat → Int → XsegPeerTypes → Prop where
  | full : Outcome shared bound name 0 (-1) shared
  | known {room : Nat} : name ∈ bound →
      Outcome shared bound name (room + 1) (bound.idxOf name) shared
  | unable {room : Nat} : name ∉ bound → Outcome shared bound name (room + 1) (-1) shared
  | new {room : Nat} (data : UInt64) : name ∉ bound →
      Outcome shared bound name (room + 1) bound.length (shared.bind bound.length name data)

theorem Holds.length {shared : XsegPeerTypes} {bound : List TypeName} {room : Nat}
    (h : shared.Holds bound room) : shared.peer_types.length = bound.length + room := by
  rw [h.names, List.length_append, List.length_replicate]

theorem Holds.enableDriver_full {shared : XsegPeerTypes} {bound : List TypeName}
    (h : shared.Holds bound 0) (priv : XsegPrivate) (driver : XsegPeer) (data : UInt64) :
    Libxseg.enableDriver shared priv driver data = (-1, shared, priv) := by
  unfold Libxseg.enableDriver
  dsimp only
  rw [h.length, h.count]
  exact if_pos (Nat.le_refl _)

theorem Holds.enableDriver_new {shared : XsegPeerTypes} {bound : List TypeName} {room : Nat}
    (h : shared.Holds bound (room + 1)) (priv : XsegPrivate) {driver : XsegPeer}
    (hnew : driver.name ∉ bound) {data : UInt64} (hdata : data ≠ 0) :
    Libxseg.enableDriver shared priv driver data =
      ((bound.length : Int), shared.bind bound.length driver.name (data - priv.segment),
        priv.enable bound.length driver data) := by
  unfold Libxseg.enableDriver
  dsimp only
  rw [h.length, h.count, if_neg (by omega), h.names, List.replicate_succ,
    scanDrivers_new _ 0 h.nonempty hnew, Nat.zero_add]
  exact if_neg hdata

theorem Holds.enableDriver {shared : XsegPeerTypes} {bound : List TypeName} {room : Nat}
    (h : shared.Holds bound room) (priv : XsegPrivate) (driver : XsegPeer) (data : UInt64) :
    Outcome shared bound driver.name room (enableDriver shared priv driver data).1
      (enableDriver shared priv driver data).2.1 := by
  cases room with
  | zero =>
    rw [h.enableDriver_full]
    exact .full
  | succ room =>
    by_cases hname : driver.name ∈ bound
    · unfold Libxseg.enableDriver
      dsimp only
      rw [h.length, h.count, if_neg (by omega), h.names,
        scanDrivers_known _ 0 h.nonempty hname, Nat.zero_add]
      exact .known hname
    · by_cases hdata : data = 0
      · unfold Libxseg.enableDriver
        dsimp only
        rw [h.length, h.count, if_neg (by omega), h.names, List.replicate_succ,
          scanDrivers_new _ 0 h.nonempty hname, Nat.zero_add]
        dsimp only
        rw [if_pos hdata]
        exact .unable hname
      · rw [h.enableDriver_new priv hname hdata]
        exact .new _ hname

end XsegPeerTypes

theorem enableDriver_failed {shared : XsegPeerTypes} {priv : XsegPrivate} {driver : XsegPeer}
    {data : UInt64} (h : (enableDriver shared priv driver data).1 < 0) :
    (enableDriver shared priv driver data).2.1 = shared := by
  unfold enableDriver at h ⊢
  dsimp only at h ⊢
  split at h
  · rw [if_pos ‹_›]
  · rw [if_neg ‹_›]
    split at h
    · rfl
    · rfl
    · split at h
      · rw [if_pos ‹_›]
      · exact absurd h (Int.not_lt.mpr (Int.natCast_nonneg _))

structure DriverCall (θ : Type) where
  process : θ
  driver : XsegPeer
  data : UInt64
  result : Int

structure DriverWorld (θ : Type) where
  shared : XsegPeerTypes
  privs : θ → XsegPrivate

namespace DriverWorld
variable {θ : Type} [DecidableEq θ]

def init (max_peer_types : UInt32) (privs : θ → XsegPrivate) : DriverWorld θ :=
  ⟨.init max_peer_types, privs⟩

def perform (w : DriverWorld θ) (c : DriverCall θ) : Option (DriverWorld θ) :=
  let (r, shared, priv) := enableDriver w.shared (w.privs c.process) c.driver c.data
  if c.result = r then some ⟨shared, Function.update w.privs c.process priv⟩ else none

def Step (w : DriverWorld θ) (c : DriverCall θ) (w' : DriverWorld θ) : Prop :=
  w.perform c = some w'

/-- Once a call has bound a name or found it, later calls give that serial for that name and for
no other. -/
def KeepsSerials (cs : List (DriverCall θ)) : Prop :=
  cs.Pairwise fun c d => 0 ≤ c.result →
    (d.driver.name = c.driver.name ↔ d.result = c.result)

structure Stable (cs : List (DriverCall θ)) (w : DriverWorld θ) : Prop where
  unique : ∀ (r s : Nat) (name : TypeName), name ≠ .empty →
    w.shared.peer_types[r]? = some name → w.shared.peer_types[s]? = some name → r = s
  bound : ∀ c ∈ cs, 0 ≤ c.result →
    w.shared.peer_types[c.result.toNat]? = some c.driver.name
  serials : KeepsSerials cs
  failed : ∀ c w', w.Step c w' → c.result < 0 → w'.shared = w.shared

def Admissible (w : DriverWorld θ) (c : DriverCall θ) : Prop :=
  if w.shared.peer_types.length ≤ w.shared.nr_peer_types.toNat then
    c.driver.name ∉ w.shared.peer_types
  else c.driver.name ≠ .empty

instance (w : DriverWorld θ) (c : DriverCall θ) : Decidable (w.Admissible c) := by
  unfold Admissible
  infer_instance

/-- The table holds some names, and calls that succeeded gave their places. -/
structure Inv (cs : List (DriverCall θ)) (w : DriverWorld θ) (bound : List TypeName)
    (room : Nat) : Prop where
  holds : w.shared.Holds bound room
  served : ∀ c ∈ cs, 0 ≤ c.result → bound[c.result.toNat]? = some c.driver.name
  serials : KeepsSerials cs

section Steps
variable {cs : List (DriverCall θ)} {w w' : DriverWorld θ} {c : DriverCall θ}
  {bound : List TypeName} {room : Nat}

theorem step_outcome (h : w.Step c w') :
    (enableDriver w.shared (w.privs c.process) c.driver c.data).1 = c.result ∧
      (enableDriver w.shared (w.privs c.process) c.driver c.data).2.1 = w'.shared := by
  obtain ⟨hresult, rfl⟩ := of_ite_some h
  exact ⟨hresult.symm, rfl⟩

omit [DecidableEq θ] in
/-- A call that gives the place of its name, or fails for a name that is not bound. -/
theorem Inv.snoc (h : Inv cs w bound room) {bound' : List TypeName} {room' : Nat}
    (hholds : w'.shared.Holds bound' room') (hextends : bound <+: bound')
    (hserved : 0 ≤ c.result → bound'[c.result.toNat]? = some c.driver.name)
    (hfailed : c.result < 0 → c.driver.name ∉ bound) :
    Inv (cs ++ [c]) w' bound' room' := by
  have hkept (d : DriverCall θ) (hd : d ∈ cs) (hpos : 0 ≤ d.result) :
      bound'[d.result.toNat]? = some d.driver.name := by
    obtain ⟨more, rfl⟩ := hextends
    have hold := h.served d hd hpos
    obtain ⟨hlt, -⟩ := List.getElem?_eq_some_iff.mp hold
    rwa [List.getElem?_append_left hlt]
  refine ⟨hholds, ?_, ?_⟩
  · intro d hd hpos
    rcases List.mem_append.mp hd with hd | hd
    · exact hkept d hd hpos
    · obtain rfl := List.mem_singleton.mp hd
      exact hserved hpos
  · refine List.pairwise_append.mpr ⟨h.serials, List.pairwise_singleton _ _, ?_⟩
    intro d hd e he hpos
    obtain rfl := List.mem_singleton.mp he
    have hold := hkept d hd hpos
    constructor
    · intro hname
      have hmem : e.driver.name ∈ bound := by
        rw [hname]
        exact List.mem_of_getElem? (h.served d hd hpos)
      have hnonneg : 0 ≤ e.result := by
        by_contra hneg
        exact hfailed (Int.not_le.mp hneg) hmem
      have hnew := hserved hnonneg
      rw [hname, ← hold] at hnew
      obtain ⟨hlt, -⟩ := List.getElem?_eq_some_iff.mp hold
      have hplace := (List.getElem?_inj hlt hholds.nodup).mp hnew.symm
      omega
    · intro hresult
      have hnew := hserved (hresult ▸ hpos)
      rw [hresult, hold] at hnew
      exact (Option.some.inj hnew).symm

theorem Inv.step (h : Inv cs w bound room) (hok : w.Admissible c) (hstep : w.Step c w') :
    ∃ bound' room', Inv (cs ++ [c]) w' bound' room' := by
  obtain ⟨hresult, hshared⟩ := step_outcome hstep
  have houtcome := h.holds.enableDriver (w.privs c.process) c.driver c.data
  rw [hresult, hshared] at houtcome
  have hnames := h.holds.names
  have hcount := h.holds.count
  unfold Admissible at hok
  rw [hcount, hnames, List.length_append, List.length_replicate] at hok
  generalize hr : c.result = r at houtcome
  generalize hs : w'.shared = shared' at houtcome
  cases houtcome with
  | full =>
    rw [if_pos (by omega)] at hok
    refine ⟨bound, 0, h.snoc (hs ▸ h.holds) (List.prefix_refl _) ?_ ?_⟩
    · intro hpos
      omega
    · exact fun _ hmem => hok (List.mem_append_left _ hmem)
  | known hmem =>
    refine ⟨bound, _, h.snoc (hs ▸ h.holds) (List.prefix_refl _) ?_ ?_⟩
    · intro _
      rw [hr]
      exact List.getElem?_idxOf hmem
    · intro hneg
      omega
  | unable hnew =>
    refine ⟨bound, _, h.snoc (hs ▸ h.holds) (List.prefix_refl _) ?_ fun _ => hnew⟩
    intro hpos
    omega
  | new data hnew =>
    rw [if_neg (by omega)] at hok
    refine ⟨_, _, h.snoc (hs ▸ h.holds.bind hok hnew data) (List.prefix_append _ _) ?_ ?_⟩
    · intro _
      rw [hr]
      exact List.getElem?_concat_length
    · intro hneg
      omega

theorem Inv.stable (h : Inv cs w bound room) : Stable cs w where
  unique := by
    intro r s name hname hr hs
    have hr' := h.holds.getElem? hname hr
    have hs' := h.holds.getElem? hname hs
    obtain ⟨hlt, -⟩ := List.getElem?_eq_some_iff.mp hr'
    exact (List.getElem?_inj hlt h.holds.nodup).mp (hr'.trans hs'.symm)
  bound := by
    intro c hc hpos
    have hserved := h.served c hc hpos
    obtain ⟨hlt, -⟩ := List.getElem?_eq_some_iff.mp hserved
    rwa [h.holds.names, List.getElem?_append_left hlt]
  serials := h.serials
  failed := by
    intro c w' hstep hneg
    obtain ⟨hresult, hshared⟩ := step_outcome hstep
    rw [← hshared]
    exact enableDriver_failed (hresult ▸ hneg)

theorem run_inv {max_peer_types : UInt32} {privs : θ → XsegPrivate}
    (hrun : Run (Guarded Step Admissible) (init max_peer_types privs) cs w) :
    ∃ bound room, Inv cs w bound room := by
  apply hrun.history (I := fun cs w => ∃ bound room, Inv cs w bound room)
  · rintro cs w c w' ⟨bound, room, h⟩ ⟨hok, hstep⟩
    exact h.step hok hstep
  · exact ⟨_, _, XsegPeerTypes.holds_init _, fun _ hc => absurd hc List.not_mem_nil, .nil⟩

theorem run_stable {max_peer_types : UInt32} {privs : θ → XsegPrivate}
    (hrun : Run (Guarded Step Admissible) (init max_peer_types privs) cs w) : Stable cs w := by
  obtain ⟨bound, room, h⟩ := run_inv hrun
  exact h.stable

/-- One process binds the only entry and another one finds the table full. -/
theorem run_stable_two : ∃ w : DriverWorld (Fin 2),
    Run (Guarded Step Admissible) (init 1 fun _ => ⟨4096, [none], [0]⟩)
      [⟨0, ⟨⟨[97], by decide, by decide⟩⟩, 8192, 0⟩,
        ⟨1, ⟨⟨[98], by decide, by decide⟩⟩, 8192, -1⟩] w ∧
    Stable [⟨0, ⟨⟨[97], by decide, by decide⟩⟩, 8192, 0⟩,
        ⟨1, ⟨⟨[98], by decide, by decide⟩⟩, 8192, -1⟩] w := by
  have hexec : (execute perform Admissible
      (init 1 fun _ : Fin 2 => ⟨4096, [none], [0]⟩)
      [⟨0, ⟨⟨[97], by decide, by decide⟩⟩, 8192, 0⟩,
        ⟨1, ⟨⟨[98], by decide, by decide⟩⟩, 8192, -1⟩]).any (fun _ => true) = true := by decide
  obtain ⟨w, hrun, -⟩ := Run.of_execute_any (fun _ _ _ h => (h : Step _ _ _)) hexec
  exact ⟨w, hrun, run_stable hrun⟩

theorem step_full (h : w.shared.Holds bound 0) (p : θ) (driver : XsegPeer) (data : UInt64) :
    ∃ w', w.Step ⟨p, driver, data, -1⟩ w' := by
  refine ⟨⟨w.shared, Function.update w.privs p (w.privs p)⟩, ?_⟩
  unfold Step perform
  dsimp only
  rw [h.enableDriver_full]
  exact if_pos rfl

theorem step_new {name : TypeName} (h : w.shared.Holds bound (room + 1))
    (hname : name ≠ .empty) (hnew : name ∉ bound) {data : UInt64} (hdata : data ≠ 0) (p : θ) :
    ∃ w', w.Step ⟨p, ⟨name⟩, data, bound.length⟩ w' ∧
      w'.shared.Holds (bound ++ [name]) room := by
  have heq := h.enableDriver_new (w.privs p) (show (XsegPeer.mk name).name ∉ bound from hnew) hdata
  refine ⟨⟨w.shared.bind bound.length name (data - (w.privs p).segment),
    Function.update w.privs p ((w.privs p).enable bound.length ⟨name⟩ data)⟩, ?_,
    h.bind hname hnew (data - (w.privs p).segment)⟩
  unfold Step perform
  dsimp only
  rw [heq]
  exact if_pos rfl

theorem run_new {names : List TypeName} (hnodup : names.Nodup)
    (hnonempty : ∀ name ∈ names, name ≠ .empty) (p : θ) {data : UInt64} (hdata : data ≠ 0)
    (max_peer_types : UInt32) (privs : θ → XsegPrivate)
    (hroom : names.length ≤ max_peer_types.toNat) :
    ∃ w, Run Step (init max_peer_types privs)
        (names.mapIdx fun r name => ⟨p, ⟨name⟩, data, r⟩) w ∧
      w.shared.Holds names (max_peer_types.toNat - names.length) := by
  induction names using List.reverseRec with
  | nil => exact ⟨_, .refl _, XsegPeerTypes.holds_init max_peer_types⟩
  | append_singleton names name ih =>
    rw [List.length_append, List.length_singleton] at hroom
    have hsplit := List.nodup_append.mp hnodup
    have hnew : name ∉ names := by
      intro hmem
      exact hsplit.2.2 name hmem name (List.mem_singleton.mpr rfl) rfl
    have hlast := hnonempty name (List.mem_append_right _ (List.mem_singleton.mpr rfl))
    obtain ⟨w, hrun, hholds⟩ := ih hsplit.1
      (fun n hn => hnonempty n (List.mem_append_left _ hn)) (by omega)
    obtain ⟨room, hleft⟩ : ∃ room, max_peer_types.toNat - names.length = room + 1 :=
      ⟨max_peer_types.toNat - names.length - 1, by omega⟩
    rw [hleft] at hholds
    obtain ⟨w', hstep, hholds'⟩ := step_new hholds hlast hnew hdata p
    refine ⟨w', ?_, ?_⟩
    · rw [List.mapIdx_concat]
      exact hrun.snoc hstep
    · rw [List.length_append, List.length_singleton]
      convert hholds' using 1
      omega

end Steps

def placeName (i : Fin 255) : TypeName where
  bytes := [UInt8.ofNat (i + 1)]
  no_nul := by
    intro c hc
    rw [List.mem_singleton.mp hc]
    intro hzero
    have hnat := congrArg UInt8.toNat hzero
    rw [UInt8.toNat_ofNat', Nat.mod_eq_of_lt (by omega)] at hnat
    exact absurd hnat (Nat.succ_ne_zero _)
  length_lt := Nat.lt_add_left 30 Nat.one_lt_two

theorem placeName_injective : Function.Injective placeName := by
  intro i j hij
  have hbyte := List.singleton_inj.mp (congrArg TypeName.bytes hij)
  have hnat := congrArg UInt8.toNat hbyte
  rw [UInt8.toNat_ofNat', UInt8.toNat_ofNat', Nat.mod_eq_of_lt (by omega),
    Nat.mod_eq_of_lt (by omega)] at hnat
  omega

theorem placeName_ne_empty (i : Fin 255) : placeName i ≠ .empty := by
  intro heq
  exact List.cons_ne_nil _ _ (congrArg TypeName.bytes heq)

/-- For a page of 4096 bytes `xheap_allocate` gives a chunk of 8168, with room for 255 names of 32.
All of them are bound, and the first one is enabled once more. -/
theorem not_run_stable : ∃ (cs : List (DriverCall (Fin 1))) (w : DriverWorld (Fin 1)),
    Run Step (init 255 fun _ => ⟨4096, List.replicate 255 none, List.replicate 255 0⟩) cs w ∧
    ¬ Stable cs w := by
  have hnonempty : ∀ name ∈ (List.finRange 255).map placeName, name ≠ .empty := by
    intro name hname
    obtain ⟨i, -, rfl⟩ := List.mem_map.mp hname
    exact placeName_ne_empty i
  have hlength : ((List.finRange 255).map placeName).length = 255 := by
    rw [List.length_map, List.length_finRange]
  obtain ⟨w, hrun, hholds⟩ := run_new ((List.nodup_finRange 255).map placeName_injective)
    hnonempty (0 : Fin 1) (show (8192 : UInt64) ≠ 0 by decide) 255
    (fun _ => ⟨4096, List.replicate 255 none, List.replicate 255 0⟩) (Nat.le_of_eq hlength)
  rw [hlength] at hholds
  obtain ⟨w', hstep⟩ := step_full hholds (0 : Fin 1) ⟨placeName 0⟩ 8192
  refine ⟨_, w', hrun.snoc hstep, ?_⟩
  intro hstable
  have hfirst : (⟨0, ⟨placeName 0⟩, 8192, 0⟩ : DriverCall (Fin 1)) ∈
      ((List.finRange 255).map placeName).mapIdx fun r name => ⟨0, ⟨name⟩, 8192, r⟩ :=
    List.mem_mapIdx.mpr ⟨0, by rw [hlength]; decide, rfl⟩
  have hlast := (List.pairwise_append.mp hstable.serials).2.2 _ hfirst
    ⟨0, ⟨placeName 0⟩, 8192, -1⟩ (List.mem_singleton.mpr rfl) (by decide)
  exact absurd (hlast.mp rfl) (by decide)

end DriverWorld

end Libxseg
