/-
RecentMessages/Control/Pinning.lean

Pinned channels, which a node always joins (`db.rs`, `cluster.rs`).

A control store without a cluster keeps a flag in its own tables, in one transaction for
each call (`PinStore`).  Under cluster control every call is a mutation of the owner, and
each node reads the pins from its copy of the owner's table (`PinCluster`).  What both are
for is a set of channels with a limit, and with a mark that the first list was applied
(`PinSet`): either of them answers as the set does.

They differ in two answers only.  Cluster control refuses a maximum that no `i64` holds,
and a replica hears of every error of the owner as `ClusterUnavailable`.
-/
import RecentMessages.Control.ControlStore
import RecentMessages.Control.Replication
import RecentMessages.Library.Lockstep

namespace RecentMessages

/-- A call that concerns pinned channels. -/
inductive PinCall
  | bootstrapAlwaysJoinChannels (channels : List String)
  | setAlwaysJoinChannel (channelLogin : String) (enabled : Bool)
  | replaceAlwaysJoinChannels (channels : List String)
  | setChannelIgnored (channelLogin : String) (ignored : Bool) (nowMs : ℕ)
  deriving DecidableEq

/-- A list of channels without regard to case. -/
def loginsOf (channels : List String) : Finset String := (channels.map toAsciiLowercase).toFinset

/-- The lists of the call have at most `maximum` distinct channels. -/
def PinCall.Fits (maximum : ℕ) : PinCall → Prop
  | .bootstrapAlwaysJoinChannels channels => (loginsOf channels).card ≤ maximum
  | .replaceAlwaysJoinChannels channels => (loginsOf channels).card ≤ maximum
  | _ => True

instance (maximum : ℕ) : ∀ call : PinCall, Decidable (call.Fits maximum)
  | .bootstrapAlwaysJoinChannels channels =>
    inferInstanceAs (Decidable ((loginsOf channels).card ≤ maximum))
  | .replaceAlwaysJoinChannels channels =>
    inferInstanceAs (Decidable ((loginsOf channels).card ≤ maximum))
  | .setAlwaysJoinChannel _ _ => inferInstanceAs (Decidable True)
  | .setChannelIgnored _ _ _ => inferInstanceAs (Decidable True)

/-! ### A set with a limit -/

/-- The pinned channels.  Nothing is pinned before the mark is set. -/
structure PinSet where
  pins : Finset String
  applied : Bool
  applied_of_nonempty : pins.Nonempty → applied = true

namespace PinSet

/-- Nothing is pinned. -/
def fresh (applied : Bool) : PinSet := ⟨∅, applied, fun h => absurd h Finset.not_nonempty_empty⟩

/-- The set with the mark. -/
def marked (pins : Finset String) : PinSet := ⟨pins, true, fun _ => rfl⟩

/-- A call.  `refused` says that the maximum is refused. -/
def call (refused : Bool) (maximum : ℕ) (s : PinSet) : PinCall → Except ClusterError Bool × PinSet
  | .bootstrapAlwaysJoinChannels channels =>
    if channels = [] ∨ s.applied = true then (.ok false, s)
    else (.ok true, marked (s.pins ∪ loginsOf channels))
  | .setAlwaysJoinChannel channelLogin true =>
    if refused then (.error .unavailable, s)
    else if toAsciiLowercase channelLogin ∈ s.pins ∨ s.pins.card < maximum then
      (.ok false, marked (insert (toAsciiLowercase channelLogin) s.pins))
    else (.error (.alwaysJoinLimit maximum), s)
  | .setAlwaysJoinChannel channelLogin false =>
    (.ok false, marked (s.pins.erase (toAsciiLowercase channelLogin)))
  | .replaceAlwaysJoinChannels channels => (.ok false, marked (loginsOf channels))
  | .setChannelIgnored _ _ _ => (.ok false, s)

/-- A call, and the list after it. -/
def observe (refused : Bool) (maximum : ℕ) (s : PinSet) (c : PinCall) :
    (Except ClusterError Bool × List String) × PinSet :=
  (((s.call refused maximum c).1, (s.call refused maximum c).2.pins.sort),
    (s.call refused maximum c).2)

/-- **No call pins more than the maximum.** -/
theorem card_call (refused : Bool) {maximum : ℕ} {s : PinSet} (hs : s.pins.card ≤ maximum)
    {c : PinCall} (hc : c.Fits maximum) : (s.call refused maximum c).2.pins.card ≤ maximum := by
  cases c with
  | bootstrapAlwaysJoinChannels channels =>
    rw [call]
    split
    · exact hs
    · rename_i hnew
      -- nothing was pinned before the mark
      have hnone : s.pins = ∅ := by
        by_contra hne
        exact hnew (.inr (s.applied_of_nonempty (Finset.nonempty_iff_ne_empty.mpr hne)))
      show (s.pins ∪ loginsOf channels).card ≤ maximum
      rw [hnone, Finset.empty_union]
      exact hc
  | setAlwaysJoinChannel channelLogin enabled =>
    cases enabled with
    | false => exact Finset.card_erase_le.trans hs
    | true =>
      rw [call]
      split
      · exact hs
      split
      · rename_i hroom
        show (insert (toAsciiLowercase channelLogin) s.pins).card ≤ maximum
        rcases hroom with hmem | hlt
        · rwa [Finset.insert_eq_of_mem hmem]
        · exact (Finset.card_insert_le _ _).trans hlt
      · exact hs
  | replaceAlwaysJoinChannels channels => exact hc
  | setChannelIgnored channelLogin ignored nowMs => exact hs

end PinSet

/-! ### Without a cluster -/

/-- A control store without a cluster; `alwaysJoin` has the channels whose flag is set. -/
structure PinStore where
  store : ControlStore
  alwaysJoin : KeyTable (id : String → String)
  /-- `always_join_bootstrap_applied`. -/
  bootstrapApplied : Bool

namespace PinStore

variable (c : PinStore)

/-- `INSERT INTO channel … ON CONFLICT(channel_login) DO UPDATE SET always_join=1`. -/
def pin (login : String) : PinStore :=
  { c with
    store := { c.store with channel := c.store.channel.insertIgnore ⟨login, none, 0⟩ }
    alwaysJoin := c.alwaysJoin.insertIgnore login }

/-- `mark_always_join_bootstrap_applied`. -/
def markApplied : PinStore := { c with bootstrapApplied := true }

/-- `get_always_join_channels`. -/
def getAlwaysJoinChannels : List String := sortByKey id c.alwaysJoin.rows

/-- `bootstrap_always_join_channels`. -/
def bootstrapAlwaysJoinChannels (channels : List String) : Except ClusterError Bool × PinStore :=
  if channels.isEmpty then (.ok false, c)
  else if c.bootstrapApplied then (.ok false, c)
  else (.ok true, ((channels.map toAsciiLowercase).foldl pin c).markApplied)

/-- `set_always_join_channel`; an error rolls back. -/
def setAlwaysJoinChannel (channelLogin : String) (enabled : Bool) (maximum : ℕ) :
    Except ClusterError Bool × PinStore :=
  let login := toAsciiLowercase channelLogin
  if enabled then
    let alreadyEnabled := (c.alwaysJoin.lookup login).isSome
    let count := c.alwaysJoin.rows.length
    if ¬alreadyEnabled ∧ maximum ≤ count then (.error (.alwaysJoinLimit maximum), c)
    else (.ok false, (c.pin login).markApplied)
  else
    (.ok false, { c with alwaysJoin := c.alwaysJoin.erase login }.markApplied)

/-- `replace_always_join_channels`. -/
def replaceAlwaysJoinChannels (channels : List String) : Except ClusterError Bool × PinStore :=
  let unpinned : PinStore := { c with alwaysJoin := KeyTable.empty }
  (.ok false, ((channels.map toAsciiLowercase).dedup.foldl pin unpinned).markApplied)

/-- A call. -/
def call (maximum : ℕ) : PinCall → Except ClusterError Bool × PinStore
  | .bootstrapAlwaysJoinChannels channels => c.bootstrapAlwaysJoinChannels channels
  | .setAlwaysJoinChannel channelLogin enabled =>
    c.setAlwaysJoinChannel channelLogin enabled maximum
  | .replaceAlwaysJoinChannels channels => c.replaceAlwaysJoinChannels channels
  | .setChannelIgnored channelLogin ignored nowMs =>
    (.ok false, { c with store := c.store.setChannelIgnored channelLogin ignored nowMs })

/-- A call, and the list after it. -/
def observe (maximum : ℕ) (c : PinStore) (pinCall : PinCall) :
    (Except ClusterError Bool × List String) × PinStore :=
  (((c.call maximum pinCall).1, (c.call maximum pinCall).2.getAlwaysJoinChannels),
    (c.call maximum pinCall).2)

end PinStore

/-! ### Under cluster control -/

/-- `pins`. -/
def ClusterDb.pinnedLogins (db : ClusterDb) : List String :=
  (sortByKey RmChannel.channelLogin db.pins).map RmChannel.channelLogin

/-- The mutation that a call is; none for a bootstrap without channels. -/
def PinCall.mutation (maximum : ℕ) : PinCall → Option Mutation
  | .bootstrapAlwaysJoinChannels channels =>
    if channels.isEmpty then none else some (.bootstrapPins channels)
  | .setAlwaysJoinChannel channelLogin enabled => some (.pin channelLogin enabled maximum)
  | .replaceAlwaysJoinChannels channels => some (.replacePins channels)
  | .setChannelIgnored channelLogin ignored _ => some (.ignore channelLogin ignored)

/-- The clock that the owner reads. -/
def PinCall.nowMs : PinCall → ℕ
  | .setChannelIgnored _ _ nowMs => nowMs
  | _ => 0

/-- The owner and its replicas, between two calls. -/
structure PinCluster (ρ : Type) where
  owner : ClusterDb
  replicas : ρ → ClusterDb

/-- The node on which a control store is. -/
inductive ClusterRole {ρ : Type} (configured : List ρ)
  | owner
  | replica (replica : ρ) (mem : replica ∈ configured)

/-- What a node returns for a result of the owner: `remote` knows one error only. -/
def ClusterRole.report {ρ : Type} {configured : List ρ} (role : ClusterRole configured)
    (result : Except ClusterError Bool) : Except ClusterError Bool :=
  match role with
  | .owner => result
  | .replica _ _ => result.mapError fun _ => .unavailable

namespace PinCluster

variable {ρ : Type} [DecidableEq ρ] (env : ClusterEnv) (configured : List ρ) (s : PinCluster ρ)

/-- The database of a node. -/
def node (role : ClusterRole configured) : ClusterDb :=
  match role with
  | .owner => s.owner
  | .replica replica _ => s.replicas replica

/-- `push_unlocked`: an answer of every replica. -/
def pushUnlocked : Except ClusterError Unit × PinCluster ρ :=
  match configured, s.owner.snapshot with
  | [], _ => (.error .unavailable, s)
  | _, .error e => (.error e, s)
  | _, .ok snapshot =>
    (if configured.all fun replica => ((s.replicas replica).receive env snapshot).isOk then .ok ()
      else .error .unavailable,
      { s with replicas := fun replica =>
          if replica ∈ configured then (s.replicas replica).given env snapshot
          else s.replicas replica })

/-- `mutate` on the owner. -/
def mutate (operation : Mutation) (nowMs : ℕ) : Except ClusterError Bool × PinCluster ρ :=
  match s.owner.mutate env operation nowMs with
  | (.error e, owner) => (.error e, { s with owner })
  | (.ok result, owner) =>
    match pushUnlocked env configured { s with owner } with
    | (.error e, s) => (.error e, s)
    | (.ok (), s) => (.ok result, s)

/-- A call on a node. -/
def call (role : ClusterRole configured) (maximum : ℕ) (pinCall : PinCall) :
    Except ClusterError Bool × PinCluster ρ :=
  match pinCall.mutation maximum with
  | none => (.ok false, s)
  | some operation =>
    let (result, s) := s.mutate env configured operation pinCall.nowMs
    (role.report result, s)

/-- A call on a node, and its list after the call. -/
def observe (role : ClusterRole configured) (maximum : ℕ) (s : PinCluster ρ) (pinCall : PinCall) :
    (Except ClusterError Bool × List String) × PinCluster ρ :=
  (((s.call env configured role maximum pinCall).1,
      ((s.call env configured role maximum pinCall).2.node configured role).pinnedLogins),
    (s.call env configured role maximum pinCall).2)

/-- A mutation that the owner makes is acknowledged by its replicas. -/
def Acknowledged (maximum : ℕ) (s : PinCluster ρ) (pinCall : PinCall) : Prop :=
  ∀ operation ∈ pinCall.mutation maximum,
    (s.owner.mutate env operation pinCall.nowMs).1.isOk = true →
      (s.mutate env configured operation pinCall.nowMs).1.isOk = true

instance (maximum : ℕ) (s : PinCluster ρ) (pinCall : PinCall) :
    Decidable (s.Acknowledged env configured maximum pinCall) :=
  inferInstanceAs (Decidable (∀ operation ∈ _, _))

/-- A new owner, and replicas that have no snapshot. -/
def start (seed : Seed) : PinCluster ρ := ⟨seed.database, fun _ => .empty⟩

end PinCluster

/-! ### A store answers as the set -/

namespace PinStore

/-- The store has the pins of the set, and its mark. -/
structure Shows (c : PinStore) (s : PinSet) : Prop where
  pins : c.alwaysJoin.keysWhere (fun _ => true) = s.pins
  applied : c.bootstrapApplied = s.applied

variable {c : PinStore} {s : PinSet}

theorem foldl_pin (c : PinStore) (logins : List String) :
    (logins.foldl pin c).alwaysJoin.keysWhere (fun _ => true) =
      c.alwaysJoin.keysWhere (fun _ => true) ∪ logins.toFinset := by
  induction logins generalizing c with
  | nil => simp
  | cons login logins ih =>
    rw [List.foldl_cons, ih (c.pin login)]
    show (c.alwaysJoin.insertIgnore login).keysWhere _ ∪ _ = _
    rw [KeyTable.keys_insertIgnore, List.toFinset_cons, Finset.insert_union, Finset.union_insert]
    rfl

/-- The list of the store is the set in order. -/
theorem Shows.getAlwaysJoinChannels (h : c.Shows s) : c.getAlwaysJoinChannels = s.pins.sort := by
  rw [← h.pins, ← KeyTable.sort_keysWhere]
  simp [PinStore.getAlwaysJoinChannels]

theorem Shows.length_rows (h : c.Shows s) : c.alwaysJoin.rows.length = s.pins.card := by
  rw [← h.pins, KeyTable.card_keysWhere, List.filter_true]

theorem Shows.isSome_lookup (h : c.Shows s) (login : String) :
    (c.alwaysJoin.lookup login).isSome = true ↔ login ∈ s.pins := by
  rw [← h.pins, KeyTable.mem_keysWhere]
  cases c.alwaysJoin.lookup login <;> simp

/-- **A call on the store is a call on the set.** -/
theorem Shows.call (h : c.Shows s) (maximum : ℕ) (pinCall : PinCall) :
    (c.call maximum pinCall).1 = (s.call false maximum pinCall).1 ∧
      (c.call maximum pinCall).2.Shows (s.call false maximum pinCall).2 := by
  cases pinCall with
  | bootstrapAlwaysJoinChannels channels =>
    show (c.bootstrapAlwaysJoinChannels channels).1 = _ ∧ _
    simp only [PinStore.call, PinStore.bootstrapAlwaysJoinChannels, PinSet.call, h.applied,
      List.isEmpty_iff]
    by_cases hempty : channels = []
    · simpa [hempty] using h
    by_cases happlied : s.applied = true
    · simpa [hempty, happlied] using h
    · simp only [hempty, happlied, if_false]
      refine ⟨rfl, ?_, rfl⟩
      show ((channels.map toAsciiLowercase).foldl pin c).alwaysJoin.keysWhere _ = _
      rw [foldl_pin, h.pins]
      rfl
  | setAlwaysJoinChannel channelLogin enabled =>
    cases enabled with
    | false =>
      refine ⟨rfl, ?_, rfl⟩
      show (c.alwaysJoin.erase (toAsciiLowercase channelLogin)).keysWhere _ = _
      rw [KeyTable.keysWhere_erase, h.pins]
      rfl
    | true =>
      simp only [PinStore.call, PinStore.setAlwaysJoinChannel, PinSet.call, if_true,
        h.isSome_lookup, h.length_rows, Bool.false_eq_true, if_false]
      by_cases hroom : toAsciiLowercase channelLogin ∈ s.pins ∨ s.pins.card < maximum
      · rw [if_pos hroom, if_neg (by simpa [or_iff_not_imp_left] using hroom)]
        refine ⟨rfl, ?_, rfl⟩
        show (c.alwaysJoin.insertIgnore (toAsciiLowercase channelLogin)).keysWhere _ = _
        rw [KeyTable.keys_insertIgnore, h.pins]
        rfl
      · rw [if_neg hroom, if_pos (by simpa using hroom)]
        exact ⟨rfl, h⟩
  | replaceAlwaysJoinChannels channels =>
    refine ⟨rfl, ?_, rfl⟩
    show ((channels.map toAsciiLowercase).dedup.foldl pin
      { c with alwaysJoin := KeyTable.empty }).alwaysJoin.keysWhere _ = _
    have hdedup : (channels.map toAsciiLowercase).dedup.toFinset = loginsOf channels :=
      List.toFinset_eq_iff_perm_dedup.mpr (by rw [List.dedup_idem])
    rw [foldl_pin, hdedup]
    exact Finset.empty_union _
  | setChannelIgnored channelLogin ignored nowMs => exact ⟨rfl, h.pins, h.applied⟩

/-- A new store, whatever else is in its tables. -/
def fresh (store : ControlStore) (bootstrapApplied : Bool) : PinStore :=
  ⟨store, KeyTable.empty, bootstrapApplied⟩

/-- **A store without a cluster answers as the set.** -/
theorem outputs_eq (store : ControlStore) (bootstrapApplied : Bool) (maximum : ℕ)
    (calls : List PinCall) :
    outputs (observe maximum) (fresh store bootstrapApplied) calls =
      outputs (PinSet.observe false maximum) (.fresh bootstrapApplied) calls := by
  have hstep : ∀ (c : PinStore) (s : PinSet) (pinCall : PinCall), c.Shows s → True →
      (observe maximum c pinCall).1 = id (s.observe false maximum pinCall).1 ∧
        (observe maximum c pinCall).2.Shows (s.observe false maximum pinCall).2 := by
    intro c s pinCall h _
    obtain ⟨hresult, hnext⟩ := h.call maximum pinCall
    exact ⟨Prod.ext hresult hnext.getAlwaysJoinChannels, hnext⟩
  have hstart : (fresh store bootstrapApplied).Shows (.fresh bootstrapApplied) := ⟨rfl, rfl⟩
  rw [outputs_of_lockstep hstep hstart (.of_forall fun _ _ _ => trivial), List.map_id]

end PinStore

/-! ### The owner answers as the set -/

namespace ClusterDb

variable {env : ClusterEnv} {db : ClusterDb} {s : PinSet}

/-- The logins that are pinned. -/
def pinned (db : ClusterDb) : Finset String := db.channels.keysWhere (·.alwaysJoin)

/-- The list of a node is its set in order. -/
theorem pinnedLogins_eq (db : ClusterDb) : db.pinnedLogins = db.pinned.sort :=
  db.channels.sort_keysWhere

theorem length_pins (db : ClusterDb) : db.pins.length = db.pinned.card :=
  db.channels.card_keysWhere.symm

theorem pinned_pinChannel (db : ClusterDb) (channel : String) :
    (db.pinChannel channel).pinned = insert (toAsciiLowercase channel) db.pinned :=
  KeyTable.keysWhere_upsert db.channels rfl fun _ => rfl

theorem pinned_foldl (db : ClusterDb) (channels : List String) :
    (channels.foldl pinChannel db).pinned = db.pinned ∪ loginsOf channels := by
  induction channels generalizing db with
  | nil => simp [loginsOf]
  | cons channel channels ih =>
    rw [List.foldl_cons, ih, pinned_pinChannel, loginsOf, loginsOf, List.map_cons,
      List.toFinset_cons, Finset.insert_union, Finset.union_insert]

/-- Pinning changes nothing but the channels. -/
theorem foldl_pinChannel (db : ClusterDb) (channels : List String) :
    ∃ t, channels.foldl pinChannel db = { db with channels := t } ∧
      t.keysWhere (·.alwaysJoin) = db.pinned ∪ loginsOf channels := by
  have hrest : ∃ t, channels.foldl pinChannel db = { db with channels := t } := by
    induction channels generalizing db with
    | nil => exact ⟨db.channels, rfl⟩
    | cons channel channels ih => exact ih (db.pinChannel channel)
  obtain ⟨t, ht⟩ := hrest
  refine ⟨t, ht, ?_⟩
  rw [← pinned_foldl, ht]
  rfl

/-- The owner has the pins of the set, and its mark. -/
structure ShowsPins (db : ClusterDb) (s : PinSet) : Prop where
  initialized : db.initialized = true
  pinned : db.pinned = s.pins
  applied : db.pinsBootstrapped = s.applied

/-- How an owner answers a call. -/
structure PinAnswer (db : ClusterDb) (s : PinSet) (maximum : ℕ) (pinCall : PinCall)
    (answer : Except ClusterError Bool × ClusterDb) : Prop where
  result : answer.1 = (s.call (i64Max < maximum) maximum pinCall).1
  shows : answer.2.ShowsPins (s.call (i64Max < maximum) maximum pinCall).2
  revision : answer.1.isOk = true → answer.2.revision = db.revision.map (· + 1)
  /-- A call that fails pins nothing, although it may count the revision up. -/
  failed : answer.1.isOk = false → (s.call (i64Max < maximum) maximum pinCall).2 = s ∧
    (answer.2.revision = db.revision ∨ answer.2.revision = db.revision.map (· + 1))

theorem PinAnswer.of_ok {maximum : ℕ} {pinCall : PinCall} {result : Bool} {s' : PinSet}
    {db' : ClusterDb} (hcall : s.call (i64Max < maximum) maximum pinCall = (.ok result, s'))
    (hshows : db'.ShowsPins s') (hrevision : db'.revision = db.revision.map (· + 1)) :
    PinAnswer db s maximum pinCall (.ok result, db') := by
  refine ⟨?_, ?_, fun _ => hrevision, nofun⟩ <;> rw [hcall]
  exact hshows

theorem PinAnswer.of_error {maximum : ℕ} {pinCall : PinCall} {e : ClusterError}
    {db' : ClusterDb} (hcall : s.call (i64Max < maximum) maximum pinCall = (.error e, s))
    (hshows : db'.ShowsPins s)
    (hrevision : db'.revision = db.revision ∨ db'.revision = db.revision.map (· + 1)) :
    PinAnswer db s maximum pinCall (.error e, db') := by
  refine ⟨?_, ?_, nofun, fun _ => ⟨?_, hrevision⟩⟩ <;> rw [hcall]
  exact hshows

/-- The owner's transaction for a new pin, whichever way it goes. -/
theorem ShowsPins.mutate_pin (h : db.ShowsPins s) {maximum : ℕ} (hmaximum : 1 ≤ maximum)
    (channelLogin : String) (nowMs : ℕ) :
    PinAnswer db s maximum (.setAlwaysJoinChannel channelLogin true)
      (db.mutate env (.pin channelLogin true maximum) nowMs) := by
  obtain ⟨hinitialized, hpinned, happlied⟩ := h
  have hcount : db.pins.length = s.pins.card := by rw [length_pins, hpinned]
  have hmem : (db.channels.lookup (toAsciiLowercase channelLogin)).any (·.alwaysJoin) = true ↔
      toAsciiLowercase channelLogin ∈ s.pins := by
    rw [← hpinned]
    exact KeyTable.mem_keysWhere.symm
  rw [ClusterDb.mutate, if_pos hinitialized]
  by_cases hrefused : i64Max < (maximum : ℤ)
  · have hcall : s.call (i64Max < maximum) maximum (.setAlwaysJoinChannel channelLogin true) =
        (.error .unavailable, s) := if_pos (by simpa using hrefused)
    have hset : db.setPin channelLogin true maximum = .error .unavailable := by
      simp [setPin, hrefused]
    simp only [write, hset, Bind.bind, Except.bind]
    exact .of_error hcall ⟨hinitialized, hpinned, happlied⟩ (.inl rfl)
  by_cases hroom : toAsciiLowercase channelLogin ∈ s.pins ∨ s.pins.card < maximum
  · have hcall : s.call (i64Max < maximum) maximum (.setAlwaysJoinChannel channelLogin true) =
        (.ok false, .marked (insert (toAsciiLowercase channelLogin) s.pins)) := by
      simp [PinSet.call, hrefused, hroom]
    have hset : db.setPin channelLogin true maximum =
        .ok (1, { db.pinChannel channelLogin with pinsBootstrapped := true }) := by
      simp [setPin, hrefused, hcount, hmem, hroom.symm]
    simp only [write, hset, Bind.bind, Except.bind, pure, Except.pure]
    refine .of_ok hcall ⟨hinitialized, ?_, rfl⟩ rfl
    exact (pinned_pinChannel db channelLogin).trans (congrArg (insert _) hpinned)
  · have hcall : s.call (i64Max < maximum) maximum (.setAlwaysJoinChannel channelLogin true) =
        (.error (.alwaysJoinLimit maximum), s) := by
      simp [PinSet.call, hrefused, hroom]
    have hfull := not_or.mp hroom
    have hset : db.setPin channelLogin true maximum =
        .ok (0, { db with pinsBootstrapped := true }) := by
      simp [setPin, hrefused, hcount, hmem, not_lt.mp hfull.2, hfull.1]
    -- something is pinned, so the mark was set before
    have hmarked : s.applied = true := by
      refine s.applied_of_nonempty (Finset.card_pos.mp ?_)
      omega
    simp only [write, hset, Bind.bind, Except.bind, pure, Except.pure]
    exact .of_error hcall ⟨hinitialized, hpinned, hmarked.symm⟩ (.inr rfl)

/-- **The owner's transaction is a call on the set.** -/
theorem ShowsPins.mutate (h : db.ShowsPins s) {maximum : ℕ} (hmaximum : 1 ≤ maximum)
    {pinCall : PinCall} {operation : Mutation} (hoperation : operation ∈ pinCall.mutation maximum) :
    PinAnswer db s maximum pinCall (db.mutate env operation pinCall.nowMs) := by
  cases pinCall with
  | bootstrapAlwaysJoinChannels channels =>
    -- a bootstrap without channels makes no mutation
    obtain ⟨hinitialized, hpinned, happlied⟩ := h
    have hne : channels ≠ [] := by
      rintro rfl
      cases hoperation
    have hempty : channels.isEmpty = false := by simpa using hne
    rw [PinCall.mutation, hempty] at hoperation
    obtain rfl : Mutation.bootstrapPins channels = operation := Option.mem_some_iff.mp hoperation
    rw [ClusterDb.mutate, if_pos hinitialized]
    simp only [bootstrapPinsLocal, hempty, write, happlied]
    cases hmarked : s.applied with
    | true =>
      -- the mark is there, so the insertions select nothing
      have hcall : s.call (i64Max < maximum) maximum (.bootstrapAlwaysJoinChannels channels) =
          (.ok false, s) := if_pos (.inr hmarked)
      exact .of_ok hcall ⟨hinitialized, hpinned, happlied⟩ rfl
    | false =>
      have hcall : s.call (i64Max < maximum) maximum (.bootstrapAlwaysJoinChannels channels) =
          (.ok true, .marked (s.pins ∪ loginsOf channels)) := if_neg (by simp [hne, hmarked])
      obtain ⟨t, ht, hunion⟩ := db.foldl_pinChannel channels
      rw [ht]
      exact .of_ok hcall ⟨hinitialized, hpinned ▸ hunion, rfl⟩ rfl
  | setAlwaysJoinChannel channelLogin enabled =>
    -- the maximum is looked at only when a channel is added
    obtain rfl : Mutation.pin channelLogin enabled maximum = operation :=
      Option.mem_some_iff.mp hoperation
    cases enabled with
    | true => exact h.mutate_pin hmaximum channelLogin 0
    | false =>
      rw [ClusterDb.mutate, if_pos h.initialized]
      have hcleared : (db.channels.modify (toAsciiLowercase channelLogin) (RmChannel.pin false)
          (RmChannel.channelLogin_pin false)).keysWhere (·.alwaysJoin) =
            db.pinned.erase (toAsciiLowercase channelLogin) :=
        KeyTable.keysWhere_modify db.channels _ fun _ => rfl
      rw [h.pinned] at hcleared
      exact .of_ok rfl ⟨h.initialized, hcleared, rfl⟩ rfl
  | replaceAlwaysJoinChannels channels =>
    -- all channels are unpinned first
    obtain rfl : Mutation.replacePins channels = operation := Option.mem_some_iff.mp hoperation
    let unpinned : ClusterDb := { db with
      channels := db.channels.updateWhere (fun _ => true) (RmChannel.pin false)
        (RmChannel.channelLogin_pin false)
      pinsBootstrapped := true }
    have hnone : unpinned.pinned = ∅ := by
      show (db.channels.updateWhere (fun _ => true) (RmChannel.pin false)
        (RmChannel.channelLogin_pin false)).keysWhere (·.alwaysJoin) = ∅
      exact KeyTable.keysWhere_updateWhere db.channels fun _ => rfl
    obtain ⟨t, ht, hunion⟩ := unpinned.foldl_pinChannel channels
    rw [hnone, Finset.empty_union] at hunion
    have hmutate : db.mutate env (.replacePins channels) 0 =
        (.ok false, { unpinned with channels := t, revision := db.revision.map (· + 1) }) := by
      rw [ClusterDb.mutate, if_pos h.initialized]
      show done db (write db fun _ => .ok ((), channels.foldl pinChannel unpinned)) = _
      rw [ht]
      rfl
    exact hmutate ▸ .of_ok rfl ⟨h.initialized, hunion, rfl⟩ rfl
  | setChannelIgnored channelLogin ignored nowMs =>
    -- the policy shares its rows with the pins, but not the column
    obtain rfl : Mutation.ignore channelLogin ignored = operation :=
      Option.mem_some_iff.mp hoperation
    have hsame : (db.channels.upsert ⟨toAsciiLowercase channelLogin, ignored, false, nowMs⟩
        (RmChannel.ignore ignored nowMs) (RmChannel.channelLogin_ignore ignored nowMs)).keysWhere
          (·.alwaysJoin) = db.pinned :=
      KeyTable.keysWhere_upsert_of_eq db.channels rfl fun _ => rfl
    rw [ClusterDb.mutate, if_pos h.initialized]
    exact .of_ok rfl ⟨h.initialized, hsame.trans h.pinned, h.applied⟩ rfl

/-! ### A replica has the owner's pins -/

/-- A channel row that passes the checks is kept as it is. -/
theorem values_of_checkChannel {values : List Value} {row : RmChannel}
    (h : db.checkChannel env values = .ok row) : row.values = values := by
  rw [checkChannel, Except.bind_eq_ok] at h
  obtain ⟨name, hname, h⟩ := h
  obtain ⟨ignored, hignored, h⟩ := Except.bind_eq_ok.mp h
  obtain ⟨alwaysJoin, halwaysJoin, h⟩ := Except.bind_eq_ok.mp h
  obtain ⟨purgeMs, hpurgeMs, h⟩ := Except.bind_eq_ok.mp h
  dsimp only at h
  split at h
  · cases h
  rename_i hchecks
  cases h
  simp only [not_or, not_not] at hchecks
  obtain ⟨hlength, -, hignored01, halwaysJoin01, -⟩ := hchecks
  obtain ⟨v₀, v₁, v₂, v₃, rfl⟩ := List.length_eq_four.mp hlength
  have h₀ : v₀ = .string name := by
    cases v₀ <;> simp [stringAt] at hname
    rw [hname]
  have hinteger : ∀ (v : Value) (n : ℤ), integerAt [v] 0 = .ok n → v = .integer n := by
    intro v n h
    cases v <;> simp [integerAt] at h
    rw [h]
  obtain rfl := h₀
  obtain rfl := hinteger v₁ ignored hignored
  obtain rfl := hinteger v₂ alwaysJoin halwaysJoin
  obtain rfl := hinteger v₃ purgeMs hpurgeMs
  rcases or_iff_not_and_not.mpr hignored01 with rfl | rfl <;>
    rcases or_iff_not_and_not.mpr halwaysJoin01 with rfl | rfl <;> rfl

/-- The rows that an accepted snapshot leaves are its rows. -/
theorem values_of_receive {s : Snapshot} {db' : ClusterDb}
    (h : db.receive env s = .ok (true, db')) :
    db'.channels.rows.map RmChannel.values = s.channels := by
  have hreplace : db.replaceTables env s = .ok (true, db') := by
    rw [receive] at h
    split at h
    · cases h
    split at h
    · exact h
    · cases h
    · split at h
      · cases h
      split at h
      · cases h
      split at h
      · cases h
      · exact h
  obtain ⟨rows, hrows, h⟩ := Except.bind_eq_ok.mp hreplace
  split at h
  · cases h
  obtain ⟨channels, hchannels, h⟩ := Except.bind_eq_ok.mp h
  obtain ⟨sessions, -, h⟩ := Except.bind_eq_ok.mp h
  cases h
  rw [(insertChannels_eq_ok.mp hchannels).2]
  exact Except.map_of_mapM (fun _ _ => values_of_checkChannel) hrows

theorem values_injective : Function.Injective RmChannel.values := by
  rintro ⟨login, ignored, alwaysJoin, purgeMs⟩ ⟨login', ignored', alwaysJoin', purgeMs'⟩ h
  cases ignored <;> cases ignored' <;> cases alwaysJoin <;> cases alwaysJoin' <;>
    simp_all [RmChannel.values, RmChannel.flag]

/-- **A replica that accepts a snapshot** has the owner's pins; one that has its revision
is left alone. -/
theorem pinned_of_receive {owner replica : ClusterDb} {s : Snapshot} {new : Bool}
    (hsnapshot : owner.snapshot = .ok s) (h : db.receive env s = .ok (new, replica)) :
    (replica = db ∧ db.revision = owner.revision) ∨
      (replica.pinned = owner.pinned ∧ replica.revision = owner.revision) := by
  obtain ⟨-, hrevision, hchannels, -⟩ := snapshot_fields hsnapshot
  rcases receive_eq_ok h with ⟨-, hsame, -, hcurrent⟩ | ⟨rfl, hreplaced⟩
  · exact .inl ⟨hsame, hcurrent.trans hrevision.symm⟩
  · refine .inr ⟨?_, hreplaced.revision.trans hrevision.symm⟩
    have hrows : replica.channels.rows = sortByKey RmChannel.channelLogin owner.channels.rows :=
      List.map_injective_iff.mpr values_injective ((values_of_receive h).trans hchannels)
    ext login
    have hperm : replica.channels.rows.Perm owner.channels.rows := hrows ▸ sortByKey_perm _
    simp [pinned, KeyTable.keysWhere, hperm.mem_iff]

end ClusterDb

/-! ### Every node answers as the set -/

namespace PinCluster

variable {ρ : Type} [DecidableEq ρ] {env : ClusterEnv} {configured : List ρ} {s : PinCluster ρ}
  {t : PinSet}

/-- Every node has the pins of the set, and no replica is ahead of the owner. -/
structure Shows (configured : List ρ) (s : PinCluster ρ) (t : PinSet) : Prop where
  owner : s.owner.ShowsPins t
  replicas : ∀ replica ∈ configured, (s.replicas replica).pinned = t.pins
  behind : ∀ replica ∈ configured, ∀ r, (s.replicas replica).revision = some r →
    ∃ r', s.owner.revision = some r' ∧ r ≤ r'

omit [DecidableEq ρ] in
theorem shows_start (configured : List ρ) (seed : Seed) :
    (start seed : PinCluster ρ).Shows configured (.fresh seed.pinsBootstrapped) :=
  ⟨⟨rfl, rfl, rfl⟩, fun _ _ => rfl, nofun⟩

omit [DecidableEq ρ] in
/-- The list of a node is the set in order. -/
theorem Shows.pinnedLogins (h : s.Shows configured t) (role : ClusterRole configured) :
    (s.node configured role).pinnedLogins = t.pins.sort := by
  rw [ClusterDb.pinnedLogins_eq]
  cases role with
  | owner => exact congrArg (·.sort) h.owner.pinned
  | replica replica hmem => exact congrArg (·.sort) (h.replicas replica hmem)

/-- What an acknowledged push did. -/
theorem pushUnlocked_eq_ok {s' : PinCluster ρ} (h : s.pushUnlocked env configured = (.ok (), s')) :
    s'.owner = s.owner ∧ ∃ snapshot, s.owner.snapshot = .ok snapshot ∧
      ∀ replica ∈ configured, ∃ new,
        (s.replicas replica).receive env snapshot = .ok (new, s'.replicas replica) := by
  unfold pushUnlocked at h
  split at h
  · cases h
  · cases h
  rename_i snapshot _ hsnapshot
  obtain ⟨hall, rfl⟩ := Prod.mk.inj h
  refine ⟨rfl, snapshot, hsnapshot, fun replica hmem => ?_⟩
  split at hall
  · rename_i haccepted
    have hok := List.all_eq_true.mp haccepted replica hmem
    rcases hreceive : (s.replicas replica).receive env snapshot with e | ⟨new, db⟩
    · rw [hreceive] at hok
      cases hok
    · refine ⟨new, ?_⟩
      simp [hmem, ClusterDb.given, hreceive]
  · cases hall

/-- **An acknowledged push** of a new revision brings every replica to the owner's pins. -/
theorem Shows.push {owner : ClusterDb} {t' : PinSet} {s' : PinCluster ρ}
    (h : s.Shows configured t) (howner : owner.ShowsPins t')
    (hrevision : owner.revision = s.owner.revision.map (· + 1))
    (hpush : pushUnlocked env configured { s with owner } = (.ok (), s')) :
    s'.Shows configured t' := by
  obtain ⟨hsame, snapshot, hsnapshot, hreceive⟩ := pushUnlocked_eq_ok hpush
  have hreplica : ∀ replica ∈ configured, (s'.replicas replica).pinned = owner.pinned ∧
      (s'.replicas replica).revision = owner.revision := by
    intro replica hmem
    obtain ⟨new, hreceive⟩ := hreceive replica hmem
    rcases ClusterDb.pinned_of_receive hsnapshot hreceive with ⟨-, hcurrent⟩ | hnew
    · -- a replica is behind the revision that was just written
      obtain ⟨-, hsome, -⟩ := ClusterDb.snapshot_fields hsnapshot
      have hsome : owner.revision = some snapshot.revision := hsome
      obtain ⟨r, hr, hle⟩ := h.behind replica hmem _ (hcurrent.trans hsome)
      rw [hr, hsome] at hrevision
      have : snapshot.revision = r + 1 := Option.some.inj hrevision
      omega
    · exact hnew
  have hshows : s'.owner.ShowsPins t' := by
    rw [hsame]
    exact howner
  refine ⟨hshows, fun replica hmem => (hreplica replica hmem).1.trans howner.pinned,
    fun replica hmem r hr => ⟨r, ?_, le_rfl⟩⟩
  rw [hsame, ← hr, (hreplica replica hmem).2]

/-- **A mutation is a call on the set**, if its push is acknowledged. -/
theorem Shows.mutate (h : s.Shows configured t) {maximum : ℕ} (hmaximum : 1 ≤ maximum)
    {pinCall : PinCall} {operation : Mutation} (hoperation : operation ∈ pinCall.mutation maximum)
    (hacknowledged : (s.owner.mutate env operation pinCall.nowMs).1.isOk = true →
      (s.mutate env configured operation pinCall.nowMs).1.isOk = true) :
    (s.mutate env configured operation pinCall.nowMs).1 =
        (t.call (i64Max < maximum) maximum pinCall).1 ∧
      (s.mutate env configured operation pinCall.nowMs).2.Shows configured
        (t.call (i64Max < maximum) maximum pinCall).2 := by
  have hanswer : ClusterDb.PinAnswer s.owner t maximum pinCall
      (s.owner.mutate env operation pinCall.nowMs) := h.owner.mutate hmaximum hoperation
  rw [PinCluster.mutate] at hacknowledged ⊢
  rcases howner : s.owner.mutate env operation pinCall.nowMs with ⟨result, owner⟩
  rw [howner] at hacknowledged hanswer
  obtain ⟨hresult, hshows, hrevision, hfailed⟩ := hanswer
  cases result with
  | error e =>
    -- a transaction that fails may still count up the revision
    refine ⟨hresult, hshows, ?_, ?_⟩
    · rw [(hfailed rfl).1]
      exact h.replicas
    · intro replica hmem r hr
      obtain ⟨r', hr', hle⟩ := h.behind replica hmem r hr
      rcases (hfailed rfl).2 with hsame | hnext
      · exact ⟨r', hsame.trans hr', hle⟩
      · refine ⟨r' + 1, ?_, by omega⟩
        rw [hnext, hr']
        rfl
  | ok result =>
    -- the push comes after the commit, so that the replicas are not behind
    rcases hpush : pushUnlocked env configured { s with owner } with ⟨e | ⟨⟩, s'⟩
    · have hok := hacknowledged rfl
      simp only [hpush] at hok
      cases hok
    · simp only [hpush]
      exact ⟨hresult, h.push hshows (hrevision rfl) hpush⟩

/-- **A call on a node is a call on the set**, up to how the node reports it. -/
theorem Shows.call (h : s.Shows configured t) (role : ClusterRole configured) {maximum : ℕ}
    (hmaximum : 1 ≤ maximum) {pinCall : PinCall}
    (hacknowledged : s.Acknowledged env configured maximum pinCall) :
    (s.call env configured role maximum pinCall).1 =
        role.report (t.call (i64Max < maximum) maximum pinCall).1 ∧
      (s.call env configured role maximum pinCall).2.Shows configured
        (t.call (i64Max < maximum) maximum pinCall).2 := by
  rw [PinCluster.call]
  rcases hmutation : pinCall.mutation maximum with - | operation
  · -- only a bootstrap without channels is no mutation
    cases pinCall with
    | bootstrapAlwaysJoinChannels channels =>
      cases channels with
      | nil =>
        have hcall : t.call (i64Max < maximum) maximum (.bootstrapAlwaysJoinChannels []) =
            (.ok false, t) := by simp [PinSet.call]
        rw [hcall]
        cases role <;> exact ⟨rfl, h⟩
      | cons channel channels => cases hmutation
    | setAlwaysJoinChannel channelLogin enabled => cases hmutation
    | replaceAlwaysJoinChannels channels => cases hmutation
    | setChannelIgnored channelLogin ignored nowMs => cases hmutation
  · obtain ⟨hresult, hshows⟩ :=
      h.mutate hmaximum hmutation (hacknowledged operation hmutation)
    exact ⟨congrArg role.report hresult, hshows⟩

/-- **A node under cluster control answers as the set.** -/
theorem outputs_eq (env : ClusterEnv) (role : ClusterRole configured) (seed : Seed) {maximum : ℕ}
    (hmaximum : 1 ≤ maximum) {calls : List PinCall}
    (hacknowledged : Along (afterStep (observe env configured role maximum))
      (Acknowledged env configured maximum) (start seed) calls) :
    outputs (observe env configured role maximum) (start seed) calls =
      (outputs (PinSet.observe (i64Max < maximum) maximum) (.fresh seed.pinsBootstrapped)
        calls).map fun answer => (role.report answer.1, answer.2) := by
  refine outputs_of_lockstep (fun s t pinCall h hacknowledged => ?_)
    (shows_start configured seed) hacknowledged
  obtain ⟨hresult, hnext⟩ := h.call role hmaximum hacknowledged
  exact ⟨Prod.ext hresult (hnext.pinnedLogins role), hnext⟩

end PinCluster

/-- No list of the set is longer than the maximum. -/
theorem PinSet.length_outputs (refused applied : Bool) {maximum : ℕ} {calls : List PinCall}
    (hcalls : ∀ call ∈ calls, call.Fits maximum) :
    ∀ answer ∈ outputs (PinSet.observe refused maximum) (.fresh applied) calls,
      answer.2.length ≤ maximum := by
  have hstep : ∀ (s : PinSet) (c : PinCall), s.pins.card ≤ maximum → c.Fits maximum →
      (s.observe refused maximum c).1.2.length ≤ maximum ∧
        (s.observe refused maximum c).2.pins.card ≤ maximum := by
    intro s c hs hc
    have hcard := PinSet.card_call refused hs hc
    exact ⟨(Finset.length_sort _).trans_le hcard, hcard⟩
  exact forall_outputs hstep (Nat.zero_le maximum) (.of_forall fun c hc _ => hcalls c hc)

/-! ### Nodes agree -/

/-- **Standalone and clustered pinning agree.**  With a maximum that an `i64` holds, a node
whose pushes are acknowledged gives the answers and the lists of a store without a cluster;
only a replica reports the limit as `ClusterUnavailable`.  With any maximum neither of them
pins more channels than that, if the lists they are given are no longer. -/
theorem pinning_agrees {ρ : Type} [DecidableEq ρ] (env : ClusterEnv) (configured : List ρ)
    (role : ClusterRole configured) (store : ControlStore) (seed : Seed) (maximum : ℕ)
    (calls : List PinCall) (hmaximum : 1 ≤ maximum)
    (hacknowledged : Along (afterStep (PinCluster.observe env configured role maximum))
      (PinCluster.Acknowledged env configured maximum) (PinCluster.start seed) calls) :
    ((maximum : ℤ) ≤ i64Max →
      outputs (PinCluster.observe env configured role maximum) (PinCluster.start seed) calls =
        (outputs (PinStore.observe maximum) (PinStore.fresh store seed.pinsBootstrapped)
          calls).map fun answer => (role.report answer.1, answer.2)) ∧
    ((∀ call ∈ calls, call.Fits maximum) →
      (∀ answer ∈ outputs (PinStore.observe maximum)
          (PinStore.fresh store seed.pinsBootstrapped) calls, answer.2.length ≤ maximum) ∧
        ∀ answer ∈ outputs (PinCluster.observe env configured role maximum)
          (PinCluster.start seed) calls, answer.2.length ≤ maximum) := by
  rw [PinCluster.outputs_eq env role seed hmaximum hacknowledged, PinStore.outputs_eq]
  constructor
  · intro hfits
    rw [decide_eq_false (not_lt.mpr hfits)]
  · intro hcalls
    refine ⟨PinSet.length_outputs false _ hcalls, fun answer hanswer => ?_⟩
    obtain ⟨answer, hmem, rfl⟩ := List.mem_map.mp hanswer
    exact PinSet.length_outputs _ _ hcalls answer hmem

/-- A full list on a replica. -/
def samplePins : List PinCall :=
  [.bootstrapAlwaysJoinChannels ["Alpha", "alpha"], .setAlwaysJoinChannel "beta" true,
    .setAlwaysJoinChannel "ALPHA" false, .setAlwaysJoinChannel "beta" true]

def sampleReplica : ClusterRole [()] := .replica () List.mem_cons_self

theorem pinning_agrees_sample :
    outputs (PinCluster.observe ClusterDb.sampleEnv [()] sampleReplica 1)
        (PinCluster.start ClusterDb.sampleSeed) samplePins =
      (outputs (PinStore.observe 1) (PinStore.fresh .empty false) samplePins).map
        fun answer => (sampleReplica.report answer.1, answer.2) :=
  (pinning_agrees ClusterDb.sampleEnv [()] sampleReplica .empty
    ClusterDb.sampleSeed 1 samplePins le_rfl (by decide +kernel)).1 (by decide)

/-- **A replica does not report the limit**, and cluster control refuses a maximum that no
`i64` holds. -/
theorem answers_differ :
    Along (afterStep (PinCluster.observe ClusterDb.sampleEnv [()] sampleReplica 1))
      (PinCluster.Acknowledged ClusterDb.sampleEnv [()] 1)
      (PinCluster.start ClusterDb.sampleSeed) samplePins ∧
    (outputs (PinStore.observe 1) (PinStore.fresh .empty false) samplePins).map (·.1) =
      [.ok true, .error (.alwaysJoinLimit 1), .ok false, .ok false] ∧
    (outputs (PinCluster.observe ClusterDb.sampleEnv [()] sampleReplica 1)
        (PinCluster.start ClusterDb.sampleSeed) samplePins).map (·.1) =
      [.ok true, .error .unavailable, .ok false, .ok false] ∧
    outputs (PinStore.observe (2 ^ 63)) (PinStore.fresh .empty false)
      [.setAlwaysJoinChannel "beta" true] = [(.ok false, ["beta"])] ∧
    outputs (PinCluster.observe ClusterDb.sampleEnv [()] .owner (2 ^ 63))
      (PinCluster.start ClusterDb.sampleSeed) [.setAlwaysJoinChannel "beta" true] =
        [(.error .unavailable, [])] := by
  decide +kernel

end RecentMessages
