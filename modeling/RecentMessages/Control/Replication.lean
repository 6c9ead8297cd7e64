/-
RecentMessages/Control/Replication.lean

What a replica makes of the snapshots it is given.

`receive` replaces both tables, and accepts nothing that would take a purge back:
whatever snapshots come, in whatever order, a replica only advances
(`advanced_receive`, `advanced_foldl`).

The owner on its part writes by upserts, maxima and deletes of sessions.  Each of
its states is `Publishable` and `Ahead` of the earlier ones, and these two say that
a later snapshot passes every check of a replica that mirrors an earlier one
(`receive_of_following`).  So a replica of one owner accepts everything that is new, and
mirrors it (`replica_follows_owner`).
-/
import RecentMessages.Control.Cluster
import RecentMessages.Library.Runs
import Mathlib.Data.List.Perm.Basic

namespace RecentMessages

/-- The purge cutoff of a channel; 0 for one without a row. -/
def ClusterDb.purgeMs (db : ClusterDb) (channelLogin : String) : ℤ :=
  ((db.channels.lookup channelLogin).map (·.purgeMs)).getD 0

namespace ClusterDb

variable {env : ClusterEnv} {db db' : ClusterDb} {snapshot : Snapshot}

/-! ### What a replica accepts -/

/-- Inserting rows succeeds exactly when no login occurs twice. -/
theorem insertChannels_eq_ok {rows : List RmChannel} {t : KeyTable RmChannel.channelLogin} :
    insertChannels rows = .ok t ↔ (rows.map (·.channelLogin)).Nodup ∧ t.rows = rows := by
  have hloop : ∀ (rows : List RmChannel) (t₀ t : KeyTable RmChannel.channelLogin),
      rows.foldlM insertChannel t₀ = .ok t ↔
      ((t₀.rows ++ rows).map (·.channelLogin)).Nodup ∧ t.rows = t₀.rows ++ rows := by
    intro rows
    induction rows with
    | nil =>
      intro t₀ t
      rw [List.append_nil]
      constructor
      · intro h
        cases h
        exact ⟨t₀.nodup, rfl⟩
      · rintro ⟨-, h⟩
        exact congrArg Except.ok (KeyTable.ext h.symm)
    | cons row rows ih =>
      intro t₀ t
      rw [List.foldlM_cons, insertChannel]
      rcases h : t₀.insert? row with - | t₁
      · refine iff_of_false nofun ?_
        rintro ⟨hnodup, -⟩
        -- the login of the row is taken
        have hsome : t₀.lookup row.channelLogin ≠ none := by
          intro hnone
          rw [KeyTable.insert?, dif_pos hnone] at h
          cases h
        obtain ⟨q, hq⟩ := Option.ne_none_iff_exists'.mp hsome
        obtain ⟨hmem, hkey⟩ := KeyTable.lookup_eq_some.mp hq
        rw [List.map_append, List.nodup_append] at hnodup
        exact hnodup.2.2 _ (List.mem_map_of_mem hmem) _ List.mem_cons_self hkey
      · obtain ⟨-, hrows⟩ := KeyTable.insert?_eq_some.mp h
        show rows.foldlM insertChannel t₁ = _ ↔ _
        rw [ih, hrows, List.append_assoc, List.singleton_append]
  rw [insertChannels, hloop]
  rfl

/-- What the checks of a channel row come to. -/
theorem checkChannel_eq_ok {values : List Value} {row : RmChannel}
    (h : db.checkChannel env values = .ok row) :
    env.validateLogin row.channelLogin = true ∧ db.purgeMs row.channelLogin ≤ row.purgeMs := by
  rw [checkChannel, Except.bind_eq_ok] at h
  obtain ⟨name, -, h⟩ := h
  obtain ⟨ignored, -, h⟩ := Except.bind_eq_ok.mp h
  obtain ⟨alwaysJoin, -, h⟩ := Except.bind_eq_ok.mp h
  obtain ⟨purgeMs, -, h⟩ := Except.bind_eq_ok.mp h
  dsimp only at h
  split at h
  · cases h
  · rename_i hchecks
    cases h
    simp only [not_or, not_not] at hchecks
    obtain ⟨-, hvalid, -, -, hpurge⟩ := hchecks
    exact ⟨Bool.not_eq_false _ ▸ hvalid, not_lt.mp hpurge⟩

/-- What an accepted snapshot did to the tables. -/
structure Replaced (env : ClusterEnv) (db : ClusterDb) (snapshot : Snapshot) (db' : ClusterDb) :
    Prop where
  epoch : db'.epoch = some snapshot.epoch
  revision : db'.revision = some snapshot.revision
  newer : db.epoch = none ∨ (db.epoch = some snapshot.epoch ∧
    ∃ revision, db.revision = some revision ∧ revision < snapshot.revision)
  checked : ∀ row ∈ db'.channels.rows, env.validateLogin row.channelLogin = true ∧
    db.purgeMs row.channelLogin ≤ row.purgeMs
  retained : ∀ row ∈ db.channels.rows, 0 < row.purgeMs →
    db'.channels.lookup row.channelLogin ≠ none

theorem replaceTables_eq_ok {new : Bool} (h : db.replaceTables env snapshot = .ok (new, db'))
    (hnewer : db.epoch = none ∨ (db.epoch = some snapshot.epoch ∧
      ∃ revision, db.revision = some revision ∧ revision < snapshot.revision)) :
    new = true ∧ Replaced env db snapshot db' := by
  obtain ⟨rows, hrows, h⟩ := Except.bind_eq_ok.mp h
  split at h
  · cases h
  rename_i hretained
  obtain ⟨channels, hchannels, h⟩ := Except.bind_eq_ok.mp h
  obtain ⟨sessions, -, h⟩ := Except.bind_eq_ok.mp h
  cases h
  obtain ⟨-, hchannels⟩ := insertChannels_eq_ok.mp hchannels
  refine ⟨rfl, rfl, rfl, hnewer, fun row hrow => ?_, fun row hrow hpurge hnone => ?_⟩
  · have hrow : row ∈ rows := hchannels ▸ hrow
    obtain ⟨values, -, hcheck⟩ := (Except.mapM_eq_ok hrows).2 row hrow
    exact checkChannel_eq_ok hcheck
  · refine hretained (List.any_eq_true.mpr ⟨row, hrow, ?_⟩)
    have hnot : row.channelLogin ∉ rows.map RmChannel.channelLogin := by
      intro hmem
      obtain ⟨q, hq, hkey⟩ := List.mem_map.mp hmem
      exact KeyTable.lookup_eq_none.mp hnone q (hchannels.symm ▸ hq) hkey
    simp only [Bool.and_eq_true, decide_eq_true_eq, Bool.not_eq_true', List.contains_eq_mem,
      decide_eq_false_iff_not]
    exact ⟨hpurge, hnot⟩

/-- **What `receive` comes to**: nothing, for the current revision, or new tables. -/
theorem receive_eq_ok {new : Bool} (h : db.receive env snapshot = .ok (new, db')) :
    (new = false ∧ db' = db ∧ db.epoch = some snapshot.epoch ∧
      db.revision = some snapshot.revision) ∨ (new = true ∧ Replaced env db snapshot db') := by
  rw [receive] at h
  split at h
  · cases h
  split at h
  · rename_i hepoch
    exact .inr (replaceTables_eq_ok h (.inl hepoch))
  · cases h
  · rename_i epoch revision hepoch hrevision
    split at h
    · cases h
    rename_i hsame
    obtain rfl := not_not.mp hsame
    split at h
    · cases h
    rename_i hle
    split at h
    · rename_i heq
      cases h
      exact .inl ⟨rfl, rfl, hepoch, heq ▸ hrevision⟩
    · rename_i hne
      exact .inr (replaceTables_eq_ok h (.inr ⟨hepoch, revision, hrevision,
        lt_of_le_of_ne (not_lt.mp hle) (Ne.symm hne)⟩))

/-! ### A replica only advances -/

/-- What holds of a replica between two points of its history. -/
structure Advanced (db db' : ClusterDb) : Prop where
  epoch : ∀ epoch, db.epoch = some epoch → db'.epoch = some epoch
  revision : ∀ revision, db.revision = some revision →
    ∃ revision', db'.revision = some revision' ∧ revision ≤ revision'
  purgeMs : ∀ channelLogin, db.purgeMs channelLogin ≤ db'.purgeMs channelLogin
  retained : ∀ row ∈ db.channels.rows, 0 < row.purgeMs →
    db'.channels.lookup row.channelLogin ≠ none

theorem lookup_of_purgeMs_pos {channelLogin : String} (h : 0 < db.purgeMs channelLogin) :
    ∃ row ∈ db.channels.rows, row.channelLogin = channelLogin ∧
      db.purgeMs channelLogin = row.purgeMs := by
  rw [purgeMs] at h ⊢
  rcases hrow : db.channels.lookup channelLogin with - | row
  · rw [hrow] at h
    exact absurd h (lt_irrefl 0)
  · obtain ⟨hmem, hkey⟩ := KeyTable.lookup_eq_some.mp hrow
    exact ⟨row, hmem, hkey, rfl⟩

theorem purgeMs_of_mem {row : RmChannel} (h : row ∈ db.channels.rows) :
    db.purgeMs row.channelLogin = row.purgeMs := by
  rw [purgeMs, KeyTable.lookup_of_mem h]
  rfl

namespace Advanced

theorem refl (db : ClusterDb) : Advanced db db where
  epoch := fun _ h => h
  revision := fun revision h => ⟨revision, h, le_rfl⟩
  purgeMs := fun _ => le_rfl
  retained := fun _ hrow _ => by
    rw [KeyTable.lookup_of_mem hrow]
    exact Option.some_ne_none _

theorem trans {db'' : ClusterDb} (h : Advanced db db') (h' : Advanced db' db'') :
    Advanced db db'' where
  epoch := fun epoch hepoch => h'.epoch epoch (h.epoch epoch hepoch)
  revision := fun revision hrevision => by
    obtain ⟨revision', hrevision', hle⟩ := h.revision revision hrevision
    obtain ⟨revision'', hrevision'', hle'⟩ := h'.revision revision' hrevision'
    exact ⟨revision'', hrevision'', hle.trans hle'⟩
  purgeMs := fun channelLogin => (h.purgeMs channelLogin).trans (h'.purgeMs channelLogin)
  retained := fun row hrow hpurge => by
    -- the channel keeps a positive cutoff on the way
    have hpos : 0 < db'.purgeMs row.channelLogin :=
      calc 0 < row.purgeMs := hpurge
        _ = db.purgeMs row.channelLogin := (purgeMs_of_mem hrow).symm
        _ ≤ db'.purgeMs row.channelLogin := h.purgeMs row.channelLogin
    obtain ⟨row', hrow', hkey, heq⟩ := lookup_of_purgeMs_pos hpos
    rw [← hkey]
    exact h'.retained row' hrow' (heq ▸ hpos)

end Advanced

/-- A replica has an epoch as soon as it has a revision. -/
def Formed (db : ClusterDb) : Prop := db.epoch = none → db.revision = none

/-- An accepted snapshot takes no purge back. -/
theorem Replaced.purgeMs (h : Replaced env db snapshot db') (channelLogin : String) :
    db.purgeMs channelLogin ≤ db'.purgeMs channelLogin := by
  rcases hrow : db'.channels.lookup channelLogin with - | row
  · rw [show db'.purgeMs channelLogin = 0 by rw [ClusterDb.purgeMs, hrow]; rfl]
    by_contra hpos
    obtain ⟨old, hold, hkey, heq⟩ := lookup_of_purgeMs_pos (not_le.mp hpos)
    exact h.retained old hold (heq ▸ not_le.mp hpos) (hkey.symm ▸ hrow)
  · obtain ⟨hmem, hkey⟩ := KeyTable.lookup_eq_some.mp hrow
    rw [← hkey, purgeMs_of_mem hmem]
    exact (h.checked row hmem).2

theorem Replaced.advanced (h : Replaced env db snapshot db') (hdb : db.Formed) :
    Advanced db db' where
  epoch := by
    intro epoch hepoch
    rcases h.newer with hnone | ⟨hsame, -⟩
    · rw [hnone] at hepoch
      cases hepoch
    · rw [h.epoch, ← hsame, hepoch]
  revision := by
    intro revision hrevision
    rcases h.newer with hnone | ⟨-, old, hold, hlt⟩
    · rw [hdb hnone] at hrevision
      cases hrevision
    · obtain rfl : old = revision := Option.some.inj (hold.symm.trans hrevision)
      exact ⟨snapshot.revision, h.revision, hlt.le⟩
  purgeMs := h.purgeMs
  retained := h.retained

/-- **A replica only advances** with what it accepts. -/
theorem advanced_receive {new : Bool} (hdb : db.Formed)
    (h : db.receive env snapshot = .ok (new, db')) : Advanced db db' := by
  rcases receive_eq_ok h with ⟨-, rfl, -⟩ | ⟨-, hreplaced⟩
  · exact .refl db'
  · exact hreplaced.advanced hdb

/-- The replica after it was given a snapshot; an error changes nothing. -/
def given (env : ClusterEnv) (db : ClusterDb) (snapshot : Snapshot) : ClusterDb :=
  match db.receive env snapshot with
  | .ok (_, db') => db'
  | .error _ => db

/-- A new replica after a sequence of snapshots. -/
def replicaRun (env : ClusterEnv) (snapshots : List Snapshot) : ClusterDb :=
  snapshots.foldl (given env) empty

theorem given_cases (env : ClusterEnv) (db : ClusterDb) (snapshot : Snapshot) :
    db.given env snapshot = db ∨ Replaced env db snapshot (db.given env snapshot) := by
  rw [given]
  rcases h : db.receive env snapshot with e | ⟨new, db'⟩
  · exact .inl rfl
  · exact (receive_eq_ok h).imp (fun h => h.2.1) And.right

theorem formed_given (hdb : db.Formed) (snapshot : Snapshot) : (db.given env snapshot).Formed := by
  rcases given_cases env db snapshot with heq | hreplaced
  · rw [heq]
    exact hdb
  · intro hnone
    rw [hreplaced.epoch] at hnone
    cases hnone

/-- **Over any sequence of snapshots** a replica only advances. -/
theorem advanced_foldl (hdb : db.Formed) (snapshots : List Snapshot) :
    Advanced db (snapshots.foldl (given env) db) ∧ (snapshots.foldl (given env) db).Formed := by
  have hstep : ∀ db₁ : ClusterDb, Advanced db db₁ ∧ db₁.Formed → ∀ snapshot ∈ snapshots,
      Advanced db (db₁.given env snapshot) ∧ (db₁.given env snapshot).Formed := by
    rintro db₁ ⟨hadvanced, hformed⟩ snapshot -
    refine ⟨?_, formed_given hformed snapshot⟩
    rcases given_cases env db₁ snapshot with heq | hreplaced
    · rw [heq]
      exact hadvanced
    · exact hadvanced.trans (hreplaced.advanced hformed)
  exact List.foldlRecOn snapshots (given env) ⟨.refl db, hdb⟩ hstep

/-! ### What the owner writes -/

/-- Every channel keeps its row, and its cutoff does not fall. -/
def Raised (t t' : KeyTable RmChannel.channelLogin) : Prop :=
  ∀ c row, t.lookup c = some row → ∃ row', t'.lookup c = some row' ∧ row.purgeMs ≤ row'.purgeMs

theorem Raised.refl (t : KeyTable RmChannel.channelLogin) : Raised t t :=
  fun _ row h => ⟨row, h, le_rfl⟩

theorem Raised.trans {t t' t'' : KeyTable RmChannel.channelLogin} (h : Raised t t')
    (h' : Raised t' t'') : Raised t t'' := by
  intro c row hrow
  obtain ⟨row', hrow', hle⟩ := h c row hrow
  obtain ⟨row'', hrow'', hle'⟩ := h' c row' hrow'
  exact ⟨row'', hrow'', hle.trans hle'⟩

section Raised

variable {f : RmChannel → RmChannel} {hf : ∀ r, (f r).channelLogin = r.channelLogin}

theorem raised_upsert (t : KeyTable RmChannel.channelLogin) (r : RmChannel)
    (hraise : ∀ row, row.purgeMs ≤ (f row).purgeMs) : Raised t (t.upsert r f hf) := by
  intro c row hrow
  by_cases hc : r.channelLogin = c
  · subst hc
    exact ⟨f row, by rw [KeyTable.lookup_upsert_self, hrow]; rfl, hraise row⟩
  · exact ⟨row, (KeyTable.lookup_upsert_ne t hc).trans hrow, le_rfl⟩

theorem raised_modify (t : KeyTable RmChannel.channelLogin) (k : String)
    (hf : ∀ r, (f r).channelLogin = r.channelLogin)
    (hraise : ∀ row, row.purgeMs ≤ (f row).purgeMs) : Raised t (t.modify k f hf) := by
  intro c row hrow
  by_cases hc : c = k
  · subst hc
    exact ⟨f row, by rw [KeyTable.lookup_modify_self, hrow]; rfl, hraise row⟩
  · exact ⟨row, (KeyTable.lookup_modify_ne t hc).trans hrow, le_rfl⟩

theorem raised_updateWhere (t : KeyTable RmChannel.channelLogin) (p : RmChannel → Bool)
    (hf : ∀ r, (f r).channelLogin = r.channelLogin)
    (hraise : ∀ row, row.purgeMs ≤ (f row).purgeMs) : Raised t (t.updateWhere p f hf) := by
  intro c row hrow
  refine ⟨if p row then f row else row, by rw [KeyTable.lookup_updateWhere, hrow]; rfl, ?_⟩
  split
  · exact hraise row
  · exact le_rfl

end Raised

/-- The rows of the table pass the checks of every replica that has none of them. -/
def Valid (env : ClusterEnv) (t : KeyTable RmChannel.channelLogin) : Prop :=
  ∀ row ∈ t.rows, env.validateLogin row.channelLogin = true ∧ 0 ≤ row.purgeMs

section Valid

variable {t : KeyTable RmChannel.channelLogin} {f : RmChannel → RmChannel}
  {hf : ∀ r, (f r).channelLogin = r.channelLogin}

theorem valid_upsert (ht : Valid env t) {r : RmChannel}
    (hr : env.validateLogin r.channelLogin = true ∧ 0 ≤ r.purgeMs)
    (hraise : ∀ row, row.purgeMs ≤ (f row).purgeMs) : Valid env (t.upsert r f hf) := by
  intro row hrow
  rcases KeyTable.mem_upsert hrow with hrow | rfl | ⟨q, hq, -, rfl⟩
  · exact ht row hrow
  · exact hr
  · rw [hf]
    exact ⟨(ht q hq).1, (ht q hq).2.trans (hraise q)⟩

theorem valid_modify (ht : Valid env t) (k : String)
    (hf : ∀ r, (f r).channelLogin = r.channelLogin)
    (hraise : ∀ row, row.purgeMs ≤ (f row).purgeMs) : Valid env (t.modify k f hf) := by
  intro row hrow
  rcases KeyTable.mem_modify.mp hrow with ⟨hrow, -⟩ | ⟨q, hq, -, rfl⟩
  · exact ht row hrow
  · rw [hf]
    exact ⟨(ht q hq).1, (ht q hq).2.trans (hraise q)⟩

theorem valid_updateWhere (ht : Valid env t) (p : RmChannel → Bool)
    (hf : ∀ r, (f r).channelLogin = r.channelLogin)
    (hraise : ∀ row, row.purgeMs ≤ (f row).purgeMs) : Valid env (t.updateWhere p f hf) := by
  intro row hrow
  obtain ⟨q, hq, rfl⟩ := KeyTable.mem_updateWhere.mp hrow
  split
  · rw [hf]
    exact ⟨(ht q hq).1, (ht q hq).2.trans (hraise q)⟩
  · exact ht q hq

end Valid

end ClusterDb

/-- A row of `rm_auth` that the owner writes. -/
def UserAuthorization.columns (auth : UserAuthorization) : List SqlValue :=
  .text auth.accessToken :: auth.details

/-- The row as a snapshot carries it. -/
def UserAuthorization.values (auth : UserAuthorization) : List Value :=
  [.string auth.accessToken, .string auth.twitchToken.accessToken,
    .string auth.twitchToken.refreshToken, .integer auth.twitchAuthorizationLastValidated,
    .integer auth.validUntil, .string auth.userId, .string auth.userLogin, .string auth.userName,
    .string auth.userProfileImageUrl]

/-- The logins of a mutation are valid, and its cutoff is not negative. -/
def Mutation.Valid (env : ClusterEnv) : Mutation → Prop
  | .ignore channel _ => env.validateLogin channel = true
  | .purge channel cutoff => env.validateLogin channel = true ∧ 0 ≤ cutoff
  | .pin channel _ _ => env.validateLogin channel = true
  | .replacePins channels => ∀ channel ∈ channels, env.validateLogin channel = true
  | .bootstrapPins channels => ∀ channel ∈ channels, env.validateLogin channel = true
  | .saveAuth _ _ => True
  | .revoke _ => True

instance (env : ClusterEnv) : ∀ operation : Mutation, Decidable (operation.Valid env)
  | .ignore channel _ => inferInstanceAs (Decidable (env.validateLogin channel = true))
  | .purge channel cutoff =>
    inferInstanceAs (Decidable (env.validateLogin channel = true ∧ 0 ≤ cutoff))
  | .pin channel _ _ => inferInstanceAs (Decidable (env.validateLogin channel = true))
  | .replacePins channels =>
    inferInstanceAs (Decidable (∀ channel ∈ channels, env.validateLogin channel = true))
  | .bootstrapPins channels =>
    inferInstanceAs (Decidable (∀ channel ∈ channels, env.validateLogin channel = true))
  | .saveAuth _ _ => inferInstanceAs (Decidable True)
  | .revoke _ => inferInstanceAs (Decidable True)

namespace ClusterDb

variable {env : ClusterEnv} {db db' : ClusterDb}

theorem hasToken_columns (token : String) (auth : UserAuthorization) :
    hasToken (.text token) auth.columns = decide (auth.accessToken = token) := by
  simp [hasToken, UserAuthorization.columns]

/-- Inserting a session of the owner's types succeeds exactly for a new token. -/
theorem insertSession_eq_ok {auths : List UserAuthorization} {auth : UserAuthorization}
    {sessions : List (List SqlValue)} :
    insertSession env (auths.map UserAuthorization.columns) (.text auth.accessToken) auth.details =
        .ok sessions ↔
      auth.accessToken ∉ auths.map (·.accessToken) ∧
        sessions = (auths ++ [auth]).map UserAuthorization.columns := by
  have hnull : (storeDetails env auth.details).contains .null = false := rfl
  have htoken : (auths.map UserAuthorization.columns).any
      (hasToken (textAffinity (.text auth.accessToken))) = true ↔
        auth.accessToken ∈ auths.map (·.accessToken) := by
    rw [List.any_map, List.any_eq_true, List.mem_map]
    refine exists_congr fun other => and_congr_right fun _ => ?_
    show hasToken (.text auth.accessToken) other.columns = true ↔ _
    rw [hasToken_columns, decide_eq_true_eq]
  rw [insertSession]
  simp only [List.tail_cons, hnull, Bool.false_eq_true, if_false, htoken]
  split
  · rename_i hmem
    exact iff_of_false nofun fun h => h.1 hmem
  · rename_i hnew
    rw [List.map_append, Except.ok.injEq, eq_comm]
    exact (and_iff_right hnew).symm

/-- What the owner's database is like at any time: all of it passes the checks of a new
replica. -/
structure Publishable (env : ClusterEnv) (db : ClusterDb) : Prop where
  channels : Valid env db.channels
  sessions : ∃ auths : List UserAuthorization,
    db.sessions = auths.map UserAuthorization.columns ∧ (auths.map (·.accessToken)).Nodup

/-- What the statements of a transaction do. -/
structure Touched (env : ClusterEnv) (db db' : ClusterDb) : Prop where
  epoch : db'.epoch = db.epoch
  revision : db'.revision = db.revision
  raised : Raised db.channels db'.channels
  publishable : db'.Publishable env

/-- What one transaction of the owner does. -/
structure Wrote (env : ClusterEnv) (db db' : ClusterDb) : Prop where
  epoch : db'.epoch = db.epoch
  revision : db'.revision = db.revision.map (· + 1)
  raised : Raised db.channels db'.channels
  publishable : db'.Publishable env

theorem Touched.refl (hdb : db.Publishable env) : Touched env db db := ⟨rfl, rfl, .refl _, hdb⟩

theorem Touched.trans {db'' : ClusterDb} (h : Touched env db db') (h' : Touched env db' db'') :
    Touched env db db'' :=
  ⟨h'.epoch.trans h.epoch, h'.revision.trans h.revision, h.raised.trans h'.raised, h'.publishable⟩

/-- What the statements of a mutation leave. -/
inductive Stated (env : ClusterEnv) (db : ClusterDb) (nowMs : ℕ) : Mutation → ClusterDb → Prop
  | ignore (channel : String) (ignored : Bool) : Stated env db nowMs (.ignore channel ignored)
      { db with
        channels := db.channels.upsert ⟨toAsciiLowercase channel, ignored, false, nowMs⟩
          (RmChannel.ignore ignored nowMs) (RmChannel.channelLogin_ignore ignored nowMs) }
  | purge (channel : String) (cutoff : ℤ) : Stated env db nowMs (.purge channel cutoff)
      { db with
        channels := db.channels.upsert ⟨toAsciiLowercase channel, false, false, cutoff⟩
          (RmChannel.raise cutoff) (RmChannel.channelLogin_raise cutoff) }
  | pin (channel : String) (maximum : ℕ) : Stated env db nowMs (.pin channel true maximum)
      { db.pinChannel channel with pinsBootstrapped := true }
  /-- The limit is reached, and the channel is not pinned. -/
  | full (channel : String) (maximum : ℕ) : Stated env db nowMs (.pin channel true maximum)
      { db with pinsBootstrapped := true }
  | unpin (channel : String) (maximum : ℕ) : Stated env db nowMs (.pin channel false maximum)
      { db with
        channels := db.channels.modify (toAsciiLowercase channel) (RmChannel.pin false)
          (RmChannel.channelLogin_pin false)
        pinsBootstrapped := true }
  | replacePins (channels : List String) : Stated env db nowMs (.replacePins channels)
      (channels.foldl pinChannel { db with
        channels := db.channels.updateWhere (fun _ => true) (RmChannel.pin false)
          (RmChannel.channelLogin_pin false)
        pinsBootstrapped := true })
  /-- The marker was set before. -/
  | bootstrapped (channels : List String) : Stated env db nowMs (.bootstrapPins channels) db
  | bootstrapPins (channels : List String) : Stated env db nowMs (.bootstrapPins channels)
      { channels.foldl pinChannel db with pinsBootstrapped := true }
  | insertAuth {auth : UserAuthorization} {sessions : List (List SqlValue)}
      (h : insertSession env db.sessions (.text auth.accessToken) auth.details = .ok sessions) :
      Stated env db nowMs (.saveAuth auth true) { db with sessions }
  | updateAuth (auth : UserAuthorization) : Stated env db nowMs (.saveAuth auth false)
      { db with
        sessions := db.sessions.map fun row =>
          if hasToken (.text auth.accessToken) row then
            .text auth.accessToken :: storeDetails env auth.details
          else row }
  | revoke (token : String) : Stated env db nowMs (.revoke token)
      { db with sessions := db.sessions.filter fun row => !hasToken (.text token) row }

/-- The two outcomes of a transaction that returns nothing. -/
theorem done_write_cases (statements : ClusterDb → Except ClusterError (Unit × ClusterDb)) :
    (db.done (db.write statements)).2 = db ∨ ∃ db₁, statements db = .ok ((), db₁) ∧
      (db.done (db.write statements)).2 = { db₁ with revision := db₁.revision.map (· + 1) } := by
  rw [write]
  rcases statements db with e | ⟨-, db₁⟩
  · exact .inl rfl
  · exact .inr ⟨db₁, rfl, rfl⟩

/-- **What a mutation can do**: nothing, or the statements of one transaction, which counts
the revision up. -/
theorem mutate_stated (env : ClusterEnv) (db : ClusterDb) (operation : Mutation) (nowMs : ℕ) :
    (db.mutate env operation nowMs).2 = db ∨ ∃ db₁, Stated env db nowMs operation db₁ ∧
      (db.mutate env operation nowMs).2 =
        { db₁ with revision := db₁.revision.map (· + 1) } := by
  unfold mutate
  split
  · cases operation with
    | ignore channel ignored => exact .inr ⟨_, .ignore channel ignored, rfl⟩
    | purge channel cutoff => exact .inr ⟨_, .purge channel cutoff, rfl⟩
    | pin channel enabled maximum =>
      dsimp only
      rcases hwrite : db.write fun db => db.setPin channel enabled maximum with e | ⟨affected, db'⟩
      · exact .inl rfl
      · -- the transaction is committed although the limit may be reported as an error
        obtain ⟨⟨_, db₁⟩, hset, hwrite⟩ := Except.bind_eq_ok.mp hwrite
        cases hwrite
        refine .inr ⟨db₁, ?_, by dsimp only; split <;> rfl⟩
        dsimp only at hset
        rw [setPin] at hset
        split at hset
        · rename_i henabled
          subst henabled
          split at hset
          · cases hset
          split at hset <;> cases hset
          · exact .pin channel maximum
          · exact .full channel maximum
        · rename_i hdisabled
          obtain rfl := Bool.not_eq_true _ ▸ hdisabled
          cases hset
          exact .unpin channel maximum
    | replacePins channels => exact .inr ⟨_, .replacePins channels, rfl⟩
    | bootstrapPins channels =>
      dsimp only
      rcases hboot : db.bootstrapPinsLocal channels with e | ⟨applied, db'⟩
      · exact .inl rfl
      · rw [bootstrapPinsLocal] at hboot
        split at hboot
        · cases hboot
          exact .inl rfl
        · obtain ⟨⟨_, db₁⟩, hmark, hboot⟩ := Except.bind_eq_ok.mp hboot
          cases hboot
          refine .inr ⟨db₁, ?_, rfl⟩
          dsimp only at hmark
          split at hmark <;> cases hmark
          · exact .bootstrapped channels
          · exact .bootstrapPins channels
    | saveAuth auth insert =>
      rcases done_write_cases _ with hdb | ⟨db₁, h, heq⟩
      · exact .inl hdb
      refine .inr ⟨db₁, ?_, heq⟩
      split at h
      · rename_i hinsert
        subst hinsert
        obtain ⟨sessions, hsessions, h⟩ := Except.bind_eq_ok.mp h
        cases h
        exact .insertAuth hsessions
      · rename_i hupdate
        obtain rfl := Bool.not_eq_true _ ▸ hupdate
        cases h
        exact .updateAuth auth
    | revoke token => exact .inr ⟨_, .revoke token, rfl⟩
  · exact .inl rfl

section Mutations

variable (hlower : ∀ s, env.validateLogin s = true → env.validateLogin (toAsciiLowercase s) = true)

include hlower

/-- Upserting a valid channel. -/
theorem touched_upsert (hdb : db.Publishable env) {channel : String}
    (hchannel : env.validateLogin channel = true) (ignored alwaysJoin : Bool) {purgeMs : ℤ}
    (hpurge : 0 ≤ purgeMs) {f : RmChannel → RmChannel}
    {hf : ∀ r, (f r).channelLogin = r.channelLogin}
    (hraise : ∀ row, row.purgeMs ≤ (f row).purgeMs) :
    Touched env db { db with
      channels := db.channels.upsert ⟨toAsciiLowercase channel, ignored, alwaysJoin, purgeMs⟩ f
        hf } where
  epoch := rfl
  revision := rfl
  raised := raised_upsert db.channels _ hraise
  publishable :=
    ⟨valid_upsert hdb.channels ⟨hlower channel hchannel, hpurge⟩ hraise, hdb.sessions⟩

theorem touched_pinChannels (hdb : db.Publishable env) {channels : List String}
    (hchannels : ∀ channel ∈ channels, env.validateLogin channel = true) :
    Touched env db (channels.foldl pinChannel db) := by
  refine List.foldlRecOn channels pinChannel (.refl hdb) ?_
  intro db₁ h channel hmem
  exact h.trans (touched_upsert hlower h.publishable (hchannels channel hmem) false true le_rfl
    fun _ => le_rfl)

omit hlower

theorem touched_sessions (hdb : db.Publishable env) {auths : List UserAuthorization}
    (hnodup : (auths.map (·.accessToken)).Nodup) :
    Touched env db { db with sessions := auths.map UserAuthorization.columns } :=
  ⟨rfl, rfl, .refl _, hdb.channels, auths, rfl, hnodup⟩

theorem touched_saveAuth (hdb : db.Publishable env) {auth : UserAuthorization}
    {sessions : List (List SqlValue)}
    (h : insertSession env db.sessions (.text auth.accessToken) auth.details = .ok sessions) :
    Touched env db { db with sessions } := by
  obtain ⟨auths, hauths, hnodup⟩ := hdb.sessions
  rw [hauths] at h
  obtain ⟨hnew, rfl⟩ := insertSession_eq_ok.mp h
  refine touched_sessions hdb ?_
  rw [List.map_append, List.nodup_append]
  refine ⟨hnodup, List.nodup_singleton _, ?_⟩
  rintro token htoken token' htoken' rfl
  obtain rfl := List.mem_singleton.mp htoken'
  exact hnew htoken

theorem touched_updateAuth (hdb : db.Publishable env) (auth : UserAuthorization) :
    Touched env db { db with
      sessions := db.sessions.map fun row =>
        if hasToken (.text auth.accessToken) row then
          .text auth.accessToken :: storeDetails env auth.details
        else row } := by
  obtain ⟨auths, hauths, hnodup⟩ := hdb.sessions
  have hmap : (db.sessions.map fun row =>
      if hasToken (.text auth.accessToken) row then
        .text auth.accessToken :: storeDetails env auth.details
      else row) = (auths.map fun other =>
        if other.accessToken = auth.accessToken then auth else other).map
          UserAuthorization.columns := by
    rw [hauths, List.map_map, List.map_map]
    refine List.map_congr_left fun other _ => ?_
    simp only [Function.comp_apply, hasToken_columns, decide_eq_true_eq]
    split <;> rfl
  rw [hmap]
  refine touched_sessions hdb ?_
  have htokens : (auths.map fun other =>
      if other.accessToken = auth.accessToken then auth else other).map (·.accessToken) =
        auths.map (·.accessToken) := by
    rw [List.map_map]
    refine List.map_congr_left fun other _ => ?_
    rw [Function.comp_apply]
    split
    · rename_i heq
      exact heq.symm
    · rfl
  rw [htokens]
  exact hnodup

theorem touched_revoke (hdb : db.Publishable env) (token : String) :
    Touched env db { db with
      sessions := db.sessions.filter fun row => !hasToken (.text token) row } := by
  obtain ⟨auths, hauths, hnodup⟩ := hdb.sessions
  have hfilter : (db.sessions.filter fun row => !hasToken (.text token) row) =
      (auths.filter fun other => !decide (other.accessToken = token)).map
        UserAuthorization.columns := by
    rw [hauths, List.filter_map]
    congr 2
    funext other
    rw [Function.comp_apply, hasToken_columns]
  rw [hfilter]
  exact touched_sessions hdb (hnodup.sublist (List.filter_sublist.map _))

include hlower

/-- **The statements of a valid mutation** keep the tables publishable. -/
theorem Stated.touched {operation : Mutation} {nowMs : ℕ} {db₁ : ClusterDb}
    (h : Stated env db nowMs operation db₁) (hdb : db.Publishable env)
    (hvalid : operation.Valid env) : Touched env db db₁ := by
  -- the marker is in no snapshot
  have hmark : ∀ {db₁}, Touched env db db₁ →
      Touched env db { db₁ with pinsBootstrapped := true } :=
    fun ⟨hepoch, hrevision, hraised, hchannels, hsessions⟩ =>
      ⟨hepoch, hrevision, hraised, hchannels, hsessions⟩
  cases h with
  | ignore channel ignored =>
    exact touched_upsert hlower hdb hvalid ignored false (Int.natCast_nonneg nowMs)
      fun row => le_max_left _ _
  | purge channel cutoff =>
    exact touched_upsert hlower hdb hvalid.1 false false hvalid.2 fun row => le_max_left _ _
  | pin channel maximum =>
    exact hmark (touched_upsert hlower hdb hvalid false true le_rfl fun _ => le_rfl)
  | full channel maximum => exact hmark (.refl hdb)
  | unpin channel maximum =>
    exact ⟨rfl, rfl,
      raised_modify db.channels _ (RmChannel.channelLogin_pin false) fun _ => le_rfl,
      valid_modify hdb.channels _ (RmChannel.channelLogin_pin false) fun _ => le_rfl, hdb.sessions⟩
  | replacePins channels =>
    have hcleared : Touched env db { db with
        channels := db.channels.updateWhere (fun _ => true) (RmChannel.pin false)
          (RmChannel.channelLogin_pin false)
        pinsBootstrapped := true } :=
      ⟨rfl, rfl,
        raised_updateWhere db.channels _ (RmChannel.channelLogin_pin false) fun _ => le_rfl,
        valid_updateWhere hdb.channels _ (RmChannel.channelLogin_pin false) fun _ => le_rfl,
        hdb.sessions⟩
    exact hcleared.trans (touched_pinChannels hlower hcleared.publishable hvalid)
  | bootstrapped channels => exact .refl hdb
  | bootstrapPins channels => exact hmark (touched_pinChannels hlower hdb hvalid)
  | insertAuth hsessions => exact touched_saveAuth hdb hsessions
  | updateAuth auth => exact touched_updateAuth hdb auth
  | revoke token => exact touched_revoke hdb token

/-- **A mutation** leaves the owner's database alone, or is one transaction. -/
theorem mutate_cases (hdb : db.Publishable env) {operation : Mutation}
    (hvalid : operation.Valid env) (nowMs : ℕ) :
    (db.mutate env operation nowMs).2 = db ∨
      Wrote env db (db.mutate env operation nowMs).2 := by
  refine (mutate_stated env db operation nowMs).imp_right ?_
  rintro ⟨db₁, hstated, heq⟩
  obtain ⟨hepoch, hrevision, hraised, hpublishable⟩ := hstated.touched hlower hdb hvalid
  rw [heq]
  exact ⟨hepoch, congrArg (Option.map (· + 1)) hrevision, hraised, hpublishable.channels,
    hpublishable.sessions⟩

end Mutations

end ClusterDb

/-! ### Runs of the owner -/

/-- How an owner's database is set up. -/
structure Seed where
  epoch : String
  pinsBootstrapped : Bool
  epoch_ne : epoch ≠ ""

/-- The database of a new owner. -/
def Seed.database (seed : Seed) : ClusterDb :=
  ⟨KeyTable.empty, [], some seed.epoch, some 0, true, seed.pinsBootstrapped⟩

namespace ClusterDb

variable {env : ClusterEnv} {db db' : ClusterDb}

/-- The owner after mutations, each with the clock it reads. -/
def ownerRun (env : ClusterEnv) (seed : Seed) (operations : List (Mutation × ℕ)) : ClusterDb :=
  operations.foldl (fun db operation => (db.mutate env operation.1 operation.2).2) seed.database

/-- A state of the owner and a later one. -/
structure Ahead (db db' : ClusterDb) : Prop where
  epoch : db'.epoch = db.epoch
  raised : Raised db.channels db'.channels
  revision : ∀ r, db.revision = some r →
    ∃ r', db'.revision = some r' ∧ (r < r' ∨ (r = r' ∧ db' = db))

theorem Ahead.refl (db : ClusterDb) : Ahead db db :=
  ⟨rfl, .refl _, fun r h => ⟨r, h, .inr ⟨rfl, rfl⟩⟩⟩

theorem Ahead.trans {db'' : ClusterDb} (h : Ahead db db') (h' : Ahead db' db'') :
    Ahead db db'' := by
  refine ⟨h'.epoch.trans h.epoch, h.raised.trans h'.raised, fun r hr => ?_⟩
  obtain ⟨r', hr', hlt | ⟨rfl, rfl⟩⟩ := h.revision r hr
  · obtain ⟨r'', hr'', hlt' | ⟨rfl, -⟩⟩ := h'.revision r' hr'
    · exact ⟨r'', hr'', .inl (hlt.trans hlt')⟩
    · exact ⟨r', hr'', .inl hlt⟩
  · exact h'.revision r hr

theorem Wrote.ahead (h : Wrote env db db') : Ahead db db' := by
  refine ⟨h.epoch, h.raised, fun r hr => ⟨r + 1, ?_, .inl (lt_add_one r)⟩⟩
  rw [h.revision, hr]
  rfl

theorem publishable_seed (env : ClusterEnv) (seed : Seed) : seed.database.Publishable env :=
  ⟨nofun, [], rfl, List.nodup_nil⟩

section OwnerRun

variable (hlower : ∀ s, env.validateLogin s = true → env.validateLogin (toAsciiLowercase s) = true)
  {seed : Seed} {operations : List (Mutation × ℕ)}

include hlower

/-- **The owner moves ahead**, and stays publishable. -/
theorem ahead_foldl (hdb : db.Publishable env)
    (hvalid : ∀ operation ∈ operations, operation.1.Valid env) :
    Ahead db (operations.foldl (fun db operation => (db.mutate env operation.1 operation.2).2) db) ∧
      (operations.foldl (fun db operation => (db.mutate env operation.1 operation.2).2)
        db).Publishable env := by
  induction operations generalizing db with
  | nil => exact ⟨.refl db, hdb⟩
  | cons operation operations ih =>
    have hrest := fun q hq => hvalid q (List.mem_cons_of_mem operation hq)
    rcases mutate_cases hlower hdb (hvalid operation List.mem_cons_self) operation.2 with
      heq | hwrote
    · rw [List.foldl_cons, heq]
      exact ih hdb hrest
    · obtain ⟨hahead, hpublishable⟩ := ih hwrote.publishable hrest
      exact ⟨hwrote.ahead.trans hahead, hpublishable⟩

theorem publishable_ownerRun (hvalid : ∀ operation ∈ operations, operation.1.Valid env) :
    (ownerRun env seed operations).Publishable env :=
  (ahead_foldl hlower (publishable_seed env seed) hvalid).2

theorem ahead_ownerRun (hvalid : ∀ operation ∈ operations, operation.1.Valid env) {i j : ℕ}
    (hij : i ≤ j) :
    Ahead (ownerRun env seed (operations.take i)) (ownerRun env seed (operations.take j)) := by
  obtain ⟨n, rfl⟩ := Nat.exists_eq_add_of_le hij
  have hvalid' : ∀ k, ∀ operation ∈ operations.take k, operation.1.Valid env :=
    fun k operation hmem => hvalid operation (List.mem_of_mem_take hmem)
  have hpublishable : (ownerRun env seed (operations.take i)).Publishable env :=
    publishable_ownerRun hlower (hvalid' i)
  have hmore : ∀ operation ∈ (operations.drop i).take n, operation.1.Valid env :=
    fun operation hmem => hvalid operation (List.mem_of_mem_drop (List.mem_of_mem_take hmem))
  rw [List.take_add, ownerRun, ownerRun, List.foldl_append]
  exact (ahead_foldl hlower hpublishable hmore).1

end OwnerRun

/-! ### A replica of one owner -/

/-- The replica has the owner's rows. -/
structure Mirrors (db owner : ClusterDb) : Prop where
  epoch : db.epoch = owner.epoch
  revision : db.revision = owner.revision
  channels : db.channels.rows.Perm owner.channels.rows
  sessions : db.sessions.Perm owner.sessions

theorem mapM_jsonValue_columns (auth : UserAuthorization) :
    auth.columns.mapM jsonValue = .ok auth.values := rfl

/-- What a snapshot is made of. -/
theorem snapshot_fields {owner : ClusterDb} {s : Snapshot} (h : owner.snapshot = .ok s) :
    owner.epoch = some s.epoch ∧ owner.revision = some s.revision ∧
      s.channels = (sortByKey RmChannel.channelLogin owner.channels.rows).map RmChannel.values ∧
      (sortByKey tokenOrder owner.sessions).mapM (fun row => row.mapM jsonValue) =
        .ok s.sessions := by
  rw [snapshot] at h
  split at h
  · rename_i epoch revision hepoch hrevision
    split at h
    · cases h
    · obtain ⟨sessions, hsessions, h⟩ := Except.bind_eq_ok.mp h
      cases h
      exact ⟨hepoch, hrevision, rfl, hsessions⟩
  · cases h

/-- What a snapshot of the owner holds. -/
theorem snapshot_eq_ok {owner : ClusterDb} (howner : owner.Publishable env) {s : Snapshot}
    (h : owner.snapshot = .ok s) :
    owner.epoch = some s.epoch ∧ owner.revision = some s.revision ∧
      s.channels = (sortByKey RmChannel.channelLogin owner.channels.rows).map RmChannel.values ∧
      ∃ auths : List UserAuthorization, s.sessions = auths.map UserAuthorization.values ∧
        (auths.map UserAuthorization.columns).Perm owner.sessions ∧
        (auths.map (·.accessToken)).Nodup := by
  obtain ⟨hepoch, hrevision, hchannels, hsessions⟩ := snapshot_fields h
  refine ⟨hepoch, hrevision, hchannels, ?_⟩
  obtain ⟨auths, hauths, hnodup⟩ := howner.sessions
  -- the sorted rows are again sessions
  have hperm : (sortByKey tokenOrder owner.sessions).Perm
      (auths.map UserAuthorization.columns) := hauths ▸ sortByKey_perm owner.sessions
  obtain ⟨sorted, hsorted, hauthsPerm⟩ : Relation.Comp
      (fun l auths => l = auths.map UserAuthorization.columns) List.Perm
      (sortByKey tokenOrder owner.sessions) auths := by
    rw [List.eq_map_comp_perm]
    exact hperm
  refine ⟨sorted, ?_, ?_, ?_⟩
  · have hvalues : sorted.mapM ((fun row => row.mapM jsonValue) ∘ UserAuthorization.columns) =
        .ok (sorted.map UserAuthorization.values) :=
      Except.mapM_of_ok fun auth _ => mapM_jsonValue_columns auth
    rw [hsorted, List.mapM_map, hvalues] at hsessions
    exact (Except.ok.inj hsessions).symm
  · rw [← hsorted]
    exact sortByKey_perm owner.sessions
  · exact (hauthsPerm.map _).nodup_iff.mpr hnodup

/-- A snapshot's sessions are inserted as they are. -/
theorem insertSessions_values {auths : List UserAuthorization}
    (hnodup : (auths.map (·.accessToken)).Nodup) :
    insertSessions env (auths.map UserAuthorization.values) =
      .ok (auths.map UserAuthorization.columns) := by
  have hloop : ∀ auths before : List UserAuthorization,
      ((before ++ auths).map (·.accessToken)).Nodup →
      (auths.map UserAuthorization.values).foldlM (insertValues env)
        (before.map UserAuthorization.columns) =
          .ok ((before ++ auths).map UserAuthorization.columns) := by
    intro auths
    induction auths with
    | nil =>
      intro before _
      rw [List.append_nil]
      rfl
    | cons auth auths ih =>
      intro before hnodup
      have hnew : auth.accessToken ∉ before.map (·.accessToken) := by
        rw [List.map_append, List.nodup_append] at hnodup
        intro hmem
        exact hnodup.2.2 _ hmem _ List.mem_cons_self rfl
      have hinsert : insertValues env (before.map UserAuthorization.columns) auth.values =
          .ok ((before ++ [auth]).map UserAuthorization.columns) :=
        insertSession_eq_ok.mpr ⟨hnew, rfl⟩
      rw [List.map_cons, List.foldlM_cons, hinsert]
      show (auths.map UserAuthorization.values).foldlM (insertValues env) _ = _
      rw [List.append_cons before auth auths] at hnodup ⊢
      exact ih (before ++ [auth]) hnodup
  exact hloop auths [] hnodup

/-- The checks of a replica pass for a valid row whose cutoff is no lower. -/
theorem checkChannel_values {row : RmChannel} (hvalid : env.validateLogin row.channelLogin = true)
    (hpurge : db.purgeMs row.channelLogin ≤ row.purgeMs) :
    db.checkChannel env row.values = .ok row := by
  obtain ⟨name, ignored, alwaysJoin, purgeMs⟩ := row
  have hold : ¬purgeMs < ((db.channels.lookup name).map (·.purgeMs)).getD 0 := not_lt.mpr hpurge
  have hname : env.validateLogin name = true := hvalid
  cases ignored <;> cases alwaysJoin <;>
    simp [checkChannel, RmChannel.values, RmChannel.flag, stringAt, integerAt, hold, hname,
      Bind.bind, Except.bind, pure, Except.pure]

/-- The tables of a snapshot whose rows pass the checks, after they replaced a replica's. -/
theorem replaceTables_of_ahead {owner : ClusterDb} (howner : owner.Publishable env) {s : Snapshot}
    (hsnapshot : owner.snapshot = .ok s)
    (hpurge : ∀ row ∈ owner.channels.rows, db.purgeMs row.channelLogin ≤ row.purgeMs)
    (hretained : ∀ row ∈ db.channels.rows, 0 < row.purgeMs →
      owner.channels.lookup row.channelLogin ≠ none) :
    ∃ db', db.replaceTables env s = .ok (true, db') ∧ db'.Mirrors owner := by
  obtain ⟨hepoch, hrevision, hchannels, auths, hsessions, hperm, hnodup⟩ :=
    snapshot_eq_ok howner hsnapshot
  have hsorted : (sortByKey RmChannel.channelLogin owner.channels.rows).Perm owner.channels.rows :=
    sortByKey_perm owner.channels.rows
  -- every row passes its check
  have hrows : s.channels.mapM (db.checkChannel env) =
      .ok (sortByKey RmChannel.channelLogin owner.channels.rows) := by
    rw [hchannels, List.mapM_map]
    have hcheck : (sortByKey RmChannel.channelLogin owner.channels.rows).mapM
        (db.checkChannel env ∘ RmChannel.values) =
          .ok ((sortByKey RmChannel.channelLogin owner.channels.rows).map id) := by
      refine Except.mapM_of_ok fun row hrow => ?_
      have hmem : row ∈ owner.channels.rows := hsorted.mem_iff.mp hrow
      exact checkChannel_values (howner.channels row hmem).1 (hpurge row hmem)
    rwa [List.map_id] at hcheck
  -- and no channel with a cutoff is missing
  have hkept : db.channels.rows.any (fun row => 0 < row.purgeMs &&
      !((sortByKey RmChannel.channelLogin owner.channels.rows).map
        RmChannel.channelLogin).contains row.channelLogin) = false := by
    rw [List.any_eq_false]
    intro row hrow
    simp only [Bool.and_eq_true, decide_eq_true_eq, Bool.not_eq_true', not_and,
      Bool.not_eq_false, List.contains_eq_mem]
    intro hpos
    obtain ⟨q, hq⟩ := Option.ne_none_iff_exists'.mp (hretained row hrow hpos)
    obtain ⟨hmem, hkey⟩ := KeyTable.lookup_eq_some.mp hq
    exact List.mem_map.mpr ⟨q, hsorted.mem_iff.mpr hmem, hkey⟩
  have hunique : ((sortByKey RmChannel.channelLogin owner.channels.rows).map
      (·.channelLogin)).Nodup := (hsorted.map _).nodup_iff.mpr owner.channels.nodup
  have hinsert : insertChannels (sortByKey RmChannel.channelLogin owner.channels.rows) =
      .ok ⟨sortByKey RmChannel.channelLogin owner.channels.rows, hunique⟩ :=
    insertChannels_eq_ok.mpr ⟨hunique, rfl⟩
  refine ⟨⟨⟨sortByKey RmChannel.channelLogin owner.channels.rows, hunique⟩,
    auths.map UserAuthorization.columns, some s.epoch, some s.revision, false, true⟩, ?_,
    ⟨hepoch.symm, hrevision.symm, hsorted, hperm⟩⟩
  rw [replaceTables, hrows]
  show (if _ then _ else _) = _
  rw [hkept, if_neg Bool.false_ne_true, hinsert, hsessions]
  show (insertSessions env (auths.map UserAuthorization.values) >>= _) = _
  rw [insertSessions_values hnodup]
  rfl

/-- **A snapshot that is ahead of a replica** is accepted and mirrored. -/
theorem receive_of_ahead {owner : ClusterDb} (howner : owner.Publishable env) {s : Snapshot}
    (hsnapshot : owner.snapshot = .ok s) (hepoch : s.epoch ≠ "") (hrevision : 0 ≤ s.revision)
    (hnewer : db.epoch = none ∨ (db.epoch = some s.epoch ∧
      ∃ revision, db.revision = some revision ∧ revision < s.revision))
    (hpurge : ∀ row ∈ owner.channels.rows, db.purgeMs row.channelLogin ≤ row.purgeMs)
    (hretained : ∀ row ∈ db.channels.rows, 0 < row.purgeMs →
      owner.channels.lookup row.channelLogin ≠ none) :
    ∃ db', db.receive env s = .ok (true, db') ∧ db'.Mirrors owner := by
  obtain ⟨db', hreplace, hmirrors⟩ := replaceTables_of_ahead howner hsnapshot hpurge hretained
  refine ⟨db', ?_, hmirrors⟩
  rw [receive, if_neg (not_or.mpr ⟨hepoch, not_lt.mpr hrevision⟩)]
  rcases hnewer with hnone | ⟨hsome, revision, hold, hlt⟩
  · rw [hnone]
    exact hreplace
  · simp only [hsome, hold, ne_eq, not_true_eq_false, if_false, not_lt.mpr hlt.le, hlt.ne',
      hreplace]

/-- A replica of one owner: new, or with the rows of some moment of the owner's run. -/
def Following (env : ClusterEnv) (seed : Seed) (operations : List (Mutation × ℕ))
    (db : ClusterDb) : Prop :=
  (db.epoch = none ∧ db.revision = none ∧ db.channels.rows = []) ∨
    ∃ i, db.Mirrors (ownerRun env seed (operations.take i))

section Following

variable (hlower : ∀ s, env.validateLogin s = true → env.validateLogin (toAsciiLowercase s) = true)
  {seed : Seed} {operations : List (Mutation × ℕ)}
  (hvalid : ∀ operation ∈ operations, operation.1.Valid env)

include hlower hvalid

/-- The owner keeps its epoch, and its revision is not negative. -/
theorem epoch_ownerRun (seed : Seed) (i : ℕ) :
    (ownerRun env seed (operations.take i)).epoch = some seed.epoch ∧
    ∃ r, (ownerRun env seed (operations.take i)).revision = some r ∧ 0 ≤ r := by
  have hahead : Ahead seed.database (ownerRun env seed (operations.take i)) :=
    ahead_ownerRun hlower hvalid (Nat.zero_le i)
  obtain ⟨r, hr, hlt | ⟨hle, -⟩⟩ := hahead.revision 0 rfl
  · exact ⟨hahead.epoch, r, hr, hlt.le⟩
  · exact ⟨hahead.epoch, r, hr, hle.le⟩

/-- A moment of a higher revision is a later one. -/
theorem raised_of_revision_lt {i j : ℕ} {r r' : ℤ}
    (hr : (ownerRun env seed (operations.take i)).revision = some r)
    (hr' : (ownerRun env seed (operations.take j)).revision = some r') (hlt : r < r') :
    Raised (ownerRun env seed (operations.take i)).channels
      (ownerRun env seed (operations.take j)).channels := by
  rcases le_total i j with hij | hji
  · exact (ahead_ownerRun hlower hvalid hij).raised
  · exfalso
    obtain ⟨r'', hr'', h⟩ := (ahead_ownerRun hlower hvalid hji).revision r' hr'
    obtain rfl : r'' = r := Option.some.inj (hr''.symm.trans hr)
    rcases h with hlt' | ⟨heq, -⟩
    · exact lt_asymm hlt hlt'
    · exact hlt.ne' heq

/-- **What is new to a replica of the owner** is accepted and mirrored. -/
theorem receive_of_following (hdb : Following env seed operations db) {j : ℕ} {s : Snapshot}
    (hs : (ownerRun env seed (operations.take j)).snapshot = .ok s)
    (hnewer : ∀ r, db.revision = some r → r < s.revision) :
    ∃ db', db.receive env s = .ok (true, db') ∧
      db'.Mirrors (ownerRun env seed (operations.take j)) := by
  have howner : (ownerRun env seed (operations.take j)).Publishable env :=
    publishable_ownerRun hlower fun operation hmem =>
      hvalid operation (List.mem_of_mem_take hmem)
  obtain ⟨hepoch, hrevision, -⟩ := snapshot_eq_ok howner hs
  obtain ⟨hseed, r, hr, hr0⟩ := epoch_ownerRun hlower hvalid seed j
  obtain rfl : r = s.revision := Option.some.inj (hr.symm.trans hrevision)
  obtain hsame : seed.epoch = s.epoch := Option.some.inj (hseed.symm.trans hepoch)
  refine receive_of_ahead howner hs (hsame ▸ seed.epoch_ne) hr0 ?_ ?_ ?_ <;>
    rcases hdb with ⟨hnone, -, hempty⟩ | ⟨i, hmirrors⟩
  · exact .inl hnone
  · obtain ⟨hseed', old, hold, -⟩ := epoch_ownerRun hlower hvalid seed i
    have holdRevision : db.revision = some old := hmirrors.revision.trans hold
    exact .inr ⟨by rw [hmirrors.epoch, hseed', hsame], old, holdRevision, hnewer old holdRevision⟩
  · intro row hrow
    have hlookup : db.channels.lookup row.channelLogin = none := by
      rw [KeyTable.lookup_eq_none, hempty]
      nofun
    rw [purgeMs, hlookup]
    exact (howner.channels row hrow).2
  · intro row hrow
    by_contra hlt
    have hpos : 0 < db.purgeMs row.channelLogin :=
      (howner.channels row hrow).2.trans_lt (not_le.mp hlt)
    obtain ⟨old, hold, hkey, heq⟩ := lookup_of_purgeMs_pos hpos
    -- the owner had the same row, and raised it since
    obtain ⟨-, oldRevision, holdRevision, -⟩ := epoch_ownerRun hlower hvalid seed i
    have hraised := raised_of_revision_lt hlower hvalid holdRevision hrevision
      (hnewer oldRevision (hmirrors.revision.trans holdRevision))
    obtain ⟨row', hrow', hle⟩ := hraised old.channelLogin old
      (KeyTable.lookup_of_mem (hmirrors.channels.mem_iff.mp hold))
    rw [hkey, KeyTable.lookup_of_mem hrow] at hrow'
    obtain rfl := Option.some.inj hrow'
    exact hlt (heq.trans_le hle)
  · intro row hrow
    rw [hempty] at hrow
    cases hrow
  · intro row hrow _
    obtain ⟨-, oldRevision, holdRevision, -⟩ := epoch_ownerRun hlower hvalid seed i
    have hraised := raised_of_revision_lt hlower hvalid holdRevision hrevision
      (hnewer oldRevision (hmirrors.revision.trans holdRevision))
    obtain ⟨row', hrow', -⟩ := hraised row.channelLogin row
      (KeyTable.lookup_of_mem (hmirrors.channels.mem_iff.mp hrow))
    rw [hrow']
    exact Option.some_ne_none _

/-- A replica goes on following whatever the owner's snapshots do to it. -/
theorem following_given (hdb : Following env seed operations db) {j : ℕ} {s : Snapshot}
    (hs : (ownerRun env seed (operations.take j)).snapshot = .ok s) :
    Following env seed operations (db.given env s) := by
  rcases given_cases env db s with heq | hreplaced
  · rw [heq]
    exact hdb
  · have hnewer : ∀ r, db.revision = some r → r < s.revision := by
      intro r hr
      rcases hreplaced.newer with hnone | ⟨-, old, hold, hlt⟩
      · rcases hdb with ⟨-, hnone', -⟩ | ⟨i, hmirrors⟩
        · rw [hnone'] at hr
          cases hr
        · rw [hmirrors.epoch, (epoch_ownerRun hlower hvalid seed i).1] at hnone
          cases hnone
      · obtain rfl : old = r := Option.some.inj (hold.symm.trans hr)
        exact hlt
    obtain ⟨db', hreceive, hmirrors⟩ := receive_of_following hlower hvalid hdb hs hnewer
    rw [given, hreceive]
    exact .inr ⟨j, hmirrors⟩

theorem following_replicaRun {snapshots : List Snapshot}
    (hsnapshots : ∀ s ∈ snapshots, ∃ i,
      (ownerRun env seed (operations.take i)).snapshot = .ok s) :
    Following env seed operations (replicaRun env snapshots) := by
  refine List.foldlRecOn snapshots (given env) (.inl ⟨rfl, rfl, rfl⟩) ?_
  intro db hdb s hmem
  obtain ⟨i, hs⟩ := hsnapshots s hmem
  exact following_given hlower hvalid hdb hs

end Following

theorem formed_replicaRun (env : ClusterEnv) (snapshots : List Snapshot) :
    (replicaRun env snapshots).Formed := (advanced_foldl (fun _ => rfl) snapshots).2

/-- A snapshot of the current revision changes nothing. -/
theorem given_of_current (hdb : db.Formed) {s : Snapshot} (hs : db.revision = some s.revision) :
    db.given env s = db := by
  rcases given_cases env db s with heq | hreplaced
  · exact heq
  · exfalso
    rcases hreplaced.newer with hnone | ⟨-, old, hold, hlt⟩
    · rw [hdb hnone] at hs
      cases hs
    · exact hlt.ne (Option.some.inj (hold.symm.trans hs))

/-- **Replication is monotone, atomic and convergent.**  Any snapshots only advance a
replica, the current revision and a refused snapshot leave it alone; and a replica of
one owner accepts each of its snapshots that is new, and then has the owner's rows. -/
theorem replica_follows_owner (env : ClusterEnv) (snapshots more : List Snapshot) :
    Advanced (replicaRun env snapshots) (replicaRun env (snapshots ++ more)) ∧
    (∀ s, (replicaRun env snapshots).revision = some s.revision →
      (replicaRun env snapshots).given env s = replicaRun env snapshots) ∧
    (∀ s e, (replicaRun env snapshots).receive env s = .error e →
      (replicaRun env snapshots).given env s = replicaRun env snapshots) ∧
    ((∀ s, env.validateLogin s = true → env.validateLogin (toAsciiLowercase s) = true) →
      ∀ (seed : Seed) (operations : List (Mutation × ℕ)),
      (∀ operation ∈ operations, operation.1.Valid env) →
      (∀ s ∈ snapshots, ∃ i, (ownerRun env seed (operations.take i)).snapshot = .ok s) →
      ∀ (j : ℕ) (s : Snapshot), (ownerRun env seed (operations.take j)).snapshot = .ok s →
      (∀ r, (replicaRun env snapshots).revision = some r → r < s.revision) →
      ∃ db', (replicaRun env snapshots).receive env s = .ok (true, db') ∧
        db'.channels.rows.Perm (ownerRun env seed (operations.take j)).channels.rows ∧
        db'.sessions.Perm (ownerRun env seed (operations.take j)).sessions) := by
  have hformed : (replicaRun env snapshots).Formed := formed_replicaRun env snapshots
  refine ⟨?_, fun s hs => given_of_current hformed hs, fun s e he => ?_, ?_⟩
  · rw [replicaRun, replicaRun, List.foldl_append]
    exact (advanced_foldl hformed more).1
  · rw [given, he]
  · intro hlower seed operations hvalid hsnapshots j s hs hnewer
    obtain ⟨db', hreceive, hmirrors⟩ := receive_of_following hlower hvalid
      (following_replicaRun hlower hvalid hsnapshots) hs hnewer
    exact ⟨db', hreceive, hmirrors.channels, hmirrors.sessions⟩

/-- Logins are checked as the IRC library documents it: 1 to 25 of `a`–`z`, `0`–`9`, `_`. -/
def sampleEnv : ClusterEnv where
  validateLogin s := 1 ≤ s.length && s.length ≤ 25 &&
    s.toList.all fun c => c.isLower || c.isDigit || c = '_'
  numeric _ := none

/-- A valid login has no upper case. -/
theorem validateLogin_sampleEnv (s : String) (h : sampleEnv.validateLogin s = true) :
    sampleEnv.validateLogin (toAsciiLowercase s) = true := by
  have hchar : ∀ c ∈ s.toList, c.toLower = c := by
    intro c hc
    simp only [sampleEnv, Bool.and_eq_true, List.all_eq_true] at h
    have hvalid := h.2 c hc
    delta Char.toLower
    rw [dif_neg]
    rintro ⟨hlow, hhigh⟩
    have hlower : c.isLower = (decide ('a'.val ≤ c.val) && decide (c.val ≤ 'z'.val)) := rfl
    simp [hlower, Char.isDigit, UInt32.le_iff_toNat_le] at hvalid hlow hhigh
    rcases hvalid with (hvalid | hvalid) | rfl
    · omega
    · omega
    · exact absurd hhigh (by decide)
  have hsame : toAsciiLowercase s = s := by
    rw [toAsciiLowercase, List.map_congr_left hchar, List.map_id', String.ofList_toList]
  rw [hsame]
  exact h

def sampleSeed : Seed := ⟨"e", false, by decide⟩

/-- An opt-out, a purge that is behind it, and a login. -/
def sampleOperations : List (Mutation × ℕ) :=
  [(.ignore "forsen" true, 5), (.purge "forsen" 3, 6),
    (.saveAuth ⟨"t", ⟨"a", "r"⟩, 7, 8, "1", "forsen", "Forsen", ""⟩ true, 7)]

/-- The owner's snapshot after the opt-out. -/
def sampleFirst : Snapshot :=
  ⟨"e", 1, [[.string "forsen", .integer 1, .integer 0, .integer 5]], []⟩

/-- The owner's snapshot after the login. -/
def sampleLast : Snapshot :=
  ⟨"e", 3, [[.string "forsen", .integer 1, .integer 0, .integer 5]],
    [[.string "t", .string "a", .string "r", .integer 7, .integer 8, .string "1",
      .string "forsen", .string "Forsen", .string ""]]⟩

theorem replica_follows_owner_sample :
    ∃ db', (replicaRun sampleEnv [sampleFirst]).receive sampleEnv sampleLast = .ok (true, db') ∧
      db'.channels.rows.Perm
        (ownerRun sampleEnv sampleSeed (sampleOperations.take 3)).channels.rows ∧
      db'.sessions.Perm (ownerRun sampleEnv sampleSeed (sampleOperations.take 3)).sessions := by
  have hfirst : (ownerRun sampleEnv sampleSeed (sampleOperations.take 1)).snapshot =
      .ok sampleFirst := by decide +kernel
  have hlast : (ownerRun sampleEnv sampleSeed (sampleOperations.take 3)).snapshot =
      .ok sampleLast := by decide +kernel
  have hrevision : (replicaRun sampleEnv [sampleFirst]).revision = some 1 := by decide +kernel
  refine (replica_follows_owner sampleEnv [sampleFirst] []).2.2.2 validateLogin_sampleEnv
    sampleSeed sampleOperations (by decide +kernel) ?_ 3 sampleLast hlast ?_
  · exact List.forall_mem_singleton.mpr ⟨1, hfirst⟩
  · intro r hr
    rw [hrevision] at hr
    cases hr
    decide

end ClusterDb

end RecentMessages
