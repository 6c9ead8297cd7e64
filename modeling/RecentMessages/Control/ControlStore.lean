/-
RecentMessages/Control/ControlStore.lean

The control store (`db.rs`) of a node without cluster control, as far as reads
depend on it: which channels are ignored, and what is known to be covered.

Coverage of a channel is a set of closed intervals of receive times.  One is open
at its end while the channel is joined (`live_coverage`); it is closed by
`end_live_coverage` and then kept in `coverage_interval`, where rows of the same
channel, source and bounds are unique.  Every function here is one transaction.
-/
import RecentMessages.Library.KeyTable
import RecentMessages.Library.Lists
import RecentMessages.Storage.Record

namespace RecentMessages

/-- A row of `channel`. -/
structure ControlChannel where
  channelLogin : String
  ignoredAtMs : Option ℤ
  lastAccessMs : ℤ
  deriving DecidableEq, Repr

/-- A row of `coverage_interval`. -/
structure CoverageRow where
  channelLogin : String
  source : String
  startMs : ℤ
  endMs : ℤ
  deriving DecidableEq, Repr

/-- A row of `live_coverage`. -/
structure LiveCoverage where
  channelLogin : String
  source : String
  startedAtMs : ℤ
  deriving DecidableEq, Repr

/-- A covered interval, closed at both ends. -/
structure CoverageInterval where
  startMs : ℤ
  endMs : ℤ
  source : String
  deriving DecidableEq, Repr

/-- Errors of the control store. -/
inductive StorageError
  | sqlite (message : String)
  | invalidCoverageInterval (startMs endMs : ℤ)
  deriving DecidableEq, Repr

/-- The interval lies around `t`. -/
def CoverageInterval.Covers (interval : CoverageInterval) (t : ℤ) : Prop :=
  interval.startMs ≤ t ∧ t ≤ interval.endMs

instance (interval : CoverageInterval) (t : ℤ) : Decidable (interval.Covers t) :=
  inferInstanceAs (Decidable (_ ∧ _))

/-- The bounds of an interval, by which intervals are sorted. -/
def CoverageInterval.bounds (interval : CoverageInterval) : ℤ ×ₗ ℤ :=
  toLex (interval.startMs, interval.endMs)

/-- A row as an interval. -/
def CoverageRow.interval (row : CoverageRow) : CoverageInterval :=
  ⟨row.startMs, row.endMs, row.source⟩

/-- Live coverage as an interval that ends at `throughMs`. -/
def LiveCoverage.interval (row : LiveCoverage) (throughMs : ℤ) : CoverageInterval :=
  ⟨row.startedAtMs, throughMs, row.source⟩

/-- `SET ignored_at_ms`. -/
def ControlChannel.ignore (ignoredAtMs : Option ℤ) (row : ControlChannel) : ControlChannel :=
  { row with ignoredAtMs }

theorem ControlChannel.channelLogin_ignore (ignoredAtMs : Option ℤ) (row : ControlChannel) :
    (row.ignore ignoredAtMs).channelLogin = row.channelLogin := rfl

/-- `DO UPDATE SET last_access_ms`, at most every half hour. -/
def ControlChannel.touch (nowMs : ℤ) (row : ControlChannel) : ControlChannel :=
  if row.lastAccessMs < satSub nowMs (30 * 60 * 1000) then { row with lastAccessMs := nowMs }
  else row

theorem ControlChannel.channelLogin_touch (nowMs : ℤ) (row : ControlChannel) :
    (row.touch nowMs).channelLogin = row.channelLogin := by
  unfold touch
  split <;> rfl

/-- The tables of the control store. -/
structure ControlStore where
  channel : KeyTable ControlChannel.channelLogin
  coverageInterval : KeyTable (id : CoverageRow → CoverageRow)
  liveCoverage : KeyTable LiveCoverage.channelLogin

namespace ControlStore

/-- A new control store. -/
def empty : ControlStore := ⟨KeyTable.empty, KeyTable.empty, KeyTable.empty⟩

instance : Inhabited ControlStore := ⟨empty⟩

variable (c : ControlStore) (channelLogin : String)

/-! ### Ignored channels -/

/-- `DELETE FROM coverage_interval` and `DELETE FROM live_coverage` of a channel. -/
def dropCoverage : ControlStore :=
  { c with
    coverageInterval := c.coverageInterval.deleteWhere (·.channelLogin = channelLogin)
    liveCoverage := c.liveCoverage.erase channelLogin }

/-- `set_channel_ignored`. -/
def setChannelIgnored (ignored : Bool) (nowMs : ℤ) : ControlStore :=
  let login := toAsciiLowercase channelLogin
  let ignoredAtMs := if ignored then some nowMs else none
  let c := { c with
    channel := (c.channel.insertIgnore ⟨login, ignoredAtMs, nowMs⟩).modify login
      (ControlChannel.ignore ignoredAtMs) (ControlChannel.channelLogin_ignore ignoredAtMs) }
  if ignored then c.dropCoverage login else c

/-- `touch_or_add_channel`. -/
def touchOrAddChannel (nowMs : ℤ) : ControlStore :=
  let login := toAsciiLowercase channelLogin
  { c with
    channel := (c.channel.insertIgnore ⟨login, none, nowMs⟩).modify login
      (ControlChannel.touch nowMs) (ControlChannel.channelLogin_touch nowMs) }

/-- `is_channel_ignored`. -/
def isChannelIgnored : Bool :=
  (c.channel.lookup (toAsciiLowercase channelLogin)).any (·.ignoredAtMs.isSome)

/-- `get_ignored_channels`. -/
def getIgnoredChannels : List String :=
  (c.channel.rows.filter (·.ignoredAtMs.isSome)).map (·.channelLogin)

/-! ### Coverage -/

/-- `invalidate_channel_coverage`. -/
def invalidateChannelCoverage : ControlStore := c.dropCoverage (toAsciiLowercase channelLogin)

/-- `discard_live_coverage`. -/
def discardLiveCoverage : ControlStore :=
  { c with liveCoverage := c.liveCoverage.erase (toAsciiLowercase channelLogin) }

/-- `discard_all_live_coverage`. -/
def discardAllLiveCoverage : ControlStore := { c with liveCoverage := KeyTable.empty }

/-- `begin_live_coverage`. -/
def beginLiveCoverage (source : String) (startedAtMs : ℤ) : ControlStore :=
  { c with liveCoverage := c.liveCoverage.put ⟨toAsciiLowercase channelLogin, source, startedAtMs⟩ }

/-- `INSERT INTO coverage_interval`. -/
def insertCoverage (row : CoverageRow) : Except StorageError ControlStore :=
  match c.coverageInterval.insert? row with
  | none => .error (.sqlite "UNIQUE constraint failed: coverage_interval")
  | some coverageInterval => .ok { c with coverageInterval }

/-- `end_live_coverage`; an error rolls back. -/
def endLiveCoverage (endedAtMs : ℤ) : Except StorageError ControlStore :=
  let login := toAsciiLowercase channelLogin
  let ended := { c with liveCoverage := c.liveCoverage.erase login }
  match c.liveCoverage.lookup login with
  | none => .ok ended
  | some active =>
    if active.startedAtMs ≤ endedAtMs then
      ended.insertCoverage ⟨login, active.source, active.startedAtMs, endedAtMs⟩
    else .ok ended

/-- `close_all_live_coverage`; an error rolls back. -/
def closeAllLiveCoverage (endedAtMs : ℤ) : Except StorageError ControlStore := do
  let closed ← (c.liveCoverage.rows.filter (·.startedAtMs ≤ endedAtMs)).foldlM
    (fun c active =>
      c.insertCoverage ⟨active.channelLogin, active.source, active.startedAtMs, endedAtMs⟩) c
  return { closed with liveCoverage := KeyTable.empty }

/-- `record_coverage_interval`. -/
def recordCoverageInterval (source : String) (startMs endMs : ℤ) :
    Except StorageError ControlStore :=
  if endMs < startMs then
    .error (.invalidCoverageInterval startMs endMs)
  else
    .ok { c with
      coverageInterval :=
        c.coverageInterval.insertIgnore ⟨toAsciiLowercase channelLogin, source, startMs, endMs⟩ }

/-- `prune_coverage_ended_before`. -/
def pruneCoverageEndedBefore (cutoffMs : ℤ) : ControlStore :=
  { c with coverageInterval := c.coverageInterval.deleteWhere (·.endMs < cutoffMs) }

/-- The rows of `channel` that `prune_inactive_channels` deletes; `alwaysJoin` lists the
channels whose flag is set. -/
def inactiveChannels (alwaysJoin : List String) (cutoffMs : ℤ) : List String :=
  (c.channel.rows.filter fun row => row.ignoredAtMs.isNone &&
    decide (row.channelLogin ∉ alwaysJoin ∧ row.lastAccessMs ≤ cutoffMs)).map (·.channelLogin)

/-- `prune_inactive_channels`. -/
def pruneInactiveChannels (alwaysJoin : List String) (cutoffMs : ℤ) : ControlStore :=
  let candidates := c.inactiveChannels alwaysJoin cutoffMs
  { channel := c.channel.deleteWhere (·.channelLogin ∈ candidates)
    coverageInterval := c.coverageInterval.deleteWhere (·.channelLogin ∈ candidates)
    liveCoverage := c.liveCoverage.deleteWhere (·.channelLogin ∈ candidates) }

/-- `get_coverage_intervals`. -/
def getCoverageIntervals (throughMs : ℤ) : List CoverageInterval :=
  let login := toAsciiLowercase channelLogin
  sortByKey CoverageInterval.bounds <|
    (c.coverageInterval.rows.filter (·.channelLogin = login)).map CoverageRow.interval ++
      (c.liveCoverage.rows.filter fun row =>
        row.channelLogin = login && decide (row.startedAtMs ≤ throughMs)).map
          fun row => row.interval throughMs

end ControlStore

/-- A call on the control store. -/
inductive ControlCall
  | setChannelIgnored (channelLogin : String) (ignored : Bool) (nowMs : ℤ)
  | invalidateChannelCoverage (channelLogin : String)
  | discardLiveCoverage (channelLogin : String)
  | discardAllLiveCoverage
  | beginLiveCoverage (channelLogin source : String) (startedAtMs : ℤ)
  | endLiveCoverage (channelLogin : String) (endedAtMs : ℤ)
  | closeAllLiveCoverage (endedAtMs : ℤ)
  | recordCoverageInterval (channelLogin source : String) (startMs endMs : ℤ)
  | touchOrAddChannel (channelLogin : String) (nowMs : ℤ)
  | pruneCoverageEndedBefore (cutoffMs : ℤ)
  | pruneInactiveChannels (alwaysJoin : List String) (cutoffMs : ℤ)
  deriving DecidableEq

/-- The control store after a call; a failed transaction changes nothing. -/
def ControlStore.call (c : ControlStore) : ControlCall → ControlStore
  | .setChannelIgnored channelLogin ignored nowMs => c.setChannelIgnored channelLogin ignored nowMs
  | .invalidateChannelCoverage channelLogin => c.invalidateChannelCoverage channelLogin
  | .discardLiveCoverage channelLogin => c.discardLiveCoverage channelLogin
  | .discardAllLiveCoverage => c.discardAllLiveCoverage
  | .beginLiveCoverage channelLogin source startedAtMs =>
    c.beginLiveCoverage channelLogin source startedAtMs
  | .endLiveCoverage channelLogin endedAtMs =>
    match c.endLiveCoverage channelLogin endedAtMs with
    | .ok c' => c'
    | .error _ => c
  | .closeAllLiveCoverage endedAtMs =>
    match c.closeAllLiveCoverage endedAtMs with
    | .ok c' => c'
    | .error _ => c
  | .recordCoverageInterval channelLogin source startMs endMs =>
    match c.recordCoverageInterval channelLogin source startMs endMs with
    | .ok c' => c'
    | .error _ => c
  | .touchOrAddChannel channelLogin nowMs => c.touchOrAddChannel channelLogin nowMs
  | .pruneCoverageEndedBefore cutoffMs => c.pruneCoverageEndedBefore cutoffMs
  | .pruneInactiveChannels alwaysJoin cutoffMs => c.pruneInactiveChannels alwaysJoin cutoffMs

/-! ### The intervals that are stored -/

/-- The interval that ends live coverage. -/
def LiveCoverage.ended (live : LiveCoverage) (endedAtMs : ℤ) : CoverageRow :=
  ⟨live.channelLogin, live.source, live.startedAtMs, endedAtMs⟩

namespace ControlStore

variable {c c' : ControlStore} {channelLogin : String} {endedAtMs : ℤ} {row : CoverageRow}

theorem insertCoverage_eq_ok (h : c.insertCoverage row = .ok c') :
    row ∉ c.coverageInterval.rows ∧ c'.coverageInterval.rows = c.coverageInterval.rows ++ [row] ∧
      c'.liveCoverage = c.liveCoverage := by
  unfold insertCoverage at h
  split at h <;> cases h
  rename_i table hinsert
  obtain ⟨hnone, hrows⟩ := KeyTable.insert?_eq_some.mp hinsert
  exact ⟨fun hmem => KeyTable.lookup_eq_none.mp hnone row hmem rfl, hrows, rfl⟩

/-- The live coverage of a channel, as the interval that `end_live_coverage` stores. -/
def endedCoverage (c : ControlStore) (channelLogin : String) (endedAtMs : ℤ) : List CoverageRow :=
  ((c.liveCoverage.lookup (toAsciiLowercase channelLogin)).toList.filter
    (·.startedAtMs ≤ endedAtMs)).map (·.ended endedAtMs)

/-- All live coverage, as the intervals that `close_all_live_coverage` stores. -/
def closedCoverage (c : ControlStore) (endedAtMs : ℤ) : List CoverageRow :=
  (c.liveCoverage.rows.filter (·.startedAtMs ≤ endedAtMs)).map (·.ended endedAtMs)

theorem mem_endLiveCoverage
    (h : row ∈ (c.call (.endLiveCoverage channelLogin endedAtMs)).coverageInterval.rows) :
    row ∈ c.coverageInterval.rows ∨ row ∈ c.endedCoverage channelLogin endedAtMs := by
  simp only [call] at h
  split at h
  · rename_i c' hend
    unfold endLiveCoverage at hend
    dsimp only at hend
    split at hend
    · cases hend
      exact .inl h
    · rename_i live hlive
      split at hend
      · rename_i hstarted
        rw [(insertCoverage_eq_ok hend).2.1] at h
        rcases List.mem_append.mp h with h | h
        · exact .inl h
        · right
          rw [List.mem_singleton.mp h, ← KeyTable.key_of_lookup hlive]
          simp [endedCoverage, hlive, hstarted, LiveCoverage.ended]
      · cases hend
        exact .inl h
  · exact .inl h

/-- The loop of `close_all_live_coverage`: every row is new. -/
theorem foldlM_insertCoverage {live : List LiveCoverage}
    (h : live.foldlM (fun c active =>
      c.insertCoverage ⟨active.channelLogin, active.source, active.startedAtMs, endedAtMs⟩) c =
        .ok c') :
    c'.coverageInterval.rows = c.coverageInterval.rows ++ live.map (·.ended endedAtMs) ∧
      ∀ active ∈ live, active.ended endedAtMs ∉ c.coverageInterval.rows := by
  induction live generalizing c with
  | nil =>
    cases h
    exact ⟨(List.append_nil _).symm, nofun⟩
  | cons active live ih =>
    rw [List.foldlM_cons, Except.bind_eq_ok] at h
    obtain ⟨c₁, hinsert, h⟩ := h
    obtain ⟨hnew, hrows, -⟩ := insertCoverage_eq_ok hinsert
    obtain ⟨hrest, hfresh⟩ := ih h
    rw [hrows] at hrest hfresh
    refine ⟨by simpa [LiveCoverage.ended] using hrest, ?_⟩
    intro more hmore
    rcases List.mem_cons.mp hmore with rfl | hmore
    · exact hnew
    · exact fun hold => hfresh more hmore (List.mem_append_left _ hold)

theorem mem_closeAllLiveCoverage
    (h : row ∈ (c.call (.closeAllLiveCoverage endedAtMs)).coverageInterval.rows) :
    row ∈ c.coverageInterval.rows ∨ row ∈ c.closedCoverage endedAtMs ∧
      ∀ closed ∈ c.closedCoverage endedAtMs, closed ∉ c.coverageInterval.rows := by
  simp only [call] at h
  split at h
  · rename_i c' hclose
    obtain ⟨c₁, hloop, hclose⟩ := Except.bind_eq_ok.mp hclose
    cases hclose
    obtain ⟨hrows, hfresh⟩ := foldlM_insertCoverage hloop
    change row ∈ c₁.coverageInterval.rows at h
    rw [hrows] at h
    refine (List.mem_append.mp h).imp_right fun hclosed => ⟨hclosed, ?_⟩
    intro closed hmem
    obtain ⟨active, hactive, rfl⟩ := List.mem_map.mp hmem
    exact hfresh active hactive
  · exact .inl h

end ControlStore

end RecentMessages
