/-
RecentMessages/Web/Peer.lean

Repair from an owned peer (`peer.rs`, and the part of `get_recent_messages` that uses
it).

A node whose coverage does not suffice asks a peer for the newest records of the
request's window, and is told the peer's coverage of the whole channel.  It appends the
records to its sealed store and records the coverage as its own.  What it has recorded
then holds true only if it now has all that the peer has within these intervals, in
the window or not (`imported_coverage_sound`); otherwise a request with another window
is answered from coverage that the node cannot live up to (`import_misses`).  What a
repair brings is told by the window and the limit of the request (`letsIn_iff`).
-/
import RecentMessages.Web.Completeness

namespace RecentMessages

open CanonicalRecord

/-- What a peer answers to a local read. -/
structure PeerLocalResponse where
  records : List CanonicalRecord
  coverage : List CoverageInterval
  oldestRetainedAtMs : Option ℤ
  newestRetainedAtMs : Option ℤ
  deriving DecidableEq, Repr

/-- Errors of a local read. -/
inductive LocalReadError
  | channelIgnored (channelLogin : String)
  | getLocalMessages (error : StoreError)
  deriving DecidableEq, Repr

/-- A response around its records. -/
def PeerLocalResponse.of (records : List CanonicalRecord) (coverage : List CoverageInterval) :
    PeerLocalResponse :=
  ⟨records, coverage, records.head?.map (·.receivedAtMs), records.getLast?.map (·.receivedAtMs)⟩

/-- The checks of `fetch_one_local` on the reply of a peer. -/
def fetchOneLocal (channel : String) (limit : ℕ)
    (reply : Except LocalReadError PeerLocalResponse) : Option PeerLocalResponse :=
  match reply with
  | .error _ => none
  | .ok result =>
    if limit < result.records.length ∨
        ∃ r ∈ result.records, toAsciiLowercase r.channelKey ≠ toAsciiLowercase channel then
      none
    else some result

/-- The loop of `fetch_local` over the replies, in the order in which they arrive. -/
def accumulate (limit : ℕ) (accumulated : Option PeerLocalResponse) (result : PeerLocalResponse) :
    Option PeerLocalResponse :=
  match accumulated with
  | none => some result
  | some previous => some <| .of (mergeRecords previous.records result.records limit)
      (mergeIntervals (previous.coverage ++ result.coverage))

/-- `fetch_local`; without a successful reply it fails. -/
def fetchLocal (replies : List (Option PeerLocalResponse)) (limit : ℕ) :
    Option PeerLocalResponse :=
  (replies.filterMap id).foldl (accumulate limit) none

/-- `should_attempt_repair`. -/
def shouldAttemptRepair (assessment : CoverageAssessment) (coverage : List CoverageInterval)
    (recordCount requestedLimit : ℕ) : Bool :=
  !assessment.sufficient && (decide (recordCount < requestedLimit) || coverage.any fun interval =>
    decide (assessment.requiredStartMs ≤ interval.endMs ∧
      interval.startMs ≤ assessment.requiredEndMs))

/-- The options that a peer is asked with. -/
def fetchOptions (options : GetRecentMessagesQueryOptions) (requestSnapshotMs : ℤ)
    (limit : ℕ) : GetRecentMessagesQueryOptions :=
  { storageOptions options requestSnapshotMs with limit := some limit }

/-- The row that records an interval of a peer. -/
def ownedPeerRow (channelLogin : String) (interval : CoverageInterval) : CoverageRow :=
  ⟨toAsciiLowercase channelLogin, "owned-peer:" ++ interval.source, interval.startMs,
    interval.endMs⟩

/-- Record the coverage of a peer; an interval that is refused is skipped. -/
def ControlStore.recordOwnedPeer (c : ControlStore) (channelLogin : String)
    (coverage : List CoverageInterval) : ControlStore :=
  coverage.foldl (fun c interval => c.call (.recordCoverageInterval channelLogin
    ("owned-peer:" ++ interval.source) interval.startMs interval.endMs)) c

namespace Node

variable {β : Type}

/-- `get_local_recent` of a peer at rest. -/
def getLocalRecent (cfg : Settings β) (peer : Node β) (channelLogin : String)
    (options : GetRecentMessagesQueryOptions) (maxBufferSize : ℕ) (nowMs : ℤ) :
    Except LocalReadError PeerLocalResponse :=
  if peer.control.isChannelIgnored channelLogin then
    .error (.channelIgnored channelLogin)
  else if requestedLimit options maxBufferSize = 0 then
    .ok (.of [] [])
  else do
    let records ← (read cfg peer peer channelLogin options maxBufferSize).mapError .getLocalMessages
    return .of records (peer.control.getCoverageIntervals channelLogin nowMs)

/-- Append the records of a peer and record its coverage; nothing is recorded if the
append fails. -/
def persistPeerResult (cfg : Settings β) (n : Node β) (channelLogin : String)
    (fetched : PeerLocalResponse) : Option (Node β) :=
  if fetched.records = [] then
    some { n with control := n.control.recordOwnedPeer channelLogin fetched.coverage }
  else
    match n.ingest.db.appendBatch cfg.codec cfg.store fetched.records with
    | .error _ => none
    | .ok db =>
      some { n.withStore db with
        control := n.control.recordOwnedPeer channelLogin fetched.coverage }

end Node

/-- A node after it was repaired from a peer, and the answer it goes on with. -/
structure PeerRepaired (β : Type) where
  node : Node β
  fetched : PeerLocalResponse
  records : List CanonicalRecord
  assessment : CoverageAssessment

namespace Node

variable {β : Type}

/-- `get_recent_messages` up to the assessment after the repair from a peer, of a node and
a peer at rest.  There is a result if the peer is asked and answers. -/
def repairFromPeer (cfg cfgPeer : Settings β) (n peer : Node β) (channelLogin : String)
    (options : GetRecentMessagesQueryOptions) (maxBufferSize maxPeerBufferSize : ℕ)
    (requestSnapshotMs retentionMs peerNowMs : ℤ) : Option (PeerRepaired β) :=
  match assessedRead cfg n n n channelLogin options maxBufferSize requestSnapshotMs retentionMs with
  | .error _ => none
  | .ok (records, assessment) =>
    let coverage := n.control.getCoverageIntervals channelLogin requestSnapshotMs
    let limit := requestedLimit options maxBufferSize
    if n.control.isChannelIgnored channelLogin = false ∧
        shouldAttemptRepair assessment coverage records.length limit = true then
      (fetchLocal [fetchOneLocal channelLogin maxBufferSize (peer.getLocalRecent cfgPeer
        channelLogin (fetchOptions options requestSnapshotMs maxBufferSize) maxPeerBufferSize
          peerNowMs)] maxBufferSize).map fun fetched =>
        let merged := mergeRecords records fetched.records limit
        { node := (n.persistPeerResult cfg channelLogin fetched).getD n
          fetched
          records := merged
          assessment := assessCoverage merged (mergeIntervals (coverage ++ fetched.coverage))
            (coverageRequest options maxBufferSize requestSnapshotMs retentionMs) }
    else none

/-! ### What is recorded -/

variable {cfg cfgPeer : Settings β} {n n' peer : Node β} {channelLogin : String}
variable {options : GetRecentMessagesQueryOptions} {maxBufferSize maxPeerBufferSize : ℕ}
variable {requestSnapshotMs retentionMs peerNowMs : ℤ} {fetched : PeerLocalResponse}

/-- Recording an interval keeps the rows there are. -/
theorem mem_recordCoverage {c : ControlStore} {source : String} {startMs endMs : ℤ}
    {row : CoverageRow} (h : row ∈ c.coverageInterval.rows) :
    row ∈ (c.call (.recordCoverageInterval channelLogin source startMs
      endMs)).coverageInterval.rows := by
  rw [ControlStore.call, ControlStore.recordCoverageInterval]
  by_cases hlt : endMs < startMs
  · rw [if_pos hlt]
    exact h
  · rw [if_neg hlt]
    exact KeyTable.mem_insertIgnore.mpr (.inl h)

/-- An interval that is not empty is recorded. -/
theorem mem_recordCoverage_self {c : ControlStore} {source : String} {startMs endMs : ℤ}
    (hle : startMs ≤ endMs) :
    (⟨toAsciiLowercase channelLogin, source, startMs, endMs⟩ : CoverageRow) ∈
      (c.call (.recordCoverageInterval channelLogin source startMs
        endMs)).coverageInterval.rows := by
  rw [ControlStore.call, ControlStore.recordCoverageInterval, if_neg (not_lt.mpr hle)]
  refine KeyTable.mem_insertIgnore.mpr ?_
  rcases hlookup : c.coverageInterval.lookup
    (id ⟨toAsciiLowercase channelLogin, source, startMs, endMs⟩) with - | row
  · exact .inr ⟨rfl, rfl⟩
  · obtain ⟨hrow, hkey⟩ := KeyTable.lookup_eq_some.mp hlookup
    obtain rfl : row = ⟨toAsciiLowercase channelLogin, source, startMs, endMs⟩ := hkey
    exact .inl hrow

/-- **Every interval of a peer that is not empty is recorded.** -/
theorem mem_recordOwnedPeer {c : ControlStore} {coverage : List CoverageInterval}
    {interval : CoverageInterval} (h : interval ∈ coverage)
    (hle : interval.startMs ≤ interval.endMs) : ownedPeerRow channelLogin interval ∈
      (c.recordOwnedPeer channelLogin coverage).coverageInterval.rows := by
  have hkeep : ∀ (l : List CoverageInterval) (c : ControlStore) (row : CoverageRow),
      row ∈ c.coverageInterval.rows →
        row ∈ (c.recordOwnedPeer channelLogin l).coverageInterval.rows := by
    intro l
    induction l with
    | nil => exact fun c row hrow => hrow
    | cons x l ih => exact fun c row hrow => ih _ row (mem_recordCoverage hrow)
  induction coverage generalizing c with
  | nil => cases h
  | cons x coverage ih =>
    rcases List.mem_cons.mp h with rfl | h
    · exact hkeep coverage _ _ (mem_recordCoverage_self hle)
    · exact ih h

/-- **What a node holds after a repair** is what it held and what its policy lets in. -/
theorem held_persist (hn : n.Sound cfg.codec)
    (h : n.persistPeerResult cfg channelLogin fetched = some n')
    (hevicted : n'.ingest.db.evicted = n.ingest.db.evicted) (e : String × EventKey) :
    Ingest.HasEvent (n'.ingest.held cfg.codec) e ↔ Ingest.HasEvent (n.ingest.held cfg.codec) e ∨
      ∃ q ∈ fetched.records, q.event = e ∧ n.ingest.db.Passes q := by
  rw [persistPeerResult] at h
  split at h
  · -- nothing was fetched
    rename_i hnone
    cases h
    refine (or_iff_left ?_).symm
    rintro ⟨q, hq, -⟩
    rw [hnone] at hq
    cases hq
  · split at h
    · cases h
    · rename_i db happend
      cases h
      obtain ⟨gone, happended⟩ := Db.appendBatch_eq_ok hn.kept.readable happend
      -- retention has evicted nothing
      have hgone : gone = [] := by
        have hsame : n.ingest.db.evicted ++ gone = n.ingest.db.evicted :=
          happended.evicted.symm.trans hevicted
        exact List.append_right_eq_self.mp hsame
      have hsealed : Ingest.HasEvent (db.sealedRecords cfg.codec) e ↔
          Ingest.HasEvent (n.ingest.db.sealedRecords cfg.codec) e ∨
            ∃ q ∈ fetched.records, q.event = e ∧ n.ingest.db.Passes q := by
        constructor
        · rintro ⟨r, hr, rfl⟩
          rcases happended.source r hr with hr | ⟨hr, hpasses⟩
          · exact .inl ⟨r, hr, rfl⟩
          · exact .inr ⟨r, hr, rfl, hpasses⟩
        · have hkept : ∀ r, r ∈ n.ingest.db.sealedRecords cfg.codec ∨
              (r ∈ fetched.records ∧ n.ingest.db.Passes r) →
                Ingest.HasEvent (db.sealedRecords cfg.codec) r.event := by
            intro r hr
            obtain ⟨q, hqe, hq | ⟨row, hrow, -⟩⟩ := happended.kept r hr
            · exact ⟨q, hq, hqe⟩
            · rw [hgone] at hrow
              cases hrow
          rintro (⟨r, hr, rfl⟩ | ⟨r, hr, rfl, hpasses⟩)
          · exact hkept r (.inl hr)
          · exact hkept r (.inr ⟨hr, hpasses⟩)
      rw [Ingest.hasEvent_held, Ingest.hasEvent_held]
      show Ingest.HasEvent (db.sealedRecords cfg.codec) e ∨ _ ↔ _
      rw [hsealed, or_assoc, or_assoc]
      exact or_congr_right or_comm

theorem control_persist (h : n.persistPeerResult cfg channelLogin fetched = some n') :
    n'.control = n.control.recordOwnedPeer channelLogin fetched.coverage := by
  rw [persistPeerResult] at h
  split at h
  · cases h
    rfl
  · split at h
    · cases h
    · cases h
      rfl

theorem sound_persist (hn : n.Sound cfg.codec)
    (h : n.persistPeerResult cfg channelLogin fetched = some n') : n'.Sound cfg.codec := by
  rw [persistPeerResult] at h
  split at h
  · cases h
    exact ⟨hn.kept, hn.settled⟩
  · split at h
    · cases h
    · rename_i db happend
      cases h
      have hcall : n.ingest.db.call cfg.codec cfg.store (.appendChannelBatches [fetched.records]) =
          db := by
        rw [Db.call, Db.appendChannelBatches, List.foldlM_cons, happend]
        rfl
      obtain ⟨hkept, hjournal⟩ := kept_call hn (.appendChannelBatches [fetched.records])
      rw [hcall] at hkept hjournal
      exact ⟨hkept, show db.journal.Settled from hjournal ▸ hn.settled⟩

/-! ### What a repair promises -/

/-- The records that a node or a read of it can show. -/
def stored (codec : Codec β) (n : Node β) : List CanonicalRecord :=
  visible codec n.ingest.db (some n.ingest.openBlocks)

/-- The peer's read of the request's window returns a copy of the event, and the policy
of the node lets it in. -/
def LetsIn (cfgPeer : Settings β) (n peer : Node β) (channelLogin : String)
    (options : GetRecentMessagesQueryOptions) (maxPeerBufferSize : ℕ) (e : String × EventKey) :
    Prop :=
  ∃ records, read cfgPeer peer peer channelLogin options maxPeerBufferSize = .ok records ∧
    ∃ q ∈ records, q.event = e ∧ n.ingest.db.Passes q

/-- The best copies of what a read can answer with: the newest `limit` in the window of the sealed
records, and of the open ones. -/
def candidates (codec : Codec β) (n : Node β) (request : QueryRequest) : IndexedList eventKey :=
  retained (n.ingest.db.window codec request) (n.ingest.openBlocks.query request)

/-- **Which events a repair lets in**: the peer has a copy in the channel and the window, fewer than
`limit` events there are newer, and the policy of the node does not refuse it. -/
theorem letsIn_iff (hpeer : peer.Sound cfgPeer.codec) {options : GetRecentMessagesQueryOptions}
    {maxPeerBufferSize : ℕ} {e : String × EventKey} :
    LetsIn cfgPeer n peer channelLogin options maxPeerBufferSize e ↔
      ∃ q ∈ (peer.candidates cfgPeer.codec
          (readRequest channelLogin options maxPeerBufferSize)).items,
        q ∈ peer.stored cfgPeer.codec ∧ q.channelKey = toAsciiLowercase channelLogin ∧
        (readRequest channelLogin options maxPeerBufferSize).admits q = true ∧
        (peer.candidates cfgPeer.codec
          (readRequest channelLogin options maxPeerBufferSize)).items.countP
            (fun x => q.receiptOrder < x.receiptOrder) <
          requestedLimit options maxPeerBufferSize ∧
        q.event = e ∧ n.ingest.db.Passes q := by
  have hread := hpeer.kept.readable
  rw [LetsIn, read, queryLocalMessages_eq_ok hread]
  constructor
  · rintro ⟨records, hrecords, q, hq, hqe, hpasses⟩
    cases hrecords
    split at hq
    · cases hq
    · obtain ⟨hretained, hrank⟩ := mem_mergeRecords_iff.mp hq
      obtain ⟨hstored, hchannel, hadmits⟩ := mem_answers hread (mem_retained hretained)
      exact ⟨q, hretained, hstored, hchannel, hadmits, hrank, hqe, hpasses⟩
  · rintro ⟨q, hretained, -, -, -, hrank, hqe, hpasses⟩
    refine ⟨_, rfl, q, ?_, hqe, hpasses⟩
    rw [if_neg (Nat.ne_zero_of_lt hrank)]
    exact mem_mergeRecords_iff.mpr ⟨hretained, hrank⟩

/-- **What a repair fetches.** -/
theorem fetched_of_repair (hpeer : peer.Sound cfgPeer.codec) {repaired : PeerRepaired β}
    (h : repairFromPeer cfg cfgPeer n peer channelLogin options maxBufferSize maxPeerBufferSize
      requestSnapshotMs retentionMs peerNowMs = some repaired) :
    ∃ records, read cfgPeer peer peer channelLogin
        (fetchOptions options requestSnapshotMs maxBufferSize) maxPeerBufferSize = .ok records ∧
      repaired.fetched.records = records ∧
      repaired.fetched.coverage = (if requestedLimit
          (fetchOptions options requestSnapshotMs maxBufferSize) maxPeerBufferSize = 0
        then [] else peer.control.getCoverageIntervals channelLogin peerNowMs) ∧
      repaired.node = (n.persistPeerResult cfg channelLogin repaired.fetched).getD n := by
  rw [repairFromPeer] at h
  split at h
  · cases h
  · dsimp only at h
    split at h
    · obtain ⟨fetched, hfetched, rfl⟩ := Option.map_eq_some_iff.mp h
      obtain ⟨records, hread⟩ := read_eq_ok hpeer peer channelLogin
        (fetchOptions options requestSnapshotMs maxBufferSize) maxPeerBufferSize
      refine ⟨records, hread, ?_⟩
      -- one peer, so its reply is the result
      rcases hone : fetchOneLocal channelLogin maxBufferSize (peer.getLocalRecent cfgPeer
        channelLogin (fetchOptions options requestSnapshotMs maxBufferSize) maxPeerBufferSize
          peerNowMs) with - | reply
      · rw [hone] at hfetched
        cases hfetched
      · rw [hone] at hfetched
        obtain rfl : reply = fetched := Option.some.inj hfetched
        unfold fetchOneLocal at hone
        split at hone
        · cases hone
        · rename_i result hresult
          split at hone
          · cases hone
          · cases hone
            rw [getLocalRecent] at hresult
            split at hresult
            · cases hresult
            · split at hresult <;> rename_i hlimit
              · cases hresult
                rw [if_pos hlimit]
                rw [read, queryLocalMessages_eq_ok hpeer.kept.readable, if_pos hlimit] at hread
                cases hread
                exact ⟨rfl, rfl, rfl⟩
              · rw [hread] at hresult
                cases hresult
                rw [if_neg hlimit]
                exact ⟨rfl, rfl, rfl⟩
    · cases h

/-- **When imported coverage is sound.**  A request to one node makes it repair itself
from a peer; the node appends the peer's records, evicts nothing for them, and records
the peer's coverage.  Then the node has every message of the channel that the peer has
within an interval it recorded, exactly when, for each such message, it had it already, or
the peer's read of the request's window returns it and the node's policy lets it in.
Under that condition, a later request to the node that is labelled complete returns every
such message of its own window and span. -/
theorem imported_coverage_sound (cfg cfgPeer : Settings β) (actions peerActions : List NodeAction)
    (channelLogin : String) (options : GetRecentMessagesQueryOptions)
    (maxBufferSize maxPeerBufferSize : ℕ) (requestSnapshotMs retentionMs peerNowMs : ℤ)
    (repaired : PeerRepaired β)
    (hrepair : repairFromPeer cfg cfgPeer (run cfg actions) (run cfgPeer peerActions) channelLogin
      options maxBufferSize maxPeerBufferSize requestSnapshotMs retentionMs peerNowMs =
        some repaired)
    (happended : ((run cfg actions).persistPeerResult cfg channelLogin repaired.fetched).isSome =
      true)
    (hevicted : repaired.node.ingest.db.evicted = (run cfg actions).ingest.db.evicted) :
    ((∀ interval ∈ repaired.fetched.coverage,
        ownedPeerRow channelLogin interval ∈ repaired.node.control.coverageInterval.rows →
        ∀ m ∈ (run cfgPeer peerActions).stored cfgPeer.codec,
          m.channelKey = toAsciiLowercase channelLogin → interval.Covers m.receivedAtMs →
            Ingest.HasEvent (repaired.node.ingest.held cfg.codec) m.event) ↔
      (requestedLimit (fetchOptions options requestSnapshotMs maxBufferSize) maxPeerBufferSize ≠ 0 →
        ∀ m ∈ (run cfgPeer peerActions).stored cfgPeer.codec,
          m.channelKey = toAsciiLowercase channelLogin →
          IsCovered ((run cfgPeer peerActions).control.getCoverageIntervals channelLogin peerNowMs)
            m.receivedAtMs →
          Ingest.HasEvent ((run cfg actions).ingest.held cfg.codec) m.event ∨
            LetsIn cfgPeer (run cfg actions) (run cfgPeer peerActions) channelLogin
              (fetchOptions options requestSnapshotMs maxBufferSize) maxPeerBufferSize m.event)) ∧
    ∀ m, Ingest.HasEvent (repaired.node.ingest.held cfg.codec) m.event →
      m.channelKey = toAsciiLowercase channelLogin →
      Settled cfg.codec m.event repaired.node repaired.node →
      ∀ (later : GetRecentMessagesQueryOptions) (laterMs : ℤ),
        Unhidden cfg.codec repaired.node.ingest.db repaired.node.ingest.openBlocks
          (readRequest channelLogin (storageOptions later laterMs) maxBufferSize) m →
        (m.receivedAtMs = (coverageRequest later maxBufferSize laterMs retentionMs).requiredEndMs →
          requestedLimit later maxBufferSize ≠ 0) →
        ∀ records assessment, assessedRead cfg repaired.node repaired.node repaired.node
            channelLogin later maxBufferSize laterMs retentionMs = .ok (records, assessment) →
          assessment.sufficient = true →
          (readRequest channelLogin later maxBufferSize).admits m = true →
          assessment.requiredStartMs ≤ m.receivedAtMs →
          m.receivedAtMs ≤ assessment.requiredEndMs → m.event ∈ records.map event := by
  have hsound := sound_run cfg actions
  obtain ⟨records, hread, hrecords, hcoverage, hnode⟩ :=
    fetched_of_repair (sound_run cfgPeer peerActions) hrepair
  have hpersisted : (run cfg actions).persistPeerResult cfg channelLogin repaired.fetched =
      some repaired.node := by
    obtain ⟨n', hn'⟩ := Option.isSome_iff_exists.mp happended
    rw [hn', Option.getD_some] at hnode
    rw [hn', hnode]
  have hheld := held_persist hsound hpersisted hevicted
  have hletsIn : ∀ e, LetsIn cfgPeer (run cfg actions) (run cfgPeer peerActions) channelLogin
      (fetchOptions options requestSnapshotMs maxBufferSize) maxPeerBufferSize e ↔
        ∃ q ∈ repaired.fetched.records, q.event = e ∧ (run cfg actions).ingest.db.Passes q := by
    intro e
    rw [hrecords]
    constructor
    · rintro ⟨records', hread', hq⟩
      cases hread.symm.trans hread'
      exact hq
    · exact fun hq => ⟨records, hread, hq⟩
  constructor
  · simp only [hheld, hletsIn]
    constructor
    · -- the intervals of the peer are the fetched ones, and each becomes a row
      rintro h hlimit m hm hchannel ⟨interval, hinterval, hcovers⟩
      rw [if_neg hlimit] at hcoverage
      rw [← hcoverage] at hinterval
      refine h interval hinterval ?_ m hm hchannel hcovers
      rw [show repaired.node.control = _ from control_persist hpersisted]
      exact mem_recordOwnedPeer hinterval (hcovers.1.trans hcovers.2)
    · rintro h interval hinterval - m hm hchannel hcovers
      rw [hcoverage] at hinterval
      split at hinterval
      · cases hinterval
      · rename_i hlimit
        exact h hlimit m hm hchannel ⟨interval, hinterval, hcovers⟩
  · rintro m hm hchannel hsettled later laterMs hunhidden hlast records assessment hread -
      hadmits hfrom hto
    obtain ⟨q, hq, hqe⟩ := visible_of_settled hsettled (.inl hm)
    obtain ⟨records', hread', hassess⟩ := Except.bind_eq_ok.mp hread
    cases hassess
    rw [requiredEndMs_assess] at hto
    exact returned_in_span (sound_persist hsound hpersisted) _ hread' hchannel hunhidden hq hqe
      hadmits hlast hfrom hto

/-! ### Coverage without its messages -/

/-- A process that has accepted nothing. -/
def idleActions : List NodeAction := [.start 5 [], .ingest .advance]

def afterOptions (afterMs : ℤ) : GetRecentMessagesQueryOptions := ⟨none, none, some afterMs⟩

/-- A node without records repairs itself from a peer that has two. -/
def sampleRepair (afterMs : ℤ) : Option (PeerRepaired Plain) :=
  repairFromPeer .plain .plain (run .plain idleActions) (run .plain coveredActions) "Quiet"
    (afterOptions afterMs) 800 800 100 1000 100

theorem isSome_sampleRepair :
    (sampleRepair 0).isSome = true ∧ (sampleRepair 1).isSome = true := by
  decide +kernel

theorem imported_coverage_sound_sample : ∃ repaired, sampleRepair 0 = some repaired ∧
    ∀ interval ∈ repaired.fetched.coverage,
      ownedPeerRow "Quiet" interval ∈ repaired.node.control.coverageInterval.rows →
      ∀ m ∈ (run .plain coveredActions).stored Settings.plain.codec,
        m.channelKey = toAsciiLowercase "Quiet" → interval.Covers m.receivedAtMs →
          Ingest.HasEvent (repaired.node.ingest.held Settings.plain.codec) m.event := by
  have hrepair := (Option.some_get isSome_sampleRepair.1).symm
  have happended : ((run .plain idleActions).persistPeerResult .plain "Quiet"
      ((sampleRepair 0).get isSome_sampleRepair.1).fetched).isSome = true := by decide +kernel
  have hevicted : ((sampleRepair 0).get isSome_sampleRepair.1).node.ingest.db.evicted =
      (run .plain idleActions).ingest.db.evicted := by decide +kernel
  obtain ⟨hsound, -⟩ := imported_coverage_sound .plain .plain idleActions coveredActions "Quiet"
    (afterOptions 0) 800 800 100 1000 100 _ hrepair happended hevicted
  refine ⟨_, hrepair, hsound.mpr fun _ m hm _ _ => .inr ?_⟩
  -- the peer returns all that it has, and nothing is blocked or purged
  have hread : read .plain (run .plain coveredActions) (run .plain coveredActions) "Quiet"
      (fetchOptions (afterOptions 0) 100 800) 800 = .ok Ingest.firstBatch.records := by
    decide +kernel
  have hall : ∀ m ∈ (run .plain coveredActions).stored Settings.plain.codec,
      m ∈ Ingest.firstBatch.records ∧
        (run .plain idleActions).ingest.db.blocked m.channelKey = false ∧
          (run .plain idleActions).ingest.db.purgeCutoff m.channelKey = none := by
    decide +kernel
  obtain ⟨hmem, hblocked, hcutoff⟩ := hall m hm
  refine ⟨_, hread, m, hmem, rfl, hblocked, fun cutoff hc => ?_⟩
  rw [hcutoff] at hc
  cases hc

/-- If a peer has every message that it knows of within its coverage, then after a repair
from it a node has every message of the peer within the coverage that it recorded. -/
def ImportedCoverageSound (cfg cfgPeer : Settings β) : Prop :=
  ∀ (actions peerActions : List NodeAction) (channelLogin : String)
    (options : GetRecentMessagesQueryOptions) (maxBufferSize maxPeerBufferSize : ℕ)
    (requestSnapshotMs retentionMs peerNowMs : ℤ) (known : List CanonicalRecord)
    (repaired : PeerRepaired β),
    (∀ m ∈ known, m.channelKey = toAsciiLowercase channelLogin →
      IsCovered ((run cfgPeer peerActions).control.getCoverageIntervals channelLogin peerNowMs)
        m.receivedAtMs →
      Ingest.HasEvent ((run cfgPeer peerActions).stored cfgPeer.codec) m.event) →
    repairFromPeer cfg cfgPeer (run cfg actions) (run cfgPeer peerActions) channelLogin options
      maxBufferSize maxPeerBufferSize requestSnapshotMs retentionMs peerNowMs = some repaired →
    ((run cfg actions).persistPeerResult cfg channelLogin repaired.fetched).isSome = true →
    repaired.node.ingest.db.evicted = (run cfg actions).ingest.db.evicted →
    ∀ interval ∈ repaired.fetched.coverage,
      ownedPeerRow channelLogin interval ∈ repaired.node.control.coverageInterval.rows →
      ∀ m ∈ (run cfgPeer peerActions).stored cfgPeer.codec,
        m.channelKey = toAsciiLowercase channelLogin → interval.Covers m.receivedAtMs →
          Ingest.HasEvent (repaired.node.ingest.held cfg.codec) m.event

/-- **A repair records coverage without its messages**: the peer has messages received at
1 and 2 and covers 0 to 100; a request for what was received after 1 imports the second
message, and all of the coverage. -/
theorem import_misses : ¬ ImportedCoverageSound .plain .plain := by
  intro h
  have hknown : ∀ m ∈ Ingest.firstBatch.records,
      Ingest.HasEvent ((run .plain coveredActions).stored Settings.plain.codec) m.event := by
    decide +kernel
  have hheld := h idleActions coveredActions "Quiet" (afterOptions 1) 800 800 100 1000 100
    Ingest.firstBatch.records ((sampleRepair 1).get isSome_sampleRepair.2)
    (fun m hm _ _ => hknown m hm) (Option.some_get isSome_sampleRepair.2).symm
    (by decide +kernel) (by decide +kernel) ⟨0, 100, "direct-irc"⟩ (by decide +kernel)
    (by decide +kernel) (Ingest.sampleRecord "irc" 1) (by decide +kernel) (by decide +kernel)
    (by decide)
  exact absurd hheld (by decide +kernel)

end Node

end RecentMessages
