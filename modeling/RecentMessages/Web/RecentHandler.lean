/-
RecentMessages/Web/RecentHandler.lean

The whole of `get_recent_messages` (`web/get_recent_messages.rs`), from its headers to its
response.

The handler reads its own store; where its coverage does not suffice it asks all peers, keeps what
they answer and merges it; and where that does not suffice either it starts or joins a repair, and
reads its own store again if there is progress.  Every access finds the node in a state of its own,
and the peers answer in any order, or not at all.

* `Answers` — what a list of records must be to answer a request: of its channel and in its window,
  not longer than its limit, each event once, in the order of receipt;
* `response_answers_request` — every response is such a list, and nothing that was received before
  the cutoff of the policy is in it or is taken over from a peer.
-/
import RecentMessages.Control.RepairCheckpoints
import RecentMessages.Storage.RawIrc
import RecentMessages.Web.MessageExport
import RecentMessages.Web.Peer
import RecentMessages.Web.Serving

namespace RecentMessages

open CanonicalRecord

/-! ### Options and headers -/

/-- `Utc.timestamp_millis_opt(..).single()`: a `DateTime` ends with the year 262142. -/
def timestampMillisOpt (ms : ℤ) : Option ℤ :=
  if -8334601228800000 ≤ ms ∧ ms ≤ 8210266876799999 then some ms else none

/-- `storage_options` under a policy, before the window is closed at the snapshot. -/
def policyOptions (policy : Option ChannelPolicy) (options : GetRecentMessagesQueryOptions) :
    GetRecentMessagesQueryOptions :=
  match policy with
  | none => options
  | some policy =>
    if 0 < policy.purgeMs ∧ options.after.all (· < policy.purgeMs) then
      { options with after := timestampMillisOpt policy.purgeMs }
    else options

/-- `HeaderValue::to_str`. -/
def headerToStr (value : List UInt8) : Option String :=
  if value.all fun byte => byte = 9 || (32 ≤ byte && byte < 127) then
    some (String.ofList (value.map fun byte => Char.ofNat byte.toNat))
  else none

/-- `str::parse::<u8>`. -/
def parseU8 (s : String) : Option ℕ :=
  (match s.toList with
    | '+' :: digits => parseDigits digits
    | digits => parseDigits digits).filter (· ≤ 255)

/-- The headers `x-rm-hop` and `x-rm-no-peer`. -/
structure PeerHeaders where
  hop : Option (List UInt8)
  noPeer : Option (List UInt8)
  deriving DecidableEq, Repr

/-- The errors of `get_recent_messages`. -/
inductive RecentError
  | invalidPath
  | invalidQuery
  | invalidChannelLogin
  | serviceOverloaded
  | getChannelIgnored
  | channelIgnored (channelLogin : String)
  | getLocalMessages (error : StoreError)
  | getCoverage
  | invalidPeerHop
  deriving DecidableEq, Repr

/-- `allows_peer_fetch`. -/
def allowsPeerFetch (headers : PeerHeaders) : Except RecentError Bool :=
  if headers.noPeer = some (asBytes "1") then .ok false
  else
    match headers.hop with
    | none => .ok true
    | some value =>
      match (headerToStr value).bind parseU8 with
      | none => .error .invalidPeerHop
      | some hop => if 1 < hop then .error .invalidPeerHop else .ok (hop = 0)

/-- The request of `get_local_recent` under the policy of the peer. -/
def peerOptions (policy : Option ChannelPolicy) (options : GetRecentMessagesQueryOptions) :
    GetRecentMessagesQueryOptions :=
  { options with
    after :=
      match options.after, (policy.map (·.purgeMs)).filter (0 < ·) with
      | some a, some b => some (max a b)
      | a, b => a.or b }

/-! ### The handler -/

/-- What the handler is set up with. -/
structure RecentEnv (β : Type) where
  settings : Settings β
  irc : TwitchIrc
  /-- `twitch_irc::validate::validate_login` succeeds. -/
  validateLogin : String → Bool
  maxBufferSize : ℕ
  /-- `message_ttl`, in milliseconds. -/
  messageTtl : ℕ
  handoffGrace : ℕ
  /-- There is a peer client. -/
  peerClient : Bool
  /-- There is a repair coordinator. -/
  repairCoordinator : Bool

/-- An access to the control store, which may fail. -/
inductive ControlAccess
  | isChannelIgnored
  | getCoverageIntervals
  | getRepairCheckpoints
  | getRepairCheckpointsAgain
  deriving DecidableEq

/-- What one request meets. -/
structure RecentVisits (β : Type) where
  fails : ControlAccess → Bool
  /-- A permit is free, or there is no limit. -/
  admitted : Bool
  atIgnored : Node β
  atSealed : Node β
  atOpen : Node β
  atCoverage : Node β
  repairCheckpoints : RepairCheckpoints
  /-- The answers of the peers to a local read, in the order in which they arrive. -/
  replies : GetRecentMessagesQueryOptions → List (Option (Except LocalReadError PeerLocalResponse))
  atPersist : Node β
  /-- `wait_foreground` ends with progress. -/
  progress : Bool
  atSealedAgain : Node β
  atOpenAgain : Node β
  repairCheckpointsAgain : RepairCheckpoints
  nowAgainMs : ℤ
  joinConfirmed : Bool

/-- A request after the extractors; `none` if they reject the path or the query. -/
structure RecentCall where
  channelLogin : Option String
  options : Option (GetRecentMessagesQueryOptions × ExportOptions)
  headers : PeerHeaders
  policy : Option ChannelPolicy
  requestSnapshotMs : ℤ

/-- The answer so far. -/
structure RecentView where
  records : List CanonicalRecord
  coverage : List CoverageInterval
  assessment : CoverageAssessment
  repairState : RepairState

/-- A call of `start_or_attach`. -/
structure RepairStart where
  channelLogin : String
  options : GetRecentMessagesQueryOptions
  limit : ℕ
  requestedStartMs : ℤ
  requestedEndMs : ℤ
  deriving DecidableEq, Repr

structure RecentResponse where
  /-- History: the records that are exported. -/
  records : List CanonicalRecord
  /-- `x-rm-coverage`. -/
  coverage : String
  messages : List String
  /-- `error` and `error_code`. -/
  error : Option (String × String)
  deriving DecidableEq, Repr

/-- The tasks that a request spawns: `join_if_needed`, and `touch_channel_requested`. -/
structure RecentBackground where
  joins : String
  channelKey : String
  requestedAtMs : ℕ
  coalesceBeforeMs : ℕ
  deriving DecidableEq, Repr

/-- What a request did, and its result. -/
structure RecentRun (β : Type) where
  spawned : Option RecentBackground
  /-- What the peers were asked. -/
  asked : Option GetRecentMessagesQueryOptions
  /-- The records of the peers, which are appended to the store. -/
  taken : List CanonicalRecord
  /-- The node after that, if it was stored. -/
  persisted : Option (Node β)
  started : Option RepairStart
  result : Except RecentError RecentResponse

/-- A repair may help. -/
def RecentEnv.wantsRepair {β : Type} (env : RecentEnv β) (options : GetRecentMessagesQueryOptions)
    (view : RecentView) : Bool :=
  shouldAttemptRepair view.assessment view.coverage view.records.length
    (requestedLimit options env.maxBufferSize)

/-- `export_canonical_records`. -/
def exportCanonicalRecords (irc : TwitchIrc) (records : List CanonicalRecord)
    (options : ExportOptions) : List String :=
  exportStoredMessages irc (records.filterMap fun record => do
    let timeReceived ← timestampMillisOpt record.receivedAtMs
    let messageSource ← String.fromUTF8? ⟨record.rawIrc.toArray⟩
    return ⟨timeReceived, messageSource⟩) options

namespace RecentCall

variable {β : Type} (env : RecentEnv β) (visits : RecentVisits β) (call : RecentCall)

/-- `storage_options`. -/
def storageOptions (options : GetRecentMessagesQueryOptions) : GetRecentMessagesQueryOptions :=
  RecentMessages.storageOptions (policyOptions call.policy options) call.requestSnapshotMs

/-- `coverage_request`. -/
def coverageRequest (options : GetRecentMessagesQueryOptions) : CoverageRequest :=
  RecentMessages.coverageRequest options env.maxBufferSize call.requestSnapshotMs
    (min env.messageTtl i64Max)

/-- Assess what is known. -/
def assess (options : GetRecentMessagesQueryOptions) (checkpoints : List RepairCheckpoint)
    (nowMs : ℤ) (records : List CanonicalRecord) (coverage : List CoverageInterval) : RecentView :=
  let assessment := assessCoverage records coverage (call.coverageRequest env options)
  ⟨records, coverage, assessment,
    assessRepairState checkpoints assessment coverage nowMs env.handoffGrace⟩

/-- The checks before anything is read. -/
def check (channelLogin : String) : Except RecentError Unit :=
  if env.validateLogin channelLogin = false then .error .invalidChannelLogin
  else if visits.admitted = false then .error .serviceOverloaded
  else
    match call.policy with
    | some policy =>
      if policy.ignored then .error (.channelIgnored channelLogin) else .ok ()
    | none =>
      if visits.fails .isChannelIgnored then .error .getChannelIgnored
      else if visits.atIgnored.control.isChannelIgnored channelLogin then
        .error (.channelIgnored channelLogin)
      else .ok ()

/-- What is spawned after the checks; a request touches its channel once in 30 minutes. -/
def background (channelLogin : String) : RecentBackground where
  joins := channelLogin
  channelKey := toAsciiLowercase channelLogin
  requestedAtMs := call.requestSnapshotMs.toNat
  coalesceBeforeMs := (satSub call.requestSnapshotMs (30 * 60 * 1000)).toNat

/-- The handler up to its first assessment. -/
def localView (channelLogin : String) (options : GetRecentMessagesQueryOptions) :
    Except RecentError RecentView := do
  let records ← (Node.read env.settings visits.atSealed visits.atOpen channelLogin
    (call.storageOptions options) env.maxBufferSize).mapError .getLocalMessages
  if visits.fails .getCoverageIntervals || visits.fails .getRepairCheckpoints then
    .error .getCoverage
  else
    .ok (call.assess env options (visits.repairCheckpoints.getRepairCheckpoints channelLogin)
      call.requestSnapshotMs records
      (visits.atCoverage.control.getCoverageIntervals channelLogin call.requestSnapshotMs))

/-- What is asked of every peer. -/
def askedOptions (options : GetRecentMessagesQueryOptions) : GetRecentMessagesQueryOptions :=
  { call.storageOptions options with limit := some env.maxBufferSize }

/-- `fetch_local`. -/
def fetched (channelLogin : String) (options : GetRecentMessagesQueryOptions) :
    Option PeerLocalResponse :=
  fetchLocal ((visits.replies (call.askedOptions env options)).map fun reply =>
    reply.bind (fetchOneLocal channelLogin env.maxBufferSize)) env.maxBufferSize

/-- The answer of the peers is taken over. -/
def takeOver (channelLogin : String) (options : GetRecentMessagesQueryOptions) (view : RecentView)
    (fetched : PeerLocalResponse) : RecentView :=
  call.assess env options (visits.repairCheckpoints.getRepairCheckpoints channelLogin)
    call.requestSnapshotMs
    (mergeRecords view.records fetched.records (requestedLimit options env.maxBufferSize))
    (mergeIntervals (view.coverage ++ fetched.coverage))

/-- The read after a repair made progress. -/
def viewAgain (channelLogin : String) (options : GetRecentMessagesQueryOptions)
    (view : RecentView) : Except RecentError RecentView := do
  let records ← (Node.read env.settings visits.atSealedAgain visits.atOpenAgain channelLogin
    (call.storageOptions options) env.maxBufferSize).mapError .getLocalMessages
  if visits.fails .getRepairCheckpointsAgain then .error .getCoverage
  else
    .ok (call.assess env options
      (visits.repairCheckpointsAgain.getRepairCheckpoints channelLogin) visits.nowAgainMs records
      view.coverage)

/-- The response. -/
def respond (exportOptions : ExportOptions) (view : RecentView) : RecentResponse :=
  let messages := exportCanonicalRecords env.irc view.records exportOptions
  { records := view.records
    coverage :=
      if view.assessment.sufficient then "complete"
      else if view.repairState.bestEffort then "best-effort"
      else "partial"
    messages
    error :=
      if visits.joinConfirmed ∨ messages ≠ [] then none
      else
        some (
          "The bot is currently not joined to this channel (in progress or failed previously)",
          "channel_not_joined") }

/-- The handler after the peers have been asked, or not. -/
def finish (channelLogin : String) (options : GetRecentMessagesQueryOptions)
    (exportOptions : ExportOptions) (allowPeer : Bool) (view : RecentView) :
    Option RepairStart × Except RecentError RecentResponse :=
  if allowPeer && env.wantsRepair options view && !view.repairState.retrySuppressed &&
      env.repairCoordinator then
    (some ⟨channelLogin, call.storageOptions options, env.maxBufferSize,
        view.assessment.requiredStartMs, view.assessment.requiredEndMs⟩,
      if visits.progress then
        (call.viewAgain env visits channelLogin options view).map
          (respond env visits exportOptions)
      else .ok (respond env visits exportOptions view))
  else
    (none, .ok (respond env visits exportOptions view))

/-- The handler after its checks. -/
def runChecked (channelLogin : String) (options : GetRecentMessagesQueryOptions)
    (exportOptions : ExportOptions) : RecentRun β :=
  let spawned := some (call.background channelLogin)
  match call.localView env visits channelLogin options with
  | .error error => ⟨spawned, none, [], none, none, .error error⟩
  | .ok view =>
    match allowsPeerFetch call.headers with
    | .error error => ⟨spawned, none, [], none, none, .error error⟩
    | .ok allowPeer =>
      let asks := allowPeer && env.wantsRepair options view && env.peerClient
      let asked := if asks then some (call.askedOptions env options) else none
      match if asks then call.fetched env visits channelLogin options else none with
      | none =>
        let (started, result) := call.finish env visits channelLogin options exportOptions
          allowPeer view
        ⟨spawned, asked, [], none, started, result⟩
      | some fetched =>
        let (started, result) := call.finish env visits channelLogin options exportOptions
          allowPeer (call.takeOver env visits channelLogin options view fetched)
        ⟨spawned, asked, fetched.records,
          visits.atPersist.persistPeerResult env.settings channelLogin fetched, started, result⟩

/-- `get_recent_messages`. -/
def run : RecentRun β :=
  match call.channelLogin, call.options with
  | none, _ => ⟨none, none, [], none, none, .error .invalidPath⟩
  | some _, none => ⟨none, none, [], none, none, .error .invalidQuery⟩
  | some channelLogin, some (options, exportOptions) =>
    match call.check env visits channelLogin with
    | .error error => ⟨none, none, [], none, none, .error error⟩
    | .ok () => call.runChecked env visits channelLogin options exportOptions

end RecentCall

/-! ### What answers a request -/

/-- A record is of the channel and in the window of a request. -/
def QueryRequest.Asks (request : QueryRequest) (r : CanonicalRecord) : Prop :=
  toAsciiLowercase r.channelKey = request.channelKey ∧ request.admits r = true

/-- What a list of records must be to answer a request. -/
structure Answers (request : QueryRequest) (records : List CanonicalRecord) : Prop where
  asked : ∀ r ∈ records, request.Asks r
  length_le : records.length ≤ request.limit
  nodup : (records.map eventKey).Nodup
  sorted : records.Pairwise fun r q => r.receiptOrder ≤ q.receiptOrder

section Answers

variable {request request' : QueryRequest} {records peer : List CanonicalRecord}

theorem answers_nil : Answers request [] where
  asked := by rintro r ⟨⟩
  length_le := Nat.zero_le _
  nodup := List.nodup_nil
  sorted := List.Pairwise.nil

/-- **A merge answers a request** if both lists are asked for. -/
theorem answers_mergeRecords (h : ∀ r ∈ records, request.Asks r) (h' : ∀ r ∈ peer, request.Asks r) :
    Answers request (mergeRecords records peer request.limit) where
  asked := by
    intro r hr
    rcases mem_mergeRecords hr with hr | hr
    · exact h r hr
    · exact h' r hr
  length_le := length_takeNewest_le _ _
  nodup := nodup_mergeRecords
  sorted := (sortByKey_sorted _).sublist (takeNewest_sublist _ _)

/-- A read of a node answers its request. -/
theorem answers_read {β : Type} {cfg : Settings β} {n n' : Node β} (hn : n.Sound cfg.codec)
    {channelLogin : String} {options : GetRecentMessagesQueryOptions} {maxBufferSize : ℕ}
    (h : Node.read cfg n n' channelLogin options maxBufferSize = .ok records) :
    Answers (options.request channelLogin (requestedLimit options maxBufferSize)) records := by
  have hasked : ∀ r ∈ records,
      (options.request channelLogin (requestedLimit options maxBufferSize)).Asks r := by
    intro r hr
    obtain ⟨-, hchannel, hadmits⟩ := visible_of_mem_queryLocalMessages hn.kept.readable h hr
    refine ⟨?_, hadmits⟩
    rw [hchannel]
    exact toAsciiLowercase_toAsciiLowercase channelLogin
  rw [Node.read, queryLocalMessages_eq_ok hn.kept.readable, Except.ok.injEq] at h
  split at h
  · subst h
    exact answers_nil
  · subst h
    exact ⟨hasked, length_takeNewest_le _ _, nodup_mergeRecords,
      (sortByKey_sorted _).sublist (takeNewest_sublist _ _)⟩

end Answers

/-! ### What peers answer -/

/-- `get_local_recent` of a peer that other tasks have worked on between its reads. -/
def getLocalRecentAcross {β : Type} (cfg : Settings β)
    (atIgnored atSealed atOpen atCoverage : Node β) (policy : Option ChannelPolicy)
    (channelLogin : String) (options : GetRecentMessagesQueryOptions) (maxBufferSize : ℕ)
    (nowMs : ℤ) : Except LocalReadError PeerLocalResponse :=
  if atIgnored.control.isChannelIgnored channelLogin then
    .error (.channelIgnored channelLogin)
  else if requestedLimit (peerOptions policy options) maxBufferSize = 0 then
    .ok (.of [] [])
  else do
    let records ← (Node.read cfg atSealed atOpen channelLogin (peerOptions policy options)
      maxBufferSize).mapError .getLocalMessages
    return .of records (atCoverage.control.getCoverageIntervals channelLogin nowMs)

/-- The answer to a local read of a node whose store is as some run has left it. -/
def PeerReply (channelLogin : String) (asked : GetRecentMessagesQueryOptions)
    (reply : Except LocalReadError PeerLocalResponse) : Prop :=
  ∃ (β : Type) (cfg : Settings β) (actions : List NodeAction) (atIgnored atOpen atCoverage : Node β)
    (policy : Option ChannelPolicy) (maxBufferSize : ℕ) (nowMs : ℤ),
    reply = getLocalRecentAcross cfg atIgnored (Node.run cfg actions) atOpen atCoverage policy
      channelLogin asked maxBufferSize nowMs

section Replies

variable {channelLogin : String} {asked options : GetRecentMessagesQueryOptions} {limit : ℕ}

/-- The window of a peer is within what it was asked for. -/
theorem asks_of_peerOptions {policy : Option ChannelPolicy} {limit' : ℕ} {r : CanonicalRecord}
    (h : ((peerOptions policy asked).request channelLogin limit').Asks r) :
    (asked.request channelLogin limit).Asks r := by
  refine ⟨h.1, ?_⟩
  have hadmits := h.2
  rw [QueryRequest.admits, Bool.and_eq_true] at hadmits ⊢
  refine ⟨?_, hadmits.2⟩
  have hafter := hadmits.1
  show asked.after.all _ = true
  rcases hasked : asked.after with - | after
  · rfl
  · have hmax : ∃ after', (peerOptions policy asked).after = some after' ∧ after ≤ after' := by
      rw [peerOptions, hasked]
      dsimp only
      generalize (policy.map fun policy => policy.purgeMs).filter _ = cutoff
      rcases cutoff with - | purgeMs
      · exact ⟨after, rfl, le_refl _⟩
      · exact ⟨max after purgeMs, rfl, le_max_left _ _⟩
    obtain ⟨after', heq, hle⟩ := hmax
    have hlt : after' < r.receivedAtMs := by
      have hall : (peerOptions policy asked).after.all (fun after => after < r.receivedAtMs) =
        true := hafter
      rw [heq] at hall
      exact of_decide_eq_true hall
    exact decide_eq_true (lt_of_le_of_lt hle hlt)

/-- **What a peer sends** is of the channel and in the window that it was asked for. -/
theorem asks_of_peerReply {reply : PeerLocalResponse}
    (h : PeerReply channelLogin asked (.ok reply)) : ∀ r ∈ reply.records,
      (asked.request channelLogin limit).Asks r := by
  obtain ⟨β, cfg, actions, atIgnored, atOpen, atCoverage, policy, maxBufferSize, nowMs, hreply⟩ := h
  have hn := Node.sound_run cfg actions
  rw [getLocalRecentAcross] at hreply
  split at hreply
  · cases hreply
  · split at hreply
    · cases hreply
      rintro r ⟨⟩
    · obtain ⟨records, hread⟩ := Node.read_eq_ok hn atOpen channelLogin (peerOptions policy asked)
        maxBufferSize
      rw [hread] at hreply
      cases hreply
      exact fun r hr => asks_of_peerOptions ((answers_read hn hread).asked r hr)

/-- What all replies have in common, what is fetched has as well. -/
theorem forall_mem_fetchLocal {p : CanonicalRecord → Prop}
    {replies : List (Option PeerLocalResponse)} {fetched : PeerLocalResponse}
    (h : ∀ reply ∈ replies.filterMap id, ∀ r ∈ reply.records, p r)
    (hfetched : fetchLocal replies limit = some fetched) : ∀ r ∈ fetched.records, p r := by
  have hloop : ∀ accumulated ∈ (replies.filterMap id).foldl (accumulate limit) none,
      ∀ r ∈ accumulated.records, p r := by
    refine List.foldlRecOn (motive := fun accumulated : Option PeerLocalResponse =>
      ∀ response ∈ accumulated, ∀ r ∈ response.records, p r) _ _ (by rintro response ⟨⟩)
        fun accumulated hacc reply hreply => ?_
    rcases accumulated with - | previous
    · rintro response ⟨⟩
      exact h reply hreply
    · rintro response ⟨⟩ r hr
      rcases mem_mergeRecords hr with hr | hr
      · exact hacc previous rfl r hr
      · exact h reply hreply r hr
  exact hloop fetched hfetched

/-- A reply that passes the checks is as it was sent. -/
theorem eq_of_fetchOneLocal {reply : Except LocalReadError PeerLocalResponse}
    {result : PeerLocalResponse} (h : fetchOneLocal channelLogin limit reply = some result) :
    reply = .ok result := by
  unfold fetchOneLocal at h
  split at h
  · cases h
  · split at h
    · cases h
    · cases h
      rfl

end Replies

/-! ### The whole handler -/

theorem length_exportCanonicalRecords_le (irc : TwitchIrc) (records : List CanonicalRecord)
    (options : ExportOptions) :
    (exportCanonicalRecords irc records options).length ≤ records.length := by
  rw [exportCanonicalRecords, exportStoredMessages_eq, List.length_map]
  refine (List.length_filter_le _ _).trans ?_
  rw [containerOf_eq, List.length_map, markedMessages, length_marked]
  exact (List.length_filterMap_le _ _).trans (List.length_filterMap_le _ _)

/-- The stores are read in states that runs have left them in, and the replies come from peers. -/
structure RecentVisits.Faithful {β : Type} (cfg : Settings β) (visits : RecentVisits β)
    (channelLogin : String) : Prop where
  atSealed : ∃ actions, visits.atSealed = Node.run cfg actions
  atSealedAgain : ∃ actions, visits.atSealedAgain = Node.run cfg actions
  replies : ∀ asked, ∀ reply, some reply ∈ visits.replies asked →
    PeerReply channelLogin asked reply

namespace RecentCall

variable {β : Type} {env : RecentEnv β} {visits : RecentVisits β} {call : RecentCall}
  {channelLogin : String} {options : GetRecentMessagesQueryOptions}
  {exportOptions : ExportOptions} {view : RecentView} {response : RecentResponse}

/-- The request that a response answers. -/
def request (env : RecentEnv β) (call : RecentCall) (channelLogin : String)
    (options : GetRecentMessagesQueryOptions) : QueryRequest :=
  (call.storageOptions options).request channelLogin (requestedLimit options env.maxBufferSize)

theorem limit_storageOptions (call : RecentCall) (options : GetRecentMessagesQueryOptions)
    (maxBufferSize : ℕ) : requestedLimit (call.storageOptions options) maxBufferSize =
      requestedLimit options maxBufferSize := by
  rw [storageOptions, RecentMessages.limit_storageOptions]
  unfold policyOptions
  split
  · rfl
  · split <;> rfl

theorem answers_of_read {n n' : Node β} {records : List CanonicalRecord}
    (hn : ∃ actions, n = Node.run env.settings actions)
    (h : (Node.read env.settings n n' channelLogin (call.storageOptions options)
      env.maxBufferSize).mapError RecentError.getLocalMessages = .ok records) :
    Answers (call.request env channelLogin options) records := by
  obtain ⟨actions, rfl⟩ := hn
  have hread := answers_read (Node.sound_run env.settings actions) (Except.mapError_eq_ok.mp h)
  rw [limit_storageOptions] at hread
  exact hread

theorem answers_localView (hvisits : visits.Faithful env.settings channelLogin)
    (h : call.localView env visits channelLogin options = .ok view) :
    Answers (call.request env channelLogin options) view.records := by
  obtain ⟨records, hread, h⟩ := Except.bind_eq_ok.mp h
  split at h
  · cases h
  · cases h
    exact answers_of_read hvisits.atSealed hread

theorem answers_viewAgain (hvisits : visits.Faithful env.settings channelLogin)
    {again : RecentView} (h : call.viewAgain env visits channelLogin options view = .ok again) :
    Answers (call.request env channelLogin options) again.records := by
  obtain ⟨records, hread, h⟩ := Except.bind_eq_ok.mp h
  split at h
  · cases h
  · cases h
    exact answers_of_read hvisits.atSealedAgain hread

/-- What is fetched was asked for. -/
theorem asks_of_fetched (hvisits : visits.Faithful env.settings channelLogin)
    {fetched : PeerLocalResponse}
    (h : call.fetched env visits channelLogin options = some fetched) :
    ∀ r ∈ fetched.records, (call.request env channelLogin options).Asks r := by
  refine forall_mem_fetchLocal (fun reply hreply => ?_) h
  obtain ⟨checked, hchecked, rfl⟩ := List.mem_filterMap.mp hreply
  obtain ⟨sent, hsent, hcheck⟩ := List.mem_map.mp hchecked
  obtain ⟨answer, rfl, hone⟩ := Option.bind_eq_some_iff.mp hcheck
  have hanswer := eq_of_fetchOneLocal hone
  subst hanswer
  have hreply : PeerReply channelLogin (call.askedOptions env options) (.ok reply) :=
    hvisits.replies _ _ hsent
  have hasks : ∀ r ∈ reply.records, ((call.askedOptions env options).request channelLogin
      (requestedLimit options env.maxBufferSize)).Asks r := asks_of_peerReply hreply
  exact hasks

/-- **The rest of the handler** keeps what a response must be. -/
theorem answers_finish (hvisits : visits.Faithful env.settings channelLogin) {allowPeer : Bool}
    (hview : Answers (call.request env channelLogin options) view.records)
    (h : (call.finish env visits channelLogin options exportOptions allowPeer view).2 =
      .ok response) :
    Answers (call.request env channelLogin options) response.records ∧
      response.messages.length ≤ response.records.length := by
  have hrespond : ∀ view, (respond env visits exportOptions view).messages.length ≤
      (respond env visits exportOptions view).records.length :=
    fun view => length_exportCanonicalRecords_le env.irc view.records exportOptions
  unfold finish at h
  split at h
  · dsimp only at h
    split at h
    · obtain ⟨again, hagain, rfl⟩ := Except.map_eq_ok.mp h
      exact ⟨answers_viewAgain hvisits hagain, hrespond again⟩
    · cases h
      exact ⟨hview, hrespond view⟩
  · cases h
    exact ⟨hview, hrespond view⟩

/-- The window is closed at the snapshot. -/
theorem exists_before (call : RecentCall) (options : GetRecentMessagesQueryOptions) :
    ∃ before, (call.storageOptions options).before = some before ∧
      before ≤ call.requestSnapshotMs + 1 := by
  unfold storageOptions RecentMessages.storageOptions
  split
  case isTrue => exact ⟨_, rfl, le_refl _⟩
  case isFalse hclosed =>
    rcases hbefore : (policyOptions call.policy options).before with - | before
    · simp [hbefore] at hclosed
    · rw [hbefore, Option.all_some, decide_eq_true_eq, not_lt] at hclosed
      exact ⟨before, rfl, hclosed⟩

/-- The window opens at the cutoff of the policy, if that is a `DateTime`. -/
theorem exists_after (options : GetRecentMessagesQueryOptions) {policy : ChannelPolicy}
    (hpolicy : call.policy = some policy) (hpurge : 0 < policy.purgeMs)
    (hrange : policy.purgeMs ≤ 8210266876799999) :
    ∃ after, (call.storageOptions options).after = some after ∧ policy.purgeMs ≤ after := by
  have hafter : (call.storageOptions options).after =
      (policyOptions call.policy options).after := by
    unfold storageOptions RecentMessages.storageOptions
    split <;> rfl
  rw [hafter, hpolicy, policyOptions]
  split
  case isTrue =>
    refine ⟨policy.purgeMs, ?_, le_refl _⟩
    show timestampMillisOpt policy.purgeMs = some policy.purgeMs
    rw [timestampMillisOpt, if_pos]
    omega
  case isFalse hlate =>
    rcases hsome : options.after with - | after
    · simp [hsome, hpurge] at hlate
    · rw [hsome, Option.all_some, decide_eq_true_eq, not_and, not_lt] at hlate
      exact ⟨after, rfl, hlate hpurge⟩

/-- What a request asks for was received by its snapshot, and after the cutoff of its policy. -/
theorem bounds_of_asks {r : CanonicalRecord}
    (h : (call.request env channelLogin options).Asks r) :
    r.receivedAtMs ≤ call.requestSnapshotMs ∧ ∀ policy ∈ call.policy, 0 < policy.purgeMs →
      policy.purgeMs ≤ 8210266876799999 → policy.purgeMs < r.receivedAtMs := by
  have hadmits := h.2
  rw [QueryRequest.admits, Bool.and_eq_true] at hadmits
  constructor
  · obtain ⟨before, heq, hle⟩ := exists_before call options
    have hbefore : (call.storageOptions options).before.all
      (fun before => r.receivedAtMs < before) = true := hadmits.2
    rw [heq, Option.all_some, decide_eq_true_eq] at hbefore
    omega
  · intro policy hpolicy hpurge hrange
    obtain ⟨after, heq, hle⟩ := exists_after options hpolicy hpurge hrange
    have hafter : (call.storageOptions options).after.all (fun after => after < r.receivedAtMs) =
      true := hadmits.1
    rw [heq, Option.all_some, decide_eq_true_eq] at hafter
    omega

/-- After the checks, too, a response answers its request, and so does what is taken over. -/
theorem answers_runChecked (exportOptions : ExportOptions)
    (hvisits : visits.Faithful env.settings channelLogin) :
    (∀ response,
      (call.runChecked env visits channelLogin options exportOptions).result = .ok response →
        Answers (call.request env channelLogin options) response.records ∧
          response.messages.length ≤ response.records.length) ∧
    ∀ r ∈ (call.runChecked env visits channelLogin options exportOptions).taken,
      (call.request env channelLogin options).Asks r := by
  unfold runChecked
  rcases hview : call.localView env visits channelLogin options with error | view
  · exact ⟨by rintro response ⟨⟩, by rintro r ⟨⟩⟩
  have hlocal := answers_localView hvisits hview
  rcases allowsPeerFetch call.headers with error | allowPeer
  · exact ⟨by rintro response ⟨⟩, by rintro r ⟨⟩⟩
  dsimp only
  split
  case h_1 =>
    exact ⟨fun response h => answers_finish hvisits hlocal h, by rintro r ⟨⟩⟩
  case h_2 fetched hfetched =>
    have hasked : ∀ r ∈ fetched.records, (call.request env channelLogin options).Asks r := by
      split at hfetched
      · exact asks_of_fetched hvisits hfetched
      · cases hfetched
    have hlimit := limit_storageOptions call options env.maxBufferSize
    exact ⟨fun response h =>
      answers_finish hvisits (answers_mergeRecords hlocal.asked hasked) h, hasked⟩

/-- The handler, once its path and its query are read. -/
theorem run_eq (hlogin : call.channelLogin = some channelLogin)
    (hoptions : call.options = some (options, exportOptions)) :
    call.run env visits =
      match call.check env visits channelLogin with
      | .error error => ⟨none, none, [], none, none, .error error⟩
      | .ok () => call.runChecked env visits channelLogin options exportOptions := by
  rw [run, hlogin, hoptions]

/-- A request that may not ask peers does not ask them, and starts no repair. -/
theorem quiet_runChecked (hheaders : allowsPeerFetch call.headers ≠ .ok true) :
    (call.runChecked env visits channelLogin options exportOptions).asked = none ∧
      (call.runChecked env visits channelLogin options exportOptions).taken = [] ∧
      (call.runChecked env visits channelLogin options exportOptions).started = none := by
  unfold runChecked
  rcases call.localView env visits channelLogin options with error | view
  · exact ⟨rfl, rfl, rfl⟩
  rcases hallow : allowsPeerFetch call.headers with error | allowPeer
  · exact ⟨rfl, rfl, rfl⟩
  cases allowPeer
  · exact ⟨rfl, rfl, rfl⟩
  · exact absurd hallow hheaders

/-- Without peers, nothing is asked. -/
theorem asked_run_eq_none (hheaders : allowsPeerFetch call.headers ≠ .ok true) :
    (call.run env visits).asked = none := by
  unfold run
  split
  · rfl
  · rfl
  · rename_i channelLogin options exportOptions hlogin hoptions
    rcases call.check env visits channelLogin with error | ⟨⟩
    · rfl
    · exact (quiet_runChecked hheaders).1

/-- A read does not report overload. -/
theorem bind_ne_overloaded {α γ : Type} {read : Except StoreError α}
    {next : α → Except RecentError γ} (h : ∀ a, next a ≠ .error .serviceOverloaded) :
    (read.mapError RecentError.getLocalMessages >>= next) ≠ .error .serviceOverloaded := by
  rcases read with error | a
  · rintro ⟨⟩
  · exact h a

theorem viewAgain_ne_overloaded : call.viewAgain env visits channelLogin options view ≠
    .error .serviceOverloaded := by
  refine bind_ne_overloaded fun records => ?_
  split <;> rintro ⟨⟩

theorem localView_ne_overloaded : call.localView env visits channelLogin options ≠
    .error .serviceOverloaded := by
  refine bind_ne_overloaded fun records => ?_
  split <;> rintro ⟨⟩

/-- **Overload is noticed first**: a request that has passed its checks does not report it. -/
theorem runChecked_ne_overloaded :
    (call.runChecked env visits channelLogin options exportOptions).result ≠
      .error .serviceOverloaded := by
  -- the end of the request fails only as its last view does
  have hfinish : ∀ allowPeer view,
      (call.finish env visits channelLogin options exportOptions allowPeer view).2 ≠
        .error .serviceOverloaded := by
    intro allowPeer view h
    unfold finish at h
    split at h
    · dsimp only at h
      split at h
      · rcases hagain : call.viewAgain env visits channelLogin options view with error | again
        · rw [hagain] at h
          cases h
          exact viewAgain_ne_overloaded hagain
        · rw [hagain] at h
          cases h
      · cases h
    · cases h
  unfold runChecked
  -- the first view has errors of its own
  rcases hview : call.localView env visits channelLogin options with error | view
  · rintro ⟨⟩
    exact localView_ne_overloaded hview
  -- so have the headers between nodes
  rcases hallow : allowsPeerFetch call.headers with error | allowPeer
  · rintro ⟨⟩
    unfold allowsPeerFetch at hallow
    split at hallow
    · cases hallow
    · split at hallow
      · cases hallow
      · split at hallow
        · cases hallow
        · split at hallow <;> cases hallow
  dsimp only
  split
  · exact hfinish allowPeer view
  · exact hfinish allowPeer _

theorem asked_eq_none_of_overloaded
    (h : (call.run env visits).result = .error .serviceOverloaded) :
    (call.run env visits).asked = none := by
  unfold run at h ⊢
  split at h
  · rfl
  · rfl
  · rename_i channelLogin options exportOptions hlogin hoptions
    rcases hcheck : call.check env visits channelLogin with error | ⟨⟩
    · rfl
    · rw [hcheck] at h
      exact absurd h runChecked_ne_overloaded

/-- **Every response answers its request.**  It is of the channel and in the window, not longer than
the limit, each event once and in order, and so is what is taken over from the peers; nothing in it
is from before the cutoff of the policy.  A request that fails its checks leaves no trace, and one
that may not ask peers does not ask them and starts no repair. -/
theorem response_answers_request (env : RecentEnv β) (visits : RecentVisits β) (call : RecentCall)
    (channelLogin : String) (options : GetRecentMessagesQueryOptions)
    (exportOptions : ExportOptions) (hvisits : visits.Faithful env.settings channelLogin)
    (hlogin : call.channelLogin = some channelLogin)
    (hoptions : call.options = some (options, exportOptions)) :
    (∀ response, (call.run env visits).result = .ok response →
      Answers (call.request env channelLogin options) response.records ∧
        response.messages.length ≤ response.records.length) ∧
    (∀ r ∈ (call.run env visits).taken, (call.request env channelLogin options).Asks r) ∧
    (∀ r, (call.request env channelLogin options).Asks r →
      r.receivedAtMs ≤ call.requestSnapshotMs ∧ ∀ policy ∈ call.policy, 0 < policy.purgeMs →
        policy.purgeMs ≤ 8210266876799999 → policy.purgeMs < r.receivedAtMs) ∧
    (∀ error, call.check env visits channelLogin = .error error →
      call.run env visits = ⟨none, none, [], none, none, .error error⟩) ∧
    (allowsPeerFetch call.headers ≠ .ok true →
      (call.run env visits).asked = none ∧ (call.run env visits).taken = [] ∧
        (call.run env visits).started = none) := by
  rw [run_eq hlogin hoptions]
  rcases call.check env visits channelLogin with error | ⟨⟩
  · refine ⟨?_, ?_, fun r => bounds_of_asks, ?_, fun _ => ⟨rfl, rfl, rfl⟩⟩
    · rintro response ⟨⟩
    · rintro r ⟨⟩
    · rintro _ ⟨⟩
      rfl
  · obtain ⟨hresponse, htaken⟩ := answers_runChecked exportOptions hvisits
    refine ⟨hresponse, htaken, fun r => bounds_of_asks, ?_, quiet_runChecked⟩
    rintro error ⟨⟩

/-- `PRIV` is a command without parameters, which is of no kind that is exported. -/
def sampleIrc : TwitchIrc where
  parse line := .ok ⟨KeyTable.empty, none, line, []⟩
  serverMessage message := .ok (.other message)
  asRawIrc message := message.command
  formatDuration _ := ""

def sampleEnv : RecentEnv Plain :=
  ⟨.plain, sampleIrc, fun _ => true, 800, 24 * 60 * 60 * 1000, 60000, true, true⟩

/-- The peer has received two batches, of which this node has only the first. -/
def sampleVisits : RecentVisits Plain :=
  let node := Node.run .plain Node.acceptedActions
  let peer := Node.run .plain (Node.acceptedActions ++ Node.lateActions)
  { fails _ := false
    admitted := true
    atIgnored := node
    atSealed := node
    atOpen := node
    atCoverage := node
    repairCheckpoints := .empty
    replies asked :=
      [some (getLocalRecentAcross .plain peer peer peer peer none "Quiet" asked 800 15)]
    atPersist := node
    progress := false
    atSealedAgain := node
    atOpenAgain := node
    repairCheckpointsAgain := .empty
    nowAgainMs := 16
    joinConfirmed := true }

def sampleCall : RecentCall :=
  ⟨some "Quiet", some (Node.sampleOptions, ⟨false, false, false⟩), ⟨none, none⟩, none, 14⟩

theorem faithful_sampleVisits : sampleVisits.Faithful .plain "Quiet" where
  atSealed := ⟨_, rfl⟩
  atSealedAgain := ⟨_, rfl⟩
  replies := by
    intro asked reply hreply
    obtain rfl := Option.some.inj (List.mem_singleton.mp hreply)
    exact ⟨_, _, _, _, _, _, _, _, _, rfl⟩

theorem response_answers_request_sample :
    (∃ response, (sampleCall.run sampleEnv sampleVisits).result = .ok response ∧
      response.records.length = 3 ∧
        Answers (sampleCall.request sampleEnv "Quiet" Node.sampleOptions) response.records) ∧
    (sampleCall.run sampleEnv sampleVisits).taken ≠ [] ∧
      ∀ r ∈ (sampleCall.run sampleEnv sampleVisits).taken, r.receivedAtMs ≤ 14 := by
  obtain ⟨hanswers, htaken, hbounds, -, -⟩ := response_answers_request sampleEnv sampleVisits
    sampleCall "Quiet" Node.sampleOptions ⟨false, false, false⟩ faithful_sampleVisits rfl rfl
  have hresult : ∃ response, (sampleCall.run sampleEnv sampleVisits).result = .ok response ∧
      response.records.length = 3 := by
    have hlength : (sampleCall.run sampleEnv sampleVisits).result.map (·.records.length) =
        .ok 3 := by
      decide +kernel
    exact Except.map_eq_ok.mp hlength
  obtain ⟨response, hresponse, hlength⟩ := hresult
  exact ⟨⟨response, hresponse, hlength, (hanswers response hresponse).1⟩, by decide +kernel,
    fun r hr => (hbounds r (htaken r hr)).1⟩

end RecentCall

end RecentMessages
