/-
RecentMessages/Web/Serving.lean

A node that answers requests through its response cache, while channels are purged and
opt out (`web/response_cache.rs`, `web/purge.rs`, `web/ignored.rs`).

A request passes the gate, which under cluster control reads the policy of the channel and
applies it; looks its key up in the cache; and otherwise reads the store and the open
blocks, and leaves what it computed in the cache.  All this is in steps, between which
anything else may happen, and a purge or an opt-out is a sequence of steps as well
(`ServingNode.step`).

Nothing drops an entry because its channel was purged.  Without cluster control every
request has the cutoff 0 in its key, and with it the cutoff may be an old one, or the
records may be removed only after a request with the new one has read them.  So a body is
answered long after its records were removed (`stale_hit`).  It is not if, at the end of
each purge and opt-out, no later request can have the key of such a body (`no_stale_hit`).
-/
import RecentMessages.Control.Replication
import RecentMessages.Web.AppliedPolicies
import RecentMessages.Web.Completeness
import RecentMessages.Web.ResponseCache

namespace RecentMessages

/-- What a node is set up with. -/
structure ServingEnv (β : Type) where
  settings : Settings β
  cluster : ClusterEnv
  cache : CacheConfig
  maxBufferSize : ℕ
  /-- The node is the owner of its cluster. -/
  owner : Bool
  /-- The channel in the path of a URI, as the router takes it. -/
  channelOf : String → String
  /-- The options in the query of a URI. -/
  optionsOf : String → GetRecentMessagesQueryOptions

/-- What a response was computed from: `records` come from what was read in the store and
in the open blocks.  The two numbers count the purges and opt-outs that had returned by the
time of each read. -/
structure ReadBody where
  records : List CanonicalRecord
  sealed : List CanonicalRecord
  sealedAt : ℕ
  opened : List CanonicalRecord
  openedAt : ℕ
  deriving DecidableEq

/-- The body has the record from a read before the `i`-th purge or opt-out had returned. -/
def ReadBody.Carries (body : ReadBody) (i : ℕ) (r : CanonicalRecord) : Prop :=
  r ∈ body.records ∧ ((r ∈ body.sealed ∧ body.sealedAt ≤ i) ∨ (r ∈ body.opened ∧ body.openedAt ≤ i))

instance (body : ReadBody) (i : ℕ) (r : CanonicalRecord) : Decidable (body.Carries i r) :=
  inferInstanceAs (Decidable (_ ∧ _))

/-- Where a request is. -/
inductive RecentPhase
  /-- Before the gate. -/
  | received
  /-- In the gate, with the policy that it has read. -/
  | gated (policy : ChannelPolicy)
  /-- Before the cache. -/
  | admitted (policy : Option ChannelPolicy)
  /-- In the handler; `arrivedAt` is the time of the lookup. -/
  | handling (policy : Option ChannelPolicy) (key : String) (arrivedAt : ℕ)
  /-- Before the handler's own check, with the options of the read. -/
  | checking (policy : Option ChannelPolicy) (key : String) (arrivedAt : ℕ)
    (options : GetRecentMessagesQueryOptions)
  /-- Before the read of the store. -/
  | reading (key : String) (arrivedAt : ℕ) (options : GetRecentMessagesQueryOptions)
  /-- Before the read of the open blocks. -/
  | merging (key : String) (arrivedAt : ℕ) (options : GetRecentMessagesQueryOptions)
    (sealed : List CanonicalRecord) (sealedAt : ℕ)
  /-- Before `capture_response`. -/
  | capturing (key : String) (arrivedAt : ℕ) (body : ReadBody)
  | done

/-- A request for recent messages. -/
structure RecentRequest where
  uri : String
  /-- `allows_peer_fetch` of its headers. -/
  peerMode : Bool
  /-- The number of purges and opt-outs that had returned when it started. -/
  startedAt : ℕ
  phase : RecentPhase

/-- The accesses of a purge or an opt-out. -/
inductive RemovalAccess
  /-- `cluster.purge`. -/
  | clusterPurge (cutoffMs : ℕ)
  /-- `cluster.set_ignored`. -/
  | clusterIgnore
  | node (a : NodeAction)
  | readPolicy
  | applyPolicy

/-- A purge or an opt-out that is under way. -/
structure Removal where
  userLogin : String
  /-- The accesses still to come. -/
  accesses : List RemovalAccess
  /-- The policy that was read. -/
  policy : ChannelPolicy
  /-- History: the records of the channel that a read could see since the start. -/
  seen : List CanonicalRecord

/-- A purge or an opt-out that has returned. -/
structure Returned where
  channel : String
  /-- The records that a read could see before, and no more. -/
  removed : List CanonicalRecord
  /-- The cutoffs in the policies of all channels then. -/
  purges : String → ℤ

/-- A request that was answered from the cache. -/
structure CacheHit where
  startedAt : ℕ
  body : ReadBody

structure ServingNode (β : Type) where
  node : Node β
  /-- The database of cluster control, if the node is under it. -/
  cluster : Option ClusterDb
  /-- `AppliedPolicies`. -/
  applied : String → Option ChannelPolicy
  /-- The table `cluster_applied_policy`. -/
  stored : String → Option ChannelPolicy
  alwaysJoin : String → Bool
  /-- What runs of `synchronize` have read. -/
  policies : List (String × ChannelPolicy)
  cache : CacheState ReadBody
  pressure : PressureState
  nowMs : ℕ
  requests : List RecentRequest
  removals : List Removal
  /-- History: the purges and opt-outs that have returned. -/
  returned : List Returned
  /-- History: the requests that were answered from the cache. -/
  hits : List CacheHit

/-- A step of a request. -/
inductive RecentAction
  | gate
  | apply (failure : Option ApplyCall)
  /-- `activeRequests` counts the requests of all routes. -/
  | lookup (activeRequests : ℕ)
  | handle
  | check
  | readSealed
  | readOpen
  | capture (contentType coverage : Option String) (bodyLen : ℕ)
  /-- Any error, or the request is dropped. -/
  | fail

/-- A step. -/
inductive ServingAction
  | tick (ms : ℕ)
  /-- Anything else on the node. -/
  | node (a : NodeAction)
  /-- Another mutation, on the owner. -/
  | mutate (operation : Mutation)
  /-- A snapshot, on a replica. -/
  | receive (snapshot : Snapshot)
  /-- `synchronize` reads a policy, and applies it later. -/
  | readPolicy (channelLogin : String)
  | applyRead (reader : ℕ) (failure : Option ApplyCall)
  | arrive (uri : String) (peerMode : Bool)
  | request (index : ℕ) (a : RecentAction)
  /-- `joined` says whether the channel's join is confirmed. -/
  | purge (userLogin : String) (cutoffMs : ℕ) (joined : Bool)
  | optOut (userLogin : String)
  /-- The next access of a purge or an opt-out. -/
  | advance (index : ℕ) (failure : Option ApplyCall)
  /-- Any error of a purge or an opt-out. -/
  | abort (index : ℕ)
  | finish (index : ℕ)

/-- The cutoff of a purge is a clock reading. -/
def Mutation.Clocked : Mutation → Prop
  | .purge _ cutoff => 0 ≤ cutoff
  | _ => True

instance : ∀ operation : Mutation, Decidable operation.Clocked
  | .ignore _ _ => inferInstanceAs (Decidable True)
  | .purge _ cutoff => inferInstanceAs (Decidable (0 ≤ cutoff))
  | .pin _ _ _ => inferInstanceAs (Decidable True)
  | .replacePins _ => inferInstanceAs (Decidable True)
  | .bootstrapPins _ => inferInstanceAs (Decidable True)
  | .saveAuth _ _ => inferInstanceAs (Decidable True)
  | .revoke _ => inferInstanceAs (Decidable True)

/-- The start of the read under a policy: not before its cutoff. -/
def floorOptions (policy : Option ChannelPolicy) (options : GetRecentMessagesQueryOptions) :
    GetRecentMessagesQueryOptions :=
  match policy with
  | none => options
  | some policy =>
    if 0 < policy.purgeMs ∧ options.after.all (· < policy.purgeMs) then
      { options with after := some policy.purgeMs }
    else options

/-- `purge_messages`. -/
def purgeAccesses (clustered : Bool) (userLogin : String) (cutoffMs : ℕ) (joined : Bool) :
    List RemovalAccess :=
  (if clustered then [.clusterPurge cutoffMs] else []) ++
  [.node (.control (.invalidateChannelCoverage userLogin)),
    .node (.store (.purgeChannel (toAsciiLowercase userLogin) cutoffMs)),
    .node (.purgeOpenBlocks userLogin)] ++
  (if clustered then [.readPolicy, .applyPolicy] else []) ++
  if joined then [.node (.control (.beginLiveCoverage userLogin "direct-irc" cutoffMs))] else []

/-- `set_ignored`, of a channel that opts out. -/
def optOutAccesses (clustered : Bool) (userLogin : String) (nowMs : ℕ) : List RemovalAccess :=
  if clustered then
    [.clusterIgnore,
      .node (.store (.setChannelBlocked (toAsciiLowercase userLogin) true)), .readPolicy,
      .applyPolicy]
  else (setIgnored userLogin true nowMs).map .node

namespace ServingNode

variable {β : Type} (env : ServingEnv β)

/-- A process that has answered nothing yet. -/
def start (node : Node β) (cluster : Option ClusterDb) (stored : String → Option ChannelPolicy)
    (alwaysJoin : String → Bool) (nowMs : ℕ) : ServingNode β :=
  ⟨node, cluster, fun _ => none, stored, alwaysJoin, [], .empty, ⟨none⟩, nowMs, [], [], [], []⟩

/-- The cutoff in the policy of a channel; 0 without cluster control. -/
def purgeMs (s : ServingNode β) (channelLogin : String) : ℤ :=
  (s.cluster.map fun db => (db.policy channelLogin).purgeMs).getD 0

/-- The records of a channel that a read can see. -/
def visibleOf (s : ServingNode β) (channelLogin : String) : List CanonicalRecord :=
  (visible env.settings.codec s.node.ingest.db (some s.node.ingest.openBlocks)).filter
    fun r => r.channelKey = toAsciiLowercase channelLogin

def setPhase (s : ServingNode β) (index : ℕ) (phase : RecentPhase) : ServingNode β :=
  { s with requests := s.requests.modify index fun request => { request with phase } }

/-- The part of the state that `apply` works on. -/
def policyNode (s : ServingNode β) (db : ClusterDb) : PolicyNode β where
  cluster := db
  version := 0
  reads := []
  applied := s.applied
  stored := s.stored
  control := s.node.control
  alwaysJoin := s.alwaysJoin
  db := s.node.ingest.db
  openBlocks := some s.node.ingest.openBlocks
  newest := fun _ => none

/-- `applied_policies.apply`. -/
def applyPolicy (s : ServingNode β) (channel : String) (policy : ChannelPolicy)
    (failure : Option ApplyCall) : Except ApiError Unit × ServingNode β :=
  match s.cluster with
  | none => (.ok (), s)
  | some db =>
    match (s.policyNode db).apply env.settings channel policy failure with
    | (result, p) => (result, { s with
        node := ⟨{ s.node.ingest with
          db := p.db
          openBlocks := p.openBlocks.getD s.node.ingest.openBlocks }, p.control⟩
        applied := p.applied
        stored := p.stored
        alwaysJoin := p.alwaysJoin })

/-- A new process knows nothing of the requests of the old one. -/
def reset (s : ServingNode β) : ServingNode β :=
  { s with
    applied := fun _ => none, policies := [], cache := .empty, pressure := ⟨none⟩
    requests := [], removals := [] }

/-- An action of the node; a crash ends the process. -/
def nodeStep (s : ServingNode β) (a : NodeAction) : ServingNode β :=
  match a with
  | .ingest .crash => { s.reset with node := s.node.apply env.settings a }
  | _ => { s with node := s.node.apply env.settings a }

/-- `adaptive_response_cache` up to the handler. -/
def lookupStep (s : ServingNode β) (index activeRequests : ℕ) (request : RecentRequest)
    (policy : Option ChannelPolicy) : ServingNode β :=
  let key := cacheKey request.uri request.peerMode ((policy.map (·.purgeMs)).getD 0)
  let (active, pressure) := s.pressure.pressureActive env.cache activeRequests s.nowMs
  let s := { s with pressure }
  if active then
    match s.cache.get env.cache key s.nowMs with
    | (some entry, cache) =>
      { s.setPhase index .done with cache, hits := s.hits ++ [⟨request.startedAt, entry.body⟩] }
    | (none, cache) => { s.setPhase index (.handling policy key s.nowMs) with cache }
  else s.setPhase index (.handling policy key s.nowMs)

/-- `capture_response`. -/
def captureStep (s : ServingNode β) (index : ℕ) (key : String) (arrivedAt : ℕ) (body : ReadBody)
    (contentType coverage : Option String) (bodyLen : ℕ) : ServingNode β :=
  if env.cache.maxEntryBytes < bodyLen then s.setPhase index .done
  else { s.setPhase index .done with
    cache := s.cache.insert env.cache ⟨key, arrivedAt, contentType, coverage, body, bodyLen⟩ }

/-- The read of the store. -/
def readSealedStep (s : ServingNode β) (index : ℕ) (uri key : String) (arrivedAt : ℕ)
    (options : GetRecentMessagesQueryOptions) : ServingNode β :=
  let limit := requestedLimit options env.maxBufferSize
  if limit = 0 then
    s.setPhase index (.capturing key arrivedAt ⟨[], [], s.returned.length, [], s.returned.length⟩)
  else
    match s.node.ingest.db.query env.settings.codec (options.request (env.channelOf uri) limit) with
    | .error _ => s.setPhase index .done
    | .ok result =>
      s.setPhase index (.merging key arrivedAt options result.records s.returned.length)

/-- The read of the open blocks. -/
def readOpenStep (s : ServingNode β) (index : ℕ) (uri key : String) (arrivedAt : ℕ)
    (options : GetRecentMessagesQueryOptions) (sealed : List CanonicalRecord) (sealedAt : ℕ) :
    ServingNode β :=
  let limit := requestedLimit options env.maxBufferSize
  let opened := s.node.ingest.openBlocks.query (options.request (env.channelOf uri) limit)
  s.setPhase index (.capturing key arrivedAt
    ⟨mergeRecords sealed opened limit, sealed, sealedAt, opened, s.returned.length⟩)

/-- A step of a request, at its phase. -/
def requestStep (s : ServingNode β) (index : ℕ) (request : RecentRequest) :
    RecentAction → RecentPhase → ServingNode β
  | .gate, .received =>
    match s.cluster with
    | none => s.setPhase index (.admitted none)
    | some db => s.setPhase index (.gated (db.policy (env.channelOf request.uri)))
  | .apply failure, .gated policy =>
    match s.applyPolicy env (toAsciiLowercase (env.channelOf request.uri)) policy failure with
    | (.error _, s) => s.setPhase index .done
    | (.ok (), s) => s.setPhase index (if policy.ignored then .done else .admitted (some policy))
  | .lookup activeRequests, .admitted policy =>
    s.lookupStep env index activeRequests request policy
  | .handle, .handling policy key arrivedAt =>
    s.setPhase index (.checking policy key arrivedAt
      (storageOptions (floorOptions policy (env.optionsOf request.uri)) s.nowMs))
  | .check, .checking policy key arrivedAt options =>
    if (policy.map (·.ignored)).getD
        (s.node.control.isChannelIgnored (env.channelOf request.uri)) then
      s.setPhase index .done
    else s.setPhase index (.reading key arrivedAt options)
  | .readSealed, .reading key arrivedAt options =>
    s.readSealedStep env index request.uri key arrivedAt options
  | .readOpen, .merging key arrivedAt options sealed sealedAt =>
    s.readOpenStep env index request.uri key arrivedAt options sealed sealedAt
  | .capture contentType coverage bodyLen, .capturing key arrivedAt body =>
    s.captureStep env index key arrivedAt body contentType coverage bodyLen
  | .fail, _ => s.setPhase index .done
  | _, _ => s

/-- A purge or an opt-out goes on to its next access. -/
def goOn (s : ServingNode β) (index : ℕ) (removal : Removal) (rest : List RemovalAccess)
    (policy : ChannelPolicy) : ServingNode β :=
  { s with removals := s.removals.set index { removal with accesses := rest, policy } }

/-- A purge or an opt-out ends with an error. -/
def drop (s : ServingNode β) (index : ℕ) : ServingNode β :=
  { s with removals := s.removals.eraseIdx index }

/-- A mutation of the cluster's database, which only the owner has; for another node, the
owner does it, and its snapshot comes in a step of its own. -/
def mutateStep (s : ServingNode β) (operation : Mutation) :
    Except ClusterError Unit × ServingNode β :=
  match s.cluster, env.owner with
  | some db, true =>
    match db.mutate env.cluster operation s.nowMs with
    | (.ok _, db) => (.ok (), { s with cluster := some db })
    | (.error e, db) => (.error e, { s with cluster := some db })
  | _, _ => (.ok (), s)

/-- The next access of a purge or an opt-out. -/
def accessStep (s : ServingNode β) (index : ℕ) (removal : Removal) (access : RemovalAccess)
    (rest : List RemovalAccess) (failure : Option ApplyCall) : ServingNode β :=
  match access with
  | .clusterPurge cutoffMs =>
    match s.mutateStep env (.purge removal.userLogin cutoffMs) with
    | (.error _, s) => s.drop index
    | (.ok (), s) => s.goOn index removal rest removal.policy
  | .clusterIgnore =>
    match s.mutateStep env (.ignore removal.userLogin true) with
    | (.error _, s) => s.drop index
    | (.ok (), s) => s.goOn index removal rest removal.policy
  | .node a =>
    { s with node := s.node.apply env.settings a }.goOn index removal rest removal.policy
  | .readPolicy =>
    s.goOn index removal rest ((s.cluster.map (·.policy removal.userLogin)).getD default)
  | .applyPolicy =>
    match s.applyPolicy env (toAsciiLowercase removal.userLogin) removal.policy failure with
    | (.error _, s) => s.drop index
    | (.ok (), s) => s.goOn index removal rest removal.policy

/-- What a purge or an opt-out that ends has removed. -/
def returnedBy (s : ServingNode β) (removal : Removal) : Returned where
  channel := toAsciiLowercase removal.userLogin
  removed := removal.seen.filter fun r => r ∉ s.visibleOf env removal.userLogin
  purges := s.purgeMs

/-- A step, without the history of what could be seen. -/
def stepCore (s : ServingNode β) (a : ServingAction) : ServingNode β :=
  match a with
  | .tick ms => { s with nowMs := s.nowMs + ms }
  | .node a => s.nodeStep env a
  | .mutate operation => if operation.Clocked then (s.mutateStep env operation).2 else s
  | .receive snapshot =>
    match s.cluster, env.owner with
    | some db, false => { s with cluster := some (db.given env.cluster snapshot) }
    | _, _ => s
  | .readPolicy channelLogin =>
    match s.cluster with
    | none => s
    | some db => { s with
        policies := s.policies ++ [(toAsciiLowercase channelLogin, db.policy channelLogin)] }
  | .applyRead reader failure =>
    match s.policies[reader]? with
    | none => s
    | some (channel, policy) => (s.applyPolicy env channel policy failure).2
  | .arrive uri peerMode =>
    { s with requests := s.requests ++ [⟨uri, peerMode, s.returned.length, .received⟩] }
  | .purge userLogin cutoffMs joined => { s with
      removals := s.removals ++
        [⟨userLogin, purgeAccesses s.cluster.isSome userLogin cutoffMs joined, default,
          s.visibleOf env userLogin⟩] }
  | .optOut userLogin => { s with
      removals := s.removals ++
        [⟨userLogin, optOutAccesses s.cluster.isSome userLogin s.nowMs, default,
          s.visibleOf env userLogin⟩] }
  | .advance index failure =>
    match s.removals[index]? with
    | some removal =>
      match removal.accesses with
      | [] => s
      | access :: rest => s.accessStep env index removal access rest failure
    | none => s
  | .abort index => s.drop index
  | .finish index =>
    match s.removals[index]? with
    | some removal =>
      match removal.accesses with
      | [] => { s with
          removals := s.removals.eraseIdx index
          returned := s.returned ++ [s.returnedBy env removal] }
      | _ => s
    | none => s
  | .request index a =>
    match s.requests[index]? with
    | some request => s.requestStep env index request a request.phase
    | none => s

/-- What can be seen now is noted for each removal that is under way. -/
def observe (s : ServingNode β) : ServingNode β :=
  { s with removals := s.removals.map fun removal =>
      { removal with seen := removal.seen ++ s.visibleOf env removal.userLogin } }

/-- One step; an action that is not possible does nothing. -/
def step (s : ServingNode β) (a : ServingAction) : ServingNode β := (s.stepCore env a).observe env

end ServingNode

end RecentMessages
