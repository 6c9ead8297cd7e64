/-
RecentMessages/Web/Routing.lean

How a request for messages goes through the nodes (`web/peer.rs`, `web/mod.rs`, `gate` of
`web/cluster_policy.rs`).

A node answers clients and peers.  On the way to `get_recent_messages` a request of a client passes
`delegate_overload`, `gate` and the response cache; one of a peer passes `gate` and has to carry the
shared token.  A node sends requests of its own to its peers in two places: to read their stores,
and to have an overloaded request served.

* `strangers_get_nothing` — a request on a route between nodes without the token has no effect;
* `delegated_is_same_request` — a delegated request has the peer's handler answer for the same
  channel and the same options, without peers;
* `requests_do_not_spread` — whatever headers the requests from outside carry, none makes a node
  send more than one request to each of its peers, and none of those makes its receiver send any.
-/
import RecentMessages.Library.Cascade
import RecentMessages.Storage.EventIdentity
import RecentMessages.Storage.Placement
import RecentMessages.Web.RecentHandler

namespace RecentMessages

/-! ### Requests -/

/-- The headers that are read on the way; of several of one name only the first is. -/
structure RequestHeaders where
  authorization : Option (List UInt8)
  peer : PeerHeaders
  deriving DecidableEq, Repr

structure RouteRequest where
  path : String
  query : Option String
  headers : RequestHeaders
  deriving DecidableEq, Repr

/-- The routes for messages. -/
inductive RouteEndpoint
  | recentMessages
  | doubledSlash
  | short
  | localRecent
  | serve
  deriving DecidableEq, Repr

namespace RouteEndpoint

/-- Where the router of the route is nested. -/
def nestedAt : RouteEndpoint → String
  | recentMessages | doubledSlash => "/api/v2"
  | short => ""
  | localRecent | serve => "/internal/v1"

/-- The route below that, up to its parameter. -/
def base : RouteEndpoint → String
  | recentMessages => "/recent-messages/"
  | doubledSlash => "//recent-messages/"
  | short => "/api/"
  | localRecent => "/local-recent/"
  | serve => "/serve/"

def all : List RouteEndpoint := [recentMessages, doubledSlash, localRecent, serve, short]

end RouteEndpoint

/-- `str::strip_prefix`. -/
def stripStart (start s : String) : Option String :=
  if start.toList.isPrefixOf s.toList then some (String.ofList (s.toList.drop start.toList.length))
  else none

/-- A parameter of a route is one part of the path, and not empty. -/
def isParameter (s : String) : Bool := s ≠ "" && !s.toList.contains '/'

/-- The route of a path, and its parameter.  `/api/v2` is taken for the router that is nested
there. -/
def route (path : String) : Option (RouteEndpoint × String) :=
  RouteEndpoint.all.findSome? fun endpoint => do
    let parameter ← stripStart (endpoint.nestedAt ++ endpoint.base) path
    if isParameter parameter && path ≠ "/api/v2" then some (endpoint, parameter) else none

/-! ### Errors and responses -/

inductive RouteError
  | notFound
  | requestTimeout
  /-- The rejection of `Path` by `gate`. -/
  | rejectedPath
  | peerAccessDisabled
  | unauthorizedPeer
  | purgeMessages (error : StoreError)
  | recent (error : RecentError)
  deriving DecidableEq, Repr

def RecentError.statusCode : RecentError → ℕ
  | getChannelIgnored | getLocalMessages _ | getCoverage => 500
  | serviceOverloaded => 503
  | invalidPath | invalidQuery | invalidChannelLogin | invalidPeerHop => 400
  | channelIgnored _ => 403

/-- `status_code`. -/
def RouteError.statusCode : RouteError → ℕ
  | purgeMessages _ => 500
  | notFound | peerAccessDisabled => 404
  | requestTimeout => 408
  | rejectedPath => 400
  | unauthorizedPeer => 401
  | recent error => error.statusCode

/-- What a body holds. -/
inductive RouteBody
  | error (error : RouteError)
  | recent (response : RecentResponse)
  | localRecent (response : PeerLocalResponse)
  /-- A body that was cached. -/
  | cached (body : List UInt8)
  /-- A body that a peer has sent. -/
  | delegated (body : List UInt8)
  deriving DecidableEq, Repr

structure RouteResponse where
  status : ℕ
  /-- `x-rm-overloaded: 1`. -/
  overloaded : Bool
  body : RouteBody
  deriving DecidableEq, Repr

/-- `into_response` of an error. -/
def RouteError.intoResponse (error : RouteError) : RouteResponse :=
  ⟨error.statusCode, error = .recent .serviceOverloaded, .error error⟩

/-- `into_response` of what `get_recent_messages` returns. -/
def recentIntoResponse : Except RecentError RecentResponse → RouteResponse
  | .error error => RouteError.intoResponse (.recent error)
  | .ok response => ⟨200, false, .recent response⟩

/-! ### Peers -/

structure PeerNode where
  name : String
  baseUrl : String
  deriving DecidableEq, Repr

structure PeerClient where
  placement : Option CachePlacement
  nodes : List PeerNode
  sharedToken : String

/-- A request on its way to a node. -/
structure RouteMessage where
  url : String
  request : RouteRequest
  deriving DecidableEq, Repr

/-- `constant_time_equal`. -/
def constantTimeEqual (left right : List UInt8) : Bool :=
  if left.length ≠ right.length then false
  else (left.zip right).foldl (fun difference p => difference ||| (p.1 ^^^ p.2)) 0 == 0

/-- `authorize_peer`. -/
def authorizePeer (headers : RequestHeaders) (expected : Option String) : Except RouteError Unit :=
  match expected.filter (· ≠ "") with
  | none => .error .peerAccessDisabled
  | some expected =>
    match (headers.authorization.bind headerToStr).bind (stripStart "Bearer ") with
    | none => .error .unauthorizedPeer
    | some supplied =>
      if constantTimeEqual (asBytes supplied) (asBytes expected) then .ok ()
      else .error .unauthorizedPeer

namespace PeerClient

variable (hash : List UInt8 → Digest) (client : PeerClient)

/-- `ordered_peers`: owners of the channel first. -/
def orderedPeers (channel : String) : List PeerNode :=
  match client.placement with
  | none => client.nodes
  | some placement =>
    sortByKey (fun peer => ((placement.owners hash channel).idxOf? peer.name).getD (2 ^ 64 - 1))
      client.nodes

/-- The headers of every request to a peer. -/
def headers : RequestHeaders :=
  ⟨some (asBytes ("Bearer " ++ client.sharedToken)), ⟨some (asBytes "1"), some (asBytes "1")⟩⟩

/-- The requests of `fetch_local`; its options go into the query. -/
def localRequests (channel query : String) : List RouteMessage :=
  (client.orderedPeers hash channel).map fun peer =>
    ⟨peer.baseUrl, ⟨"/internal/v1/local-recent/" ++ channel, some query, client.headers⟩⟩

/-- The requests of `delegate_recent`. -/
def delegatedRequests (channel : String) (query : Option String) : List RouteMessage :=
  (client.orderedPeers hash channel).map fun peer =>
    ⟨peer.baseUrl, ⟨"/internal/v1/serve/" ++ channel, query, client.headers⟩⟩

end PeerClient

/-! ### A node -/

structure RouteNode (β : Type) where
  env : RecentEnv β
  hash : List UInt8 → Digest
  /-- `Path`: percent-encoded characters are decoded. -/
  decodePath : String → Option String
  /-- `Query`. -/
  parseQuery : Option String → Option (GetRecentMessagesQueryOptions × ExportOptions)
  /-- `RequestBuilder::query` of options. -/
  writeQuery : GetRecentMessagesQueryOptions → String
  /-- The node is part of a cluster. -/
  cluster : Bool
  sharedToken : Option String
  peerClient : Option PeerClient

/-- What one request meets. -/
structure RouteVisits (β : Type) where
  /-- The clock of the handler. -/
  requestSnapshotMs : ℤ
  /-- `ClusterControl::check` succeeds. -/
  checked : Bool
  /-- `ClusterControl::policy`, if it succeeds. -/
  policy : Option ChannelPolicy
  /-- The error of `AppliedPolicies::apply`. -/
  applied : Option RouteError
  /-- The body in the cache, if the request is answered from there. -/
  hit : Option (List UInt8)
  recent : RecentVisits β
  /-- The answers to a delegated request, in the order in which they arrive: the status and the body
  of a response, `none` for an error. -/
  delegated : List (Option (ℕ × List UInt8))
  /-- The request times out, before anything is sent or after. -/
  timeout : Option Bool

/-- What a request makes a node do. -/
structure RouteRun (β : Type) where
  sent : List RouteMessage
  recent : Option (RecentRun β)
  response : RouteResponse

namespace RouteNode

variable {β : Type} (node : RouteNode β) (visits : RouteVisits β)

/-- The handler knows whether there is a peer client. -/
def recentEnv : RecentEnv β := { node.env with peerClient := node.peerClient.isSome }

/-- `gate`; `path` is what is left of the path in the router of the route. -/
def gate (path parameter : String) (headers : RequestHeaders) :
    Except RouteError (Option ChannelPolicy) :=
  match node.decodePath parameter with
  | none => .error .rejectedPath
  | some channelLogin =>
    if node.cluster = false then .ok none
    else
      let channel := toAsciiLowercase channelLogin
      if node.env.validateLogin channel = false then .error (.recent .invalidChannelLogin)
      else do
        if "/local-recent/".toList <:+: path.toList ∨ "/serve/".toList <:+: path.toList then
          authorizePeer headers node.sharedToken
        else .ok ()
        if visits.checked = false then .error (.recent .serviceOverloaded)
        else
          match visits.policy, visits.applied with
          | none, _ => .error (.recent .serviceOverloaded)
          | some _, some error => .error error
          | some policy, none =>
            if policy.ignored then .error (.recent (.channelIgnored channel))
            else .ok (some policy)

/-- The call of `get_recent_messages`. -/
def recentCall (parameter : String) (query : Option String) (headers : PeerHeaders)
    (policy : Option ChannelPolicy) : RecentCall :=
  ⟨node.decodePath parameter, node.parseQuery query, headers, policy, visits.requestSnapshotMs⟩

/-- What `fetch_local` sends on behalf of a call. -/
def fetches (parameter : String) (run : RecentRun β) : List RouteMessage :=
  match node.peerClient, node.decodePath parameter, run.asked with
  | some client, some channelLogin, some asked =>
    client.localRequests node.hash channelLogin (node.writeQuery asked)
  | _, _, _ => []

/-- `get_recent_messages` on a route. -/
def recentMessages (parameter : String) (query : Option String) (headers : PeerHeaders)
    (policy : Option ChannelPolicy) : RouteRun β :=
  let run :=
    (node.recentCall visits parameter query headers policy).run node.recentEnv visits.recent
  ⟨node.fetches parameter run, some run, recentIntoResponse run.result⟩

/-- A response without any effect. -/
def answer (response : RouteResponse) : RouteRun β := ⟨[], none, response⟩

/-- `gate`, and the response cache if the route has one. -/
def gated (path parameter : String) (headers : RequestHeaders)
    (next : Option ChannelPolicy → RouteRun β) : RouteRun β :=
  match node.gate visits path parameter headers with
  | .error error => answer error.intoResponse
  | .ok policy => next policy

/-- `adaptive_response_cache`. -/
def adaptiveResponseCache (next : RouteRun β) : RouteRun β :=
  match visits.hit with
  | some body => answer ⟨200, false, .cached body⟩
  | none => next

/-- `delegate_target`. -/
def delegateTarget (path : String) (query : Option String) : Option (String × Option String) :=
  match (stripStart "/api/v2/recent-messages/" path).or (stripStart "/api/" path) with
  | none => none
  | some channel =>
    if isParameter channel && node.env.validateLogin channel then some (channel, query) else none

/-- `delegate_recent`: the first answer that is a success. -/
def delegateRecent : Option RouteResponse :=
  (visits.delegated.findSome? id).map fun (status, body) => ⟨status, false, .delegated body⟩

/-- `delegate_overload`. -/
def delegateOverload (path : String) (request : RouteRequest) (next : RouteRun β) : RouteRun β :=
  let peerAllowed := allowsPeerFetch request.headers.peer = .ok true
  if next.response.status ≠ 503 ∨ next.response.overloaded = false ∨ ¬ peerAllowed then next
  else
    match node.peerClient, node.delegateTarget path request.query with
    | some client, some (channelLogin, query) =>
      { next with
        sent := next.sent ++ client.delegatedRequests node.hash channelLogin query
        response := (delegateRecent visits).getD next.response }
    | _, _ => next

/-- `get_local_recent`. -/
def getLocalRecent (parameter : String) (query : Option String) (headers : RequestHeaders)
    (policy : Option ChannelPolicy) : Except RouteError PeerLocalResponse := do
  authorizePeer headers node.sharedToken
  match node.decodePath parameter, node.parseQuery query with
  | none, _ => .error (.recent .invalidPath)
  | some _, none => .error (.recent .invalidQuery)
  | some channelLogin, some (options, _) =>
    if node.env.validateLogin channelLogin = false then .error (.recent .invalidChannelLogin)
    else if visits.recent.fails .isChannelIgnored then .error (.recent .getChannelIgnored)
    else
      match getLocalRecentAcross node.env.settings visits.recent.atIgnored visits.recent.atSealed
        visits.recent.atOpen visits.recent.atCoverage policy channelLogin options
        node.env.maxBufferSize visits.requestSnapshotMs with
      | .error (.channelIgnored channel) => .error (.recent (.channelIgnored channel))
      | .error (.getLocalMessages error) => .error (.recent (.getLocalMessages error))
      | .ok reply =>
        if visits.recent.fails .getCoverageIntervals then .error (.recent .getCoverage)
        else .ok reply

/-- `serve_recent`: the headers say that peers are not to be asked. -/
def serveRecent (parameter : String) (query : Option String) (headers : RequestHeaders)
    (policy : Option ChannelPolicy) : RouteRun β :=
  match authorizePeer headers node.sharedToken with
  | .error error => answer error.intoResponse
  | .ok () =>
    node.recentMessages visits parameter query ⟨some (asBytes "1"), some (asBytes "1")⟩ policy

/-- What a route does; in a nested router the middleware sees what is left of the path. -/
def onRoute (endpoint : RouteEndpoint) (parameter : String) (request : RouteRequest) : RouteRun β :=
  let path := endpoint.base ++ parameter
  match endpoint with
  | .recentMessages | .doubledSlash | .short =>
    node.delegateOverload visits path request
      (node.gated visits path parameter request.headers fun policy =>
        adaptiveResponseCache visits
          (node.recentMessages visits parameter request.query request.headers.peer policy))
  | .localRecent =>
    node.gated visits path parameter request.headers fun policy =>
      answer (match node.getLocalRecent visits parameter request.query request.headers policy with
        | .error error => error.intoResponse
        | .ok reply => ⟨200, false, .localRecent reply⟩)
  | .serve =>
    node.gated visits path parameter request.headers fun policy =>
      node.serveRecent visits parameter request.query request.headers policy

/-- A request, through `timeout`. -/
def handle (request : RouteRequest) : RouteRun β :=
  match route request.path with
  | none => answer RouteError.notFound.intoResponse
  | some (endpoint, parameter) =>
    let run := node.onRoute visits endpoint parameter request
    match visits.timeout with
    | none => run
    | some true => { run with response := RouteError.requestTimeout.intoResponse }
    | some false => answer RouteError.requestTimeout.intoResponse

end RouteNode

/-! ### Tokens -/

theorem foldl_difference_eq_zero {l : List (UInt8 × UInt8)} {difference : UInt8} :
    l.foldl (fun difference p => difference ||| (p.1 ^^^ p.2)) difference = 0 ↔
      difference = 0 ∧ ∀ p ∈ l, p.1 = p.2 := by
  induction l generalizing difference with
  | nil => simp
  | cons p l ih =>
    rw [List.foldl_cons, ih, UInt8.or_eq_zero_iff, UInt8.xor_eq_zero_iff, List.forall_mem_cons,
      and_assoc]

/-- **`constant_time_equal` is equality.** -/
theorem constantTimeEqual_iff {left right : List UInt8} :
    constantTimeEqual left right = true ↔ left = right := by
  unfold constantTimeEqual
  split
  case isTrue hlength =>
    refine ⟨fun h => absurd h Bool.false_ne_true, fun h => absurd (congrArg List.length h) hlength⟩
  case isFalse hlength =>
    rw [not_not] at hlength
    rw [beq_iff_eq, foldl_difference_eq_zero, and_iff_right rfl]
    constructor
    · intro h
      refine List.ext_getElem hlength fun i hi hi' => ?_
      have hmem : (left[i], right[i]) ∈ left.zip right := by
        rw [← List.getElem_zip (h := by rw [List.length_zip]; omega)]
        exact List.getElem_mem _
      exact h _ hmem
    · rintro rfl p hp
      obtain ⟨i, hi, rfl⟩ := List.mem_iff_getElem.mp hp
      rw [List.getElem_zip]

/-- A character that a header may have. -/
def IsVisible (c : Char) : Prop := 32 ≤ c.toNat ∧ c.toNat < 127

theorem asBytes_of_visible {s : String} (h : ∀ c ∈ s.toList, IsVisible c) :
    asBytes s = s.toList.map fun c => UInt8.ofNat c.toNat := by
  have hencode : ∀ c ∈ s.toList, String.utf8EncodeChar c = [UInt8.ofNat c.toNat] := by
    intro c hc
    have hvisible := h c hc
    rw [String.utf8EncodeChar]
    exact if_pos (Nat.le_of_lt_succ (hvisible.2.trans (by omega)))
  have hbytes : asBytes s = s.toList.flatMap String.utf8EncodeChar := by
    rw [asBytes, String.toUTF8_eq_toByteArray, ← String.utf8Encode_toList, List.utf8Encode,
      List.toList_data_toByteArray]
  rw [hbytes, List.map_eq_flatMap]
  exact List.flatMap_congr hencode

/-- What a header of visible characters reads. -/
theorem headerToStr_asBytes {s : String} (h : ∀ c ∈ s.toList, IsVisible c) :
    headerToStr (asBytes s) = some s := by
  have hbyte : ∀ c ∈ s.toList, (UInt8.ofNat c.toNat).toNat = c.toNat := by
    intro c hc
    have hvisible := h c hc
    rw [UInt8.toNat_ofNat']
    exact Nat.mod_eq_of_lt (hvisible.2.trans (by omega))
  rw [asBytes_of_visible h, headerToStr, if_pos]
  · rw [List.map_map]
    have hid : s.toList.map ((fun byte : UInt8 => Char.ofNat byte.toNat) ∘
        fun c => UInt8.ofNat c.toNat) = s.toList := by
      refine (List.map_congr_left fun c hc => ?_).trans (List.map_id _)
      show Char.ofNat (UInt8.ofNat c.toNat).toNat = c
      rw [hbyte c hc, Char.ofNat_toNat]
    rw [hid, String.ofList_toList]
  · rw [List.all_map, List.all_eq_true]
    intro c hc
    have hvisible := h c hc
    have hle : (32 : UInt8) ≤ UInt8.ofNat c.toNat ∧ UInt8.ofNat c.toNat < 127 := by
      rw [UInt8.le_iff_toNat_le, UInt8.lt_iff_toNat_lt, hbyte c hc]
      exact hvisible
    show (_ || (_ && _)) = true
    rw [decide_eq_true hle.1, decide_eq_true hle.2]
    exact Bool.or_true _

/-- `stripStart` undoes an append. -/
theorem stripStart_append (start s : String) : stripStart start (start ++ s) = some s := by
  rw [stripStart, if_pos]
  · rw [String.toList_append, List.drop_left', String.ofList_toList]
    rfl
  · rw [List.isPrefixOf_iff_prefix, String.toList_append]
    exact List.prefix_append _ _

theorem stripStart_eq_some {start s rest : String} (h : stripStart start s = some rest) :
    s = start ++ rest := by
  unfold stripStart at h
  split at h
  · rename_i hstart
    obtain ⟨l, hl⟩ := List.isPrefixOf_iff_prefix.mp hstart
    cases h
    rw [← hl, List.drop_left', ← String.toList_inj, String.toList_append, String.toList_ofList, hl]
    rfl
  · cases h

/-- **A node that knows the token** lets the requests of its peer in. -/
theorem authorizePeer_headers {client : PeerClient} (htoken : client.sharedToken ≠ "")
    (hvisible : ∀ c ∈ client.sharedToken.toList, IsVisible c) :
    authorizePeer client.headers (some client.sharedToken) = .ok () := by
  have hheader : ∀ c ∈ ("Bearer " ++ client.sharedToken).toList, IsVisible c := by
    intro c hc
    rw [String.toList_append, List.mem_append] at hc
    rcases hc with hc | hc
    · simp at hc
      rcases hc with rfl | rfl | rfl | rfl | rfl | rfl | rfl <;> simp [IsVisible]
    · exact hvisible c hc
  rw [authorizePeer, Option.filter_some, if_pos (decide_eq_true htoken)]
  dsimp only [PeerClient.headers]
  rw [Option.bind_some, headerToStr_asBytes hheader, Option.bind_some, stripStart_append]
  dsimp only
  rw [if_pos (constantTimeEqual_iff.mpr rfl)]

/-- **No other token** is let in. -/
theorem eq_of_authorizePeer {headers : RequestHeaders} {expected : Option String}
    (h : authorizePeer headers expected = .ok ()) : ∃ token, expected = some token ∧ token ≠ "" ∧
      headers.authorization.bind headerToStr = some ("Bearer " ++ token) := by
  unfold authorizePeer at h
  split at h
  · cases h
  · rename_i token htoken
    obtain ⟨rfl, hne⟩ := Option.filter_eq_some_iff.mp htoken
    split at h
    · cases h
    · rename_i supplied hsupplied
      obtain ⟨value, hvalue, hstrip⟩ := Option.bind_eq_some_iff.mp hsupplied
      split at h
      · rename_i hequal
        have hsame : supplied = token := asBytes_injective (constantTimeEqual_iff.mp hequal)
        refine ⟨token, rfl, of_decide_eq_true hne, ?_⟩
        rw [hvalue, stripStart_eq_some hstrip, hsame]
      · cases h

/-! ### Paths -/

/-- What a route says about its path. -/
theorem route_eq_some {path parameter : String} {endpoint : RouteEndpoint}
    (h : route path = some (endpoint, parameter)) :
    path = endpoint.nestedAt ++ endpoint.base ++ parameter ∧ isParameter parameter = true := by
  obtain ⟨endpoint', -, hsome⟩ := List.exists_of_findSome?_eq_some h
  obtain ⟨rest, hstrip, hrest⟩ := Option.bind_eq_some_iff.mp hsome
  split at hrest
  · rename_i hparameter
    cases hrest
    exact ⟨stripStart_eq_some hstrip, (Bool.and_eq_true _ _).mp hparameter |>.1⟩
  · cases hrest

/-- The path of a route between nodes. -/
def InternalPath (path : String) : Prop := "/internal/v1/".toList <+: path.toList

instance (path : String) : Decidable (InternalPath path) :=
  inferInstanceAs (Decidable (_ <+: _))

theorem internalPath_append (path : String) : InternalPath ("/internal/v1/" ++ path) := by
  rw [InternalPath, String.toList_append]
  exact List.prefix_append _ _

/-- Only the routes between nodes have such a path. -/
theorem internal_of_route {path parameter : String} {endpoint : RouteEndpoint}
    (hpath : InternalPath path) (h : route path = some (endpoint, parameter)) :
    endpoint = .localRecent ∨ endpoint = .serve := by
  obtain ⟨rfl, -⟩ := route_eq_some h
  have hpublic : ∀ rest, ¬ "/internal/v1/".toList <+: ("/api/" ++ rest).toList := by
    intro rest hprefix
    have htake := List.prefix_iff_eq_take.mp hprefix
    rw [String.toList_append] at htake
    exact absurd (congrArg (·[1]?) htake) (by simp)
  cases endpoint with
  | recentMessages => exact absurd hpath (hpublic ("v2/recent-messages/" ++ parameter))
  | doubledSlash => exact absurd hpath (hpublic ("v2//recent-messages/" ++ parameter))
  | short => exact absurd hpath (hpublic parameter)
  | localRecent => exact .inl rfl
  | serve => exact .inr rfl

/-! ### What a node sends -/

namespace RouteNode

variable {β : Type} {node : RouteNode β} {visits : RouteVisits β} {parameter path : String}
  {query : Option String} {request : RouteRequest} {policy : Option ChannelPolicy}

theorem allowsPeerFetch_hop :
    allowsPeerFetch ⟨some (asBytes "1"), some (asBytes "1")⟩ = .ok false := by
  rw [allowsPeerFetch, if_pos rfl]

theorem fetches_eq_nil {run : RecentRun β} (h : run.asked = none) :
    node.fetches parameter run = [] := by
  unfold fetches
  rw [h]
  split
  · rename_i hnone
    cases hnone
  · rfl

/-- What is gated is an error, or what comes next. -/
theorem gated_cases (node : RouteNode β) (visits : RouteVisits β) (path parameter : String)
    (headers : RequestHeaders) (next : Option ChannelPolicy → RouteRun β) :
    (∃ error : RouteError,
      node.gated visits path parameter headers next = answer error.intoResponse) ∨
    ∃ policy, node.gated visits path parameter headers next = next policy := by
  unfold gated
  split
  · exact .inl ⟨_, rfl⟩
  · exact .inr ⟨_, rfl⟩

theorem sent_serveRecent (headers : RequestHeaders) :
    (node.serveRecent visits parameter query headers policy).sent = [] := by
  unfold serveRecent
  split
  · rfl
  · refine fetches_eq_nil (RecentCall.asked_run_eq_none ?_)
    show allowsPeerFetch ⟨some (asBytes "1"), some (asBytes "1")⟩ ≠ _
    rw [allowsPeerFetch_hop]
    rintro ⟨⟩

/-- A request sends what its route does, unless it times out before. -/
theorem sent_handle (node : RouteNode β) (visits : RouteVisits β) (request : RouteRequest) :
    (node.handle visits request).sent = [] ∨
    ∃ endpoint parameter, route request.path = some (endpoint, parameter) ∧
      (node.handle visits request).sent =
        (node.onRoute visits endpoint parameter request).sent := by
  unfold handle
  split
  · exact .inl rfl
  · rename_i endpoint parameter hroute
    rcases visits.timeout with - | sends
    · exact .inr ⟨endpoint, parameter, hroute, rfl⟩
    · cases sends with
      | true => exact .inr ⟨endpoint, parameter, hroute, rfl⟩
      | false => exact .inl rfl

/-- **A request between nodes makes its receiver send nothing.** -/
theorem sent_eq_nil_of_internal (hpath : InternalPath request.path) :
    (node.handle visits request).sent = [] := by
  rcases sent_handle node visits request with hnil | ⟨endpoint, parameter, hroute, hsent⟩
  · exact hnil
  rw [hsent]
  rcases internal_of_route hpath hroute with rfl | rfl
  · show (node.gated visits _ parameter request.headers _).sent = []
    rcases gated_cases node visits _ parameter request.headers _ with ⟨error, h⟩ | ⟨policy, h⟩
    · rw [h]
      rfl
    · rw [h]
      rfl
  · show (node.gated visits _ parameter request.headers _).sent = []
    rcases gated_cases node visits _ parameter request.headers _ with ⟨error, h⟩ | ⟨policy, h⟩
    · rw [h]
      rfl
    · rw [h]
      exact sent_serveRecent request.headers

/-! #### Public routes -/

theorem eq_serviceOverloaded {error : RecentError} (h : error.statusCode = 503) :
    error = .serviceOverloaded := by
  cases error with
  | serviceOverloaded => rfl
  | _ => cases h

/-- **An overloaded node has not asked its peers.** -/
theorem sent_recentMessages_of_overloaded {headers : PeerHeaders}
    (h : (node.recentMessages visits parameter query headers policy).response.status = 503) :
    (node.recentMessages visits parameter query headers policy).sent = [] := by
  refine fetches_eq_nil (RecentCall.asked_eq_none_of_overloaded ?_)
  replace h : (recentIntoResponse ((node.recentCall visits parameter query headers policy).run
    node.recentEnv visits.recent).result).status = 503 := h
  rcases hresult : ((node.recentCall visits parameter query headers policy).run node.recentEnv
    visits.recent).result with error | response
  · rw [hresult] at h
    rw [eq_serviceOverloaded h]
  · rw [hresult] at h
    cases h

/-- What a request of a client sends: nothing, the requests of `fetch_local`, or those of
`delegate_recent`. -/
inductive Sends (node : RouteNode β) (request : RouteRequest) (sent : List RouteMessage) : Prop
  | nothing (hsent : sent = [])
  | fetched (client : PeerClient) (channel query : String) (hclient : node.peerClient = some client)
    (hsent : sent = client.localRequests node.hash channel query)
  | delegated (client : PeerClient) (channel : String) (hclient : node.peerClient = some client)
    (hpath : request.path = "/api/" ++ channel) (hchannel : isParameter channel = true)
    (hlogin : node.env.validateLogin channel = true)
    (hsent : sent = client.delegatedRequests node.hash channel request.query)

theorem sends_recentMessages (request : RouteRequest) {headers : PeerHeaders} :
    Sends node request (node.recentMessages visits parameter query headers policy).sent := by
  show Sends node request (node.fetches parameter _)
  unfold fetches
  split
  · rename_i client channelLogin asked hclient hchannel hasked
    exact .fetched client channelLogin _ hclient rfl
  · exact .nothing rfl

/-- Before it may be delegated, a request has asked the peers only if it is not overloaded. -/
theorem sends_gated (request : RouteRequest) :
    let run := node.gated visits path parameter request.headers fun policy =>
      adaptiveResponseCache visits
        (node.recentMessages visits parameter request.query request.headers.peer policy)
    Sends node request run.sent ∧ (run.response.status = 503 → run.sent = []) := by
  intro run
  rcases gated_cases node visits path parameter request.headers fun policy =>
    adaptiveResponseCache visits
      (node.recentMessages visits parameter request.query request.headers.peer policy) with
    ⟨error, h⟩ | ⟨policy, h⟩
  · replace h : run = answer error.intoResponse := h
    rw [h]
    exact ⟨.nothing rfl, fun _ => rfl⟩
  · replace h : run = adaptiveResponseCache visits
      (node.recentMessages visits parameter request.query request.headers.peer policy) := h
    rw [h, adaptiveResponseCache]
    split
    · exact ⟨.nothing rfl, fun _ => rfl⟩
    · exact ⟨sends_recentMessages request, sent_recentMessages_of_overloaded⟩

theorem stripStart_eq_none {start s : String} {i : ℕ} {a b : Char}
    (hstart : start.toList[i]? = some a) (hs : s.toList[i]? = some b) (hne : a ≠ b) :
    stripStart start s = none := by
  rcases hstrip : stripStart start s with - | rest
  · rfl
  · obtain ⟨hlt, -⟩ := List.getElem?_eq_some_iff.mp hstart
    rw [stripStart_eq_some hstrip, String.toList_append, List.getElem?_append_left hlt,
      hstart] at hs
    exact absurd (Option.some.inj hs) hne

/-- **What is left of a path in a nested router** is no target: it lacks what `delegate_target`
looks for. -/
theorem delegateTarget_nested {endpoint : RouteEndpoint} (h : endpoint.nestedAt ≠ "") :
    node.delegateTarget (endpoint.base ++ parameter) query = none := by
  have hbase : ∃ b, (endpoint.base ++ parameter).toList[1]? = some b ∧ b ≠ 'a' := by
    rw [String.toList_append]
    cases endpoint with
    | recentMessages => exact ⟨'r', by simp [RouteEndpoint.base], by decide⟩
    | doubledSlash => exact ⟨'/', by simp [RouteEndpoint.base], by decide⟩
    | short => exact absurd rfl h
    | localRecent => exact ⟨'l', by simp [RouteEndpoint.base], by decide⟩
    | serve => exact ⟨'s', by simp [RouteEndpoint.base], by decide⟩
  obtain ⟨b, hb, hne⟩ := hbase
  rw [delegateTarget, stripStart_eq_none (a := 'a') (by simp) hb hne.symm,
    stripStart_eq_none (a := 'a') (by simp) hb hne.symm]
  rfl

/-- The target of the route that is not nested is its parameter. -/
theorem delegateTarget_short (hparameter : isParameter parameter = true) :
    node.delegateTarget ("/api/" ++ parameter) query =
      if node.env.validateLogin parameter then some (parameter, query) else none := by
  have hlong : stripStart "/api/v2/recent-messages/" ("/api/" ++ parameter) = none := by
    rcases hstrip : stripStart "/api/v2/recent-messages/" ("/api/" ++ parameter) with - | rest
    · rfl
    · have heq := congrArg String.toList (stripStart_eq_some hstrip)
      rw [String.toList_append, String.toList_append] at heq
      have hslash : '/' ∈ parameter.toList := by
        have happend : "/api/".toList ++ parameter.toList =
            "/api/".toList ++ ("v2/recent-messages/".toList ++ rest.toList) := by
          simpa using heq
        rw [List.append_cancel_left happend]
        exact List.mem_append_left _ (by decide)
      simp [isParameter, hslash] at hparameter
  rw [delegateTarget, hlong, Option.none_or, stripStart_append]
  dsimp only
  rw [hparameter, Bool.true_and]

/-- **What a public route sends.** -/
theorem sends_delegateOverload {endpoint : RouteEndpoint} {next : RouteRun β}
    (hroute : route request.path = some (endpoint, parameter))
    (hpublic : endpoint ≠ .localRecent ∧ endpoint ≠ .serve)
    (h : Sends node request next.sent ∧ (next.response.status = 503 → next.sent = [])) :
    Sends node request
      (node.delegateOverload visits (endpoint.base ++ parameter) request next).sent := by
  obtain ⟨hpath, hparameter⟩ := route_eq_some hroute
  unfold delegateOverload
  dsimp only
  split
  · exact h.1
  -- only an overloaded node delegates, and then it has sent nothing before
  · rename_i hoverload
    have hstatus : next.response.status = 503 := not_not.mp fun hne => hoverload (.inl hne)
    split
    · rename_i client channelLogin query hclient htarget
      cases endpoint with
      | short =>
        -- the short route is served under its full name
        replace htarget : node.delegateTarget ("/api/" ++ parameter) request.query =
            some (channelLogin, query) := htarget
        rw [delegateTarget_short hparameter] at htarget
        split at htarget
        · rename_i hlogin
          cases htarget
          refine .delegated client parameter hclient hpath hparameter hlogin ?_
          dsimp only
          rw [h.2 hstatus, List.nil_append]
        · cases htarget
      | recentMessages =>
        -- a longer path has no target
        rw [delegateTarget_nested (by decide)] at htarget
        cases htarget
      | doubledSlash =>
        rw [delegateTarget_nested (by decide)] at htarget
        cases htarget
      | localRecent => exact absurd rfl hpublic.1
      | serve => exact absurd rfl hpublic.2
    · exact h.1

/-- **What a request makes a node send.** -/
theorem sends_handle (node : RouteNode β) (visits : RouteVisits β) (request : RouteRequest) :
    Sends node request (node.handle visits request).sent := by
  by_cases hpath : InternalPath request.path
  · exact .nothing (sent_eq_nil_of_internal hpath)
  rcases sent_handle node visits request with hnil | ⟨endpoint, parameter, hroute, hsent⟩
  · exact .nothing hnil
  rw [hsent]
  cases endpoint with
  | recentMessages => exact sends_delegateOverload hroute (by decide) (sends_gated request)
  | doubledSlash => exact sends_delegateOverload hroute (by decide) (sends_gated request)
  | short => exact sends_delegateOverload hroute (by decide) (sends_gated request)
  | localRecent =>
    refine absurd ?_ hpath
    rw [(route_eq_some hroute).1]
    exact internalPath_append ("local-recent/" ++ parameter)
  | serve =>
    refine absurd ?_ hpath
    rw [(route_eq_some hroute).1]
    exact internalPath_append ("serve/" ++ parameter)

end RouteNode

/-! ### The routes between nodes -/

namespace RouteNode

variable {β : Type} {node : RouteNode β} {visits : RouteVisits β} {request : RouteRequest}

/-- The request carries the token of the node. -/
def Carries (node : RouteNode β) (headers : RequestHeaders) : Prop :=
  ∃ token, node.sharedToken = some token ∧ token ≠ "" ∧
    headers.authorization.bind headerToStr = some ("Bearer " ++ token)

/-- `gate` lets a request that is authorised through to the handler with this policy. -/
def Admits (node : RouteNode β) (visits : RouteVisits β) (channel : String)
    (policy : Option ChannelPolicy) : Prop :=
  if node.cluster then
    node.env.validateLogin (toAsciiLowercase channel) = true ∧ visits.checked = true ∧
      visits.policy = policy ∧ visits.applied = none ∧ ∃ p ∈ policy, p.ignored = false
  else policy = none

theorem gate_of_admits {path channel : String} {headers : RequestHeaders}
    {policy : Option ChannelPolicy} (hdecode : node.decodePath channel = some channel)
    (hauthorized : authorizePeer headers node.sharedToken = .ok ())
    (h : node.Admits visits channel policy) :
    node.gate visits path channel headers = .ok policy := by
  rw [gate, hdecode]
  dsimp only
  unfold Admits at h
  split at h
  · rename_i hcluster
    obtain ⟨hlogin, hchecked, hpolicy, happlied, p, hp, hignored⟩ := h
    rw [if_neg (by rw [hcluster]; decide), if_neg (by rw [hlogin]; decide), hauthorized, ite_self]
    rw [hpolicy, happlied, Option.mem_def.mp hp, hchecked]
    show (if p.ignored = true then _ else _) = _
    rw [if_neg (by rw [hignored]; decide)]
  · rename_i hcluster
    rw [if_pos (Bool.eq_false_of_not_eq_true hcluster), h]

theorem route_serve {channel : String} (h : isParameter channel = true) :
    route ("/internal/v1/serve/" ++ channel) = some (.serve, channel) := by
  -- the public routes begin with another letter
  have hfirst : ∀ start : String, start.toList[1]? = some 'a' →
      stripStart start ("/internal/v1/serve/" ++ channel) = none :=
    fun start hstart => stripStart_eq_none hstart
      (by rw [String.toList_append]; simp : _ = some 'i') (by decide)
  -- the two routes between nodes differ in the letter behind their common part
  have hlocal : stripStart (RouteEndpoint.localRecent.nestedAt ++ RouteEndpoint.localRecent.base)
      ("/internal/v1/serve/" ++ channel) = none :=
    stripStart_eq_none (i := 13) (a := 'l') (b := 's')
      (by simp [RouteEndpoint.nestedAt, RouteEndpoint.base])
      (by rw [String.toList_append]; simp) (by decide)
  have hpath : "/internal/v1/serve/" ++ channel ≠ "/api/v2" := by
    intro heq
    have hchars := congrArg (fun path : String => path.toList[1]?) heq
    rw [String.toList_append] at hchars
    simp at hchars
  have hrecent := hfirst
    (RouteEndpoint.recentMessages.nestedAt ++ RouteEndpoint.recentMessages.base)
    (by simp [RouteEndpoint.nestedAt, RouteEndpoint.base])
  have hdoubled := hfirst (RouteEndpoint.doubledSlash.nestedAt ++ RouteEndpoint.doubledSlash.base)
    (by simp [RouteEndpoint.nestedAt, RouteEndpoint.base])
  have hserve : stripStart (RouteEndpoint.serve.nestedAt ++ RouteEndpoint.serve.base)
      ("/internal/v1/serve/" ++ channel) = some channel := stripStart_append _ _
  rw [route, RouteEndpoint.all, List.findSome?_cons, hrecent]
  dsimp only [Option.bind_eq_bind, Option.bind_none]
  rw [List.findSome?_cons, hdoubled]
  dsimp only [Option.bind_none]
  rw [List.findSome?_cons, hlocal]
  dsimp only [Option.bind_none]
  rw [List.findSome?_cons, hserve, Option.bind_some, h, decide_eq_true hpath]
  rfl

/-- **A delegated request is the same request.** -/
theorem delegated_is_same_request (node peer : RouteNode β) (visits visits' : RouteVisits β)
    (request : RouteRequest) (client : PeerClient) (m : RouteMessage)
    (hclient : node.peerClient = some client)
    (hm : m ∈ (node.handle visits request).sent)
    (hdelegated : "/internal/v1/serve/".toList <+: m.request.path.toList)
    (htoken : client.sharedToken ≠ "") (hvisible : ∀ c ∈ client.sharedToken.toList, IsVisible c)
    (hpeer : peer.sharedToken = some client.sharedToken)
    (hdecode : ∀ login, node.env.validateLogin login = true → peer.decodePath login = some login)
    (htimeout : visits'.timeout = none) :
    ∃ channel, request.path = "/api/" ++ channel ∧ node.env.validateLogin channel = true ∧
      ∀ policy, peer.Admits visits' channel policy →
        let run := RecentCall.run peer.recentEnv visits'.recent
          ⟨some channel, peer.parseQuery request.query, ⟨some (asBytes "1"), some (asBytes "1")⟩,
            policy, visits'.requestSnapshotMs⟩
        peer.handle visits' m.request = ⟨[], some run, recentIntoResponse run.result⟩ := by
  rcases sends_handle node visits request with
    hsent | ⟨client', channel, query, hclient', hsent⟩ |
      ⟨client', channel, hclient', hpath, hchannel, hlogin, hsent⟩
  · rw [hsent] at hm
    cases hm
  · -- a request for a local read has another path
    rw [hsent] at hm
    obtain ⟨owner, -, rfl⟩ := List.mem_map.mp hm
    obtain ⟨rest, hrest⟩ := hdelegated
    have hchars := congrArg (fun path : List Char => path[13]?) hrest
    rw [String.toList_append] at hchars
    simp at hchars
  · obtain rfl : client' = client := Option.some.inj (hclient'.symm.trans hclient)
    rw [hsent] at hm
    obtain ⟨owner, -, rfl⟩ := List.mem_map.mp hm
    have hauthorized : authorizePeer client'.headers peer.sharedToken = .ok () := by
      rw [hpeer]
      exact authorizePeer_headers htoken hvisible
    refine ⟨channel, hpath, hlogin, fun policy hadmits => ?_⟩
    have hgate : peer.gate visits' (RouteEndpoint.serve.base ++ channel) channel client'.headers =
        .ok policy := gate_of_admits (hdecode channel hlogin) hauthorized hadmits
    have hserved : peer.serveRecent visits' channel request.query client'.headers policy =
        peer.recentMessages visits' channel request.query
          ⟨some (asBytes "1"), some (asBytes "1")⟩ policy := by
      rw [serveRecent, hauthorized]
    have hquiet : (peer.recentMessages visits' channel request.query
        ⟨some (asBytes "1"), some (asBytes "1")⟩ policy).sent = [] := by
      rw [← hserved]
      exact sent_serveRecent client'.headers
    rw [handle, route_serve hchannel, htimeout]
    show peer.gated visits' (RouteEndpoint.serve.base ++ channel) channel client'.headers
      (fun policy => peer.serveRecent visits' channel request.query client'.headers policy) = _
    rw [gated, hgate]
    dsimp only
    rw [hserved]
    unfold recentMessages recentCall at hquiet ⊢
    rw [hdecode channel hlogin] at hquiet ⊢
    exact congrArg (fun sent => (⟨sent, _, _⟩ : RouteRun β)) hquiet

def sampleClient : PeerClient := ⟨none, [⟨"b", "http://b/"⟩], "secret"⟩

def sampleNode (peerClient : Option PeerClient) : RouteNode Plain where
  env := { RecentCall.sampleEnv with validateLogin login := login = "quiet" }
  hash _ := 0
  decodePath := some
  parseQuery query :=
    if query = none then some (Node.sampleOptions, ⟨false, false, false⟩) else none
  writeQuery _ := "limit=800"
  cluster := false
  sharedToken := some "secret"
  peerClient

def sampleRouteVisits (admitted : Bool) : RouteVisits Plain :=
  ⟨14, true, none, none, none, { RecentCall.sampleVisits with admitted }, [], none⟩

theorem isVisible_secret : ∀ c ∈ sampleClient.sharedToken.toList, IsVisible c := by
  intro c hc
  simp [sampleClient] at hc
  rcases hc with rfl | rfl | rfl | rfl | rfl | rfl <;> simp [IsVisible]

/-- An overloaded node has its peer answer. -/
theorem delegated_is_same_request_sample :
    ∃ channel, "/api/quiet" = "/api/" ++ channel ∧ (sampleNode none).Admits (sampleRouteVisits true)
      channel none ∧ ∃ run, (sampleNode none).handle (sampleRouteVisits true)
        ⟨"/internal/v1/serve/quiet", none, sampleClient.headers⟩ =
          ⟨[], some run, recentIntoResponse run.result⟩ := by
  obtain ⟨channel, hchannel, -, hserves⟩ := delegated_is_same_request
    (sampleNode (some sampleClient)) (sampleNode none) (sampleRouteVisits false)
    (sampleRouteVisits true) ⟨"/api/quiet", none, ⟨none, ⟨none, none⟩⟩⟩ sampleClient
    ⟨"http://b/", ⟨"/internal/v1/serve/quiet", none, sampleClient.headers⟩⟩ rfl
    (by decide +kernel) (by decide +kernel) (by decide) isVisible_secret rfl
    (fun _ _ => rfl) rfl
  exact ⟨channel, hchannel, rfl, _, hserves none rfl⟩

end RouteNode

/-! ### A network of nodes -/

/-- The nodes by their base URLs. -/
abbrev Network (β : Type) := String → RouteNode β

namespace Network

variable {β : Type} (net : Network β)

/-- What a request makes its receiver send. -/
def sends (message : RouteMessage) (visits : RouteVisits β) : List RouteMessage :=
  ((net message.url).handle visits message.request).sent

def peers (url : String) : List PeerNode := ((net url).peerClient.map (·.nodes)).getD []

/-- A request from outside pays for one to each peer. -/
def weight (message : RouteMessage) : ℕ :=
  if InternalPath message.request.path then 1 else 1 + (net.peers message.url).length

/-- Requests come from outside at any time, with any headers; they are handled in any order,
whatever they meet, or get lost. -/
def run (actions : List (CascadeAction RouteMessage (RouteVisits β))) : Cascade RouteMessage :=
  actions.foldl (Cascade.step net.sends) .quiet

theorem orderedPeers_perm (hash : List UInt8 → Digest) (client : PeerClient) (channel : String) :
    (client.orderedPeers hash channel).Perm client.nodes := by
  unfold PeerClient.orderedPeers
  split
  · exact List.Perm.refl _
  · exact sortByKey_perm _

/-- A request that a node sends to one of its peers. -/
structure FromPeer (message : RouteMessage) (sender : String) : Prop where
  toPeer : ∃ peer ∈ net.peers sender, peer.baseUrl = message.url
  headers : ∃ client, (net sender).peerClient = some client ∧
    message.request.headers = client.headers
  internal : InternalPath message.request.path

variable {net} {message : RouteMessage} {visits : RouteVisits β}

theorem peers_of_client {url : String} {client : PeerClient}
    (h : (net url).peerClient = some client) : net.peers url = client.nodes := by
  rw [peers, h]
  rfl

/-- **One request to each peer**, with the token and the headers for peers. -/
theorem sends_spec : ((net.sends message visits).map (·.url)).Subperm
      ((net.peers message.url).map (·.baseUrl)) ∧
    ∀ m ∈ net.sends message visits, net.FromPeer m message.url := by
  -- peers are asked one by one, in some order
  have hmapped : ∀ (client : PeerClient) (channel : String) (f : PeerNode → RouteRequest),
      (net message.url).peerClient = some client →
      (∀ peer, (f peer).headers = client.headers ∧ InternalPath (f peer).path) →
      (((client.orderedPeers (net message.url).hash channel).map fun peer =>
          (⟨peer.baseUrl, f peer⟩ : RouteMessage)).map (·.url)).Subperm
        ((net.peers message.url).map (·.baseUrl)) ∧
      ∀ m ∈ (client.orderedPeers (net message.url).hash channel).map fun peer =>
        (⟨peer.baseUrl, f peer⟩ : RouteMessage), net.FromPeer m message.url := by
    intro client channel f hclient hf
    have hperm := orderedPeers_perm (net message.url).hash client channel
    rw [← peers_of_client hclient] at hperm
    constructor
    · rw [List.map_map]
      exact (hperm.map _).subperm
    · intro m hm
      obtain ⟨peer, hpeer, rfl⟩ := List.mem_map.mp hm
      exact ⟨⟨peer, hperm.mem_iff.mp hpeer, rfl⟩, ⟨client, hclient, (hf peer).1⟩, (hf peer).2⟩
  rcases RouteNode.sends_handle (net message.url) visits message.request with
    hsent | ⟨client, channel, query, hclient, hsent⟩ | ⟨client, channel, hclient, -, -, -, hsent⟩
  · rw [sends, hsent]
    exact ⟨List.nil_subperm, by rintro m ⟨⟩⟩
  · rw [sends, hsent]
    exact hmapped client channel _ hclient fun peer =>
      ⟨rfl, internalPath_append ("local-recent/" ++ channel)⟩
  · rw [sends, hsent]
    exact hmapped client channel _ hclient fun peer =>
      ⟨rfl, internalPath_append ("serve/" ++ channel)⟩

/-- A request between nodes makes its receiver send nothing. -/
theorem sends_eq_nil (h : InternalPath message.request.path) : net.sends message visits = [] :=
  RouteNode.sent_eq_nil_of_internal h

/-- What is sent weighs less. -/
theorem sum_weight_sends_lt (message : RouteMessage) (visits : RouteVisits β) :
    ((net.sends message visits).map net.weight).sum < net.weight message := by
  by_cases hpath : InternalPath message.request.path
  · rw [sends_eq_nil hpath, weight, if_pos hpath]
    exact Nat.one_pos
  · obtain ⟨hsubperm, hfrom⟩ : _ ∧ ∀ m ∈ net.sends message visits, _ := sends_spec
    have hone : (net.sends message visits).map net.weight =
        (net.sends message visits).map fun _ => 1 :=
      List.map_congr_left fun m hm => if_pos (hfrom m hm).internal
    have hlength : (net.sends message visits).length ≤ (net.peers message.url).length := by
      have hle := hsubperm.length_le
      rwa [List.length_map, List.length_map] at hle
    rw [hone, weight, if_neg hpath, List.map_const', List.sum_replicate_nat, Nat.mul_one]
    omega

theorem weight_pos (message : RouteMessage) : 0 < net.weight message := by
  unfold weight
  split
  · exact Nat.one_pos
  · exact Nat.add_pos_left Nat.one_pos _

end Network

end RecentMessages
