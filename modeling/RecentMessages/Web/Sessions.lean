/-
RecentMessages/Web/Sessions.lean

Sessions of users (`web/auth_middleware.rs`, `web/auth_endpoints.rs`).

A request reads the session of its token, has it confirmed by Twitch, which may take
a while, and writes its copy back; `extend_token` writes it once more.  Meanwhile
another request may revoke the token.

The write is an `UPDATE` in the cluster's database, which finds no row then, and an
upsert in a node's own, which puts the session back (`session_restored`).  So a
revocation is final exactly when there is no such write (`revocation_final`).
-/
import RecentMessages.Control.Cluster
import RecentMessages.Library.Runs

namespace RecentMessages

/-! ### Stores of sessions -/

/-- `SET` of all columns but `access_token`. -/
def UserAuthorization.store (auth row : UserAuthorization) : UserAuthorization :=
  { auth with accessToken := row.accessToken }

theorem UserAuthorization.accessToken_store (auth row : UserAuthorization) :
    (auth.store row).accessToken = row.accessToken := rfl

namespace ClusterDb

/-- `valid_until_ms>=?`, of an integer column: a text is greater than any integer. -/
def validUntilGe (nowMs : ℤ) (row : List SqlValue) : Bool :=
  match (row[4]? : Option SqlValue) with
  | some (.integer validUntil) => nowMs ≤ validUntil
  | some (.text _) => true
  | some (.real _) => true  -- the value fails the query in any case
  | _ => false

/-- The session in a row. -/
def authOfRow (row : List SqlValue) : Except ClusterError UserAuthorization := do
  let values ← row.mapM jsonValue
  return {
    accessToken := ← stringAt values 0
    twitchToken := ⟨← stringAt values 1, ← stringAt values 2⟩
    twitchAuthorizationLastValidated := ← integerAt values 3
    validUntil := ← integerAt values 4
    userId := ← stringAt values 5
    userLogin := ← stringAt values 6
    userName := ← stringAt values 7
    userProfileImageUrl := ← stringAt values 8 }

/-- `auth`. -/
def auth (db : ClusterDb) (token : String) (nowMs : ℤ) :
    Except ClusterError (Option UserAuthorization) :=
  match db.sessions.find? fun row => hasToken (.text token) row && validUntilGe nowMs row with
  | none => .ok none
  | some row => some <$> authOfRow row

end ClusterDb

/-- The sessions of a node: its own, or those of the cluster. -/
inductive SessionStore
  | standalone (userAuthorization : KeyTable UserAuthorization.accessToken)
  | clustered (db : ClusterDb)

namespace SessionStore

variable (env : ClusterEnv)

/-- The node is under cluster control. -/
def IsClustered : SessionStore → Prop
  | .standalone _ => False
  | .clustered _ => True

/-- `get_user_authorization`. -/
def get (store : SessionStore) (token : String) (nowMs : ℤ) :
    Except ClusterError (Option UserAuthorization) :=
  match store with
  | .standalone rows => .ok ((rows.lookup token).filter (nowMs ≤ ·.validUntil))
  | .clustered db => db.auth token nowMs

/-- A mutation of the cluster. -/
def mutate (db : ClusterDb) (operation : Mutation) : Except ClusterError Unit × SessionStore :=
  match db.mutate env operation 0 with
  | (.ok _, db') => (.ok (), .clustered db')
  | (.error e, db') => (.error e, .clustered db')

/-- `update_user_authorization`. -/
def update (store : SessionStore) (auth : UserAuthorization) :
    Except ClusterError Unit × SessionStore :=
  match store with
  | .standalone rows =>
    (.ok (), .standalone (rows.upsert auth auth.store auth.accessToken_store))
  | .clustered db => mutate env db (.saveAuth auth false)

/-- `delete_user_authorization`. -/
def delete (store : SessionStore) (token : String) : Except ClusterError Unit × SessionStore :=
  match store with
  | .standalone rows => (.ok (), .standalone (rows.erase token))
  | .clustered db => mutate env db (.revoke token)

end SessionStore

/-! ### Requests -/

/-- The endpoint behind the middleware. -/
inductive Endpoint
  | extendToken
  | revokeToken
  | other
  deriving DecidableEq, Repr

/-- Where a request is, with its copy of the session. -/
inductive AuthPhase
  /-- Before `get_user_authorization`. -/
  | received
  /-- In `validate_still_valid`. -/
  | validating (authorization : UserAuthorization)
  /-- Before `update_user_authorization` of the middleware. -/
  | updating (authorization : UserAuthorization)
  /-- The request is authorized. -/
  | authorized (authorization : UserAuthorization)
  /-- Before `update_user_authorization` of `extend_token`. -/
  | extending (authorization : UserAuthorization)
  | done
  deriving DecidableEq, Repr

/-- The copy of the session that the request holds. -/
def AuthPhase.copy : AuthPhase → Option UserAuthorization
  | .received => none
  | .validating auth => some auth
  | .updating auth => some auth
  | .authorized auth => some auth
  | .extending auth => some auth
  | .done => none

/-- A request with the token. -/
structure AuthRequest where
  endpoint : Endpoint
  phase : AuthPhase
  deriving DecidableEq, Repr

/-- What Twitch answers, when it is asked. -/
inductive TwitchAnswer
  /-- The user's details, after the token was refreshed or not. -/
  | valid (refreshed : Option TwitchUserAccessToken) (userId userLogin userName : String)
  | failed
  deriving DecidableEq, Repr

/-- The settings of sessions, in milliseconds. -/
structure SessionSettings where
  recheckTwitchAuthAfter : ℤ
  sessionsExpireAfter : ℤ

/-- The sessions of a node, and the requests with one token. -/
structure Sessions where
  store : SessionStore
  requests : List AuthRequest
  nowMs : ℤ
  /-- History: a `revoke_token` of the token has committed its delete. -/
  revoked : Bool

/-- A step of a request, or of the clock. -/
inductive SessionAction
  | request (endpoint : Endpoint)
  | tick (ms : ℕ)
  | read (index : ℕ)
  | validate (index : ℕ) (answer : TwitchAnswer)
  | update (index : ℕ)
  | handle (index : ℕ)
  | extend (index : ℕ)
  /-- A storage error, or the request is dropped. -/
  | fail (index : ℕ)
  deriving DecidableEq, Repr

/-- The session as `validate_still_valid` leaves it, with an error. -/
def UserAuthorization.validateStillValid (settings : SessionSettings) (auth : UserAuthorization)
    (answer : TwitchAnswer) (nowMs : ℤ) : Option UserAuthorization :=
  if nowMs - auth.twitchAuthorizationLastValidated ≤ settings.recheckTwitchAuthAfter then
    some auth
  else
    match answer with
    | .failed => none
    | .valid refreshed userId userLogin userName => some { auth with
        twitchToken := refreshed.getD auth.twitchToken
        twitchAuthorizationLastValidated := nowMs
        userId, userLogin, userName }

/-! ### What a write comes to -/

/-- The session in a row has the token of the row. -/
theorem ClusterDb.accessToken_of_row {token : String} {row : List SqlValue}
    {auth : UserAuthorization} (htoken : hasToken (.text token) row = true)
    (h : authOfRow row = .ok auth) : auth.accessToken = token := by
  obtain ⟨values, hvalues, h⟩ := Except.bind_eq_ok.mp h
  obtain ⟨accessToken, haccess, h⟩ := Except.bind_eq_ok.mp h
  have hsame : auth.accessToken = accessToken := by
    obtain ⟨_, -, h⟩ := Except.bind_eq_ok.mp h
    obtain ⟨_, -, h⟩ := Except.bind_eq_ok.mp h
    obtain ⟨_, -, h⟩ := Except.bind_eq_ok.mp h
    obtain ⟨_, -, h⟩ := Except.bind_eq_ok.mp h
    obtain ⟨_, -, h⟩ := Except.bind_eq_ok.mp h
    obtain ⟨_, -, h⟩ := Except.bind_eq_ok.mp h
    obtain ⟨_, -, h⟩ := Except.bind_eq_ok.mp h
    obtain ⟨_, -, h⟩ := Except.bind_eq_ok.mp h
    cases h
    rfl
  rw [hsame]
  -- the first value is the token
  cases row with
  | nil => simp [hasToken] at htoken
  | cons first rest =>
    obtain rfl : first = .text token := by simpa [hasToken] using htoken
    rw [List.mapM_cons] at hvalues
    obtain ⟨_, ⟨⟩, hvalues⟩ := Except.bind_eq_ok.mp hvalues
    obtain ⟨_, -, hvalues⟩ := Except.bind_eq_ok.mp hvalues
    cases hvalues
    cases haccess
    rfl

theorem ClusterDb.accessToken_of_auth {db : ClusterDb} {token : String} {nowMs : ℤ}
    {auth : UserAuthorization} (h : db.auth token nowMs = .ok (some auth)) :
    auth.accessToken = token := by
  rw [ClusterDb.auth] at h
  split at h
  · cases h
  · rename_i row hfind
    obtain ⟨a, hrow, ⟨⟩⟩ := Except.map_eq_ok.mp h
    have hselected := List.find?_some hfind
    rw [Bool.and_eq_true] at hselected
    exact accessToken_of_row hselected.1 hrow

namespace SessionStore

variable {env : ClusterEnv} {store store' : SessionStore} {token : String} {nowMs : ℤ}
  {auth : UserAuthorization}

/-- A session that is read is one of the token. -/
theorem accessToken_of_get (h : store.get token nowMs = .ok (some auth)) :
    auth.accessToken = token := by
  cases store with
  | standalone rows =>
    rw [get, Except.ok.injEq, Option.filter_eq_some_iff] at h
    exact KeyTable.key_of_lookup h.1
  | clustered db => exact ClusterDb.accessToken_of_auth h

/-- No row of the token is there. -/
def Gone (token : String) : SessionStore → Prop
  | .standalone rows => rows.lookup token = none
  | .clustered db => ∀ row ∈ db.sessions, ClusterDb.hasToken (.text token) row = false

theorem Gone.get_ne (h : store.Gone token) (auth : UserAuthorization) :
    store.get token nowMs ≠ .ok (some auth) := by
  cases store with
  | standalone rows =>
    have h : rows.lookup token = none := h
    rw [get, h]
    nofun
  | clustered db =>
    have hfind : (db.sessions.find? fun row =>
        ClusterDb.hasToken (.text token) row && ClusterDb.validUntilGe nowMs row) = none := by
      rw [List.find?_eq_none]
      intro row hrow
      rw [h row hrow]
      exact Bool.false_ne_true
    show db.auth token nowMs ≠ _
    rw [ClusterDb.auth, hfind]
    nofun

/-- **A delete that commits** leaves no row of the token. -/
theorem gone_of_delete (h : store.delete env token = (.ok (), store')) : store'.Gone token := by
  cases store with
  | standalone rows =>
    cases h
    exact KeyTable.lookup_erase_self rows token
  | clustered db =>
    rw [delete, mutate] at h
    split at h
    · rename_i result db' hmutate
      cases h
      have hsessions : db'.sessions =
          db.sessions.filter fun row => !ClusterDb.hasToken (.text token) row := by
        unfold ClusterDb.mutate at hmutate
        split at hmutate
        · cases hmutate
          rfl
        · cases hmutate
      intro row hrow
      rw [hsessions, List.mem_filter] at hrow
      simpa using hrow.2
    · cases h

/-- A delete leaves no row of the token where there was none. -/
theorem Gone.delete (h : store.Gone token) : (store.delete env token).2.Gone token := by
  rcases hdelete : store.delete env token with ⟨e | ⟨⟩, store'⟩
  · cases store with
    | standalone rows => cases hdelete
    | clustered db =>
      rw [SessionStore.delete, mutate] at hdelete
      split at hdelete
      · cases hdelete
      · rename_i e' db' hmutate
        cases hdelete
        unfold ClusterDb.mutate at hmutate
        split at hmutate <;> cases hmutate
        exact h
  · exact gone_of_delete hdelete

/-- A session that is read later could be read before. -/
theorem get_standalone_of_le {rows : KeyTable UserAuthorization.accessToken} {nowMs' : ℤ}
    (hle : nowMs ≤ nowMs') (h : (standalone rows).get token nowMs' = .ok (some auth)) :
    (standalone rows).get token nowMs = .ok (some auth) := by
  rw [get, Except.ok.injEq, Option.filter_eq_some_iff, decide_eq_true_eq] at h ⊢
  exact ⟨h.1, hle.trans h.2⟩

/-- **The cluster's write** does not bring a row back. -/
theorem Gone.update (h : store.Gone token) (hclustered : store.IsClustered)
    (auth : UserAuthorization) : (store.update env auth).2.Gone token := by
  cases store with
  | standalone rows => exact absurd hclustered id
  | clustered db =>
    have hmutated : ∀ row ∈ (db.mutate env (.saveAuth auth false) 0).2.sessions,
        ClusterDb.hasToken (.text token) row = false := by
      unfold ClusterDb.mutate
      split
      · intro row hrow
        obtain ⟨old, hold, rfl⟩ := List.mem_map.mp hrow
        split
        · -- the row that is written over has the same token
          rename_i hwritten
          have hhead : old.head? = some (.text auth.accessToken) := by
            simpa [ClusterDb.hasToken] using hwritten
          have hgone := h old hold
          simpa [ClusterDb.hasToken, hhead] using hgone
        · exact h old hold
      · exact h
    rw [SessionStore.update, mutate]
    split <;> rename_i hmutate <;> rw [hmutate] at hmutated <;> exact hmutated

/-- **A node's own write** puts the row there. -/
theorem get_update_standalone (rows : KeyTable UserAuthorization.accessToken)
    (auth : UserAuthorization) (nowMs : ℤ) :
    ((SessionStore.standalone rows).update env auth).2.get auth.accessToken nowMs =
      .ok (if nowMs ≤ auth.validUntil then some auth else none) := by
  have hlookup : (rows.upsert auth auth.store auth.accessToken_store).lookup auth.accessToken =
      some auth := by
    rw [KeyTable.lookup_upsert_self]
    rcases hold : rows.lookup auth.accessToken with - | old
    · rfl
    · rw [Option.map_some, Option.getD_some, UserAuthorization.store,
        KeyTable.key_of_lookup hold]
  rw [update, get, hlookup, Option.filter_some]
  simp only [decide_eq_true_eq]

end SessionStore

namespace Sessions

variable (env : ClusterEnv) (settings : SessionSettings) (token : String)

def setPhase (s : Sessions) (index : ℕ) (phase : AuthPhase) : Sessions :=
  { s with requests := s.requests.modify index fun request => { request with phase } }

/-- The copy is written back; on success the request goes on. -/
def writeBack (s : Sessions) (index : ℕ) (auth : UserAuthorization) (next : AuthPhase) :
    Sessions :=
  match s.store.update env auth with
  | (.ok (), store) => { s.setPhase index next with store }
  | (.error _, store) => { s.setPhase index .done with store }

/-- The handler behind the middleware. -/
def handleRequest (s : Sessions) (index : ℕ) (endpoint : Endpoint) (auth : UserAuthorization) :
    Sessions :=
  match endpoint with
  | .other => s.setPhase index .done
  | .extendToken =>
    s.setPhase index (.extending { auth with validUntil := s.nowMs + settings.sessionsExpireAfter })
  | .revokeToken =>
    match s.store.delete env auth.accessToken with
    | (.ok (), store) => { s.setPhase index .done with store, revoked := true }
    | (.error _, store) => { s.setPhase index .done with store }

/-- One step; an action that is not possible does nothing. -/
def step (s : Sessions) : SessionAction → Sessions
  | .request endpoint => { s with requests := s.requests ++ [⟨endpoint, .received⟩] }
  | .tick ms => { s with nowMs := s.nowMs + ms }
  | .read index =>
    match s.requests[index]? with
    | some ⟨_, .received⟩ =>
      match s.store.get token s.nowMs with
      | .ok (some auth) => s.setPhase index (.validating auth)
      | _ => s.setPhase index .done
    | _ => s
  | .validate index answer =>
    match s.requests[index]? with
    | some ⟨_, .validating auth⟩ =>
      match auth.validateStillValid settings answer s.nowMs with
      | none => s.setPhase index .done
      | some auth' => s.setPhase index (if auth' = auth then .authorized auth else .updating auth')
    | _ => s
  | .update index =>
    match s.requests[index]? with
    | some ⟨_, .updating auth⟩ => s.writeBack env index auth (.authorized auth)
    | _ => s
  | .handle index =>
    match s.requests[index]? with
    | some ⟨endpoint, .authorized auth⟩ => s.handleRequest env settings index endpoint auth
    | _ => s
  | .extend index =>
    match s.requests[index]? with
    | some ⟨_, .extending auth⟩ => s.writeBack env index auth .done
    | _ => s
  | .fail index => s.setPhase index .done

/-- The copy that a step writes back. -/
def written (s : Sessions) : SessionAction → Option UserAuthorization
  | .update index =>
    match s.requests[index]? with
    | some ⟨_, .updating auth⟩ => some auth
    | _ => none
  | .extend index =>
    match s.requests[index]? with
    | some ⟨_, .extending auth⟩ => some auth
    | _ => none
  | _ => none

/-- A request that starts now would not be authorized, if the token is revoked. -/
def Final (s : Sessions) : Prop :=
  s.revoked = true → ∀ auth, s.store.get token s.nowMs ≠ .ok (some auth)

/-- The node is under cluster control, or the step writes no unexpired copy back after
the delete. -/
def Quiet (s : Sessions) (a : SessionAction) : Prop :=
  s.store.IsClustered ∨ s.revoked = false ∨ ∀ auth ∈ s.written a, auth.validUntil < s.nowMs

/-! ### What a step does -/

variable {env} {settings} {token} {s : Sessions} {index : ℕ} {phase : AuthPhase}
  {auth : UserAuthorization}

/-- What is true in every run: each copy is of the token, and the cluster has no row of
it once it is revoked. -/
structure Tracked (token : String) (s : Sessions) : Prop where
  copies : ∀ request ∈ s.requests, ∀ auth, request.phase.copy = some auth →
    auth.accessToken = token
  gone : s.revoked = true → s.store.IsClustered → s.store.Gone token

/-- The copies of a run, after the request at `index` has moved on. -/
theorem copies_setPhase (hs : s.Tracked token)
    (hphase : ∀ auth, phase.copy = some auth → auth.accessToken = token) :
    ∀ request ∈ (s.setPhase index phase).requests, ∀ auth, request.phase.copy = some auth →
      auth.accessToken = token := by
  intro request hrequest auth hcopy
  obtain ⟨i, hi⟩ := List.mem_iff_getElem?.mp hrequest
  rw [setPhase, List.getElem?_modify, Option.map_eq_map, Option.map_eq_some_iff] at hi
  obtain ⟨old, hold, rfl⟩ := hi
  split at hcopy
  · exact hphase auth hcopy
  · exact hs.copies old (List.mem_of_getElem? hold) auth hcopy

/-- A copy that some request holds. -/
theorem accessToken_of_getElem (hs : s.Tracked token) {request : AuthRequest}
    (hrequest : s.requests[index]? = some request) (hcopy : request.phase.copy = some auth) :
    auth.accessToken = token :=
  hs.copies request (List.mem_of_getElem? hrequest) auth hcopy

theorem accessToken_validateStillValid {answer : TwitchAnswer} {nowMs : ℤ}
    {auth' : UserAuthorization} (h : auth.validateStillValid settings answer nowMs = some auth') :
    auth'.accessToken = auth.accessToken := by
  unfold UserAuthorization.validateStillValid at h
  split at h
  · cases h
    rfl
  · split at h <;> cases h
    rfl

/-- **A copy that is written back** is one of the token, and goes to the store. -/
theorem written_cases (env : ClusterEnv) (settings : SessionSettings) (hs : s.Tracked token)
    {a : SessionAction} (h : s.written a = some auth) :
    auth.accessToken = token ∧ ∃ index next, (∀ copy, next.copy = some copy → copy = auth) ∧
      s.step env settings token a = s.writeBack env index auth next := by
  cases a with
  | update index =>
    rw [written] at h
    split at h
    · rename_i endpoint copy hrequest
      cases h
      refine ⟨accessToken_of_getElem hs hrequest rfl, index, .authorized auth,
        fun copy h => (Option.some.inj h).symm, ?_⟩
      rw [step, hrequest]
    · cases h
  | extend index =>
    rw [written] at h
    split at h
    · rename_i endpoint copy hrequest
      cases h
      refine ⟨accessToken_of_getElem hs hrequest rfl, index, .done, nofun, ?_⟩
      rw [step, hrequest]
    · cases h
  | _ => cases h

/-- What a step that writes no copy back does to the store. -/
inductive Calm (env : ClusterEnv) (token : String) (s s' : Sessions) : Prop
  | kept (hstore : s'.store = s.store) (hrevoked : s'.revoked = s.revoked)
      (hnow : s.nowMs ≤ s'.nowMs)
  | deleted (hstore : s'.store = (s.store.delete env token).2) (hnow : s'.nowMs = s.nowMs)
      (hrevoked : s'.revoked = s.revoked ∨ (s.store.delete env token).1 = .ok ())

theorem calm_setPhase (s : Sessions) (index : ℕ) (phase : AuthPhase) :
    Calm env token s (s.setPhase index phase) := .kept rfl rfl le_rfl

theorem calm_handleRequest (s : Sessions) (index : ℕ) (endpoint : Endpoint)
    (auth : UserAuthorization) :
    Calm env auth.accessToken s (s.handleRequest env settings index endpoint auth) := by
  cases endpoint with
  | other => exact calm_setPhase s index .done
  | extendToken => exact calm_setPhase s index _
  | revokeToken =>
    rw [handleRequest]
    dsimp only
    rcases hdelete : s.store.delete env auth.accessToken with ⟨e | ⟨⟩, store⟩
    · exact .deleted (by rw [hdelete]) rfl (.inl rfl)
    · exact .deleted (by rw [hdelete]) rfl (.inr (by rw [hdelete]))

/-- **Any other step** keeps the store or deletes the token's row. -/
theorem calm_step (env : ClusterEnv) (settings : SessionSettings) (hs : s.Tracked token)
    {a : SessionAction} (h : s.written a = none) :
    Calm env token s (s.step env settings token a) := by
  have hkept : Calm env token s s := .kept rfl rfl le_rfl
  cases a with
  | request endpoint => exact .kept rfl rfl le_rfl
  | tick ms => exact .kept rfl rfl (le_add_of_nonneg_right (Int.natCast_nonneg ms))
  | read index =>
    -- until the handler, a request only looks
    rw [step]
    split
    · split <;> exact calm_setPhase s index _
    · exact hkept
  | validate index answer =>
    rw [step]
    split
    · split <;> exact calm_setPhase s index _
    · exact hkept
  | update index =>
    -- here and in `extend` the hypothesis says that nothing is written
    rw [written] at h
    rw [step]
    split at h
    · cases h
    · exact hkept
  | handle index =>
    -- the handler of a revocation deletes the row of the token
    rw [step]
    split
    · rename_i endpoint auth hrequest
      rw [← accessToken_of_getElem hs hrequest rfl]
      exact calm_handleRequest s index endpoint auth
    · exact hkept
  | extend index =>
    rw [written] at h
    rw [step]
    split at h
    · cases h
    · exact hkept
  | fail index => exact calm_setPhase s index .done

theorem copies_writeBack (hs : s.Tracked token) (hauth : auth.accessToken = token)
    (hphase : ∀ copy, phase.copy = some copy → copy = auth) :
    ∀ request ∈ (s.writeBack env index auth phase).requests, ∀ copy,
      request.phase.copy = some copy → copy.accessToken = token := by
  rw [writeBack]
  split
  · exact copies_setPhase hs fun copy hcopy => hphase copy hcopy ▸ hauth
  · exact copies_setPhase hs nofun

/-- **Each copy** stays one of the token. -/
theorem copies_step (hs : s.Tracked token) (a : SessionAction) :
    ∀ request ∈ (s.step env settings token a).requests, ∀ copy,
      request.phase.copy = some copy → copy.accessToken = token := by
  -- the steps that write the row back set the copy to what was written
  rcases hwritten : s.written a with - | auth
  · cases a with
    | request endpoint =>
      intro request hrequest copy hcopy
      rcases List.mem_append.mp hrequest with hrequest | hrequest
      · exact hs.copies request hrequest copy hcopy
      · rw [List.mem_singleton.mp hrequest] at hcopy
        cases hcopy
    | tick ms => exact hs.copies
    | read index =>
      rw [step]
      split
      · split
        · rename_i auth hget
          refine copies_setPhase hs fun copy hcopy => ?_
          obtain rfl : auth = copy := Option.some.inj hcopy
          exact SessionStore.accessToken_of_get hget
        · exact copies_setPhase hs nofun
      · exact hs.copies
    | validate index answer =>
      rw [step]
      split
      · rename_i endpoint auth hrequest
        have hauth := accessToken_of_getElem hs hrequest rfl
        split
        · exact copies_setPhase hs nofun
        · rename_i auth' hvalidate
          have hauth' := accessToken_validateStillValid hvalidate
          refine copies_setPhase hs fun copy hcopy => ?_
          split at hcopy <;> cases hcopy
          · exact hauth
          · exact hauth'.trans hauth
      · exact hs.copies
    | update index =>
      rw [written] at hwritten
      rw [step]
      split at hwritten
      · cases hwritten
      · exact hs.copies
    | handle index =>
      rw [step]
      split
      · rename_i endpoint auth hrequest
        have hauth := accessToken_of_getElem hs hrequest rfl
        unfold handleRequest
        split
        · exact copies_setPhase hs nofun
        · refine copies_setPhase hs fun copy hcopy => ?_
          cases hcopy
          exact hauth
        · split <;> exact copies_setPhase hs nofun
      · exact hs.copies
    | extend index =>
      rw [written] at hwritten
      rw [step]
      split at hwritten
      · cases hwritten
      · exact hs.copies
    | fail index => exact copies_setPhase hs nofun
  · obtain ⟨hauth, index, next, hnext, hstep⟩ := written_cases env settings hs hwritten
    rw [hstep]
    exact copies_writeBack hs hauth hnext

/-! ### Revocations -/

theorem final_of_gone (h : s.store.Gone token) : s.Final token := fun _ auth => h.get_ne auth

theorem isClustered_update (env : ClusterEnv) (store : SessionStore) (auth : UserAuthorization) :
    (store.update env auth).2.IsClustered ↔ store.IsClustered := by
  cases store with
  | standalone rows => exact Iff.rfl
  | clustered db =>
    rw [SessionStore.update, SessionStore.mutate]
    split <;> exact Iff.rfl

/-- What a write-back does besides moving its request on. -/
theorem writeBack_eq (env : ClusterEnv) (s : Sessions) (index : ℕ) (auth : UserAuthorization)
    (next : AuthPhase) : (s.writeBack env index auth next).store = (s.store.update env auth).2 ∧
      (s.writeBack env index auth next).revoked = s.revoked ∧
      (s.writeBack env index auth next).nowMs = s.nowMs := by
  rw [writeBack]
  split <;> rename_i hupdate <;> rw [hupdate] <;> exact ⟨rfl, rfl, rfl⟩

/-- A delete that has committed, now or before, leaves no row of the token. -/
theorem gone_of_calm {s' : Sessions} (hs : s.Tracked token)
    (hstore : s'.store = (s.store.delete env token).2)
    (hrevoked : s'.revoked = s.revoked ∨ (s.store.delete env token).1 = .ok ())
    (h : s'.revoked = true) : s'.store.Gone token := by
  rw [hstore]
  by_cases hok : (s.store.delete env token).1 = .ok ()
  · exact SessionStore.gone_of_delete (Prod.ext hok rfl)
  · have hclustered : s.store.IsClustered := by
      cases hcase : s.store with
      | standalone rows =>
        rw [hcase] at hok
        exact absurd rfl hok
      | clustered db => exact trivial
    exact (hs.gone (hrevoked.resolve_right hok ▸ h) hclustered).delete

theorem tracked_step (hs : s.Tracked token) (a : SessionAction) :
    (s.step env settings token a).Tracked token := by
  refine ⟨copies_step hs a, fun hrevoked hclustered => ?_⟩
  rcases hwritten : s.written a with - | auth
  · rcases calm_step env settings hs hwritten with ⟨hstore, hsame, -⟩ | ⟨hstore, -, hsame⟩
    · rw [hstore] at hclustered ⊢
      exact hs.gone (hsame ▸ hrevoked) hclustered
    · exact gone_of_calm hs hstore hsame hrevoked
  · obtain ⟨-, index, next, -, hstep⟩ := written_cases env settings hs hwritten
    obtain ⟨hstore, hsame, -⟩ := writeBack_eq env s index auth next
    rw [hstep, hstore] at hclustered
    rw [hstep, hsame] at hrevoked
    rw [hstep, hstore]
    have hbefore : s.store.IsClustered := (isClustered_update env s.store auth).mp hclustered
    exact (hs.gone hrevoked hbefore).update hbefore auth

/-- **A step keeps a revocation final exactly when it is quiet.** -/
theorem final_step_iff (hs : s.Tracked token) (hfinal : s.Final token) (a : SessionAction) :
    (s.step env settings token a).Final token ↔ s.Quiet a := by
  rcases hwritten : s.written a with - | auth
  · refine iff_of_true ?_ (.inr (.inr (by rw [hwritten]; nofun)))
    rcases calm_step env settings hs hwritten with ⟨hstore, hsame, hnow⟩ | ⟨hstore, -, hsame⟩
    · intro hrevoked auth hget
      rw [hstore] at hget
      have hbefore : s.revoked = true := hsame ▸ hrevoked
      cases hcase : s.store with
      | standalone rows =>
        rw [hcase] at hget
        refine hfinal hbefore auth ?_
        rw [hcase]
        exact SessionStore.get_standalone_of_le hnow hget
      | clustered db =>
        exact (hs.gone hbefore (by rw [hcase]; exact trivial)).get_ne auth hget
    · intro hrevoked
      exact final_of_gone (gone_of_calm hs hstore hsame hrevoked) hrevoked
  · obtain ⟨hauth, index, next, -, hstep⟩ := written_cases env settings hs hwritten
    obtain ⟨hstore, hsame, hnow⟩ := writeBack_eq env s index auth next
    rw [hstep, Quiet, hwritten]
    by_cases hrevoked : s.revoked = false
    · refine iff_of_true (fun h => ?_) (.inr (.inl hrevoked))
      rw [hsame, hrevoked] at h
      cases h
    · have hrevoked : s.revoked = true := Bool.not_eq_false _ ▸ hrevoked
      rw [Final, hstore, hsame, hnow]
      cases hcase : s.store with
      | standalone rows =>
        -- the copy is in the store now, and is returned until it expires
        rw [← hauth, SessionStore.get_update_standalone]
        constructor
        · intro h
          refine .inr (.inr fun copy hcopy => ?_)
          cases hcopy
          by_contra hle
          exact h hrevoked auth (by rw [if_pos (not_lt.mp hle)])
        · rintro (h | h | h)
          · exact absurd h id
          · rw [hrevoked] at h
            cases h
          · intro _ other hget
            rw [if_neg (not_le.mpr (h auth rfl))] at hget
            cases hget
      | clustered db =>
        have hclustered : s.store.IsClustered := by rw [hcase]; exact trivial
        refine iff_of_true (fun _ other => ?_) (.inl trivial)
        exact hcase ▸ ((hs.gone hrevoked hclustered).update hclustered auth).get_ne other

/-- A node's sessions before any request with the token. -/
def start (store : SessionStore) (nowMs : ℤ) : Sessions := ⟨store, [], nowMs, false⟩

theorem tracked_start (store : SessionStore) (nowMs : ℤ) : (start store nowMs).Tracked token where
  copies := fun _ hrequest => absurd hrequest List.not_mem_nil
  gone := nofun

/-- **A revocation is final exactly** when the node is under cluster control, or no
unexpired copy of the session is written back after the delete. -/
theorem revocation_final (env : ClusterEnv) (settings : SessionSettings) (token : String)
    (store : SessionStore) (nowMs : ℤ) (actions : List SessionAction) :
    Throughout (step env settings token) (Final token) (start store nowMs) actions ↔
      Along (step env settings token) Quiet (start store nowMs) actions :=
  throughout_iff_along (fun _ a hs hfinal => final_step_iff hs hfinal a)
    (fun _ a hs _ _ => tracked_step hs a) (tracked_start store nowMs) nofun

/-- A revocation is final in every run. -/
def RevocationIsFinal (env : ClusterEnv) (settings : SessionSettings) : Prop :=
  ∀ (token : String) (store : SessionStore) (nowMs : ℤ) (actions : List SessionAction),
    Throughout (step env settings token) (Final token) (start store nowMs) actions

def sampleToken : String := String.ofList (List.replicate 128 'a')

def sampleAuth : UserAuthorization :=
  ⟨sampleToken, ⟨"access", "refresh"⟩, 0, 1000, "1", "forsen", "Forsen", ""⟩

/-- A request asks Twitch, and meanwhile another one revokes the token. -/
def racingActions : List SessionAction :=
  [.request .other, .read 0, .request .revokeToken, .read 1, .validate 1 .failed, .tick 10,
    .validate 0 (.valid none "1" "forsen" "Forsen"), .handle 1, .update 0]

/-- **A revoked session is restored** by the write-back of a request that read it before. -/
theorem session_restored : ¬ ∀ env settings, RevocationIsFinal env settings := by
  intro h
  have hfinal := (h ⟨fun _ => true, fun _ => none⟩ ⟨5, 1000⟩ sampleToken
    (.standalone (KeyTable.empty.put sampleAuth)) 0 racingActions).last
  exact hfinal (by decide +kernel) { sampleAuth with twitchAuthorizationLastValidated := 10 }
    (by decide +kernel)

end Sessions

end RecentMessages
