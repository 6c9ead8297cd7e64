/-
RecentMessages/Web/SessionUpdates.lean

Requests that write one session (`web/auth_middleware.rs`, `web/auth_endpoints.rs`).

Every writer saves the whole row, from the copy that it read before it asked Twitch.  A
refreshed Twitch token or an extension that another request commits in between is
written over with what the copy has (`session_rolled_back`).  So nothing is rolled
back exactly when no writer overlaps with another's refresh or extension in that way
(`updates_kept`).

The history beside the sessions lists what was committed: each commit has the row as its
request read it, and the number of commits there were then.
-/
import RecentMessages.Web.Sessions

namespace RecentMessages

/-! ### Commits -/

/-- A write that has stored its row. -/
structure SessionCommit where
  /-- The request that wrote. -/
  index : ℕ
  /-- The row as the request read it. -/
  row : UserAuthorization
  /-- The number of commits before it was read. -/
  readAt : ℕ
  auth : UserAuthorization
  /-- The write is the one of `extend_token`. -/
  extension : Bool
  deriving DecidableEq

namespace SessionCommit

/-- The request has refreshed the Twitch token. -/
def Refreshes (c : SessionCommit) : Prop := c.auth.twitchToken ≠ c.row.twitchToken

/-- The request writes the token that it has read, over one that is not the same. -/
def Restores (c earlier : SessionCommit) : Prop :=
  c.auth.twitchToken = c.row.twitchToken ∧ c.auth.twitchToken ≠ earlier.auth.twitchToken

instance (c : SessionCommit) : Decidable c.Refreshes := inferInstanceAs (Decidable (_ ≠ _))

instance (c earlier : SessionCommit) : Decidable (c.Restores earlier) :=
  inferInstanceAs (Decidable (_ ∧ _))

/-- What an earlier commit refreshed or extended is not rolled back. -/
structure Keeps (c earlier : SessionCommit) : Prop where
  token : earlier.Refreshes → ¬ c.Restores earlier
  validUntil : earlier.extension = true → ¬ c.auth.validUntil < earlier.auth.validUntil

/-- What a request may be at after a commit of it. -/
def Leaves (c : SessionCommit) : AuthPhase → Prop
  | .authorized copy => copy.twitchToken = c.auth.twitchToken ∧ c.extension = false
  | .extending copy => copy.twitchToken = c.auth.twitchToken ∧ c.extension = false
  | .done => True
  | _ => False

end SessionCommit

/-- The sessions of a node, with the history of reads and commits. -/
structure SessionHistory where
  sessions : Sessions
  /-- The row that each request has read, and the number of commits then. -/
  reads : ℕ → Option (UserAuthorization × ℕ)
  commits : List SessionCommit

namespace Sessions

/-- The request that reads the row, and the row. -/
def readBy (token : String) (s : Sessions) : SessionAction → Option (ℕ × UserAuthorization)
  | .read index =>
    match s.requests[index]? with
    | some ⟨_, .received⟩ =>
      match s.store.get token s.nowMs with
      | .ok (some auth) => some (index, auth)
      | _ => none
    | _ => none
  | _ => none

/-- The request that writes its copy, the copy, and whether it extends the session. -/
def writtenBy (s : Sessions) : SessionAction → Option (ℕ × UserAuthorization × Bool)
  | .update index =>
    match s.requests[index]? with
    | some ⟨_, .updating auth⟩ => some (index, auth, false)
    | _ => none
  | .extend index =>
    match s.requests[index]? with
    | some ⟨_, .extending auth⟩ => some (index, auth, true)
    | _ => none
  | _ => none

end Sessions

/-- An update stores its row: a node's own is an upsert, the cluster's needs a row of the token. -/
def SessionStore.stores (store : SessionStore) (auth : UserAuthorization) : Bool :=
  match store with
  | .standalone _ => true
  | .clustered db => db.sessions.any (ClusterDb.hasToken (.text auth.accessToken))

namespace SessionHistory

variable (env : ClusterEnv) (settings : SessionSettings) (token : String)

/-- What a step commits; an update that finds no row changes nothing. -/
def commit (h : SessionHistory) (a : SessionAction) : Option SessionCommit :=
  match h.sessions.writtenBy a with
  | none => none
  | some (index, auth, extension) =>
    match (h.sessions.store.update env auth).1, h.reads index with
    | .ok (), some (row, readAt) =>
      if h.sessions.store.stores auth then some ⟨index, row, readAt, auth, extension⟩ else none
    | _, _ => none

def step (h : SessionHistory) (a : SessionAction) : SessionHistory where
  sessions := h.sessions.step env settings token a
  reads :=
    match h.sessions.readBy token a with
    | none => h.reads
    | some (index, row) => Function.update h.reads index (some (row, h.commits.length))
  commits := h.commits ++ (h.commit env a).toList

/-- Before any request with the token. -/
def start (store : SessionStore) (nowMs : ℤ) : SessionHistory :=
  ⟨Sessions.start store nowMs, fun _ => none, []⟩

/-- **No commit rolls an earlier one back** that its request had not seen. -/
def NoRollback (h : SessionHistory) : Prop :=
  ∀ (i j : ℕ) (earlier later : SessionCommit), i < j →
    h.commits[i]? = some earlier → h.commits[j]? = some later →
    later.readAt ≤ i → later.Keeps earlier

/-- A request that commits has the newest token and expiry: since it read the row, no
other request has committed a refreshed token, unless this one has refreshed it as well or
has the same, nor an extension beyond the copy's. -/
def Fresh (h : SessionHistory) (a : SessionAction) : Prop :=
  ∀ c, h.commit env a = some c → ∀ i other, c.readAt ≤ i → h.commits[i]? = some other →
    other.index ≠ c.index →
    (other.Refreshes → c.Refreshes ∨ c.auth.twitchToken = other.auth.twitchToken) ∧
    (other.extension = true → other.auth.validUntil ≤ c.auth.validUntil)

end SessionHistory

/-! ### How requests move -/

/-- The phases of a request, from the read of its row on. -/
inductive AuthPhase.Next : AuthPhase → AuthPhase → Prop
  | validated (auth : UserAuthorization) : Next (.validating auth) (.authorized auth)
  | changed (auth auth' : UserAuthorization) : Next (.validating auth) (.updating auth')
  | updated (auth : UserAuthorization) : Next (.updating auth) (.authorized auth)
  | extend (auth : UserAuthorization) (validUntil : ℤ) :
    Next (.authorized auth) (.extending { auth with validUntil })
  | stop (phase : AuthPhase) : Next phase .done

/-- **A request goes on from its commit** with what it has committed. -/
theorem SessionCommit.Leaves.next {c : SessionCommit} {phase phase' : AuthPhase}
    (h : c.Leaves phase) (hnext : phase.Next phase') : c.Leaves phase' := by
  cases hnext with
  | validated auth => exact h.elim
  | changed auth auth' => exact h.elim
  | updated auth => exact h.elim
  | extend auth validUntil => exact h
  | stop => exact trivial

/-- A copy comes from a copy. -/
theorem AuthPhase.Next.isSome_copy {phase phase' : AuthPhase} (h : phase.Next phase')
    {copy : UserAuthorization} (hcopy : phase'.copy = some copy) : phase.copy.isSome := by
  cases h <;> first | rfl | cases hcopy

namespace Sessions

variable {env : ClusterEnv} {settings : SessionSettings} {token : String} {s : Sessions}

/-- What a step does to the requests. -/
inductive Moves (token : String) (s : Sessions) (a : SessionAction) (s' : Sessions) : Prop
  | kept (hrequests : s'.requests = s.requests)
  | added (endpoint : Endpoint) (hrequests : s'.requests = s.requests ++ [⟨endpoint, .received⟩])
  | read (index : ℕ) (endpoint : Endpoint) (auth : UserAuthorization)
    (hrequest : s.requests[index]? = some ⟨endpoint, .received⟩)
    (hread : s.readBy token a = some (index, auth))
    (hrequests : s'.requests = (s.setPhase index (.validating auth)).requests)
  | moved (index : ℕ) (request : AuthRequest) (phase : AuthPhase)
    (hrequest : s.requests[index]? = some request) (hnext : request.phase.Next phase)
    (hrequests : s'.requests = (s.setPhase index phase).requests)

theorem moves_stop (s : Sessions) (a : SessionAction) (index : ℕ) :
    Moves token s a (s.setPhase index .done) := by
  rcases hrequest : s.requests[index]? with - | request
  · refine .kept ?_
    rw [setPhase, List.modify_eq_self]
    exact List.getElem?_eq_none_iff.mp hrequest
  · exact .moved index request .done hrequest (.stop _) rfl

theorem moves_writeBack {a : SessionAction} {index : ℕ} {request : AuthRequest}
    {auth : UserAuthorization}
    {next : AuthPhase} (hrequest : s.requests[index]? = some request)
    (hnext : request.phase.Next next) :
    Moves token s a (s.writeBack env index auth next) := by
  rw [writeBack]
  split
  · exact .moved index request next hrequest hnext rfl
  · exact .moved index request .done hrequest (.stop _) rfl

/-- **A step moves one request on.** -/
theorem moves_step (env : ClusterEnv) (settings : SessionSettings) (token : String)
    (s : Sessions) (a : SessionAction) : Moves token s a (s.step env settings token a) := by
  cases a with
  | request endpoint => exact .added endpoint rfl
  | tick ms => exact .kept rfl
  | read index =>
    -- the middleware reads the row of the token, or refuses the request
    rw [step]
    split
    · rename_i endpoint hrequest
      split
      · rename_i auth hget
        refine .read index endpoint auth hrequest ?_ rfl
        rw [readBy, hrequest]
        simp only [hget]
      · exact moves_stop s _ index
    · exact .kept rfl
  | validate index answer =>
    -- Twitch is asked, if that is due; the copy may change
    rw [step]
    split
    · rename_i endpoint auth hrequest
      split
      · exact moves_stop s _ index
      · rename_i auth' hvalidate
        refine .moved index _ _ hrequest ?_ rfl
        split
        · exact .validated auth
        · exact .changed auth auth'
    · exact .kept rfl
  | update index =>
    -- the middleware writes a changed copy back
    rw [step]
    split
    · rename_i endpoint auth hrequest
      exact moves_writeBack hrequest (.updated auth)
    · exact .kept rfl
  | handle index =>
    -- then the handler: it answers, extends the session, or revokes it
    rw [step]
    split
    · rename_i endpoint auth hrequest
      unfold handleRequest
      split
      · exact moves_stop s _ index
      · exact .moved index _ _ hrequest (.extend auth _) rfl
      · split
        · exact .moved index _ _ hrequest (.stop _) rfl
        · exact .moved index _ _ hrequest (.stop _) rfl
    · exact .kept rfl
  | extend index =>
    -- the handler writes the extended copy
    rw [step]
    split
    · rename_i endpoint auth hrequest
      exact moves_writeBack hrequest (.stop _)
    · exact .kept rfl
  -- a request may end anywhere
  | fail index => exact moves_stop s _ index

end Sessions

namespace SessionHistory

variable {env : ClusterEnv} {settings : SessionSettings} {token : String} {h : SessionHistory}
  {a : SessionAction} {c : SessionCommit}

/-! ### The history is that of the requests -/

/-- What is true in every run: each copy was read, and a request that has committed goes
on with what it committed. -/
structure Recorded (h : SessionHistory) : Prop where
  reads : ∀ index request copy, h.sessions.requests[index]? = some request →
    request.phase.copy = some copy → (h.reads index).isSome
  leaves : ∀ c ∈ h.commits, ∃ request, h.sessions.requests[c.index]? = some request ∧
    c.Leaves request.phase

/-- A commit is a write that succeeds. -/
theorem written_of_commit (hc : h.commit env a = some c) :
    h.sessions.writtenBy a = some (c.index, c.auth, c.extension) ∧
      (h.sessions.store.update env c.auth).1 = .ok () := by
  rw [commit] at hc
  split at hc
  · cases hc
  · rename_i hwritten
    split at hc
    · rename_i hok hread
      split at hc
      · cases hc
        exact ⟨hwritten, hok⟩
      · cases hc
    · cases hc

/-- Its request holds the copy. -/
theorem commit_cases (hc : h.commit env a = some c) :
    (∃ endpoint, h.sessions.requests[c.index]? = some ⟨endpoint, .updating c.auth⟩ ∧
      a = .update c.index ∧ c.extension = false) ∨
    (∃ endpoint, h.sessions.requests[c.index]? = some ⟨endpoint, .extending c.auth⟩ ∧
      a = .extend c.index ∧ c.extension = true) := by
  obtain ⟨hwritten, -⟩ := written_of_commit hc
  cases a with
  | update index =>
    rw [Sessions.writtenBy] at hwritten
    split at hwritten
    · rename_i endpoint auth hrequest
      obtain ⟨rfl, rfl, hextension⟩ : index = c.index ∧ auth = c.auth ∧ false = c.extension := by
        simpa using hwritten
      exact .inl ⟨endpoint, hrequest, rfl, hextension.symm⟩
    · cases hwritten
  | extend index =>
    rw [Sessions.writtenBy] at hwritten
    split at hwritten
    · rename_i endpoint auth hrequest
      obtain ⟨rfl, rfl, hextension⟩ : index = c.index ∧ auth = c.auth ∧ true = c.extension := by
        simpa using hwritten
      exact .inr ⟨endpoint, hrequest, rfl, hextension.symm⟩
    · cases hwritten
  | _ => cases hwritten

/-- One request has moved on. -/
theorem getElem_setPhase (s : Sessions) (index i : ℕ) (phase : AuthPhase) :
    (s.setPhase index phase).requests[i]? = (s.requests[i]?).map fun request =>
      if index = i then { request with phase } else request := by
  rw [Sessions.setPhase, List.getElem?_modify]
  rfl

/-- What was read stays known. -/
theorem isSome_reads {i : ℕ} (hread : (h.reads i).isSome) :
    ((h.step env settings token a).reads i).isSome := by
  rcases hby : h.sessions.readBy token a with - | ⟨index, row⟩
  · simpa only [step, hby] using hread
  · simp only [step, hby]
    rcases eq_or_ne i index with rfl | hne
    · simp
    · rwa [Function.update_of_ne hne]

theorem recorded_reads (hh : h.Recorded) (a : SessionAction) :
    ∀ index request copy, (h.step env settings token a).sessions.requests[index]? = some request →
      request.phase.copy = some copy → ((h.step env settings token a).reads index).isSome := by
  intro i request copy hrequest hcopy
  have hsessions : (h.step env settings token a).sessions =
      h.sessions.step env settings token a := rfl
  rw [hsessions] at hrequest
  cases Sessions.moves_step env settings token h.sessions a with
  | kept hrequests =>
    rw [hrequests] at hrequest
    exact isSome_reads (hh.reads i request copy hrequest hcopy)
  | added endpoint hrequests =>
    -- a new request has no copy
    rw [hrequests, List.getElem?_append] at hrequest
    split at hrequest
    · exact isSome_reads (hh.reads i request copy hrequest hcopy)
    · obtain rfl := List.mem_singleton.mp (List.mem_of_getElem? hrequest)
      cases hcopy
  | read index endpoint auth hreceived hread hrequests =>
    -- a request has its copy from the read that is noted
    rcases eq_or_ne i index with rfl | hne
    · rw [step, hread]
      simp
    · rw [hrequests, getElem_setPhase, Option.map_eq_some_iff] at hrequest
      obtain ⟨old, hold, rfl⟩ := hrequest
      rw [if_neg hne.symm] at hcopy
      exact isSome_reads (hh.reads i old copy hold hcopy)
  | moved index before phase hbefore hnext hrequests =>
    -- afterwards it had a copy before
    rw [hrequests, getElem_setPhase, Option.map_eq_some_iff] at hrequest
    obtain ⟨old, hold, rfl⟩ := hrequest
    split at hcopy
    · rename_i heq
      subst heq
      obtain rfl := Option.some.inj (hold.symm.trans hbefore)
      obtain ⟨copy', hcopy'⟩ := Option.isSome_iff_exists.mp (hnext.isSome_copy hcopy)
      exact isSome_reads (hh.reads index old copy' hold hcopy')
    · exact isSome_reads (hh.reads i old copy hold hcopy)

/-- **A step leaves an earlier commit** of a request with what it committed. -/
theorem leaves_step (hh : h.Recorded) (a : SessionAction) (hc : c ∈ h.commits) :
    ∃ request, (h.sessions.step env settings token a).requests[c.index]? = some request ∧
      c.Leaves request.phase := by
  obtain ⟨request, hrequest, hleaves⟩ := hh.leaves c hc
  cases Sessions.moves_step env settings token h.sessions a with
  | kept hrequests =>
    rw [hrequests]
    exact ⟨request, hrequest, hleaves⟩
  | added endpoint hrequests =>
    rw [hrequests, List.getElem?_append_left (List.getElem?_eq_some_iff.mp hrequest).1]
    exact ⟨request, hrequest, hleaves⟩
  | read index endpoint auth hreceived hread hrequests =>
    rw [hrequests, getElem_setPhase, hrequest]
    refine ⟨_, rfl, ?_⟩
    split
    · -- a request that has committed does not read again
      rename_i heq
      subst heq
      obtain rfl := Option.some.inj (hrequest.symm.trans hreceived)
      exact hleaves.elim
    · exact hleaves
  | moved index before phase hbefore hnext hrequests =>
    rw [hrequests, getElem_setPhase, hrequest]
    refine ⟨_, rfl, ?_⟩
    split
    · rename_i heq
      subst heq
      obtain rfl := Option.some.inj (hrequest.symm.trans hbefore)
      exact hleaves.next hnext
    · exact hleaves

/-- A commit leaves its request with what it committed. -/
theorem leaves_commit (hc : h.commit env a = some c) :
    ∃ request, (h.sessions.step env settings token a).requests[c.index]? = some request ∧
      c.Leaves request.phase := by
  obtain ⟨-, hok⟩ := written_of_commit hc
  rcases hupdate : h.sessions.store.update env c.auth with ⟨result, store⟩
  obtain rfl : result = .ok () := by rw [hupdate] at hok; exact hok
  rcases commit_cases hc with ⟨endpoint, hrequest, rfl, hextension⟩ |
    ⟨endpoint, hrequest, rfl, hextension⟩
  · rw [Sessions.step, hrequest]
    dsimp only
    rw [Sessions.writeBack, hupdate]
    show ∃ request, (h.sessions.setPhase c.index (.authorized c.auth)).requests[c.index]? = _ ∧ _
    rw [getElem_setPhase, hrequest, Option.map_some, if_pos rfl]
    exact ⟨_, rfl, rfl, hextension⟩
  · rw [Sessions.step, hrequest]
    dsimp only
    rw [Sessions.writeBack, hupdate]
    show ∃ request, (h.sessions.setPhase c.index .done).requests[c.index]? = _ ∧ _
    rw [getElem_setPhase, hrequest, Option.map_some, if_pos rfl]
    exact ⟨_, rfl, trivial⟩

theorem recorded_step (hh : h.Recorded) (a : SessionAction) :
    (h.step env settings token a).Recorded := by
  refine ⟨recorded_reads hh a, fun c hc => ?_⟩
  rcases List.mem_append.mp hc with hc | hc
  · exact leaves_step hh a hc
  · exact leaves_commit (by simpa using hc)

/-! ### What is rolled back -/

/-- **A request does not roll itself back**: it goes on with what it committed. -/
theorem keeps_own (hh : h.Recorded) (hc : h.commit env a = some c) {earlier : SessionCommit}
    (hearlier : earlier ∈ h.commits) (hown : earlier.index = c.index) : c.Keeps earlier := by
  obtain ⟨request, hrequest, hleaves⟩ := hh.leaves earlier hearlier
  rw [hown] at hrequest
  rcases commit_cases hc with ⟨endpoint, hphase, -, -⟩ | ⟨endpoint, hphase, -, -⟩
  · obtain rfl := Option.some.inj (hrequest.symm.trans hphase)
    exact hleaves.elim
  · obtain rfl := Option.some.inj (hrequest.symm.trans hphase)
    obtain ⟨htoken, hextension⟩ := hleaves
    refine ⟨fun _ hrestores => hrestores.2 htoken, fun hextends => ?_⟩
    rw [hextension] at hextends
    cases hextends

/-- **A step rolls nothing back exactly when it is fresh.** -/
theorem noRollback_step_iff (hh : h.Recorded) (hkept : h.NoRollback) (a : SessionAction) :
    (h.step env settings token a).NoRollback ↔ h.Fresh env a := by
  constructor
  · intro hstep c hc i other hreadAt hother hne
    have hlt := (List.getElem?_eq_some_iff.mp hother).1
    have hkeeps := hstep i h.commits.length other c hlt
      (by rw [step, List.getElem?_append_left hlt]; exact hother)
      (by simp [step, hc]) hreadAt
    refine ⟨fun hrefreshes => ?_, fun hextension => not_lt.mp (hkeeps.validUntil hextension)⟩
    by_contra hnot
    rw [not_or, SessionCommit.Refreshes, not_not] at hnot
    exact hkeeps.token hrefreshes hnot
  · intro hfresh i j earlier later hij hearlier hlater hreadAt
    rw [step] at hearlier hlater
    rcases lt_or_ge j h.commits.length with hj | hj
    · rw [List.getElem?_append_left (hij.trans hj)] at hearlier
      rw [List.getElem?_append_left hj] at hlater
      exact hkept i j earlier later hij hearlier hlater hreadAt
    · -- the later commit is the one of this step
      rw [List.getElem?_append_right hj] at hlater
      have hc : h.commit env a = some later := by
        simpa using List.mem_of_getElem? hlater
      have hj : j = h.commits.length := by
        rw [hc] at hlater
        have hzero := (List.getElem?_eq_some_iff.mp hlater).1
        simp at hzero
        omega
      subst hj
      rw [List.getElem?_append_left hij] at hearlier
      by_cases hown : earlier.index = later.index
      · exact keeps_own hh hc (List.mem_of_getElem? hearlier) hown
      · obtain ⟨htoken, huntil⟩ := hfresh later hc i earlier hreadAt hearlier hown
        refine ⟨fun hrefreshes hrestores => ?_, fun hextension => not_lt.mpr (huntil hextension)⟩
        exact (htoken hrefreshes).elim (fun h => h hrestores.1) hrestores.2

theorem recorded_start (store : SessionStore) (nowMs : ℤ) : (start store nowMs).Recorded where
  reads := fun _ _ _ hrequest => absurd (List.mem_of_getElem? hrequest) List.not_mem_nil
  leaves := fun _ hc => absurd hc List.not_mem_nil

theorem noRollback_start (store : SessionStore) (nowMs : ℤ) : (start store nowMs).NoRollback := by
  intro i j earlier later hij hearlier
  simp [start] at hearlier

/-- **Concurrent updates keep each other exactly** when every request that commits has
the newest token and expiry. -/
theorem updates_kept (env : ClusterEnv) (settings : SessionSettings) (token : String)
    (store : SessionStore) (nowMs : ℤ) (actions : List SessionAction) :
    Throughout (step env settings token) NoRollback (start store nowMs) actions ↔
      Along (step env settings token) (Fresh env) (start store nowMs) actions :=
  throughout_iff_along (fun _ a hh hkept => noRollback_step_iff hh hkept a)
    (fun _ a hh _ _ => recorded_step hh a) (recorded_start store nowMs)
    (noRollback_start store nowMs)

/-- No run rolls a refreshed token or an extension back. -/
def UpdatesAreKept (env : ClusterEnv) (settings : SessionSettings) : Prop :=
  ∀ (token : String) (store : SessionStore) (nowMs : ℤ) (actions : List SessionAction),
    Throughout (step env settings token) NoRollback (start store nowMs) actions

/-- Two requests read the row; Twitch still accepts the token of the first, and has the
second refresh it.  Then the first writes its copy back. -/
def racingUpdates : List SessionAction :=
  [.tick 10, .request .other, .request .other, .read 0, .read 1,
    .validate 0 (.valid none "1" "forsen" "Forsen"),
    .validate 1 (.valid (some ⟨"access2", "refresh2"⟩) "1" "forsen" "Forsen"), .update 1, .update 0]

/-- **A refreshed token is lost** to a request that read the row before. -/
theorem session_rolled_back : ¬ ∀ env settings, UpdatesAreKept env settings := by
  intro h
  have hkept := (h ⟨fun _ => true, fun _ => none⟩ ⟨5, 1000⟩ Sessions.sampleToken
    (.standalone (KeyTable.empty.put Sessions.sampleAuth)) 0 racingUpdates).last
  have hkeeps := hkept 0 1
    ⟨1, Sessions.sampleAuth, 0, { Sessions.sampleAuth with
      twitchToken := ⟨"access2", "refresh2"⟩, twitchAuthorizationLastValidated := 10 }, false⟩
    ⟨0, Sessions.sampleAuth, 0,
      { Sessions.sampleAuth with twitchAuthorizationLastValidated := 10 }, false⟩
    (by decide) (by decide +kernel) (by decide +kernel) (by decide)
  exact hkeeps.token (by decide) (by decide)

end SessionHistory

end RecentMessages
