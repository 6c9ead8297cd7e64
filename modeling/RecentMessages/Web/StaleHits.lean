/-
RecentMessages/Web/StaleHits.lean

When no purged or opted-out record is answered from the cache.

A body that was read before a purge or an opt-out returned may lie in the cache, or be on
its way there, when it returns.  Whether a later request finds it is a matter of keys: the
cutoffs of policies only rise, so a key with a lower cutoff is shut (`Returned.Shuts`).
If each such body is shut out when a purge or an opt-out returns, then no later request
is answered with one (`no_stale_hit`).
-/
import RecentMessages.Web.Purge
import RecentMessages.Web.Serving

namespace RecentMessages

/-! ### Cutoffs only rise -/

namespace ClusterDb

variable {env : ClusterEnv} {db db' : ClusterDb}

/-- No cutoff falls. -/
def Rises (db db' : ClusterDb) : Prop := ∀ c, db.purgeMs c ≤ db'.purgeMs c

theorem Rises.refl (db : ClusterDb) : Rises db db := fun _ => le_rfl

theorem Rises.trans {db'' : ClusterDb} (h : Rises db db') (h' : Rises db' db'') :
    Rises db db'' :=
  fun c => (h c).trans (h' c)

theorem policy_purgeMs (db : ClusterDb) (channel : String) :
    (db.policy channel).purgeMs = db.purgeMs (toAsciiLowercase channel) := by
  rw [policy, purgeMs]
  rcases db.channels.lookup (toAsciiLowercase channel) with - | row <;> rfl

/-- Rows whose cutoffs are raised, and a new one with a cutoff of its own. -/
theorem rises_upsert {r : RmChannel} {f : RmChannel → RmChannel}
    {hf : ∀ r, (f r).channelLogin = r.channelLogin} (db : ClusterDb) (hr : 0 ≤ r.purgeMs)
    (hraise : ∀ row, row.purgeMs ≤ (f row).purgeMs) :
    Rises db { db with channels := db.channels.upsert r f hf } := by
  intro c
  rw [purgeMs, purgeMs]
  by_cases hc : r.channelLogin = c
  · subst hc
    rw [KeyTable.lookup_upsert_self]
    rcases db.channels.lookup r.channelLogin with - | row
    · exact hr
    · exact hraise row
  · rw [KeyTable.lookup_upsert_ne db.channels hc]

theorem rises_pinChannels (db : ClusterDb) (channels : List String) :
    Rises db (channels.foldl pinChannel db) :=
  List.foldlRecOn channels pinChannel (.refl db) fun db₁ h _ _ =>
    h.trans (rises_upsert db₁ le_rfl fun _ => le_rfl)

/-- Only pins have changed. -/
theorem rises_of_raised (h : Raised db.channels db'.channels)
    (hnew : ∀ c, db.channels.lookup c = none → db'.channels.lookup c = none) : Rises db db' := by
  intro c
  rw [purgeMs, purgeMs]
  rcases hrow : db.channels.lookup c with - | row
  · rw [hnew c hrow]
  · obtain ⟨row', hrow', hle⟩ := h c row hrow
    rw [hrow']
    exact hle

theorem rises_unpin (db : ClusterDb) (channel : String) (marker : Bool) :
    Rises db { db with
      channels := db.channels.modify channel (RmChannel.pin false) (RmChannel.channelLogin_pin false)
      pinsBootstrapped := marker } := by
  refine rises_of_raised
    (raised_modify db.channels channel (RmChannel.channelLogin_pin false) fun _ => le_rfl) ?_
  intro c hnone
  show (db.channels.modify channel (RmChannel.pin false)
    (RmChannel.channelLogin_pin false)).lookup c = none
  by_cases hc : c = channel
  · subst hc
    rw [KeyTable.lookup_modify_self, hnone]
    rfl
  · rw [KeyTable.lookup_modify_ne db.channels hc, hnone]

/-- **No mutation lowers a cutoff.** -/
theorem rises_mutate (env : ClusterEnv) (db : ClusterDb) {operation : Mutation}
    (hclocked : operation.Clocked) (nowMs : ℕ) : Rises db (db.mutate env operation nowMs).2 := by
  rcases mutate_stated env db operation nowMs with heq | ⟨db₁, hstated, heq⟩
  · rw [heq]
    exact .refl db
  · rw [heq]
    show Rises db db₁
    cases hstated with
    | ignore channel ignored =>
      exact rises_upsert db (Int.natCast_nonneg nowMs) fun row => le_max_left _ _
    | purge channel cutoff =>
      have hcutoff : 0 ≤ cutoff := hclocked
      exact rises_upsert db hcutoff fun row => le_max_left _ _
    | pin channel maximum => exact rises_pinChannels db [channel]
    | unpin channel maximum => exact rises_unpin db _ true
    | replacePins channels =>
      refine Rises.trans ?_ (rises_pinChannels _ channels)
      refine rises_of_raised
        (raised_updateWhere db.channels _ (RmChannel.channelLogin_pin false) fun _ => le_rfl) ?_
      intro c hnone
      show (db.channels.updateWhere _ (RmChannel.pin false)
        (RmChannel.channelLogin_pin false)).lookup c = none
      rw [KeyTable.lookup_updateWhere, hnone]
      rfl
    | bootstrapPins channels => exact rises_pinChannels db channels
    | _ => exact .refl db

/-- **No snapshot lowers a cutoff.** -/
theorem rises_given (env : ClusterEnv) (db : ClusterDb) (snapshot : Snapshot) :
    Rises db (db.given env snapshot) := by
  rcases given_cases env db snapshot with heq | hreplaced
  · rw [heq]
    exact .refl db
  · exact hreplaced.purgeMs

end ClusterDb

/-! ### What may be answered later -/

/-- The cutoff that the key of the request will have. -/
def RecentPhase.cutoff : RecentPhase → Option ℤ
  | .gated policy => some policy.purgeMs
  | .admitted policy => some ((policy.map (·.purgeMs)).getD 0)
  | _ => none

/-- What the request has read so far, and the key that it will be cached under. -/
def RecentPhase.held : RecentPhase → Option (String × ReadBody)
  | .merging key _ _ sealed sealedAt => some (key, ⟨sealed, sealed, sealedAt, [], sealedAt⟩)
  | .capturing key _ body => some (key, body)
  | _ => none

/-- The key has a lower cutoff than the policy of its channel had when the purge or opt-out
returned. -/
def Returned.Shuts {β : Type} (env : ServingEnv β) (op : Returned) (key : String) : Prop :=
  ∃ uri peerMode purgeMs, key = cacheKey uri peerMode purgeMs ∧
    purgeMs < op.purges (env.channelOf uri)

/-- **A key that is shut** is not that of a request with a later policy. -/
theorem Returned.Shuts.ne {β : Type} {env : ServingEnv β} {op : Returned} {key uri : String}
    {peerMode : Bool} {purgeMs : ℤ} (h : op.Shuts env key)
    (hle : op.purges (env.channelOf uri) ≤ purgeMs) : key ≠ cacheKey uri peerMode purgeMs := by
  rintro rfl
  obtain ⟨uri', peerMode', purgeMs', hkey, hlt⟩ := h
  obtain ⟨rfl, -, rfl⟩ := cacheKey_injective hkey
  exact absurd hle (not_le.mpr hlt)

namespace ServingNode

variable {β : Type} (env : ServingEnv β)

/-- The bodies that are cached or will be, with their keys. -/
def bodies (s : ServingNode β) : List (String × ReadBody) :=
  s.cache.entries.rows.map (fun entry => (entry.key, entry.body)) ++
    s.requests.filterMap (·.phase.held)

/-- **No cached body that was computed from records that a purge or an opt-out removed** is
the answer to a request that started after it had returned. -/
def NoStaleHit (s : ServingNode β) : Prop :=
  ∀ hit ∈ s.hits, ∀ (i : ℕ) (op : Returned), s.returned[i]? = some op → i < hit.startedAt →
    ∀ r ∈ op.removed, ¬ hit.body.Carries i r

/-- When a purge or an opt-out returns, each body with a record that it removed is under a
key that no later request has. -/
def ShutsOut (s : ServingNode β) : ServingAction → Prop
  | .finish index => ∀ removal ∈ s.removals[index]?, removal.accesses = [] →
    ∀ held ∈ s.bodies, ∀ r ∈ (s.returnedBy env removal).removed, r ∈ held.2.records →
      (s.returnedBy env removal).Shuts env held.1
  | _ => True

/-- What a run keeps: a body with a removed record is shut out, and the requests that are
not yet at the cache have later cutoffs. -/
structure Guarded (s : ServingNode β) : Prop where
  started : ∀ request ∈ s.requests, request.startedAt ≤ s.returned.length
  hits : ∀ hit ∈ s.hits, hit.startedAt ≤ s.returned.length
  late : ∀ request ∈ s.requests, ∀ purgeMs, request.phase.cutoff = some purgeMs →
    ∀ (i : ℕ) (op : Returned), s.returned[i]? = some op → i < request.startedAt →
      op.purges (env.channelOf request.uri) ≤ purgeMs
  shut : ∀ held ∈ s.bodies, ∀ (i : ℕ) (op : Returned), s.returned[i]? = some op →
    ∀ r ∈ op.removed, held.2.Carries i r → op.Shuts env held.1
  floors : ∀ op ∈ s.returned, ∀ c, op.purges c ≤ s.purgeMs c

/-- What changes of a request's phase keep it guarded: its cutoff is the one it had or the
one of the policy now, and what it holds from earlier reads it has held before. -/
structure GoesTo (s : ServingNode β) (request : RecentRequest) (phase : RecentPhase) : Prop where
  cutoff : ∀ purgeMs, phase.cutoff = some purgeMs → request.phase.cutoff = some purgeMs ∨
    purgeMs = s.purgeMs (env.channelOf request.uri)
  held : ∀ key body, phase.held = some (key, body) → ∀ i r, i < s.returned.length →
    body.Carries i r → ∃ body', request.phase.held = some (key, body') ∧ body'.Carries i r

/-- Nothing has returned, and no cutoff has fallen. -/
structure Frame (s s' : ServingNode β) : Prop where
  returned : s'.returned = s.returned
  purges : ∀ c, s.purgeMs c ≤ s'.purgeMs c
  cache : ∀ entry ∈ s'.cache.entries.rows, entry ∈ s.cache.entries.rows ∨
    ∃ request ∈ s.requests, request.phase.held = some (entry.key, entry.body)

/-- What a step does to the requests, the cache and the history. -/
inductive Effect (s : ServingNode β) (a : ServingAction) (s' : ServingNode β) : Prop
  | kept (hframe : Frame s s') (hrequests : ∀ request ∈ s'.requests, request ∈ s.requests)
    (hhits : s'.hits = s.hits)
  | arrived (uri : String) (peerMode : Bool) (hframe : Frame s s')
    (hrequests : s'.requests = s.requests ++ [⟨uri, peerMode, s.returned.length, .received⟩])
    (hhits : s'.hits = s.hits)
  | moved (index : ℕ) (request : RecentRequest) (phase : RecentPhase) (hframe : Frame s s')
    (hrequest : s.requests[index]? = some request) (hphase : GoesTo env s request phase)
    (hrequests : s'.requests = (s.setPhase index phase).requests) (hhits : s'.hits = s.hits)
  | hit (index : ℕ) (request : RecentRequest) (entry : CachedResponse ReadBody) (purgeMs : ℤ)
    (hframe : Frame s s') (hrequest : s.requests[index]? = some request)
    (hcutoff : request.phase.cutoff = some purgeMs) (hentry : entry ∈ s.cache.entries.rows)
    (hkey : entry.key = cacheKey request.uri request.peerMode purgeMs)
    (hrequests : s'.requests = (s.setPhase index .done).requests)
    (hhits : s'.hits = s.hits ++ [⟨request.startedAt, entry.body⟩])
  | returned (index : ℕ) (removal : Removal) (haction : a = .finish index)
    (hremoval : s.removals[index]? = some removal) (haccesses : removal.accesses = [])
    (hrequests : s'.requests = s.requests) (hcache : s'.cache = s.cache) (hhits : s'.hits = s.hits)
    (hreturned : s'.returned = s.returned ++ [s.returnedBy env removal])
    (hpurges : s'.purgeMs = s.purgeMs)

variable {env} {s s' : ServingNode β} {a : ServingAction} {index : ℕ} {request : RecentRequest}

theorem Frame.refl (s : ServingNode β) : Frame s s :=
  ⟨rfl, fun _ => le_rfl, fun _ h => .inl h⟩

/-- Of the policy tables only the cluster's has the cutoffs. -/
theorem frame_of_cluster (hreturned : s'.returned = s.returned) (hcluster : s'.cluster = s.cluster)
    (hcache : s'.cache = s.cache) : Frame s s' := by
  refine ⟨hreturned, fun c => ?_, fun entry h => .inl (hcache ▸ h)⟩
  rw [purgeMs, purgeMs, hcluster]

theorem purgeMs_le_of_rises (s : ServingNode β) {db db' : ClusterDb} (h : ClusterDb.Rises db db')
    (c : String) : ({ s with cluster := some db } : ServingNode β).purgeMs c ≤
      ({ s with cluster := some db' } : ServingNode β).purgeMs c := by
  simp only [purgeMs, Option.map_some, Option.getD_some, ClusterDb.policy_purgeMs]
  exact h _

/-- `apply` has to do with neither requests nor the cache. -/
theorem applyPolicy_eq (env : ServingEnv β) (s : ServingNode β) (channel : String)
    (policy : ChannelPolicy)
    (failure : Option ApplyCall) : ∀ s', s' = (s.applyPolicy env channel policy failure).2 →
      s'.returned = s.returned ∧ s'.cluster = s.cluster ∧ s'.cache = s.cache ∧
        s'.requests = s.requests ∧ s'.hits = s.hits := by
  rintro s' rfl
  rw [applyPolicy]
  split
  · exact ⟨rfl, rfl, rfl, rfl, rfl⟩
  · rename_i db hcluster
    exact ⟨rfl, rfl, rfl, rfl, rfl⟩

/-! ### What a step does -/

theorem goesTo_done (s : ServingNode β) (request : RecentRequest) : GoesTo env s request .done :=
  ⟨nofun, nofun⟩

/-- A phase that the cache does not matter to. -/
theorem goesTo_of_none {phase : RecentPhase} (hcutoff : phase.cutoff = none)
    (hheld : phase.held = none) : GoesTo env s request phase := by
  refine ⟨fun purgeMs h => ?_, fun key body h => ?_⟩
  · rw [hcutoff] at h
    cases h
  · rw [hheld] at h
    cases h

theorem effect_setPhase (hrequest : s.requests[index]? = some request) {phase : RecentPhase}
    (hphase : GoesTo env s request phase) : Effect env s a (s.setPhase index phase) :=
  .moved index request phase (frame_of_cluster rfl rfl rfl) hrequest hphase rfl rfl

theorem effect_lookupStep (hrequest : s.requests[index]? = some request)
    {policy : Option ChannelPolicy} (hphase : request.phase = .admitted policy)
    (activeRequests : ℕ) :
    Effect env s a (s.lookupStep env index activeRequests request policy) := by
  have hhandling : ∀ key arrivedAt, GoesTo env s request (.handling policy key arrivedAt) :=
    fun key arrivedAt => goesTo_of_none rfl rfl
  -- a look at the cache may drop entries that are too old
  have hframe : ∀ cache : CacheState ReadBody,
      (∀ entry ∈ cache.entries.rows, entry ∈ s.cache.entries.rows) →
      ∀ s' : ServingNode β, s'.returned = s.returned → s'.cluster = s.cluster → s'.cache = cache →
        Frame s s' := by
    intro cache hcache s' hreturned hcluster hsame
    refine ⟨hreturned, fun c => ?_, fun entry h => .inl (hcache entry (hsame ▸ h))⟩
    rw [purgeMs, purgeMs, hcluster]
  rw [lookupStep]
  dsimp only
  split
  · split
    -- the entry has the key of the request
    · rename_i entry cache hget
      have hfound := CacheState.get_eq_some (congrArg Prod.fst hget)
      refine .hit index request entry ((policy.map (·.purgeMs)).getD 0)
        (hframe cache (fun entry h => ?_) _ rfl rfl rfl) hrequest ?_ hfound.1 hfound.2 rfl rfl
      · obtain rfl : _ = cache := congrArg Prod.snd hget
        exact CacheState.mem_get h
      · rw [hphase]
        rfl
    · rename_i cache hget
      refine .moved index request _ (hframe cache (fun entry h => ?_) _ rfl rfl rfl) hrequest
        (hhandling _ _) rfl rfl
      obtain rfl : _ = cache := congrArg Prod.snd hget
      exact CacheState.mem_get h
  -- without pressure the cache is not looked at
  · exact .moved index request _ (hframe s.cache (fun _ h => h) _ rfl rfl rfl) hrequest
      (hhandling _ _) rfl rfl

theorem effect_readSealedStep (hrequest : s.requests[index]? = some request) (uri key : String)
    (arrivedAt : ℕ) (options : GetRecentMessagesQueryOptions) :
    Effect env s a (s.readSealedStep env index uri key arrivedAt options) := by
  rw [readSealedStep]
  split
  · refine effect_setPhase hrequest ⟨nofun, ?_⟩
    rintro key' body ⟨⟩ i r - ⟨hr, -⟩
    cases hr
  · split
    · exact effect_setPhase hrequest (goesTo_done s request)
    · refine effect_setPhase hrequest ⟨nofun, ?_⟩
      -- what is read now is not from an earlier read
      rintro key' body ⟨⟩ i r hi ⟨-, ⟨-, hle⟩ | ⟨hr, -⟩⟩
      · exact absurd hi (not_lt.mpr hle)
      · cases hr

theorem effect_readOpenStep (hrequest : s.requests[index]? = some request) {key : String}
    {arrivedAt : ℕ} {options : GetRecentMessagesQueryOptions} {sealed : List CanonicalRecord}
    {sealedAt : ℕ} (hphase : request.phase = .merging key arrivedAt options sealed sealedAt)
    (uri : String) :
    Effect env s a (s.readOpenStep env index uri key arrivedAt options sealed sealedAt) := by
  refine effect_setPhase hrequest ⟨nofun, ?_⟩
  rintro key' body ⟨⟩ i r hi ⟨-, ⟨hr, hle⟩ | ⟨-, hle⟩⟩
  · rw [hphase]
    exact ⟨_, rfl, hr, .inl ⟨hr, hle⟩⟩
  · exact absurd hi (not_lt.mpr hle)

theorem effect_captureStep (hrequest : s.requests[index]? = some request) {key : String}
    {arrivedAt : ℕ} {body : ReadBody} (hphase : request.phase = .capturing key arrivedAt body)
    (contentType coverage : Option String) (bodyLen : ℕ) :
    Effect env s a
      (s.captureStep env index key arrivedAt body contentType coverage bodyLen) := by
  rw [captureStep]
  split
  · exact effect_setPhase hrequest (goesTo_done s request)
  · refine .moved index request .done ⟨rfl, fun _ => le_rfl, fun entry h => ?_⟩ hrequest
      (goesTo_done s request) rfl rfl
    rcases CacheState.mem_insert h with h | rfl
    · exact .inl h
    · refine .inr ⟨request, List.mem_of_getElem? hrequest, ?_⟩
      rw [hphase]
      rfl

/-- **A step of a request.** -/
theorem effect_requestStep (hrequest : s.requests[index]? = some request) (b : RecentAction)
    {phase : RecentPhase} (hphase : request.phase = phase) :
    Effect env s a (s.requestStep env index request b phase) := by
  unfold requestStep
  split
  -- the policy is read, and the cutoff for the key with it
  · split
    · rename_i hcluster
      refine effect_setPhase hrequest ⟨?_, nofun⟩
      rintro purgeMs ⟨⟩
      refine .inr ?_
      rw [ServingNode.purgeMs, hcluster]
      rfl
    · rename_i db hcluster
      refine effect_setPhase hrequest ⟨?_, nofun⟩
      rintro purgeMs ⟨⟩
      refine .inr ?_
      rw [ServingNode.purgeMs, hcluster]
      rfl
  -- it is applied, and a request for an ignored channel is refused
  · rename_i failure policy
    have hsame := applyPolicy_eq env s (toAsciiLowercase (env.channelOf request.uri))
      policy failure
    split
    · rename_i e s' happly
      obtain ⟨hreturned, hcluster, hcache, hrequests, hhits⟩ := hsame s' (by rw [happly])
      refine .moved index request .done (frame_of_cluster hreturned hcluster hcache) hrequest
        (goesTo_done s request) ?_ hhits
      rw [setPhase, setPhase, hrequests]
    · rename_i s' happly
      obtain ⟨hreturned, hcluster, hcache, hrequests, hhits⟩ := hsame s' (by rw [happly])
      refine .moved index request (if policy.ignored then .done else .admitted (some policy))
        (frame_of_cluster hreturned hcluster hcache) hrequest ?_ ?_ hhits
      · split
        · exact goesTo_done s request
        · refine ⟨fun purgeMs h => .inl ?_, nofun⟩
          rw [hphase]
          exact h
      · rw [setPhase, setPhase, hrequests]
  -- the cache is looked at
  · exact effect_lookupStep hrequest hphase _
  · exact effect_setPhase hrequest (goesTo_of_none rfl rfl)
  · split
    · exact effect_setPhase hrequest (goesTo_done s request)
    · exact effect_setPhase hrequest (goesTo_of_none rfl rfl)
  -- the two reads, and the capture of the body
  · exact effect_readSealedStep hrequest _ _ _ _
  · exact effect_readOpenStep hrequest hphase _
  · exact effect_captureStep hrequest hphase _ _ _
  -- the request is answered, or cancelled
  · exact effect_setPhase hrequest (goesTo_done s request)
  · exact .kept (.refl s) (fun _ h => h) rfl

/-- A mutation raises cutoffs and does nothing else. -/
theorem mutateStep_eq (env : ServingEnv β) (s : ServingNode β) {operation : Mutation}
    (hclocked : operation.Clocked) :
    ∀ s', s' = (s.mutateStep env operation).2 →
      Frame s s' ∧ s'.requests = s.requests ∧ s'.hits = s.hits := by
  rintro s' rfl
  rw [mutateStep]
  split
  · rename_i db hcluster howner
    have hrises := ClusterDb.rises_mutate env.cluster db hclocked s.nowMs
    have hpurges : ∀ c, s.purgeMs c ≤
        ({ s with cluster := some (db.mutate env.cluster operation s.nowMs).2 } :
          ServingNode β).purgeMs c := by
      intro c
      have hle := purgeMs_le_of_rises s hrises c
      have hs : s = { s with cluster := some db } := by rw [← hcluster]
      rw [← hs] at hle
      exact hle
    split <;> rename_i hmutate <;> rw [hmutate] at hpurges
    · exact ⟨⟨rfl, hpurges, fun _ h => .inl h⟩, rfl, rfl⟩
    · exact ⟨⟨rfl, hpurges, fun _ h => .inl h⟩, rfl, rfl⟩
  · exact ⟨.refl s, rfl, rfl⟩

/-- The accesses of a removal that change the cluster's database. -/
def mutateAccess (env : ServingEnv β) (s : ServingNode β) (index : ℕ) (removal : Removal)
    (rest : List RemovalAccess) (operation : Mutation) : ServingNode β :=
  match s.mutateStep env operation with
  | (.error _, s) => s.drop index
  | (.ok (), s) => s.goOn index removal rest removal.policy

theorem effect_mutateAccess (s : ServingNode β) (index : ℕ) (removal : Removal)
    (rest : List RemovalAccess) {operation : Mutation} (hclocked : operation.Clocked) :
    Effect env s a (mutateAccess env s index removal rest operation) := by
  have hsame := mutateStep_eq env s hclocked
  unfold mutateAccess
  split <;> rename_i s' hstep <;> obtain ⟨hframe, hrequests, hhits⟩ := hsame s' (by rw [hstep])
  · exact .kept ⟨hframe.returned, hframe.purges, hframe.cache⟩ (fun _ h => hrequests ▸ h) hhits
  · exact .kept ⟨hframe.returned, hframe.purges, hframe.cache⟩ (fun _ h => hrequests ▸ h) hhits

/-- **An access of a purge or an opt-out.** -/
theorem effect_accessStep (s : ServingNode β) (index : ℕ) (removal : Removal)
    (access : RemovalAccess) (rest : List RemovalAccess) (failure : Option ApplyCall) :
    Effect env s a (s.accessStep env index removal access rest failure) := by
  rw [accessStep.eq_def]
  split
  · exact effect_mutateAccess s index removal rest (Int.natCast_nonneg _)
  · exact effect_mutateAccess s index removal rest trivial
  · exact .kept (frame_of_cluster rfl rfl rfl) (fun _ h => h) rfl
  · exact .kept (frame_of_cluster rfl rfl rfl) (fun _ h => h) rfl
  · have hsame := applyPolicy_eq env s (toAsciiLowercase removal.userLogin)
      removal.policy failure
    split <;> rename_i s' happly <;>
      obtain ⟨hreturned, hcluster, hcache, hrequests, hhits⟩ := hsame s' (by rw [happly])
    · exact .kept (frame_of_cluster hreturned hcluster hcache) (fun _ h => hrequests ▸ h) hhits
    · exact .kept (frame_of_cluster hreturned hcluster hcache) (fun _ h => hrequests ▸ h) hhits

theorem effect_stepCore (env : ServingEnv β) (s : ServingNode β) (a : ServingAction) :
    Effect env s a (s.stepCore env a) := by
  have hsame : Effect env s a s := .kept (.refl s) (fun _ h => h) rfl
  cases a with
  | tick ms => exact .kept (frame_of_cluster rfl rfl rfl) (fun _ h => h) rfl
  | node b =>
    -- a crash takes the cache and the requests with the process
    rw [stepCore, nodeStep.eq_def]
    split
    · refine .kept ⟨rfl, fun _ => le_rfl, ?_⟩ ?_ rfl
      · rintro entry ⟨⟩
      · rintro request ⟨⟩
    · exact .kept (frame_of_cluster rfl rfl rfl) (fun _ h => h) rfl
  | mutate operation =>
    -- the cutoff of a purge is a clock reading, so that no cutoff falls
    rw [stepCore]
    split
    · rename_i hclocked
      obtain ⟨hframe, hrequests, hhits⟩ := mutateStep_eq env s hclocked _ rfl
      exact .kept hframe (fun _ h => hrequests ▸ h) hhits
    · exact hsame
  | receive snapshot =>
    -- a replica takes only snapshots of a newer revision
    rw [stepCore]
    split
    · rename_i db hcluster howner
      refine .kept ⟨rfl, fun c => ?_, fun _ h => .inl h⟩ (fun _ h => h) rfl
      have hle := purgeMs_le_of_rises s (ClusterDb.rises_given env.cluster db snapshot) c
      have hs : s = { s with cluster := some db } := by rw [← hcluster]
      rw [← hs] at hle
      exact hle
    · exact hsame
  | readPolicy channelLogin =>
    -- a policy that is read is applied later
    rw [stepCore]
    split
    · exact hsame
    · exact .kept (frame_of_cluster rfl rfl rfl) (fun _ h => h) rfl
  | applyRead reader failure =>
    -- `apply` leaves the requests and the cache alone
    rw [stepCore]
    split
    · exact hsame
    · rename_i channel policy hread
      obtain ⟨hreturned, hcluster, hcache, hrequests, hhits⟩ :=
        applyPolicy_eq env s channel policy failure _ rfl
      exact .kept (frame_of_cluster hreturned hcluster hcache) (fun _ h => hrequests ▸ h) hhits
  | arrive uri peerMode =>
    -- a new request has no body yet
    exact .arrived uri peerMode (frame_of_cluster rfl rfl rfl) rfl rfl
  | request index b =>
    -- a step of a request, by its phase
    rw [stepCore]
    split
    · rename_i request hrequest
      exact effect_requestStep hrequest b rfl
    · exact hsame
  | purge userLogin cutoffMs joined =>
    -- a removal that begins has removed nothing
    exact .kept (frame_of_cluster rfl rfl rfl) (fun _ h => h) rfl
  | optOut userLogin => exact .kept (frame_of_cluster rfl rfl rfl) (fun _ h => h) rfl
  | advance index failure =>
    -- an access of a removal, by what it accesses
    rw [stepCore]
    split
    · split
      · exact hsame
      · exact effect_accessStep s index _ _ _ failure
    · exact hsame
  -- a removal that is given up does not return
  | abort index => exact .kept (frame_of_cluster rfl rfl rfl) (fun _ h => h) rfl
  | finish index =>
    -- the only step at which something returns: no access is left
    rw [stepCore]
    split
    · rename_i removal hremoval
      split
      · rename_i haccesses
        exact .returned index removal rfl hremoval haccesses rfl rfl rfl rfl rfl
      · exact hsame
    · exact hsame

/-- **What a step does.** -/
theorem effect_step (env : ServingEnv β) (s : ServingNode β) (a : ServingAction) :
    Effect env s a (s.step env a) := by
  -- the history of what could be seen is not looked at
  have hframe : ∀ {s' : ServingNode β}, Frame s s' → Frame s (s'.observe env) :=
    fun h => ⟨h.returned, h.purges, h.cache⟩
  cases effect_stepCore env s a with
  | kept h hrequests hhits => exact .kept (hframe h) hrequests hhits
  | arrived uri peerMode h hrequests hhits => exact .arrived uri peerMode (hframe h) hrequests hhits
  | moved index request phase h hrequest hphase hrequests hhits =>
    exact .moved index request phase (hframe h) hrequest hphase hrequests hhits
  | hit index request entry purgeMs h hrequest hcutoff hentry hkey hrequests hhits =>
    exact .hit index request entry purgeMs (hframe h) hrequest hcutoff hentry hkey hrequests hhits
  | returned index removal haction hremoval haccesses hrequests hcache hhits hreturned hpurges =>
    exact .returned index removal haction hremoval haccesses hrequests hcache hhits hreturned hpurges

/-! ### What a run keeps -/

theorem mem_bodies {held : String × ReadBody} : held ∈ s.bodies ↔
    (∃ entry ∈ s.cache.entries.rows, (entry.key, entry.body) = held) ∨
      ∃ request ∈ s.requests, request.phase.held = some held := by
  simp [bodies]

/-- A request that was there, or the one that has moved on. -/
theorem mem_setPhase {phase : RecentPhase} {request' : RecentRequest}
    (h : request' ∈ (s.setPhase index phase).requests) : request' ∈ s.requests ∨
      ∃ request, s.requests[index]? = some request ∧ request' = { request with phase } := by
  obtain ⟨i, hi⟩ := List.mem_iff_getElem?.mp h
  rw [setPhase, List.getElem?_modify, Option.map_eq_map, Option.map_eq_some_iff] at hi
  obtain ⟨request, hrequest, rfl⟩ := hi
  split
  · rename_i heq
    subst heq
    exact .inr ⟨request, hrequest, rfl⟩
  · exact .inl (List.mem_of_getElem? hrequest)

/-- The requests after a step in which nothing returns. -/
structure Requests (env : ServingEnv β) (s s' : ServingNode β) : Prop where
  started : ∀ request' ∈ s'.requests, request'.startedAt ≤ s.returned.length
  late : ∀ request' ∈ s'.requests, ∀ purgeMs, request'.phase.cutoff = some purgeMs →
    ∀ (i : ℕ) (op : Returned), s.returned[i]? = some op → i < request'.startedAt →
      op.purges (env.channelOf request'.uri) ≤ purgeMs
  held : ∀ request' ∈ s'.requests, ∀ key body, request'.phase.held = some (key, body) →
    ∀ i r, i < s.returned.length → body.Carries i r →
      ∃ body', (key, body') ∈ s.bodies ∧ body'.Carries i r

theorem requests_of_subset (h : Guarded env s)
    (hrequests : ∀ request ∈ s'.requests, request ∈ s.requests) : Requests env s s' :=
  ⟨fun request hr => h.started request (hrequests request hr),
    fun request hr => h.late request (hrequests request hr),
    fun request hr _ body hheld _ _ _ hcarries =>
      ⟨body, mem_bodies.mpr (.inr ⟨request, hrequests request hr, hheld⟩), hcarries⟩⟩

theorem requests_of_setPhase (h : Guarded env s) (hrequest : s.requests[index]? = some request)
    {phase : RecentPhase} (hphase : GoesTo env s request phase)
    (hrequests : s'.requests = (s.setPhase index phase).requests) : Requests env s s' := by
  have hmem := List.mem_of_getElem? hrequest
  have hold : Requests env s s := requests_of_subset h fun _ h => h
  have hcases : ∀ request' ∈ s'.requests,
      request' ∈ s.requests ∨ request' = { request with phase } := by
    intro request' hr
    rcases mem_setPhase (hrequests ▸ hr) with hr | ⟨other, hother, rfl⟩
    · exact .inl hr
    · rw [Option.some.inj (hother.symm.trans hrequest)]
      exact .inr rfl
  refine ⟨fun request' hr => ?_, fun request' hr => ?_, fun request' hr => ?_⟩
  · rcases hcases request' hr with hr | rfl
    · exact hold.started request' hr
    · exact hold.started request hmem
  · rcases hcases request' hr with hr | rfl
    · exact hold.late request' hr
    · intro purgeMs hcutoff i op hop hlt
      rcases hphase.cutoff purgeMs hcutoff with hcutoff | rfl
      · exact hold.late request hmem purgeMs hcutoff i op hop hlt
      · exact h.floors op (List.mem_of_getElem? hop) _
  · rcases hcases request' hr with hr | rfl
    · exact hold.held request' hr
    · intro key body hheld i r hi hcarries
      obtain ⟨body', hheld', hcarries'⟩ := hphase.held key body hheld i r hi hcarries
      exact ⟨body', mem_bodies.mpr (.inr ⟨request, hmem, hheld'⟩), hcarries'⟩

/-- **A step in which nothing returns** leaves what was shut out shut out. -/
theorem guarded_of_frame (h : Guarded env s) (hframe : Frame s s') (hrequests : Requests env s s')
    (hhits : ∀ hit ∈ s'.hits, hit.startedAt ≤ s.returned.length) : Guarded env s' := by
  have hreturned := hframe.returned
  refine ⟨?_, ?_, ?_, fun held hheld => ?_, ?_⟩
  · rw [hreturned]
    exact hrequests.started
  · rw [hreturned]
    exact hhits
  · rw [hreturned]
    exact hrequests.late
  · rw [hreturned]
    intro i op hop r hr hcarries
    have hlt := (List.getElem?_eq_some_iff.mp hop).1
    have hold : ∃ body', (held.1, body') ∈ s.bodies ∧ body'.Carries i r := by
      rcases mem_bodies.mp hheld with ⟨entry, hentry, rfl⟩ | ⟨request', hrequest', hheld'⟩
      · refine ⟨entry.body, mem_bodies.mpr ?_, hcarries⟩
        rcases hframe.cache entry hentry with hentry | ⟨request, hrequest, hheld⟩
        · exact .inl ⟨entry, hentry, rfl⟩
        · exact .inr ⟨request, hrequest, hheld⟩
      · exact hrequests.held request' hrequest' held.1 held.2 hheld' i r hlt hcarries
    obtain ⟨body', hbody', hcarries'⟩ := hold
    exact h.shut _ hbody' i op hop r hr hcarries'
  · rw [hreturned]
    exact fun op hop c => (h.floors op hop c).trans (hframe.purges c)

/-- **A purge or an opt-out that shuts out what it removed** keeps the node guarded. -/
theorem guarded_of_returned (h : Guarded env s) {op : Returned}
    (hrequests : s'.requests = s.requests) (hcache : s'.cache = s.cache) (hhits : s'.hits = s.hits)
    (hreturned : s'.returned = s.returned ++ [op]) (hpurges : s'.purgeMs = s.purgeMs)
    (hop : op.purges = s.purgeMs)
    (hshut : ∀ held ∈ s.bodies, ∀ r ∈ op.removed, r ∈ held.2.records → op.Shuts env held.1) :
    Guarded env s' := by
  have hlength : s'.returned.length = s.returned.length + 1 := by
    rw [hreturned, List.length_append, List.length_singleton]
  -- the last one to have returned is the new one
  have hcases : ∀ (i : ℕ) (op' : Returned), s'.returned[i]? = some op' →
      s.returned[i]? = some op' ∨ (i = s.returned.length ∧ op' = op) := by
    intro i op' hop'
    rw [hreturned, List.getElem?_append] at hop'
    split at hop'
    · exact .inl hop'
    · obtain ⟨hlt, heq⟩ := List.getElem?_eq_some_iff.mp hop'
      rw [List.length_singleton] at hlt
      refine .inr ⟨by omega, ?_⟩
      rw [← heq]
      simp
  refine ⟨fun request hr => ?_, fun hit hh => ?_, ?_, fun held hheld => ?_, ?_⟩
  · rw [hrequests] at hr
    exact (h.started request hr).trans (by omega)
  · rw [hhits] at hh
    exact (h.hits hit hh).trans (by omega)
  · intro request hr purgeMs hcutoff i op' hop' hlt
    rw [hrequests] at hr
    rcases hcases i op' hop' with hop' | ⟨rfl, rfl⟩
    · exact h.late request hr purgeMs hcutoff i op' hop' hlt
    · exact absurd hlt (not_lt.mpr (h.started request hr))
  · have hheld : held ∈ s.bodies := by
      rw [bodies, hrequests, hcache] at hheld
      exact hheld
    intro i op' hop' r hr hcarries
    rcases hcases i op' hop' with hop' | ⟨rfl, rfl⟩
    · exact h.shut held hheld i op' hop' r hr hcarries
    · exact hshut held hheld r hr hcarries.1
  · intro op' hop' c
    rw [hpurges]
    rw [hreturned, List.mem_append, List.mem_singleton] at hop'
    rcases hop' with hop' | rfl
    · exact h.floors op' hop' c
    · rw [hop]

theorem guarded_step (h : Guarded env s) (ha : ShutsOut env s a) : Guarded env (s.step env a) := by
  cases effect_step env s a with
  | kept hframe hrequests hhits =>
    -- nothing new is answered from the cache
    exact guarded_of_frame h hframe (requests_of_subset h hrequests) (hhits ▸ h.hits)
  | arrived uri peerMode hframe hrequests hhits =>
    -- a new request has neither a cutoff nor a body
    have hold : Requests env s s := requests_of_subset h fun _ h => h
    refine guarded_of_frame h hframe ⟨?_, ?_, ?_⟩ (hhits ▸ h.hits) <;> rw [hrequests] <;>
      intro request hr <;> rcases List.mem_append.mp hr with hr | hr
    · exact hold.started request hr
    · rw [List.mem_singleton.mp hr]
    · exact hold.late request hr
    · rw [List.mem_singleton.mp hr]
      nofun
    · exact hold.held request hr
    · rw [List.mem_singleton.mp hr]
      nofun
  | moved index request phase hframe hrequest hphase hrequests hhits =>
    exact guarded_of_frame h hframe (requests_of_setPhase h hrequest hphase hrequests)
      (hhits ▸ h.hits)
  | hit index request entry purgeMs hframe hrequest hcutoff hentry hkey hrequests hhits =>
    -- the request that is answered has started before whatever returns from now on
    refine guarded_of_frame h hframe
      (requests_of_setPhase h hrequest (goesTo_done s request) hrequests) ?_
    rw [hhits]
    intro hit hhit
    rcases List.mem_append.mp hhit with hhit | hhit
    · exact h.hits hit hhit
    · rw [List.mem_singleton.mp hhit]
      exact h.started request (List.mem_of_getElem? hrequest)
  | returned index removal haction hremoval haccesses hrequests hcache hhits hreturned hpurges =>
    -- the step that the hypothesis is about
    subst haction
    exact guarded_of_returned h hrequests hcache hhits hreturned hpurges rfl
      (ha removal hremoval haccesses)

/-- **A hit is not stale**, for its key is not shut. -/
theorem noStaleHit_step (h : Guarded env s) (hq : s.NoStaleHit) :
    (s.step env a).NoStaleHit := by
  have hold : ∀ s' : ServingNode β, s'.hits = s.hits → s'.returned = s.returned →
      s'.NoStaleHit := by
    intro s' hhits hreturned
    rw [NoStaleHit, hhits, hreturned]
    exact hq
  cases effect_step env s a with
  | kept hframe hrequests hhits => exact hold _ hhits hframe.returned
  | arrived uri peerMode hframe hrequests hhits => exact hold _ hhits hframe.returned
  | moved index request phase hframe hrequest hphase hrequests hhits =>
    exact hold _ hhits hframe.returned
  | hit index request entry purgeMs hframe hrequest hcutoff hentry hkey hrequests hhits =>
    rw [NoStaleHit, hhits, hframe.returned]
    intro hit hhit i op hop hlt r hr hcarries
    rcases List.mem_append.mp hhit with hhit | hhit
    · exact hq hit hhit i op hop hlt r hr hcarries
    · rw [List.mem_singleton.mp hhit] at hlt hcarries
      have hshut := h.shut (entry.key, entry.body) (mem_bodies.mpr (.inl ⟨entry, hentry, rfl⟩)) i op
        hop r hr hcarries
      exact hshut.ne (h.late request (List.mem_of_getElem? hrequest) purgeMs hcutoff i op hop hlt)
        hkey
  | returned index removal haction hremoval haccesses hrequests hcache hhits hreturned hpurges =>
    rw [NoStaleHit, hhits, hreturned]
    intro hit hhit i op hop hlt
    -- no request started after what has only just returned
    have hlt' := hlt.trans_le (h.hits hit hhit)
    rw [List.getElem?_append_left hlt'] at hop
    exact hq hit hhit i op hop hlt

theorem guarded_start (node : Node β) (cluster : Option ClusterDb)
    (stored : String → Option ChannelPolicy) (alwaysJoin : String → Bool) (nowMs : ℕ) :
    Guarded env (start node cluster stored alwaysJoin nowMs) where
  started := fun _ hrequest => absurd hrequest List.not_mem_nil
  hits := fun _ hhit => absurd hhit List.not_mem_nil
  late := fun _ hrequest => absurd hrequest List.not_mem_nil
  shut := fun _ hheld => absurd hheld List.not_mem_nil
  floors := fun _ hop => absurd hop List.not_mem_nil

/-- **No purged or opted-out record is answered from the cache** in a run in which, when a
purge or an opt-out returns, the bodies with records that it removed are under keys that no
later request has. -/
theorem no_stale_hit (env : ServingEnv β) (node : Node β) (cluster : Option ClusterDb)
    (stored : String → Option ChannelPolicy) (alwaysJoin : String → Bool) (nowMs : ℕ)
    (actions : List ServingAction)
    (hsteps : Along (step env) (ShutsOut env) (start node cluster stored alwaysJoin nowMs)
      actions) :
    Throughout (step env) NoStaleHit (start node cluster stored alwaysJoin nowMs) actions :=
  throughout_of_along (fun _ _ h hq ha => ⟨guarded_step h ha, noStaleHit_step h hq⟩)
    (guarded_start node cluster stored alwaysJoin nowMs) nofun hsteps

/-- Only the end of a purge or an opt-out is restricted. -/
theorem shutsOut_of_ne (h : ∀ index, a ≠ .finish index) : ShutsOut env s a := by
  cases a with
  | finish index => exact absurd rfl (h index)
  | _ => exact trivial

/-! ### A body that is not shut out -/

/-- A node of the plain settings; all its requests are for one channel. -/
def sampleEnv : ServingEnv Plain where
  settings := .plain
  cluster := ⟨fun _ => true, fun _ => none⟩
  cache := ⟨1000, 2000, 24, 2, 1000, 500⟩
  maxBufferSize := 800
  owner := true
  channelOf := fun _ => "quiet"
  optionsOf := fun _ => ⟨none, none, none⟩

def sampleUri : String := "/api/v2/recent-messages/quiet"

/-- A request, from its arrival to its capture. -/
def requestActions (index activeRequests : ℕ) : List ServingAction :=
  .arrive sampleUri true :: [RecentAction.gate, .apply none, .lookup activeRequests, .handle, .check,
    .readSealed, .readOpen, .capture none none 100].map (.request index)

/-- A purge with all its accesses, up to its end. -/
def purgeActions : List ServingAction :=
  .purge "Quiet" 5 false :: List.replicate 6 (.advance 0 none)

/-- A request, a purge, and a request under pressure. -/
def purgedActions : List ServingAction :=
  (requestActions 0 0 ++ purgeActions) ++ ([.finish 0] ++ requestActions 1 24)

/-- A node that holds two messages of the channel. -/
def sampleStart (cluster : Option ClusterDb) : ServingNode Plain :=
  start (Node.run .plain Node.acceptedActions) cluster (fun _ => none) (fun _ => false) 10

/-- An owner that has written nothing yet. -/
def sampleOwner : ClusterDb :=
  { ClusterDb.empty with epoch := some "e", revision := some 0, initialized := true }

/-- Under cluster control the purge shuts the cached response out, as its key has the
cutoff 0. -/
theorem no_stale_hit_sample :
    Throughout (step sampleEnv) NoStaleHit (sampleStart (some sampleOwner)) purgedActions := by
  refine no_stale_hit sampleEnv _ _ _ _ _ _ (Along.append.mpr ⟨.of_forall ?_, ?_, .of_forall ?_⟩)
  · intro a ha s
    refine shutsOut_of_ne fun index => ?_
    rintro rfl
    exact absurd ha (by simp [requestActions, purgeActions])
  · rintro removal - - held hheld r - -
    have hkeys : ∀ held ∈ ((requestActions 0 0 ++ purgeActions).foldl (step sampleEnv)
        (sampleStart (some sampleOwner))).bodies, held.1 = cacheKey sampleUri true 0 := by
      decide +kernel
    have hpurges : 0 < ((requestActions 0 0 ++ purgeActions).foldl (step sampleEnv)
        (sampleStart (some sampleOwner))).purgeMs "quiet" := by
      decide +kernel
    exact ⟨sampleUri, true, 0, hkeys held hheld, hpurges⟩
  · intro a ha s
    refine shutsOut_of_ne fun index => ?_
    rintro rfl
    exact absurd ha (by simp [requestActions])

/-- No run answers a request from the cache with a body that was computed from records
that a purge or an opt-out has removed. -/
def NeverStale (env : ServingEnv β) : Prop :=
  ∀ (node : Node β) (cluster : Option ClusterDb) (stored : String → Option ChannelPolicy)
    (alwaysJoin : String → Bool) (nowMs : ℕ) (actions : List ServingAction),
    Throughout (step env) NoStaleHit (start node cluster stored alwaysJoin nowMs) actions

/-- **A purged response is answered**: without cluster control, a response that was cached
before a purge is the answer to a request after it. -/
theorem stale_hit : ¬ ∀ env : ServingEnv Plain, NeverStale env := by
  intro h
  have hlast := (h sampleEnv (Node.run .plain Node.acceptedActions) none (fun _ => none)
    (fun _ => false) 10 purgedActions).last
  have hstale : ∃ hit ∈ (purgedActions.foldl (step sampleEnv) (sampleStart none)).hits,
      0 < hit.startedAt ∧
        ∃ op ∈ (purgedActions.foldl (step sampleEnv) (sampleStart none)).returned[0]?,
          ∃ r ∈ op.removed, hit.body.Carries 0 r := by
    decide +kernel
  obtain ⟨hit, hhit, hlt, op, hop, r, hr, hcarries⟩ := hstale
  exact hlast hit hhit 0 op hop hlt r hr hcarries

end ServingNode

end RecentMessages
