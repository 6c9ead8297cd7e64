/-
RecentMessages/Control/JoinParter.lean

Which channels the IRC client is to be in (`irc_listener.rs`, `run_channel_join_parter` and
`join_if_needed`).

One task reads from time to time which channels are wanted and sets the client to them.  A request
for a channel that the client is not in has the client join it at once.  In between lie accesses to
the database, and other tasks work on it, so a channel that was joined after the read would be left
again.  A gate keeps the two apart: whoever reads and sets, or touches and joins, holds it.

* `exclusive_step` — at most one holds the gate;
* `requested_channel_stays` — a channel that a request has joined is wanted until it is parted, or
  until a read that came later does not list it.
-/
import RecentMessages.Control.ControlStore
import RecentMessages.Control.JoinState
import Mathlib.Data.Finset.Basic

namespace RecentMessages

/-! ### The database -/

/-- The tables that tell which channels to join; `alwaysJoin` lists the channels whose flag is
set. -/
structure ChannelDb where
  control : ControlStore
  alwaysJoin : List String
  joinState : JoinTable

namespace ChannelDb

/-- `join_state.state IS NULL OR state != 'unavailable' OR next_retry_ms <= now`. -/
def mayJoin (db : ChannelDb) (now : ℤ) (channelLogin : String) : Bool :=
  (db.joinState.lookup channelLogin).all fun row =>
    row.state ≠ .unavailable || decide (row.nextRetryMs ≤ now)

/-- `get_channel_logins_to_join`, which reads the clock for the cutoff and for the retries. -/
def getChannelLoginsToJoin (db : ChannelDb) (channelExpiry : ℕ) (cutoffNow now : ℤ) :
    Finset String :=
  let cutoff := satSub cutoffNow (durationMs channelExpiry)
  ((db.control.channel.rows.filter fun row => row.ignoredAtMs.isNone &&
    (db.alwaysJoin.contains row.channelLogin || decide (cutoff < row.lastAccessMs)) &&
      db.mayJoin now row.channelLogin).map (·.channelLogin)).toFinset

def call (db : ChannelDb) (call : ControlCall) : ChannelDb :=
  { db with control := db.control.call call }

def join (db : ChannelDb) (event : JoinEvent) : ChannelDb :=
  { db with joinState := db.joinState.step event }

/-- `set_channel_ignored`, which also deletes the join state. -/
def setChannelIgnored (db : ChannelDb) (channelLogin : String) (ignored : Bool) (nowMs : ℤ) :
    ChannelDb :=
  { db with
    control := db.control.setChannelIgnored channelLogin ignored nowMs
    joinState :=
      if ignored then db.joinState.erase (toAsciiLowercase channelLogin) else db.joinState }

/-- `prune_inactive_channels`, which also deletes the join state. -/
def pruneInactiveChannels (db : ChannelDb) (cutoffMs : ℤ) : ChannelDb :=
  { db with
    control := db.control.pruneInactiveChannels db.alwaysJoin cutoffMs
    joinState := db.joinState.deleteWhere
      (·.channelLogin ∈ db.control.inactiveChannels db.alwaysJoin cutoffMs) }

end ChannelDb

/-! ### The listener -/

/-- The configuration; durations are in nanoseconds. -/
structure JoinEnv where
  joinConfirmationTimeout : ℕ
  joinRetryMin : ℕ
  joinRetryMax : ℕ
  channelsExpireAfter : ℕ
  messageTtl : ℕ

/-- Who may hold `wanted_channels_gate`. -/
inductive GateHolder
  | parter
  | request (index : ℕ)
  deriving DecidableEq, Repr

/-- Where `run_channel_join_parter` is. -/
inductive ParterPhase
  | select
  /-- At the gate; `retry` after joins have timed out. -/
  | waiting (retry : Bool)
  | reading (retry : Bool)
  /-- In the loop over the channels, `todo` of which are left. -/
  | confirming (channels todo : Finset String)
  | pruningCoverage (channels : Finset String)
  | pruningInactive (channels : Finset String)
  | setting (channels : Finset String)

/-- The phases in which the gate is held. -/
def ParterPhase.holds : ParterPhase → Bool
  | select | waiting _ => false
  | _ => true

/-- What has been read and is to be set. -/
def ParterPhase.channels : ParterPhase → Option (Finset String)
  | confirming channels _ | pruningCoverage channels | pruningInactive channels
  | setting channels => some channels
  | _ => none

/-- Where a call of `join_if_needed` is. -/
inductive RequestPhase
  | waiting
  | touching
  | checking
  | beginning
  | joining
  | done
  deriving DecidableEq, Repr

def RequestPhase.holds : RequestPhase → Bool
  | waiting | done => false
  | _ => true

structure JoinRequest where
  channelLogin : String
  phase : RequestPhase
  deriving DecidableEq, Repr

/-- What has been done, for the history. -/
inductive ListenerEvent
  /-- `get_channel_logins_to_join` has read this database. -/
  | read (db : ChannelDb) (cutoffNow now : ℤ)
  /-- A request has touched the channel at the time `now`. -/
  | touched (channelLogin : String) (now : ℤ)
  | pruned (cutoffMs : ℤ)
  /-- A request has joined the channel. -/
  | joined (channelLogin : String)
  /-- Some task has parted the channel. -/
  | parted (channelLogin : String)
  | set (channels : Finset String)

structure Listener where
  db : ChannelDb
  /-- The channels that the client is to be in. -/
  wanted : Finset String
  gate : Option GateHolder
  parter : ParterPhase
  requests : List JoinRequest
  /-- History. -/
  log : List ListenerEvent

/-- What happens.  An access fails or does not, and the status of a channel is what the client
makes of it. -/
inductive ListenerAction
  | retryTick (now : ℤ) (fails : Bool)
  /-- `check_interval` ticks, or the parter is notified. -/
  | wake
  | enterParter
  | read (cutoffNow now : ℤ) (fails : Bool)
  | confirm (channelLogin : String) (joined : Bool) (now : ℤ) (fails : Bool)
  | confirmed
  | pruneCoverage (now : ℤ) (fails : Bool)
  | pruneInactive (now : ℤ) (fails : Bool)
  /-- The client refuses channels whose names are not valid. -/
  | setWanted (fails : Bool)
  /-- The service shuts down. -/
  | stop
  | request (channelLogin : String)
  | enterRequest (index : ℕ)
  | touch (index : ℕ) (now : ℤ) (fails : Bool)
  | check (index : ℕ) (joined : Bool)
  | begin_ (index : ℕ) (now : ℤ) (fails : Bool)
  | join (index : ℕ) (fails : Bool)
  /-- Whoever waits for the request goes away. -/
  | cancel (index : ℕ)
  /-- Other tasks work on the database and with the client. -/
  | setChannelIgnored (channelLogin : String) (ignored : Bool) (nowMs : ℤ)
  | setAlwaysJoin (logins : List String)
  | controlCall (call : ControlCall)
  | joinCall (event : JoinEvent)
  | clientJoin (channelLogin : String)
  | clientPart (channelLogin : String)

namespace Listener

variable (env : JoinEnv)

def start (db : ChannelDb) : Listener := ⟨db, ∅, none, .select, [], []⟩

/-- Put a request into its next phase. -/
def setPhase (s : Listener) (index : ℕ) (phase : RequestPhase) : Listener :=
  { s with requests := s.requests.modify index fun request => { request with phase } }

/-- The same, and leave the gate. -/
def leave (s : Listener) (index : ℕ) : Listener := { s.setPhase index .done with gate := none }

/-- The parter's turn. -/
def parterStep (s : Listener) : ListenerAction → ParterPhase → Listener
  | .retryTick now fails, .select =>
    if fails then s
    else
      match s.db.joinState.failStaleJoinAttempts now env.joinRetryMin env.joinRetryMax with
      | .error _ => s
      | .ok (joinState, count) =>
        { s with
          db := { s.db with joinState }
          parter := if count = 0 then .select else .waiting true }
  | .wake, .select => { s with parter := .waiting false }
  | .enterParter, .waiting retry =>
    if s.gate = none then { s with gate := some .parter, parter := .reading retry } else s
  | .read cutoffNow now fails, .reading retry =>
    if fails then { s with gate := none, parter := .select }
    else
      let channels := s.db.getChannelLoginsToJoin env.channelsExpireAfter cutoffNow now
      { s with
        parter := if retry then .setting channels else .confirming channels channels
        log := s.log ++ [.read s.db cutoffNow now] }
  | .confirm channelLogin joined now fails, .confirming channels todo =>
    if channelLogin ∈ todo then
      let event : JoinEvent := ⟨now,
        if joined then .markJoinConfirmed channelLogin
        else .beginJoinAttemptIfDue channelLogin env.joinConfirmationTimeout env.joinRetryMin
          env.joinRetryMax⟩
      { s with
        db := if fails then s.db else s.db.join event
        parter := .confirming channels (todo.erase channelLogin) }
    else s
  | .confirmed, .confirming channels todo =>
    if todo = ∅ then { s with parter := .pruningCoverage channels } else s
  | .pruneCoverage now fails, .pruningCoverage channels =>
    { s with
      db := if fails then s.db
        else s.db.call (.pruneCoverageEndedBefore (satSub now (durationMs env.messageTtl)))
      parter := .pruningInactive channels }
  | .pruneInactive now fails, .pruningInactive channels =>
    if fails then { s with parter := .setting channels }
    else
      let cutoffMs := satSub now (durationMs env.channelsExpireAfter)
      { s with
        db := s.db.pruneInactiveChannels cutoffMs
        parter := .setting channels
        log := s.log ++ [.pruned cutoffMs] }
  -- the task ends here if it is not a retry; then it takes no more turns
  | .setWanted true, .setting _ => { s with gate := none, parter := .select }
  | .setWanted false, .setting channels =>
    { s with wanted := channels, gate := none, parter := .select, log := s.log ++ [.set channels] }
  | .stop, phase => if phase.holds then { s with gate := none, parter := .select } else s
  | _, _ => s

/-- The turn of a request. -/
def requestStep (s : Listener) (index : ℕ) (channelLogin : String) :
    ListenerAction → RequestPhase → Listener
  | .enterRequest _, .waiting =>
    if s.gate = none then { s.setPhase index .touching with gate := some (.request index) } else s
  | .touch _ now fails, .touching =>
    if fails then s.leave index
    else
      { s.setPhase index .checking with
        db := s.db.call (.touchOrAddChannel channelLogin now)
        log := s.log ++ [.touched channelLogin now] }
  | .check _ joined, .checking => if joined then s.leave index else s.setPhase index .beginning
  | .begin_ _ now fails, .beginning =>
    if fails then s.leave index
    else
      match s.db.joinState.beginJoinAttemptIfDue now channelLogin env.joinConfirmationTimeout
        env.joinRetryMin env.joinRetryMax with
      | .error _ => s.leave index
      | .ok (joinState, begun) =>
        let s := { s with db := { s.db with joinState } }
        if begun then s.setPhase index .joining else s.leave index
  | .join _ true, .joining => s.leave index
  | .join _ false, .joining =>
    { s.leave index with
      wanted := insert channelLogin s.wanted
      log := s.log ++ [.joined channelLogin] }
  | .cancel _, phase => if phase.holds then s.leave index else s.setPhase index .done
  | _, _ => s

def step (s : Listener) (action : ListenerAction) : Listener :=
  match action with
  | .request channelLogin => { s with requests := s.requests ++ [⟨channelLogin, .waiting⟩] }
  | .enterRequest index | .touch index _ _ | .check index _ | .begin_ index _ _ | .join index _
  | .cancel index =>
    match s.requests[index]? with
    | none => s
    | some request => s.requestStep env index request.channelLogin action request.phase
  | .setChannelIgnored channelLogin ignored nowMs =>
    { s with db := s.db.setChannelIgnored channelLogin ignored nowMs }
  | .setAlwaysJoin logins => { s with db := { s.db with alwaysJoin := logins } }
  -- nobody else prunes channels
  | .controlCall (.pruneInactiveChannels _ _) => s
  | .controlCall call => { s with db := s.db.call call }
  | .joinCall event => { s with db := s.db.join event }
  | .clientJoin channelLogin => { s with wanted := insert channelLogin s.wanted }
  | .clientPart channelLogin =>
    { s with wanted := s.wanted.erase channelLogin, log := s.log ++ [.parted channelLogin] }
  | action => s.parterStep env action s.parter

/-! ### What a step does -/

variable {env}

/-- The phases of requests in which the gate is held are as they were. -/
structure SameHolders (s s' : Listener) : Prop where
  length : s.requests.length ≤ s'.requests.length
  holds : ∀ (i : ℕ) (r' : JoinRequest), s'.requests[i]? = some r' → r'.phase.holds = true →
    ∃ r, s.requests[i]? = some r ∧ r.phase.holds = true
  kept : ∀ (i : ℕ) (r : JoinRequest), s.requests[i]? = some r → r.phase.holds = true →
    ∀ r', s'.requests[i]? = some r' → r'.phase.holds = true

theorem sameHolders_of_eq {s s' : Listener} (h : s'.requests = s.requests) : SameHolders s s' := by
  refine ⟨(congrArg List.length h).ge, fun i r' hr' hholds => ⟨r', h ▸ hr', hholds⟩, ?_⟩
  intro i r hr hholds r' hr'
  rw [h, hr] at hr'
  cases hr'
  exact hholds

/-- An event that changes only the database. -/
def IsNote : ListenerEvent → Prop
  | .touched _ _ | .pruned _ => True
  | _ => False

/-- What a step does to the gate, the client and the history. -/
inductive Effect (env : JoinEnv) (s s' : Listener) : Prop
  /-- Nothing that matters, apart from channels that are joined. -/
  | quiet (hgate : s'.gate = s.gate) (hholds : s'.parter.holds = s.parter.holds)
    (hchannels : s'.parter.channels = s.parter.channels) (hrequests : SameHolders s s')
    (hwanted : s.wanted ⊆ s'.wanted)
    (hlog : s'.log = s.log ∨ ∃ e, s'.log = s.log ++ [e] ∧ IsNote e)
  | parterEnters (hfree : s.gate = none) (hgate : s'.gate = some .parter)
    (hholds : s'.parter.holds = true) (hchannels : s'.parter.channels = none)
    (hrequests : s'.requests = s.requests) (hwanted : s'.wanted = s.wanted) (hlog : s'.log = s.log)
  | parterLeaves (hholding : s.parter.holds = true) (hgate : s'.gate = none)
    (hparter : s'.parter = .select) (hrequests : s'.requests = s.requests)
    (hwanted : s'.wanted = s.wanted) (hlog : s'.log = s.log)
  | reads (cutoffNow now : ℤ) (hholding : s.parter.holds = true) (hgate : s'.gate = s.gate)
    (hholds : s'.parter.holds = true)
    (hchannels : s'.parter.channels =
      some (s.db.getChannelLoginsToJoin env.channelsExpireAfter cutoffNow now))
    (hrequests : s'.requests = s.requests) (hwanted : s'.wanted = s.wanted)
    (hlog : s'.log = s.log ++ [.read s.db cutoffNow now])
  | sets (channels : Finset String) (hchannels : s.parter.channels = some channels)
    (hholding : s.parter.holds = true) (hgate : s'.gate = none) (hparter : s'.parter = .select)
    (hrequests : s'.requests = s.requests) (hwanted : s'.wanted = channels)
    (hlog : s'.log = s.log ++ [.set channels])
  | requestEnters (index : ℕ) (request : JoinRequest) (hrequest : s.requests[index]? = some request)
    (hfree : s.gate = none) (hgate : s'.gate = some (.request index))
    (hparter : s'.parter = s.parter)
    (hrequests : s'.requests = (s.setPhase index .touching).requests)
    (hwanted : s'.wanted = s.wanted) (hlog : s'.log = s.log)
  | requestLeaves (index : ℕ) (request : JoinRequest)
    (hrequest : s.requests[index]? = some request) (hholding : request.phase.holds = true)
    (hgate : s'.gate = none) (hparter : s'.parter = s.parter)
    (hrequests : s'.requests = (s.setPhase index .done).requests)
    (hjoined : s'.wanted = s.wanted ∧ s'.log = s.log ∨
      s'.wanted = insert request.channelLogin s.wanted ∧
        s'.log = s.log ++ [.joined request.channelLogin])
  | parts (channelLogin : String) (hgate : s'.gate = s.gate) (hparter : s'.parter = s.parter)
    (hrequests : s'.requests = s.requests) (hwanted : s'.wanted = s.wanted.erase channelLogin)
    (hlog : s'.log = s.log ++ [.parted channelLogin])

theorem effect_refl (s : Listener) : Effect env s s :=
  .quiet rfl rfl rfl (sameHolders_of_eq rfl) (Finset.Subset.refl _) (.inl rfl)

/-- Only the database has changed, and what phase the parter is in. -/
theorem effect_of_db {s : Listener} (db : ChannelDb) {parter : ParterPhase}
    (hholds : parter.holds = s.parter.holds) (hchannels : parter.channels = s.parter.channels) :
    Effect env s { s with db, parter } :=
  .quiet rfl hholds hchannels (sameHolders_of_eq rfl) (Finset.Subset.refl _) (.inl rfl)

theorem effect_parterStep (s : Listener) (action : ListenerAction) :
    Effect env s (s.parterStep env action s.parter) := by
  unfold parterStep
  split
  case h_1 now fails hparter =>
    -- the timer of the retries: no turn is made of it unless some attempt was overdue
    split
    · exact effect_refl s
    · split
      · exact effect_refl s
      · rename_i joinState count hstale
        refine effect_of_db _ ?_ ?_ <;> rw [hparter] <;> split <;> rfl
  -- a wake-up, or the timer of the channels
  case h_2 hparter => exact effect_of_db s.db (by rw [hparter]; rfl) (by rw [hparter]; rfl)
  case h_3 retry hparter =>
    -- the gate is free
    split
    · rename_i hfree
      exact .parterEnters hfree rfl rfl rfl rfl rfl rfl
    · exact effect_refl s
  case h_4 cutoffNow now fails retry hparter =>
    -- the channels are read with the gate in hand
    have hholding : s.parter.holds = true := by rw [hparter]; rfl
    split
    · exact .parterLeaves hholding rfl rfl rfl rfl rfl
    · refine .reads cutoffNow now hholding rfl ?_ ?_ rfl rfl rfl
      · cases retry <;> rfl
      · cases retry <;> rfl
  case h_5 channelLogin joined now fails channels todo hparter =>
    -- the status of each channel is recorded, in any order
    split
    · exact effect_of_db _ (by rw [hparter]; rfl) (by rw [hparter]; rfl)
    · exact effect_refl s
  case h_6 channels todo hparter =>
    split
    · exact effect_of_db s.db (by rw [hparter]; rfl) (by rw [hparter]; rfl)
    · exact effect_refl s
  case h_7 now fails channels hparter =>
    -- a failure to prune is only logged
    exact effect_of_db _ (by rw [hparter]; rfl) (by rw [hparter]; rfl)
  case h_8 now fails channels hparter =>
    split
    · exact effect_of_db s.db (by rw [hparter]; rfl) (by rw [hparter]; rfl)
    · exact .quiet rfl (by rw [hparter]; rfl) (by rw [hparter]; rfl) (sameHolders_of_eq rfl)
        (Finset.Subset.refl _) (.inr ⟨_, rfl, trivial⟩)
  case h_9 channels hparter =>
    -- `set_wanted_channels` fails, or sets the channels that were read
    exact .parterLeaves (by rw [hparter]; rfl) rfl rfl rfl rfl rfl
  case h_10 channels hparter =>
    exact .sets channels (by rw [hparter]; rfl) (by rw [hparter]; rfl) rfl rfl rfl rfl rfl
  case h_11 =>
    -- the task is stopped, and drops the gate
    split
    · rename_i hholding
      exact .parterLeaves hholding rfl rfl rfl rfl rfl
    · exact effect_refl s
  case h_12 => exact effect_refl s

/-! #### Requests -/

theorem getElem_setPhase (s : Listener) (index : ℕ) (phase : RequestPhase) (i : ℕ) :
    (s.setPhase index phase).requests[i]? =
      if index = i then s.requests[i]?.map fun request => { request with phase }
      else s.requests[i]? := by
  show (s.requests.modify index _)[i]? = _
  rw [List.getElem?_modify]
  split
  · rfl
  · exact Option.map_id'

theorem sameHolders_setPhase {s s' : Listener} {index : ℕ} {request : JoinRequest}
    {phase : RequestPhase} (hrequest : s.requests[index]? = some request)
    (hholds : phase.holds = request.phase.holds)
    (h : s'.requests = (s.setPhase index phase).requests) : SameHolders s s' := by
  refine ⟨?_, fun i r' hr' hr'holds => ?_, fun i r hr hrholds r' hr' => ?_⟩
  · rw [h]
    exact (List.length_modify ..).ge
  · rw [h, getElem_setPhase] at hr'
    split at hr'
    · rename_i heq
      subst heq
      rw [hrequest] at hr'
      cases hr'
      exact ⟨request, hrequest, hholds ▸ hr'holds⟩
    · exact ⟨r', hr', hr'holds⟩
  · rw [h, getElem_setPhase] at hr'
    split at hr'
    · rename_i heq
      subst heq
      rw [hrequest] at hr
      cases hr
      rw [hrequest] at hr'
      cases hr'
      exact hholds.trans hrholds
    · rw [hr] at hr'
      cases hr'
      exact hrholds

theorem effect_requestStep {s : Listener} {index : ℕ} {request : JoinRequest}
    (hrequest : s.requests[index]? = some request) (action : ListenerAction) :
    Effect env s (s.requestStep env index request.channelLogin action request.phase) := by
  have hleave : ∀ db : ChannelDb, request.phase.holds = true →
      Effect env s ({ s with db } |>.leave index) := fun db hholding =>
    .requestLeaves index request hrequest hholding rfl rfl rfl (.inl ⟨rfl, rfl⟩)
  unfold requestStep
  split
  case h_1 hphase =>
    -- the request waits for the gate
    split
    · rename_i hfree
      exact .requestEnters index request hrequest hfree rfl rfl rfl rfl rfl
    · exact effect_refl s
  case h_2 now fails hphase =>
    -- `touch_or_add_channel`
    have hholding : request.phase.holds = true := by rw [hphase]; rfl
    split
    · exact hleave s.db hholding
    · have hchecking : RequestPhase.holds .checking = request.phase.holds := hholding.symm
      exact .quiet rfl rfl rfl (sameHolders_setPhase hrequest hchecking rfl)
        (Finset.Subset.refl _) (.inr ⟨_, rfl, trivial⟩)
  case h_3 joined hphase =>
    -- a channel that is joined already needs nothing
    have hholding : request.phase.holds = true := by rw [hphase]; rfl
    split
    · exact hleave s.db hholding
    · have hbeginning : RequestPhase.holds .beginning = request.phase.holds := hholding.symm
      exact .quiet rfl rfl rfl (sameHolders_setPhase hrequest hbeginning rfl)
        (Finset.Subset.refl _) (.inl rfl)
  case h_4 now fails hphase =>
    -- `begin_join_attempt_if_due`, which may find that no attempt is due
    have hholding : request.phase.holds = true := by rw [hphase]; rfl
    split
    · exact hleave s.db hholding
    · split
      · exact hleave s.db hholding
      · dsimp only
        split
        · have hjoining : RequestPhase.holds .joining = request.phase.holds := hholding.symm
          exact .quiet rfl rfl rfl (sameHolders_setPhase hrequest hjoining rfl)
            (Finset.Subset.refl _) (.inl rfl)
        · exact hleave _ hholding
  -- the client refuses the join
  case h_5 hphase => exact hleave s.db (by rw [hphase]; rfl)
  case h_6 hphase =>
    -- the client takes it: the channel is wanted from now on
    exact .requestLeaves index request hrequest (by rw [hphase]; rfl) rfl rfl rfl
      (.inr ⟨rfl, rfl⟩)
  case h_7 =>
    -- the request is dropped, with the gate if it holds it
    split
    · rename_i hholding
      exact hleave s.db hholding
    · rename_i hfree
      have hdone : RequestPhase.holds .done = request.phase.holds :=
        (Bool.eq_false_iff.mpr hfree).symm
      exact .quiet rfl rfl rfl (sameHolders_setPhase hrequest hdone rfl)
        (Finset.Subset.refl _) (.inl rfl)
  case h_8 => exact effect_refl s

theorem effect_request (s : Listener) (channelLogin : String) :
    Effect env s { s with requests := s.requests ++ [⟨channelLogin, .waiting⟩] } := by
  refine .quiet rfl rfl rfl ⟨?_, fun i r' hr' hholds => ?_, fun i r hr hholds r' hr' => ?_⟩
    (Finset.Subset.refl _) (.inl rfl)
  · show s.requests.length ≤ (s.requests ++ [_]).length
    rw [List.length_append]
    exact Nat.le_add_right _ _
  · by_cases hlt : i < s.requests.length
    · exact ⟨r', (List.getElem?_append_left hlt).symm.trans hr', hholds⟩
    · have hnew : [(⟨channelLogin, .waiting⟩ : JoinRequest)][i - s.requests.length]? = some r' :=
        (List.getElem?_append_right (Nat.le_of_not_lt hlt)).symm.trans hr'
      rw [List.mem_singleton.mp (List.mem_of_getElem? hnew)] at hholds
      cases hholds
  · have hlt : i < s.requests.length := (List.getElem?_eq_some_iff.mp hr).1
    have hsame : some r = some r' :=
      hr.symm.trans ((List.getElem?_append_left hlt).symm.trans hr')
    cases hsame
    exact hholds

/-- **What a step does.** -/
theorem effect_step (s : Listener) (action : ListenerAction) :
    Effect env s (s.step env action) := by
  have hrequest : ∀ index, Effect env s (match s.requests[index]? with
      | none => s
      | some request => s.requestStep env index request.channelLogin action request.phase) := by
    intro index
    -- a request that does not exist takes no turn
    split
    · exact effect_refl s
    · rename_i request hrequest
      exact effect_requestStep hrequest action
  cases action with
  | request channelLogin => exact effect_request s channelLogin
  | enterRequest index => exact hrequest index
  | touch index now fails => exact hrequest index
  | check index joined => exact hrequest index
  | begin_ index now fails => exact hrequest index
  | join index fails => exact hrequest index
  | cancel index => exact hrequest index
  -- other tasks use the database without the gate
  | setChannelIgnored channelLogin ignored nowMs => exact effect_of_db _ rfl rfl
  | setAlwaysJoin logins => exact effect_of_db _ rfl rfl
  | controlCall call =>
    cases call with
    | pruneInactiveChannels alwaysJoin cutoffMs => exact effect_refl s
    | _ => exact effect_of_db _ rfl rfl
  | joinCall event => exact effect_of_db _ rfl rfl
  | clientJoin channelLogin =>
    -- the client may also be asked to join or part from elsewhere
    exact .quiet rfl rfl rfl (sameHolders_of_eq rfl) (Finset.subset_insert _ _) (.inl rfl)
  | clientPart channelLogin => exact .parts channelLogin rfl rfl rfl rfl rfl
  -- from here on it is the turn of the parter
  | retryTick now fails => exact effect_parterStep s _
  | wake => exact effect_parterStep s _
  | enterParter => exact effect_parterStep s _
  | read cutoffNow now fails => exact effect_parterStep s _
  | confirm channelLogin joined now fails => exact effect_parterStep s _
  | confirmed => exact effect_parterStep s _
  | pruneCoverage now fails => exact effect_parterStep s _
  | pruneInactive now fails => exact effect_parterStep s _
  | setWanted fails => exact effect_parterStep s _
  | stop => exact effect_parterStep s .stop

/-! ### The gate -/

/-- At most one task holds the gate, and it knows. -/
structure Exclusive (s : Listener) : Prop where
  parter : s.parter.holds = true ↔ s.gate = some .parter
  request : ∀ (i : ℕ) (r : JoinRequest), s.requests[i]? = some r → r.phase.holds = true →
    s.gate = some (.request i)
  holder : ∀ i, s.gate = some (.request i) →
    ∃ r, s.requests[i]? = some r ∧ r.phase.holds = true

theorem exclusive_start (db : ChannelDb) : Exclusive (start db) where
  parter := ⟨fun h => absurd h Bool.false_ne_true, fun h => by cases h⟩
  request := by
    intro i r hr
    cases hr
  holder := by
    intro i h
    cases h

theorem exclusive_of_same {s s' : Listener} (h : Exclusive s) (hgate : s'.gate = s.gate)
    (hholds : s'.parter.holds = s.parter.holds) (hrequests : SameHolders s s') : Exclusive s' where
  parter := by
    rw [hholds, hgate]
    exact h.parter
  request := by
    intro i r' hr' hr'holds
    obtain ⟨r, hr, hrholds⟩ := hrequests.holds i r' hr' hr'holds
    rw [hgate]
    exact h.request i r hr hrholds
  holder := by
    intro i hi
    obtain ⟨r, hr, hrholds⟩ := h.holder i (hgate ▸ hi)
    have hlt : i < s'.requests.length :=
      (List.getElem?_eq_some_iff.mp hr).1.trans_le hrequests.length
    exact ⟨_, List.getElem?_eq_getElem hlt,
      hrequests.kept i r hr hrholds _ (List.getElem?_eq_getElem hlt)⟩

/-- The gate is free after the parter has left it. -/
theorem exclusive_of_parter_left {s s' : Listener} (h : Exclusive s)
    (hholding : s.parter.holds = true) (hgate : s'.gate = none) (hparter : s'.parter = .select)
    (hrequests : s'.requests = s.requests) : Exclusive s' where
  parter := by
    rw [hparter, hgate]
    exact ⟨fun hh => absurd hh Bool.false_ne_true, fun hh => by cases hh⟩
  request := by
    intro i r hr hrholds
    have hheld := h.request i r (hrequests ▸ hr) hrholds
    rw [h.parter.mp hholding] at hheld
    cases hheld
  holder := by
    intro i hi
    rw [hgate] at hi
    cases hi

/-- **At most one holds the gate**, step by step. -/
theorem exclusive_step {s s' : Listener} (h : Exclusive s) (heffect : Effect env s s') :
    Exclusive s' := by
  cases heffect with
  | quiet hgate hholds hchannels hrequests hwanted hlog =>
    -- the gate stays with its holder
    exact exclusive_of_same h hgate hholds hrequests
  | reads cutoffNow now hholding hgate hholds hchannels hrequests hwanted hlog =>
    exact exclusive_of_same h hgate (hholds.trans hholding.symm) (sameHolders_of_eq hrequests)
  | parts channelLogin hgate hparter hrequests hwanted hlog =>
    exact exclusive_of_same h hgate (congrArg _ hparter) (sameHolders_of_eq hrequests)
  | parterLeaves hholding hgate hparter hrequests hwanted hlog =>
    -- the parter held the gate, so no request does
    exact exclusive_of_parter_left h hholding hgate hparter hrequests
  | sets channels hchannels hholding hgate hparter hrequests hwanted hlog =>
    exact exclusive_of_parter_left h hholding hgate hparter hrequests
  | parterEnters hfree hgate hholds hchannels hrequests hwanted hlog =>
    -- the gate was free, so no request can hold it
    refine ⟨⟨fun _ => hgate, fun _ => hholds⟩, fun i r hr hrholds => ?_, fun i hi => ?_⟩
    · have hheld := h.request i r (hrequests ▸ hr) hrholds
      rw [hfree] at hheld
      cases hheld
    · rw [hgate] at hi
      cases hi
  | requestEnters index request hrequest hfree hgate hparter hrequests hwanted hlog =>
    -- nor can the parter or another request, if a request finds it free
    refine ⟨⟨fun hh => ?_, fun hh => ?_⟩, fun i r hr hrholds => ?_, fun i hi => ?_⟩
    · rw [hparter, h.parter, hfree] at hh
      cases hh
    · rw [hgate] at hh
      cases hh
    · rw [hrequests, getElem_setPhase] at hr
      split at hr
      · rename_i heq
        rw [hgate, heq]
      · have hheld := h.request i r hr hrholds
        rw [hfree] at hheld
        cases hheld
    · rw [hgate] at hi
      cases hi
      refine ⟨{ request with phase := .touching }, ?_, rfl⟩
      rw [hrequests, getElem_setPhase, if_pos rfl, hrequest]
      rfl
  | requestLeaves index request hrequest hholding hgate hparter hrequests hjoined =>
    -- nobody else held the gate, and now nobody does
    have hheld := h.request index request hrequest hholding
    refine ⟨⟨fun hh => ?_, fun hh => ?_⟩, fun i r hr hrholds => ?_, fun i hi => ?_⟩
    · rw [hparter, h.parter, hheld] at hh
      cases hh
    · rw [hgate] at hh
      cases hh
    · rw [hrequests, getElem_setPhase] at hr
      split at hr
      · obtain ⟨old, -, rfl⟩ := Option.map_eq_some_iff.mp hr
        cases hrholds
      · rename_i hne
        have hheld' := h.request i r hr hrholds
        rw [hheld] at hheld'
        cases hheld'
        exact absurd rfl hne
    · rw [hgate] at hi
      cases hi

/-! ### Joins are not lost -/

theorem ParterPhase.holds_of_channels {phase : ParterPhase} {channels : Finset String}
    (h : phase.channels = some channels) : phase.holds = true := by
  cases phase with
  | select => cases h
  | waiting retry => cases h
  | _ => rfl

/-- A read that does not list the channel. -/
def Omits (env : JoinEnv) (channelLogin : String) : ListenerEvent → Prop
  | .read db cutoffNow now =>
    channelLogin ∉ db.getChannelLoginsToJoin env.channelsExpireAfter cutoffNow now
  | _ => False

/-- The channels have been read since any request joined a channel. -/
def FreshIn (env : JoinEnv) (channels : Finset String) (log : List ListenerEvent) : Prop :=
  ∃ l₁ l₂ db cutoffNow now, log = l₁ ++ .read db cutoffNow now :: l₂ ∧
    channels = db.getChannelLoginsToJoin env.channelsExpireAfter cutoffNow now ∧
      ∀ c, ListenerEvent.joined c ∉ l₂

/-- What the parter is to set is fresh. -/
def Fresh (env : JoinEnv) (s : Listener) : Prop :=
  ∀ channels, s.parter.channels = some channels → FreshIn env channels s.log

/-- A channel that a request has joined is wanted, unless it has been parted since, or a read since
does not list it. -/
def Stays (env : JoinEnv) (s : Listener) : Prop :=
  ∀ l₁ l₂ c, s.log = l₁ ++ .joined c :: l₂ →
    c ∈ s.wanted ∨ .parted c ∈ l₂ ∨ ∃ e ∈ l₂, Omits env c e

variable {s s' : Listener}

theorem fresh_concat {channels : Finset String} {log log' : List ListenerEvent} {e : ListenerEvent}
    (h : FreshIn env channels log) (hlog : log' = log ++ [e]) (hjoined : ∀ c, e ≠ .joined c) :
    FreshIn env channels log' := by
  obtain ⟨l₁, l₂, db, cutoffNow, now, heq, hset, hnone⟩ := h
  refine ⟨l₁, l₂ ++ [e], db, cutoffNow, now, ?_, hset, fun c hc => ?_⟩
  · rw [hlog, heq, List.append_assoc, List.cons_append]
  · rcases List.mem_append.mp hc with hc | hc
    · exact hnone c hc
    · exact hjoined c (List.mem_singleton.mp hc).symm

/-- What is to be set stays fresh while the gate is held. -/
theorem fresh_step (h : Fresh env s) (hexclusive : Exclusive s) (heffect : Effect env s s') :
    Fresh env s' := by
  intro channels hchannels'
  cases heffect with
  | quiet hgate hholds hchannels hrequests hwanted hlog =>
    rcases hlog with hlog | ⟨e, hlog, hnote⟩
    · rw [hlog]
      exact h channels (hchannels ▸ hchannels')
    · refine fresh_concat (h channels (hchannels ▸ hchannels')) hlog ?_
      rintro c rfl
      exact hnote
  | parterEnters hfree hgate hholds hchannels hrequests hwanted hlog =>
    rw [hchannels] at hchannels'
    cases hchannels'
  | parterLeaves hholding hgate hparter hrequests hwanted hlog =>
    rw [hparter] at hchannels'
    cases hchannels'
  | reads cutoffNow now hholding hgate hholds hchannels hrequests hwanted hlog =>
    rw [hchannels] at hchannels'
    exact ⟨s.log, [], s.db, cutoffNow, now, hlog, (Option.some.inj hchannels').symm,
      fun c hc => by cases hc⟩
  | sets channels' hchannels hholding hgate hparter hrequests hwanted hlog =>
    rw [hparter] at hchannels'
    cases hchannels'
  | requestEnters index request hrequest hfree hgate hparter hrequests hwanted hlog =>
    -- who reads and sets holds the gate, which was free
    have hheld := hexclusive.parter.mp (ParterPhase.holds_of_channels (hparter ▸ hchannels'))
    rw [hfree] at hheld
    cases hheld
  | requestLeaves index request hrequest hholding hgate hparter hrequests hjoined =>
    have hheld := hexclusive.parter.mp (ParterPhase.holds_of_channels (hparter ▸ hchannels'))
    rw [hexclusive.request index request hrequest hholding] at hheld
    cases hheld
  | parts channelLogin hgate hparter hrequests hwanted hlog =>
    refine fresh_concat (h channels (hparter ▸ hchannels')) hlog ?_
    rintro c ⟨⟩

/-- What has happened since stays so when more happens. -/
theorem stays_concat {e : ListenerEvent} (h : Stays env s) (hlog : s'.log = s.log ++ [e])
    (hkept : ∀ c ∈ s.wanted, c ∈ s'.wanted ∨ e = .parted c ∨ Omits env c e)
    (hnew : ∀ c, e = .joined c → c ∈ s'.wanted) : Stays env s' := by
  intro l₁ l₂ c hsplit
  rw [hlog] at hsplit
  rcases concat_eq_append_cons hsplit with ⟨-, rfl, -⟩ | ⟨l₂', rfl, hold⟩
  · exact .inl (hnew c rfl)
  · rcases h l₁ l₂' c hold with hwanted | hparted | ⟨e', he', homits⟩
    · rcases hkept c hwanted with hwanted' | rfl | homits
      · exact .inl hwanted'
      · exact .inr (.inl (List.mem_append_right _ List.mem_cons_self))
      · exact .inr (.inr ⟨e, List.mem_append_right _ List.mem_cons_self, homits⟩)
    · exact .inr (.inl (List.mem_append_left _ hparted))
    · exact .inr (.inr ⟨e', List.mem_append_left _ he', homits⟩)

theorem stays_of_eq (h : Stays env s) (hlog : s'.log = s.log) (hwanted : s.wanted ⊆ s'.wanted) :
    Stays env s' := by
  intro l₁ l₂ c hsplit
  exact (h l₁ l₂ c (hlog ▸ hsplit)).imp_left fun hc => hwanted hc

/-- **No step loses a join.** -/
theorem stays_step (h : Stays env s) (hfresh : Fresh env s) (heffect : Effect env s s') :
    Stays env s' := by
  cases heffect with
  | quiet hgate hholds hchannels hrequests hwanted hlog =>
    rcases hlog with hlog | ⟨e, hlog, hnote⟩
    · exact stays_of_eq h hlog hwanted
    · refine stays_concat h hlog (fun c hc => .inl (hwanted hc)) fun c hc => ?_
      subst hc
      exact absurd hnote id
  | parterEnters hfree hgate hholds hchannels hrequests hwanted hlog =>
    exact stays_of_eq h hlog hwanted.ge
  | parterLeaves hholding hgate hparter hrequests hwanted hlog =>
    exact stays_of_eq h hlog hwanted.ge
  | requestEnters index request hrequest hfree hgate hparter hrequests hwanted hlog =>
    exact stays_of_eq h hlog hwanted.ge
  | reads cutoffNow now hholding hgate hholds hchannels hrequests hwanted hlog =>
    exact stays_concat h hlog (fun c hc => .inl (hwanted ▸ hc)) fun c hc => by cases hc
  | parts channelLogin hgate hparter hrequests hwanted hlog =>
    refine stays_concat h hlog (fun c hc => ?_) fun c hc => by cases hc
    by_cases heq : c = channelLogin
    · exact .inr (.inl (heq ▸ rfl))
    · rw [hwanted]
      exact .inl (Finset.mem_erase.mpr ⟨heq, hc⟩)
  | requestLeaves index request hrequest hholding hgate hparter hrequests hjoined =>
    rcases hjoined with ⟨hwanted, hlog⟩ | ⟨hwanted, hlog⟩
    · exact stays_of_eq h hlog hwanted.ge
    · refine stays_concat h hlog (fun c hc => ?_) fun c hc => ?_
      · rw [hwanted]
        exact .inl (Finset.mem_insert_of_mem hc)
      · cases hc
        rw [hwanted]
        exact Finset.mem_insert_self _ _
  | sets channels hchannels hholding hgate hparter hrequests hwanted hlog =>
    -- a channel that is left out was left out by the read, which came after its join
    obtain ⟨m₁, m₂, db, cutoffNow, now, heq, hset, hjoined⟩ := hfresh channels hchannels
    intro l₁ l₂ c hsplit
    rw [hlog] at hsplit
    rcases concat_eq_append_cons hsplit with ⟨-, hset', -⟩ | ⟨l₂', rfl, hold⟩
    · cases hset'
    · by_cases hc : c ∈ channels
      · exact .inl (hwanted ▸ hc)
      · have hread : .read db cutoffNow now ∈ l₂' := by
          refine mem_of_append_cons (hjoined c) ?_ (hold.symm.trans heq)
          rintro ⟨⟩
        have homits : Omits env c (.read db cutoffNow now) := by
          show c ∉ db.getChannelLoginsToJoin env.channelsExpireAfter cutoffNow now
          rw [← hset]
          exact hc
        exact .inr (.inr ⟨_, List.mem_append_left _ hread, homits⟩)

def run (env : JoinEnv) (db : ChannelDb) (actions : List ListenerAction) : Listener :=
  actions.foldl (step env) (start db)

theorem sound_run (env : JoinEnv) (db : ChannelDb) (actions : List ListenerAction) :
    Exclusive (run env db actions) ∧ Fresh env (run env db actions) ∧
      Stays env (run env db actions) := by
  refine List.foldlRecOn (motive := fun s => Exclusive s ∧ Fresh env s ∧ Stays env s) actions
    (step env) ⟨exclusive_start db, ?_, ?_⟩ fun s h action _ => ?_
  · intro channels hchannels
    cases hchannels
  · intro l₁ l₂ c hsplit
    cases l₁ <;> cases hsplit
  · obtain ⟨hexclusive, hfresh, hstays⟩ := h
    have heffect : Effect env s (s.step env action) := effect_step s action
    exact ⟨exclusive_step hexclusive heffect, fresh_step hfresh hexclusive heffect,
      stays_step hstays hfresh heffect⟩

/-- Why a read does not list a channel. -/
theorem not_mem_getChannelLoginsToJoin {db : ChannelDb} {channelExpiry : ℕ} {cutoffNow now : ℤ}
    {channelLogin : String} : channelLogin ∉ db.getChannelLoginsToJoin channelExpiry cutoffNow now ↔
      ∀ row, db.control.channel.lookup channelLogin = some row →
        row.ignoredAtMs ≠ none ∨
        channelLogin ∉ db.alwaysJoin ∧
          row.lastAccessMs ≤ satSub cutoffNow (durationMs channelExpiry) ∨
        ∃ join, db.joinState.lookup channelLogin = some join ∧ join.state = .unavailable ∧
          now < join.nextRetryMs := by
  have hmayJoin : db.mayJoin now channelLogin = false ↔
      ∃ join, db.joinState.lookup channelLogin = some join ∧ join.state = .unavailable ∧
        now < join.nextRetryMs := by
    rw [ChannelDb.mayJoin]
    rcases db.joinState.lookup channelLogin with - | join
    · simp
    · simp
  rw [ChannelDb.getChannelLoginsToJoin, List.mem_toFinset, List.mem_map]
  constructor
  -- the three conditions of the query, negated
  · intro hnot row hrow
    obtain ⟨hmem, rfl⟩ := KeyTable.lookup_eq_some.mp hrow
    by_contra hjoins
    rw [not_or, not_or, ← hmayJoin, Bool.not_eq_false, not_and_or, not_not, not_not,
      not_le] at hjoins
    obtain ⟨hignored, hwanted, hmay⟩ := hjoins
    refine hnot ⟨row, List.mem_filter.mpr ⟨hmem, ?_⟩, rfl⟩
    rw [hmay, Bool.and_true, hignored, Bool.and_eq_true]
    refine ⟨rfl, ?_⟩
    rw [Bool.or_eq_true, List.contains_iff_mem, decide_eq_true_eq]
    exact hwanted
  · rintro h ⟨row, hrow, rfl⟩
    obtain ⟨hmem, hjoins⟩ := List.mem_filter.mp hrow
    rw [Bool.and_eq_true, Bool.and_eq_true, Bool.or_eq_true, List.contains_iff_mem,
      decide_eq_true_eq] at hjoins
    obtain ⟨⟨hignored, hwanted⟩, hmay⟩ := hjoins
    rcases h row (KeyTable.lookup_of_mem hmem) with hne | ⟨hnot, hle⟩ | hlater
    · exact hne (Option.isNone_iff_eq_none.mp hignored)
    · exact hwanted.elim hnot fun hlt => absurd hle (not_le.mpr hlt)
    · rw [hmayJoin.mpr hlater] at hmay
      cases hmay

/-- **A requested channel stays**: whatever happens and in whatever order, a channel that a request
has joined is wanted until some task parts it, or until a read of the database, which came later,
finds no row of it, or finds it ignored, expired, or unavailable and not due. -/
theorem requested_channel_stays (env : JoinEnv) (db : ChannelDb) (actions : List ListenerAction)
    (l₁ l₂ : List ListenerEvent) (c : String)
    (h : (run env db actions).log = l₁ ++ .joined c :: l₂) :
    c ∈ (run env db actions).wanted ∨ .parted c ∈ l₂ ∨
      ∃ db' cutoffNow now, .read db' cutoffNow now ∈ l₂ ∧
        ∀ row, db'.control.channel.lookup c = some row →
          row.ignoredAtMs ≠ none ∨
          c ∉ db'.alwaysJoin ∧
            row.lastAccessMs ≤ satSub cutoffNow (durationMs env.channelsExpireAfter) ∨
          ∃ join, db'.joinState.lookup c = some join ∧ join.state = .unavailable ∧
            now < join.nextRetryMs := by
  rcases (sound_run env db actions).2.2 l₁ l₂ c h with hwanted | hparted | ⟨e, he, homits⟩
  · exact .inl hwanted
  · exact .inr (.inl hparted)
  · cases e with
    | read db' cutoffNow now =>
      exact .inr (.inr ⟨db', cutoffNow, now, he, not_mem_getChannelLoginsToJoin.mp homits⟩)
    | _ => cases homits

/-- A request joins a channel; then the parter reads and sets. -/
def sampleActions : List ListenerAction :=
  [.request "forsen", .enterRequest 0, .touch 0 9 false, .check 0 false, .begin_ 0 9 false,
    .join 0 false, .wake, .enterParter, .read 10 10 false, .confirm "forsen" true 10 false,
    .confirmed, .pruneCoverage 11 false, .pruneInactive 11 false, .setWanted false]

def sampleEnv : JoinEnv := ⟨1000, 1000, 1000, 3600000000000, 1000⟩

def sampleDb : ChannelDb := ⟨.empty, [], KeyTable.empty⟩

/-- The database that the parter reads. -/
def requestedDb : ChannelDb := (run sampleEnv sampleDb (sampleActions.take 6)).db

theorem requested_channel_stays_sample :
    "forsen" ∈ (run sampleEnv sampleDb sampleActions).wanted := by
  have hlog : (run sampleEnv sampleDb sampleActions).log = [.touched "forsen" 9] ++
      .joined "forsen" :: [.read requestedDb 10 10, .pruned (-3599989), .set {"forsen"}] := rfl
  have hlisted : "forsen" ∈
      requestedDb.getChannelLoginsToJoin sampleEnv.channelsExpireAfter 10 10 := by
    decide +kernel
  rcases requested_channel_stays sampleEnv sampleDb sampleActions _ _ "forsen" hlog with
    hwanted | hparted | ⟨db', cutoffNow, now, hread, homitted⟩
  · exact hwanted
  · simp at hparted
  · -- the only read lists the channel
    obtain ⟨rfl, rfl, rfl⟩ : db' = requestedDb ∧ cutoffNow = 10 ∧ now = 10 := by simpa using hread
    exact absurd hlisted (not_mem_getChannelLoginsToJoin.mpr homitted)

end Listener

end RecentMessages
