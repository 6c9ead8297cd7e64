/-
RecentMessages/Web/AppliedPolicies.lean

How a node applies the cluster's policy of a channel (`web/cluster_policy.rs`).

The gate of a request, or `synchronize`, reads the policy of a channel and calls
`apply` with it later, when the cluster may have moved on.  `apply` holds a lock from
its start to its end, so it is one step here; it may fail at each of its calls, and
what it has done by then stays done.

`apply` tells an old policy by its cutoff alone.  A version that has another flag and
the same cutoff passes for a new one (`stale_policy_applied`); without such an apply,
nothing goes back (`applied_policy_never_goes_back`).
-/
import RecentMessages.Control.ControlStore
import RecentMessages.Control.Replication
import RecentMessages.Library.Runs
import RecentMessages.Storage.Ingest
import RecentMessages.Storage.Policy
import Mathlib.Logic.Function.Basic

namespace RecentMessages

/-- The errors of `apply`. -/
inductive ApiError
  | serviceOverloaded
  | getCoverage
  | purgeMessages
  deriving DecidableEq, Repr

/-- The calls inside `apply` that may fail. -/
inductive ApplyCall
  | appliedClusterPolicy
  | setChannelBlocked
  | purgeChannel
  | purgeOpenBlocks
  | invalidateChannelCoverage
  | applyClusterPolicy
  deriving DecidableEq, Repr

/-- The policy of a channel as it was read, with the version of the cluster's database
it was read from. -/
structure PolicyRead where
  channel : String
  version : ℕ
  policy : ChannelPolicy
  deriving DecidableEq, Repr

/-- A node under cluster control. -/
structure PolicyNode (β : Type) where
  cluster : ClusterDb
  /-- The number of changes of `cluster` so far. -/
  version : ℕ
  /-- What each request and each run of `synchronize` has read. -/
  reads : List PolicyRead
  /-- `AppliedPolicies`. -/
  applied : String → Option ChannelPolicy
  /-- The table `cluster_applied_policy`. -/
  stored : String → Option ChannelPolicy
  control : ControlStore
  /-- The column `always_join` of `channel`. -/
  alwaysJoin : String → Bool
  db : Db β
  openBlocks : Option OpenBlockManager
  /-- History: the newest version of a channel's policy that was applied. -/
  newest : String → Option PolicyRead

/-- A step of the node. -/
inductive PolicyAction
  /-- A mutation, on the owner. -/
  | mutate (operation : Mutation) (nowMs : ℕ)
  /-- A snapshot, on a replica. -/
  | receive (snapshot : Snapshot)
  /-- `cluster.policy`, or one row of `cluster.policies`. -/
  | read (channelLogin : String)
  | apply (reader : ℕ) (failure : Option ApplyCall)
  /-- A new process. -/
  | restart

namespace PolicyNode

variable {β : Type} (cfg : Settings β) (env : ClusterEnv)

/-- A node that has applied nothing yet. -/
def start (cluster : ClusterDb) (control : ControlStore) (alwaysJoin : String → Bool) (db : Db β)
    (openBlocks : Option OpenBlockManager) : PolicyNode β :=
  ⟨cluster, 0, [], fun _ => none, fun _ => none, control, alwaysJoin, db, openBlocks,
    fun _ => none⟩

/-! ### The model of `apply` -/

/-- The entry of an earlier process is taken over. -/
def load (s : PolicyNode β) (channel : String) : PolicyNode β :=
  match s.applied channel, s.stored (toAsciiLowercase channel) with
  | none, some previous => { s with applied := Function.update s.applied channel (some previous) }
  | _, _ => s

/-- `previous_cutoff`. -/
def previousCutoff (s : PolicyNode β) (channel : String) : ℤ :=
  ((s.applied channel).map (·.purgeMs)).getD 0

/-- `block_store.set_channel_blocked`. -/
def setBlocked (s : PolicyNode β) (channel : String) (blocked : Bool) : PolicyNode β :=
  { s with db := (s.db.setChannelBlocked cfg.codec channel blocked).2 }

/-- The calls that remove what was purged. -/
def purge (s : PolicyNode β) (channel : String) (purgeMs : ℤ) (failure : Option ApplyCall) :
    Except ApiError Unit × PolicyNode β :=
  if failure = some .purgeChannel then (.error .purgeMessages, s)
  else
    let s := { s with db := (s.db.purgeChannel cfg.codec channel purgeMs).2 }
    if failure = some .purgeOpenBlocks ∧ s.openBlocks.isSome then (.error .purgeMessages, s)
    else
      let s := { s with openBlocks := s.openBlocks.map fun open_ => open_.purgeChannel channel }
      if failure = some .invalidateChannelCoverage then (.error .getCoverage, s)
      else (.ok (), { s with control := s.control.invalidateChannelCoverage channel })

/-- `control_store.apply_cluster_policy`, and the new entry. -/
def record (s : PolicyNode β) (channel : String) (policy : ChannelPolicy)
    (failure : Option ApplyCall) : Except ApiError Unit × PolicyNode β :=
  if failure = some .applyClusterPolicy then (.error .getCoverage, s)
  else
    let login := toAsciiLowercase channel
    let ignoredAtMs := if policy.ignored then some policy.purgeMs else none
    (.ok (), { s with
      control := { s.control with
        channel := s.control.channel.upsert ⟨login, ignoredAtMs, 0⟩
          (ControlChannel.ignore ignoredAtMs) (ControlChannel.channelLogin_ignore ignoredAtMs) }
      alwaysJoin := Function.update s.alwaysJoin login policy.alwaysJoin
      stored := Function.update s.stored login (some policy)
      applied := Function.update s.applied channel (some policy) })

/-- The part of `apply` that writes. -/
def write (s : PolicyNode β) (channel : String) (policy : ChannelPolicy)
    (failure : Option ApplyCall) : Except ApiError Unit × PolicyNode β :=
  if failure = some .setChannelBlocked then (.error .purgeMessages, s)
  else
    let blocked := s.setBlocked cfg channel policy.ignored
    if policy.ignored ∨ s.previousCutoff channel < policy.purgeMs then
      match blocked.purge cfg channel policy.purgeMs failure with
      | (.error e, purged) => (.error e, purged)
      | (.ok (), purged) => purged.record channel policy failure
    else blocked.record channel policy failure

/-- `AppliedPolicies::apply`; `failure` is the call that fails, if it is made. -/
def apply (s : PolicyNode β) (channel : String) (policy : ChannelPolicy)
    (failure : Option ApplyCall) : Except ApiError Unit × PolicyNode β :=
  if s.applied channel = none ∧ failure = some .appliedClusterPolicy then (.error .getCoverage, s)
  else
    let s := s.load channel
    if s.applied channel = some policy then (.ok (), s)
    else if policy = default ∧ s.applied channel = none then (.ok (), s)
    else if policy.purgeMs < s.previousCutoff channel then (.error .serviceOverloaded, s)
    else s.write cfg channel policy failure

/-! ### Runs -/

/-- The version was applied with success. -/
def note (s : PolicyNode β) (read : PolicyRead) : PolicyNode β :=
  if (s.newest read.channel).any (read.version < ·.version) then s
  else { s with newest := Function.update s.newest read.channel (some read) }

/-- The step of a reader. -/
def applyRead (s : PolicyNode β) (read : PolicyRead) (failure : Option ApplyCall) : PolicyNode β :=
  match s.apply cfg read.channel read.policy failure with
  | (.ok (), s') => s'.note read
  | (.error _, s') => s'

/-- One step; an action that is not possible does nothing. -/
def step (s : PolicyNode β) : PolicyAction → PolicyNode β
  | .mutate operation nowMs =>
    { s with cluster := (s.cluster.mutate env operation nowMs).2, version := s.version + 1 }
  | .receive snapshot =>
    { s with cluster := s.cluster.given env snapshot, version := s.version + 1 }
  | .read channelLogin =>
    let channel := toAsciiLowercase channelLogin
    { s with reads := s.reads ++ [⟨channel, s.version, s.cluster.policy channel⟩] }
  | .apply reader failure =>
    match s.reads[reader]? with
    | none => s
    | some read => s.applyRead cfg read failure
  | .restart => { s with applied := fun _ => none }

/-- What the policy of a channel controls: the block store's flag, and the control
store's `ignored_at_ms` and `always_join`. -/
def flags (s : PolicyNode β) (channel : String) : Bool × Option ℤ × Bool :=
  (s.db.blocked channel, (s.control.channel.lookup channel).bind (·.ignoredAtMs),
    s.alwaysJoin channel)

/-- The step is no apply of an older version than one already applied, or leaves the
flags as they are. -/
def Steady (s : PolicyNode β) : PolicyAction → Prop
  | .apply reader failure =>
    ∀ read ∈ s.reads[reader]?, ∀ newest ∈ s.newest read.channel, read.version < newest.version →
      (s.applyRead cfg read failure).flags read.channel = s.flags read.channel
  | _ => True

/-- The apply fails before it has set a flag. -/
def Fails (s : PolicyNode β) (channel : String) (failure : Option ApplyCall) : Prop :=
  (s.applied channel = none ∧ failure = some .appliedClusterPolicy) ∨
    failure = some .setChannelBlocked

instance (s : PolicyNode β) (channel : String) (failure : Option ApplyCall) :
    Decidable (s.Fails channel failure) := inferInstanceAs (Decidable (_ ∧ _ ∨ _))

/-- The step is no apply of an older version than one already applied, or this version
has a lower cutoff, or the same policy. -/
def Guarded (s : PolicyNode β) : PolicyAction → Prop
  | .apply reader failure =>
    ∀ read ∈ s.reads[reader]?, ∀ newest ∈ s.newest read.channel, read.version < newest.version →
      s.Fails read.channel failure ∨ read.policy.purgeMs < newest.policy.purgeMs ∨
        read.policy = newest.policy
  | _ => True

instance (s : PolicyNode β) : ∀ a, Decidable (s.Guarded a)
  | .apply reader failure => inferInstanceAs (Decidable (∀ read ∈ s.reads[reader]?,
      ∀ newest ∈ s.newest read.channel, read.version < newest.version →
        s.Fails read.channel failure ∨ read.policy.purgeMs < newest.policy.purgeMs ∨
          read.policy = newest.policy))
  | .mutate _ _ => inferInstanceAs (Decidable True)
  | .receive _ => inferInstanceAs (Decidable True)
  | .read _ => inferInstanceAs (Decidable True)
  | .restart => inferInstanceAs (Decidable True)

/-! ### What one apply does -/

variable {cfg} {env} {s s' : PolicyNode β} {channel : String} {policy : ChannelPolicy}
  {failure : Option ApplyCall} {read : PolicyRead}

/-- Nothing on record changes. -/
structure Kept (s s' : PolicyNode β) : Prop where
  applied : s'.applied = s.applied
  stored : s'.stored = s.stored
  newest : s'.newest = s.newest
  reads : s'.reads = s.reads

theorem Kept.refl (s : PolicyNode β) : Kept s s := ⟨rfl, rfl, rfl, rfl⟩

theorem kept_purge (cfg : Settings β) (s : PolicyNode β) (channel : String) (purgeMs : ℤ)
    (failure : Option ApplyCall) : Kept s (s.purge cfg channel purgeMs failure).2 := by
  rw [purge]
  split
  · exact .refl s
  · dsimp only
    split
    · exact ⟨rfl, rfl, rfl, rfl⟩
    · split <;> exact ⟨rfl, rfl, rfl, rfl⟩

/-- The policy is on record now, and nothing else has changed there. -/
structure Recorded (s s' : PolicyNode β) (channel : String) (policy : ChannelPolicy) : Prop where
  applied : s'.applied = Function.update s.applied channel (some policy)
  stored : s'.stored = Function.update s.stored (toAsciiLowercase channel) (some policy)
  newest : s'.newest = s.newest
  reads : s'.reads = s.reads

theorem record_cases (h : Kept s s') (channel : String) (policy : ChannelPolicy)
    (failure : Option ApplyCall) :
    (∃ e s'', s'.record channel policy failure = (.error e, s'') ∧ Kept s s'') ∨
      ∃ s'', s'.record channel policy failure = (.ok (), s'') ∧ Recorded s s'' channel policy := by
  rw [record]
  split
  · exact .inl ⟨_, s', rfl, h⟩
  · refine .inr ⟨_, rfl, ?_, ?_, h.newest, h.reads⟩
    · rw [← h.applied]
    · rw [← h.stored]

/-- **Writing** fails, or puts the policy on record. -/
theorem write_cases (cfg : Settings β) (s : PolicyNode β) (channel : String) (policy : ChannelPolicy)
    (failure : Option ApplyCall) :
    (∃ e s', s.write cfg channel policy failure = (.error e, s') ∧ Kept s s') ∨
      ∃ s', s.write cfg channel policy failure = (.ok (), s') ∧ Recorded s s' channel policy := by
  have hblocked : Kept s (s.setBlocked cfg channel policy.ignored) := ⟨rfl, rfl, rfl, rfl⟩
  rw [write]
  split
  · exact .inl ⟨_, s, rfl, .refl s⟩
  · dsimp only
    split
    · have hpurged : Kept _ _ := kept_purge cfg (s.setBlocked cfg channel policy.ignored) channel
        policy.purgeMs failure
      have hkept : Kept s
          ((s.setBlocked cfg channel policy.ignored).purge cfg channel policy.purgeMs failure).2 :=
        ⟨hpurged.applied.trans hblocked.applied, hpurged.stored.trans hblocked.stored,
          hpurged.newest.trans hblocked.newest, hpurged.reads.trans hblocked.reads⟩
      rcases hpurge : (s.setBlocked cfg channel policy.ignored).purge cfg channel policy.purgeMs
        failure with ⟨e | ⟨⟩, purged⟩ <;> rw [hpurge] at hkept
      · exact .inl ⟨e, purged, rfl, hkept⟩
      · exact record_cases hkept channel policy failure
    · exact record_cases hblocked channel policy failure

theorem load_cases (s : PolicyNode β) (channel : String) :
    (s.load channel = s ∧
      (s.applied channel = none → s.stored (toAsciiLowercase channel) = none)) ∨
      ∃ previous, s.stored (toAsciiLowercase channel) = some previous ∧
        s.load channel = { s with
          applied := Function.update s.applied channel (some previous) } := by
  unfold load
  rcases s.applied channel with - | entry
  · rcases s.stored (toAsciiLowercase channel) with - | previous
    · exact .inl ⟨rfl, fun _ => rfl⟩
    · exact .inr ⟨previous, rfl, rfl⟩
  · exact .inl ⟨rfl, nofun⟩

theorem stored_load (s : PolicyNode β) (channel : String) : (s.load channel).stored = s.stored := by
  rcases load_cases s channel with ⟨heq, -⟩ | ⟨previous, -, heq⟩ <;> rw [heq]

theorem newest_load (s : PolicyNode β) (channel : String) : (s.load channel).newest = s.newest := by
  rcases load_cases s channel with ⟨heq, -⟩ | ⟨previous, -, heq⟩ <;> rw [heq]

theorem flags_load (s : PolicyNode β) (channel other : String) :
    (s.load channel).flags other = s.flags other := by
  rcases load_cases s channel with ⟨heq, -⟩ | ⟨previous, -, heq⟩ <;> rw [heq]
  rfl

theorem flags_note (s : PolicyNode β) (read : PolicyRead) (other : String) :
    (s.note read).flags other = s.flags other := by
  rw [note]
  split <;> rfl

/-- There is nothing to apply: the policy is on record, or there is nothing on record and
the policy is the default. -/
def Idle (s : PolicyNode β) (channel : String) (policy : ChannelPolicy) : Prop :=
  (s.load channel).applied channel = some policy ∨
    policy = default ∧ (s.load channel).applied channel = none

/-- **What an apply comes to**: no record to be had, nothing to do, a cutoff that is too
low, or the writes. -/
theorem apply_cases (cfg : Settings β) (s : PolicyNode β) (channel : String) (policy : ChannelPolicy)
    (failure : Option ApplyCall) :
    (∃ e, s.apply cfg channel policy failure = (.error e, s)) ∨
      (s.Idle channel policy ∧ s.apply cfg channel policy failure = (.ok (), s.load channel)) ∨
      (∃ e, policy.purgeMs < (s.load channel).previousCutoff channel ∧
        s.apply cfg channel policy failure = (.error e, s.load channel)) ∨
      ((¬s.Idle channel policy ∧ ¬policy.purgeMs < (s.load channel).previousCutoff channel ∧
          ¬(s.applied channel = none ∧ failure = some .appliedClusterPolicy)) ∧
        s.apply cfg channel policy failure =
          (s.load channel).write cfg channel policy failure) := by
  unfold apply
  dsimp only
  split
  -- the record cannot be read
  · exact .inl ⟨_, rfl⟩
  · rename_i hload
    split
    -- the policy is on record already
    · rename_i hsame
      exact .inr (.inl ⟨.inl hsame, rfl⟩)
    · rename_i hnew
      split
      -- there is no record, and nothing to put on it
      · rename_i hdefault
        exact .inr (.inl ⟨.inr hdefault, rfl⟩)
      · rename_i hpresent
        split
        -- its cutoff is below that of the record
        · rename_i hcutoff
          exact .inr (.inr (.inl ⟨_, hcutoff, rfl⟩))
        · rename_i hcutoff
          exact .inr (.inr (.inr ⟨⟨not_or.mpr ⟨hnew, hpresent⟩, hcutoff, hload⟩, rfl⟩))

/-- **An apply that does not get to its writes** leaves the flags alone. -/
theorem flags_applyRead
    (h : s.Fails read.channel failure ∨
      read.policy.purgeMs < (s.load read.channel).previousCutoff read.channel ∨
        s.Idle read.channel read.policy) :
    (s.applyRead cfg read failure).flags read.channel = s.flags read.channel := by
  rw [applyRead]
  rcases apply_cases cfg s read.channel read.policy failure with
    ⟨e, heq⟩ | ⟨-, heq⟩ | ⟨e, -, heq⟩ | ⟨⟨hnew, hcutoff, hload⟩, heq⟩ <;> rw [heq]
  · exact (flags_note _ read read.channel).trans (flags_load s read.channel read.channel)
  · exact flags_load s read.channel read.channel
  · rcases h with (hfails | rfl) | hlower | hidle
    · exact absurd hfails hload
    · exact flags_load s read.channel read.channel
    · exact absurd hlower hcutoff
    · exact absurd hidle hnew

/-! ### What is on record -/

/-- The record of a channel is its newest applied version. -/
structure Tracked (s : PolicyNode β) : Prop where
  reads : ∀ read ∈ s.reads, toAsciiLowercase read.channel = read.channel
  applied : ∀ channel previous, toAsciiLowercase channel = channel →
    s.applied channel = some previous → s.stored channel = some previous
  newest : ∀ channel, toAsciiLowercase channel = channel →
    (s.stored channel).getD default = ((s.newest channel).map (·.policy)).getD default

theorem Kept.tracked (h : Kept s s') (hs : s.Tracked) : s'.Tracked where
  reads := h.reads ▸ hs.reads
  applied := h.applied ▸ h.stored ▸ hs.applied
  newest := h.stored ▸ h.newest ▸ hs.newest

/-- The entry that `apply` compares with is the stored one. -/
theorem applied_load (hs : s.Tracked) (hlower : toAsciiLowercase channel = channel) :
    (s.load channel).applied channel = s.stored channel := by
  rcases load_cases s channel with ⟨heq, hnone⟩ | ⟨previous, hstored, heq⟩ <;> rw [heq]
  · rcases happlied : s.applied channel with - | previous
    · rw [← hlower, hnone happlied]
    · exact (hs.applied channel previous hlower happlied).symm
  · rw [← hlower, hstored, hlower]
    exact Function.update_self channel (some previous) s.applied

theorem tracked_load (hs : s.Tracked) (hlower : toAsciiLowercase channel = channel) :
    (s.load channel).Tracked := by
  rcases load_cases s channel with ⟨heq, -⟩ | ⟨previous, hstored, heq⟩ <;> rw [heq]
  · exact hs
  · refine ⟨hs.reads, fun other policy hother happlied => ?_, hs.newest⟩
    have happlied : Function.update s.applied channel (some previous) other = some policy := happlied
    by_cases hchannel : other = channel
    · subst hchannel
      rw [Function.update_self] at happlied
      rw [← happlied, ← hstored, hlower]
    · rw [Function.update_of_ne hchannel] at happlied
      exact hs.applied other policy hother happlied

/-- The policy of the newest applied version, or the default. -/
theorem cutoff_of_newest (hs : s.Tracked) (hlower : toAsciiLowercase channel = channel)
    {newest : PolicyRead} (hnewest : newest ∈ s.newest channel) :
    (s.stored channel).getD default = newest.policy ∧
      (s.load channel).previousCutoff channel = newest.policy.purgeMs := by
  have hstored : (s.stored channel).getD default = newest.policy := by
    rw [hs.newest channel hlower, hnewest]
    rfl
  refine ⟨hstored, ?_⟩
  rw [previousCutoff, applied_load hs hlower, ← hstored]
  cases s.stored channel <;> rfl

/-- **An older version that is guarded** does not get to the writes. -/
theorem settled_of_guarded (hs : s.Tracked) (hlower : toAsciiLowercase channel = channel)
    {newest : PolicyRead} (hnewest : newest ∈ s.newest channel)
    (h : policy.purgeMs < newest.policy.purgeMs ∨ policy = newest.policy) :
    policy.purgeMs < (s.load channel).previousCutoff channel ∨ s.Idle channel policy := by
  obtain ⟨hstored, hcutoff⟩ := cutoff_of_newest hs hlower hnewest
  rcases h with hlt | rfl
  · exact .inl (hcutoff ▸ hlt)
  · refine .inr ?_
    rw [Idle, applied_load hs hlower]
    rcases hrow : s.stored channel with - | previous <;> rw [hrow] at hstored
    · exact .inr ⟨hstored.symm, rfl⟩
    · exact .inl (congrArg some hstored)

theorem tracked_note (hs : s.Tracked)
    (hpolicy : (s.stored read.channel).getD default = read.policy) : (s.note read).Tracked := by
  rw [note]
  split
  · exact hs
  · refine ⟨hs.reads, hs.applied, fun other hother => ?_⟩
    show _ = ((Function.update s.newest read.channel (some read) other).map (·.policy)).getD default
    by_cases hchannel : other = read.channel
    · subst hchannel
      rw [Function.update_self]
      exact hpolicy
    · rw [Function.update_of_ne hchannel]
      exact hs.newest other hother

/-- A version that is put on record and is not older than the newest becomes it. -/
theorem Recorded.tracked (h : Recorded s s' read.channel read.policy) (hs : s.Tracked)
    (hlower : toAsciiLowercase read.channel = read.channel)
    (hnew : ∀ newest ∈ s.newest read.channel, newest.version ≤ read.version) :
    (s'.note read).Tracked := by
  -- no newer version was applied, so this one is noted
  have hany : (s'.newest read.channel).any (read.version < ·.version) = false := by
    rw [h.newest]
    rcases hnewest : s.newest read.channel with - | newest
    · rfl
    · exact decide_eq_false (not_lt.mpr (hnew newest hnewest))
  rw [note, hany, if_neg Bool.false_ne_true]
  refine ⟨h.reads ▸ hs.reads, fun other previous hother happlied => ?_, fun other hother => ?_⟩
  -- what was applied is stored
  · show s'.stored other = some previous
    have happlied : s'.applied other = some previous := happlied
    rw [h.applied] at happlied
    rw [h.stored, hlower]
    by_cases hchannel : other = read.channel
    · subst hchannel
      rwa [Function.update_self] at happlied ⊢
    · rw [Function.update_of_ne hchannel] at happlied ⊢
      exact hs.applied other previous hother happlied
  -- what is stored is of the newest version
  · show (s'.stored other).getD default =
      ((Function.update s'.newest read.channel (some read) other).map (·.policy)).getD default
    rw [h.stored, h.newest, hlower]
    by_cases hchannel : other = read.channel
    · subst hchannel
      rw [Function.update_self, Function.update_self]
      rfl
    · rw [Function.update_of_ne hchannel, Function.update_of_ne hchannel]
      exact hs.newest other hother

/-- **A guarded apply** keeps the record. -/
theorem tracked_applyRead (hs : s.Tracked)
    (hlower : toAsciiLowercase read.channel = read.channel)
    (hguarded : ∀ newest ∈ s.newest read.channel, read.version < newest.version →
      s.Fails read.channel failure ∨ read.policy.purgeMs < newest.policy.purgeMs ∨
        read.policy = newest.policy) : (s.applyRead cfg read failure).Tracked := by
  have hloaded := tracked_load hs hlower
  rw [applyRead]
  rcases apply_cases cfg s read.channel read.policy failure with
    ⟨e, heq⟩ | ⟨hidle, heq⟩ | ⟨e, -, heq⟩ | ⟨⟨hnew, hcutoff, hload⟩, heq⟩ <;> rw [heq]
  · exact hs
  · refine tracked_note hloaded ?_
    rw [Idle, applied_load hs hlower] at hidle
    rw [stored_load]
    rcases hidle with hsame | ⟨hdefault, hnone⟩
    · rw [hsame]
      rfl
    · rw [hnone, hdefault]
      rfl
  · exact hloaded
  · rcases write_cases cfg (s.load read.channel) read.channel read.policy failure with
      ⟨e, s', hwrite, hkept⟩ | ⟨s', hwrite, hrecorded⟩ <;> rw [hwrite]
    · exact hkept.tracked hloaded
    · refine hrecorded.tracked hloaded hlower fun newest hnewest => ?_
      rw [newest_load] at hnewest
      by_contra hlt
      -- an older version would not have got here
      rcases hguarded newest hnewest (not_le.mp hlt) with (hfails | rfl) | hguard
      · exact hload hfails
      · rw [write, if_pos rfl] at hwrite
        cases hwrite
      · rcases settled_of_guarded hs hlower hnewest hguard with hlower' | hidle
        · exact hcutoff hlower'
        · exact hnew hidle

theorem tracked_start (cluster : ClusterDb) (control : ControlStore) (alwaysJoin : String → Bool)
    (db : Db β) (openBlocks : Option OpenBlockManager) :
    (start cluster control alwaysJoin db openBlocks).Tracked :=
  ⟨fun _ hread => absurd hread List.not_mem_nil, fun _ _ _ h => (by cases h), fun _ _ => rfl⟩

/-- **A guarded step** keeps the record. -/
theorem tracked_step (hs : s.Tracked) {a : PolicyAction} (ha : s.Guarded a) :
    (s.step cfg env a).Tracked := by
  cases a with
  | mutate operation nowMs => exact ⟨hs.reads, hs.applied, hs.newest⟩
  | receive snapshot => exact ⟨hs.reads, hs.applied, hs.newest⟩
  | read channelLogin =>
    refine ⟨fun read hread => ?_, hs.applied, hs.newest⟩
    rcases List.mem_append.mp hread with hread | hread
    · exact hs.reads read hread
    · rw [List.mem_singleton.mp hread]
      exact toAsciiLowercase_toAsciiLowercase channelLogin
  | apply reader failure =>
    rw [step]
    rcases hread : s.reads[reader]? with - | read
    · exact hs
    · exact tracked_applyRead hs (hs.reads read (List.mem_of_getElem? hread)) (ha read hread)
  | restart => exact ⟨hs.reads, fun _ _ _ h => (by cases h), hs.newest⟩

/-- **A guarded step** is steady. -/
theorem steady_of_guarded (hs : s.Tracked) {a : PolicyAction} (ha : s.Guarded a) :
    s.Steady cfg a := by
  cases a with
  | apply reader failure =>
    intro read hread newest hnewest hlt
    refine flags_applyRead ((ha read hread newest hnewest hlt).imp_right fun hguard => ?_)
    exact settled_of_guarded hs (hs.reads read (List.mem_of_getElem? hread)) hnewest hguard
  | mutate operation nowMs => exact trivial
  | receive snapshot => exact trivial
  | read channelLogin => exact trivial
  | restart => exact trivial

/-- **Applied policy does not go back** in a run whose applies of older versions all have
a lower cutoff than the newest applied version, or its policy. -/
theorem applied_policy_never_goes_back (cfg : Settings β) (env : ClusterEnv)
    (cluster : ClusterDb) (control : ControlStore) (alwaysJoin : String → Bool) (db : Db β)
    (openBlocks : Option OpenBlockManager) (actions : List PolicyAction)
    (h : Along (step cfg env) Guarded (start cluster control alwaysJoin db openBlocks) actions) :
    Along (step cfg env) (Steady cfg) (start cluster control alwaysJoin db openBlocks) actions :=
  Along.mono (fun _ _ hs ha => tracked_step hs ha) (fun _ _ hs ha => steady_of_guarded hs ha)
    (tracked_start cluster control alwaysJoin db openBlocks) h

/-- A request reads the policy of a purged channel; then the channel is opted out, at
`nowMs`, and another request reads. -/
def optOutActions (nowMs : ℕ) : List PolicyAction :=
  [.mutate (.purge "forsen" 100) 1, .read "forsen", .mutate (.ignore "forsen" true) nowMs,
    .read "forsen", .apply 1 none]

/-- The owner before it has any channel. -/
def sampleNode : PolicyNode Plain :=
  start ClusterDb.sampleSeed.database .empty (fun _ => false) .empty none

theorem applied_policy_never_goes_back_sample :
    Along (step .plain ClusterDb.sampleEnv) (Steady .plain) sampleNode
      (optOutActions 150 ++ [.apply 0 none]) :=
  applied_policy_never_goes_back .plain ClusterDb.sampleEnv ClusterDb.sampleSeed.database .empty
    (fun _ => false) .empty none (optOutActions 150 ++ [PolicyAction.apply 0 none])
    (by decide +kernel)

/-- No apply of an older version changes a flag, in any run. -/
def AppliedPolicyIsFinal (cfg : Settings β) (env : ClusterEnv) : Prop :=
  ∀ (cluster : ClusterDb) (control : ControlStore) (alwaysJoin : String → Bool) (db : Db β)
    (openBlocks : Option OpenBlockManager) (actions : List PolicyAction),
    Along (step cfg env) (Steady cfg) (start cluster control alwaysJoin db openBlocks) actions

/-- **An old policy is applied** when the opt-out's clock is behind the purge's cutoff:
the channel is unblocked. -/
theorem stale_policy_applied : ¬ AppliedPolicyIsFinal .plain ClusterDb.sampleEnv := by
  intro h
  have hsteady : ((optOutActions 50).foldl (step .plain ClusterDb.sampleEnv) sampleNode).Steady
      .plain (.apply 0 none) :=
    (Along.append.mp (h ClusterDb.sampleSeed.database .empty (fun _ => false) .empty none
      (optOutActions 50 ++ [PolicyAction.apply 0 none]))).2.1
  have hflags := hsteady ⟨"forsen", 1, ⟨false, false, 100⟩⟩ (by decide +kernel)
    ⟨"forsen", 2, ⟨true, false, 100⟩⟩ (by decide +kernel) (by decide)
  exact absurd hflags (by decide +kernel)

end PolicyNode

end RecentMessages
