/-
RecentMessages/Web/Node.lean

A node: ingest, the sealed store and the control store in one process, together
with the requests that change them.

Requests, the expiry of old blocks and the storage budget run beside ingest.  Each
of their accesses is one locked section or one transaction, and so is every step of
ingest; a run is an arbitrary sequence of these (`NodeAction`).  `purgeMessages` and
`setIgnored` list the accesses of the two requests, between which anything else may
happen.  The process starts by blocking the ignored channels in the store and then
recovers its journal.

`Change` lists what a step can do; the rest of the module says, from it, where the
records of a node come from.
-/
import RecentMessages.Control.ControlStore
import RecentMessages.Storage.Conservation
import RecentMessages.Web.Query

namespace RecentMessages

open CanonicalRecord

/-- The state of a node. -/
structure Node (β : Type) where
  ingest : Ingest β
  control : ControlStore

/-- One locked section, one transaction, or a crash. -/
inductive NodeAction
  /-- A step of ingest; the process is started by `start` only. -/
  | ingest (a : IngestAction)
  /-- `ignored` is the order in which the hash set yields its channels. -/
  | start (nowMs : ℕ) (ignored : List String)
  | store (call : StoreCall)
  | control (call : ControlCall)
  /-- `SharedOpenBlocks::purge_channel`. -/
  | purgeOpenBlocks (channelLogin : String)

/-- The accesses of `purge_messages`; `joined` says whether the channel's join is
confirmed. -/
def purgeMessages (userLogin : String) (cutoffMs : ℤ) (joined : Bool) : List NodeAction :=
  [.control (.invalidateChannelCoverage userLogin),
    .store (.purgeChannel (toAsciiLowercase userLogin) cutoffMs),
    .purgeOpenBlocks userLogin] ++
  if joined then [.control (.beginLiveCoverage userLogin "direct-irc" cutoffMs)] else []

/-- The accesses of `set_ignored`. -/
def setIgnored (userLogin : String) (ignored : Bool) (nowMs : ℤ) : List NodeAction :=
  [.control (.setChannelIgnored userLogin ignored nowMs),
    .store (.setChannelBlocked (toAsciiLowercase userLogin) ignored)]

namespace Node

variable {β : Type} (cfg : Settings β)

/-- A node with empty stores, before its process is started. -/
def fresh : Node β := ⟨.fresh, .empty⟩

/-- The node after a call on its sealed store. -/
def withStore (n : Node β) (db : Db β) : Node β := { n with ingest := { n.ingest with db } }

/-- One step, if the action is possible. -/
def step (n : Node β) : NodeAction → Option (Node β)
  | .ingest (.restart _) => none
  | .ingest a => (n.ingest.step cfg a).map fun ingest => { n with ingest }
  | .start nowMs ignored =>
    if n.ingest.task.running = false ∧ ignored.Perm n.control.getIgnoredChannels then
      match n.ingest.db.syncBlockedChannels cfg.codec ignored with
      | .error _ => none
      | .ok db =>
        ((n.withStore db).ingest.step cfg (.restart nowMs)).map fun ingest =>
          ⟨ingest, n.control.discardAllLiveCoverage⟩
    else none
  | .store call =>
    if n.ingest.task.running then some (n.withStore (n.ingest.db.call cfg.codec cfg.store call))
    else none
  | .control call =>
    if n.ingest.task.running then some { n with control := n.control.call call } else none
  | .purgeOpenBlocks channelLogin =>
    if n.ingest.task.running then
      some { n with
        ingest := { n.ingest with
          openBlocks := n.ingest.openBlocks.purgeChannel (toAsciiLowercase channelLogin) } }
    else none

/-- The node after an action; an action that is not possible is skipped. -/
def apply (n : Node β) (a : NodeAction) : Node β := (n.step cfg a).getD n

/-- The node after a run from empty stores. -/
def run (actions : List NodeAction) : Node β := actions.foldl (apply cfg) fresh

/-- The record that a step appends to the open blocks. -/
def appended (n : Node β) : NodeAction → Option CanonicalRecord
  | .ingest .advance => n.ingest.task.next
  | _ => none

/-- `query_local_messages` of a request that visits the store in one state and the
open blocks in a later one. -/
def read (n n' : Node β) (channelLogin : String) (options : GetRecentMessagesQueryOptions)
    (maxBufferSize : ℕ) : Except StoreError (List CanonicalRecord) :=
  queryLocalMessages cfg.codec n.ingest.db (some n'.ingest.openBlocks) channelLogin options
    maxBufferSize

variable {cfg} {n n' : Node β} {a : NodeAction} {r : CanonicalRecord}

theorem run_append (actions more : List NodeAction) :
    run cfg (actions ++ more) = more.foldl (apply cfg) (run cfg actions) :=
  List.foldl_append

/-! ### Steps -/

/-- What a step can do. -/
inductive Change (cfg : Settings β) (n : Node β) (a : NodeAction) (n' : Node β) : Prop
  | ingest (b : IngestAction) (haction : a = .ingest b)
      (hflow : Ingest.Flow cfg.codec n.ingest b n'.ingest) (hcontrol : n'.control = n.control)
  | start (nowMs : ℕ) (ignored : List String) (db : Db β) (haction : a = .start nowMs ignored)
      (hdown : n.ingest.task.running = false)
      (hsync : n.ingest.db.syncBlockedChannels cfg.codec ignored = .ok db)
      (hflow : Ingest.Flow cfg.codec (n.withStore db).ingest (.restart nowMs) n'.ingest)
  | store (call : StoreCall) (haction : a = .store call) (hup : n.ingest.task.running = true)
      (hnode : n' = n.withStore (n.ingest.db.call cfg.codec cfg.store call))
  | control (hingest : n'.ingest = n.ingest)
  | purgeOpenBlocks (channelLogin : String) (haction : a = .purgeOpenBlocks channelLogin)
      (hup : n.ingest.task.running = true)
      (hingest : n'.ingest = { n.ingest with
        openBlocks := n.ingest.openBlocks.purgeChannel (toAsciiLowercase channelLogin) })

/-- What every step keeps: the sealed store is readable and complies with its
policy tables, and the journal is settled. -/
structure Sound (codec : Codec β) (n : Node β) : Prop where
  kept : n.ingest.db.Kept codec
  settled : n.ingest.db.journal.Settled

theorem kept_call (hn : n.Sound cfg.codec) (call : StoreCall) :
    (n.ingest.db.call cfg.codec cfg.store call).Kept cfg.codec ∧
      (n.ingest.db.call cfg.codec cfg.store call).journal = n.ingest.db.journal :=
  Db.kept_call hn.kept call

theorem kept_sync {db : Db β} {ignored : List String} (hn : n.Sound cfg.codec)
    (hsync : n.ingest.db.syncBlockedChannels cfg.codec ignored = .ok db) :
    (n.withStore db).Sound cfg.codec := by
  have hcall : n.ingest.db.call cfg.codec cfg.store (.syncBlockedChannels ignored) = db := by
    rw [Db.call, hsync]
  obtain ⟨hkept, hjournal⟩ := kept_call hn (.syncBlockedChannels ignored)
  rw [hcall] at hkept hjournal
  exact ⟨hkept, show db.journal.Settled from hjournal ▸ hn.settled⟩

/-- **What a step can do**, if it is possible. -/
theorem change_step (hn : n.Sound cfg.codec) (h : n.step cfg a = some n') : Change cfg n a n' := by
  cases a with
  | ingest b =>
    -- a restart is the business of `start`
    have hmap : (n.ingest.step cfg b).map (fun ingest => { n with ingest }) = some n' := by
      cases b with
      | restart nowMs => cases h
      | _ => exact h
    obtain ⟨ingest, hstep, rfl⟩ := Option.map_eq_some_iff.mp hmap
    exact .ingest b rfl (Ingest.step_flow hn.kept.readable hn.settled hstep) rfl
  | start nowMs ignored =>
    -- `sync_blocked_channels` comes before the recovery of the journal
    rw [step] at h
    split at h
    · rename_i hdown
      split at h
      · cases h
      · rename_i db hsync
        obtain ⟨ingest, hstep, rfl⟩ := Option.map_eq_some_iff.mp h
        have hsound := kept_sync hn hsync
        exact .start nowMs ignored db rfl hdown.1 hsync
          (Ingest.step_flow hsound.kept.readable hsound.settled hstep)
    · cases h
  | store call =>
    -- other tasks run only while the process does
    rw [step] at h
    split at h
    · rename_i hup
      cases h
      exact .store call rfl hup rfl
    · cases h
  | control call =>
    rw [step] at h
    split at h <;> cases h
    exact .control rfl
  | purgeOpenBlocks channelLogin =>
    rw [step] at h
    split at h
    · rename_i hup
      cases h
      exact .purgeOpenBlocks channelLogin rfl hup rfl
    · cases h

theorem change_apply (hn : n.Sound cfg.codec) (a : NodeAction) :
    n.apply cfg a = n ∨ Change cfg n a (n.apply cfg a) := by
  unfold apply
  rcases h : n.step cfg a with - | n'
  · exact .inl rfl
  · exact .inr (change_step hn h)

/-- A step of ingest keeps the store compliant. -/
theorem kept_flow {codec : Codec β} {s s' : Ingest β} {b : IngestAction}
    (h : Ingest.Flow codec s b s') (hs : s.db.Kept codec) : s'.db.Kept codec := by
  refine ⟨h.readable hs.readable, ?_⟩
  rcases h.db_cases with hdb | ⟨batches, gone, happended, -, -⟩
  · rw [hdb]
    exact hs.compliant
  · exact happended.compliant hs.compliant

theorem Change.sound (h : Change cfg n a n') (hn : n.Sound cfg.codec) : n'.Sound cfg.codec := by
  cases h with
  | ingest b haction hflow hcontrol => exact ⟨kept_flow hflow hn.kept, hflow.settled hn.settled⟩
  | start nowMs ignored db haction hdown hsync hflow =>
    have hsound := kept_sync hn hsync
    exact ⟨kept_flow hflow hsound.kept, hflow.settled hsound.settled⟩
  | store call haction hup hnode =>
    obtain ⟨hkept, hjournal⟩ := kept_call hn call
    subst hnode
    exact ⟨hkept, show Journal.Settled (Db.journal _) from hjournal ▸ hn.settled⟩
  | control hingest => exact ⟨hingest ▸ hn.kept, hingest ▸ hn.settled⟩
  | purgeOpenBlocks channelLogin haction hup hingest =>
    exact ⟨by rw [hingest]; exact hn.kept, by rw [hingest]; exact hn.settled⟩

theorem sound_fresh (codec : Codec β) : (fresh : Node β).Sound codec :=
  ⟨⟨Db.readable_empty, Db.compliant_empty⟩, Journal.settled_empty⟩

theorem sound_apply (hn : n.Sound cfg.codec) (a : NodeAction) :
    (n.apply cfg a).Sound cfg.codec := by
  rcases change_apply hn a with heq | h
  · rw [heq]
    exact hn
  · exact h.sound hn

theorem sound_foldl (hn : n.Sound cfg.codec) (actions : List NodeAction) :
    (actions.foldl (apply cfg) n).Sound cfg.codec :=
  List.foldlRecOn actions (apply cfg) hn fun _ hn a _ => sound_apply hn a

theorem sound_run (cfg : Settings β) (actions : List NodeAction) :
    (run cfg actions).Sound cfg.codec :=
  sound_foldl (sound_fresh cfg.codec) actions

/-- A read does not fail. -/
theorem read_eq_ok (hn : n.Sound cfg.codec) (n' : Node β) (channelLogin : String)
    (options : GetRecentMessagesQueryOptions) (maxBufferSize : ℕ) :
    ∃ records, read cfg n n' channelLogin options maxBufferSize = .ok records :=
  ⟨_, queryLocalMessages_eq_ok hn.kept.readable⟩

/-! ### Where records come from -/

namespace Change

/-- **An open record** was open, or ingest has just appended it. -/
theorem mem_openBlocks (h : Change cfg n a n') (hr : r ∈ n'.ingest.openBlocks.records) :
    r ∈ n.ingest.openBlocks.records ∨ n.appended a = some r := by
  cases h with
  | ingest b haction hflow hcontrol =>
    subst haction
    rcases hflow.mem_openBlocks hr with hr | ⟨rfl, hnext⟩
    · exact .inl hr
    · exact .inr hnext
  | start nowMs ignored db haction hdown hsync hflow =>
    rcases hflow.mem_openBlocks hr with hr | ⟨hb, -⟩
    · exact .inl hr
    · cases hb
  | store call haction hup hnode =>
    subst hnode
    exact .inl hr
  | control hingest => exact .inl (hingest ▸ hr)
  | purgeOpenBlocks channelLogin haction hup hingest =>
    rw [hingest] at hr
    exact .inl (OpenBlockManager.mem_records_takeBlock.mp hr).1

/-- **A record in flight** was in flight or open, or ingest has just appended it. -/
theorem mem_inFlight (h : Change cfg n a n') (hr : r ∈ n'.ingest.task.inFlight) :
    r ∈ n.ingest.task.inFlight ∨ r ∈ n.ingest.openBlocks.records ∨ n.appended a = some r := by
  cases h with
  | ingest b haction hflow hcontrol =>
    subst haction
    rcases hflow.mem_inFlight hr with hr | hr | ⟨rfl, hnext⟩
    · exact .inl hr
    · exact .inr (.inl hr)
    · exact .inr (.inr hnext)
  | start nowMs ignored db haction hdown hsync hflow =>
    rcases hflow.mem_inFlight hr with hr | hr | ⟨hb, -⟩
    · exact .inl hr
    · exact .inr (.inl hr)
    · cases hb
  | store call haction hup hnode =>
    subst hnode
    exact .inl hr
  | control hingest => exact .inl (hingest ▸ hr)
  | purgeOpenBlocks channelLogin haction hup hingest =>
    rw [hingest] at hr
    exact .inl hr

/-- **A sealed record** was sealed or in flight, or comes with an append to the
store. -/
theorem mem_sealedRecords (h : Change cfg n a n') (hn : n.Sound cfg.codec)
    (hr : r ∈ n'.ingest.db.sealedRecords cfg.codec) :
    r ∈ n.ingest.db.sealedRecords cfg.codec ∨ r ∈ n.ingest.task.inFlight ∨
      ∃ batches, a = .store (.appendChannelBatches batches) ∧ r ∈ batches.flatten := by
  cases h with
  | ingest b haction hflow hcontrol =>
    exact (hflow.mem_sealedRecords hr).imp_right fun hr => .inl hr.1
  | start nowMs ignored db haction hdown hsync hflow =>
    have hsynced : ∀ q ∈ db.sealedRecords cfg.codec, q ∈ n.ingest.db.sealedRecords cfg.codec := by
      intro q hq
      obtain ⟨hrows, -⟩ := Db.syncBlockedChannels_eq_ok hsync
      obtain ⟨row, hrow, hq⟩ := Db.mem_sealedRecords.mp hq
      exact Db.mem_sealedRecords.mpr ⟨row, (hrows row hrow).1, hq⟩
    rcases hflow.mem_sealedRecords hr with hr | ⟨hr, -⟩
    · exact .inl (hsynced r hr)
    · exact .inr (.inl hr)
  | store call haction hup hnode =>
    subst hnode
    rcases Db.mem_sealedRecords_call hn.kept.readable hr with hr | ⟨batches, rfl, hr, -⟩
    · exact .inl hr
    · exact .inr (.inr ⟨batches, haction, hr⟩)
  | control hingest => exact .inl (hingest ▸ hr)
  | purgeOpenBlocks channelLogin haction hup hingest =>
    rw [hingest] at hr
    exact .inl hr

/-- **Purge cutoffs only rise.** -/
theorem purgeCutoff_le (h : Change cfg n a n') (hn : n.Sound cfg.codec) {c : String} {old : ℤ}
    (hold : n.ingest.db.purgeCutoff c = some old) :
    ∃ t, n'.ingest.db.purgeCutoff c = some t ∧ old ≤ t := by
  cases h with
  | ingest b haction hflow hcontrol =>
    refine ⟨old, ?_, le_rfl⟩
    rw [Db.purgeCutoff, hflow.policy.2]
    exact hold
  | start nowMs ignored db haction hdown hsync hflow =>
    refine ⟨old, ?_, le_rfl⟩
    obtain ⟨-, hcutoffs, -⟩ := Db.syncBlockedChannels_eq_ok hsync
    rw [Db.purgeCutoff, hflow.policy.2]
    show (db.channelPurgeCutoffs.lookup c).map _ = _
    rw [hcutoffs]
    exact hold
  | store call haction hup hnode =>
    subst hnode
    exact Db.purgeCutoff_call hn.kept.readable call hold
  | control hingest => exact ⟨old, hingest ▸ hold, le_rfl⟩
  | purgeOpenBlocks channelLogin haction hup hingest =>
    exact ⟨old, by rw [hingest]; exact hold, le_rfl⟩

end Change

end Node

end RecentMessages
