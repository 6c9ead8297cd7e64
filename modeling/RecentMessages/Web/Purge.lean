/-
RecentMessages/Web/Purge.lean

When a purge is final.

`purge_messages` raises the cutoff of the channel in the sealed store, drops its
blocks there, and then drops its open block.  The cutoff keeps purged records out
of the sealed store for good, but the open blocks know no cutoff: a purged record
that a queued batch brings, or that recovery reads from the journal, is open again
and is returned (`purge_undone`).  That is the only way back: in a run in which no
later step appends a purged record to the open blocks, no read returns one
(`purge_final`).
-/
import RecentMessages.Library.Runs
import RecentMessages.Storage.Durability
import RecentMessages.Web.Node

namespace RecentMessages

namespace Node

variable {β : Type} {cfg : Settings β} {n n' : Node β} {a : NodeAction} {r : CanonicalRecord}
variable {c : String} {cutoffMs : ℤ}

/-- A run up to the end of `purge_messages`, with `between` between its access to
the sealed store and its access to the open blocks. -/
def throughPurge (before between : List NodeAction) (userLogin : String) (cutoffMs : ℤ) :
    List NodeAction :=
  (before ++ .store (.purgeChannel (toAsciiLowercase userLogin) cutoffMs) :: between) ++
    [.purgeOpenBlocks userLogin]

/-- If the step appends a record of the channel to the open blocks, the record was
received after the cutoff. -/
def AppendsAfter (c : String) (cutoffMs : ℤ) (n : Node β) (a : NodeAction) : Prop :=
  ∀ r ∈ n.appended a, r.channelKey = c → cutoffMs < r.receivedAtMs

instance (c : String) (cutoffMs : ℤ) (n : Node β) (a : NodeAction) :
    Decidable (AppendsAfter c cutoffMs n a) :=
  inferInstanceAs (Decidable (∀ r ∈ n.appended a, _))

/-- The store has a cutoff for the channel, at least as late. -/
def CutOff (c : String) (cutoffMs : ℤ) (n : Node β) : Prop :=
  ∃ t, n.ingest.db.purgeCutoff c = some t ∧ cutoffMs ≤ t

/-- The channel is purged: it is cut off, and no record up to the cutoff is open. -/
structure Purged (c : String) (cutoffMs : ℤ) (n : Node β) : Prop where
  cutOff : n.CutOff c cutoffMs
  opened : ∀ r ∈ n.ingest.openBlocks.records, r.channelKey = c → cutoffMs < r.receivedAtMs

theorem cutOff_apply (hn : n.Sound cfg.codec) (h : n.CutOff c cutoffMs) (a : NodeAction) :
    (n.apply cfg a).CutOff c cutoffMs := by
  rcases change_apply hn a with heq | hchange
  · rw [heq]
    exact h
  · obtain ⟨old, hold, hle⟩ := h
    obtain ⟨t, ht, hle'⟩ := hchange.purgeCutoff_le hn hold
    exact ⟨t, ht, hle.trans hle'⟩

/-- **A step that appends no purged record** keeps the channel purged. -/
theorem purged_apply (hn : n.Sound cfg.codec) (h : n.Purged c cutoffMs)
    (ha : AppendsAfter c cutoffMs n a) : (n.apply cfg a).Purged c cutoffMs := by
  refine ⟨cutOff_apply hn h.cutOff a, fun r hr hc => ?_⟩
  rcases change_apply hn a with heq | hchange
  · rw [heq] at hr
    exact h.opened r hr hc
  · rcases hchange.mem_openBlocks hr with hr | happended
    · exact h.opened r hr hc
    · exact ha r happended hc

/-- Raising the cutoff cuts the channel off. -/
theorem cutOff_purgeChannel (hup : n.ingest.task.running = true) :
    (n.apply cfg (.store (.purgeChannel c cutoffMs))).CutOff c cutoffMs := by
  obtain ⟨t, ht, hle, -⟩ := Db.purgeCutoff_raiseCutoff_self n.ingest.db c cutoffMs
  refine ⟨t, ?_, hle⟩
  rw [apply, step, if_pos hup]
  show (Db.dropChannel cfg.codec (n.ingest.db.raiseCutoff c cutoffMs) c).purgeCutoff c = some t
  rw [Db.purgeCutoff_congr (Db.reduced_dropChannel _ _ _).policy]
  exact ht

theorem cutOff_foldl (hn : n.Sound cfg.codec) (h : n.CutOff c cutoffMs)
    (actions : List NodeAction) : (actions.foldl (apply cfg) n).CutOff c cutoffMs := by
  have hboth : (actions.foldl (apply cfg) n).Sound cfg.codec ∧
      (actions.foldl (apply cfg) n).CutOff c cutoffMs :=
    List.foldlRecOn (motive := fun n : Node β => n.Sound cfg.codec ∧ n.CutOff c cutoffMs) actions
      (apply cfg) ⟨hn, h⟩ fun _ h a _ => ⟨sound_apply h.1 a, cutOff_apply h.1 h.2 a⟩
  exact hboth.2

/-- **`purge_messages` purges its channel**, whatever happens between its accesses. -/
theorem purged_throughPurge {before between : List NodeAction} {userLogin : String}
    (hstore : (run cfg before).ingest.task.running = true)
    (hopen : (run cfg (before ++ .store (.purgeChannel (toAsciiLowercase userLogin) cutoffMs) ::
      between)).ingest.task.running = true) :
    (run cfg (throughPurge before between userLogin cutoffMs)).Purged
      (toAsciiLowercase userLogin) cutoffMs := by
  have hcut : (run cfg (before ++ .store (.purgeChannel (toAsciiLowercase userLogin) cutoffMs) ::
      between)).CutOff (toAsciiLowercase userLogin) cutoffMs := by
    rw [run_append, List.foldl_cons]
    exact cutOff_foldl (sound_apply (sound_run cfg before) _) (cutOff_purgeChannel hstore) between
  rw [throughPurge, run_append]
  refine ⟨cutOff_foldl (sound_run cfg _) hcut _, fun r hr hc => ?_⟩
  rw [List.foldl_cons, List.foldl_nil, apply, step, if_pos hopen] at hr
  exact absurd hc (OpenBlockManager.mem_records_takeBlock.mp hr).2

/-- A read of a purged channel returns no purged record. -/
theorem lt_of_mem_read (hn : n.Sound cfg.codec) (hcut : n.CutOff c cutoffMs)
    (hn' : n'.Purged c cutoffMs) {channelLogin : String} (hlogin : toAsciiLowercase channelLogin = c)
    {options : GetRecentMessagesQueryOptions} {maxBufferSize : ℕ} {records : List CanonicalRecord}
    (h : read cfg n n' channelLogin options maxBufferSize = .ok records) :
    ∀ r ∈ records, cutoffMs < r.receivedAtMs := by
  intro r hr
  obtain ⟨hvisible, hc, -⟩ := visible_of_mem_queryLocalMessages hn.kept.readable h hr
  rw [hlogin] at hc
  rcases List.mem_append.mp hvisible with hsealed | hopened
  · obtain ⟨t, ht, hle⟩ := hcut
    exact lt_of_le_of_lt hle ((hn.kept.compliant r hsealed).2 t (hc ▸ ht))
  · exact hn'.opened r hopened hc

/-- **A purged channel stays purged** in every run that appends no purged record. -/
theorem purged_run {actions more : List NodeAction} (h : (run cfg actions).Purged c cutoffMs)
    (hsteps : Along (apply cfg) (AppendsAfter c cutoffMs) (run cfg actions) more) :
    (run cfg (actions ++ more)).Purged c cutoffMs := by
  rw [run_append]
  have hboth := hsteps.invariant (I := fun n : Node β => n.Sound cfg.codec ∧ n.Purged c cutoffMs)
    (fun n a hn ha => ⟨sound_apply hn.1 a, purged_apply hn.1 hn.2 ha⟩) ⟨sound_run cfg actions, h⟩
  exact hboth.2

/-- **When a purge is final.**  In every run in which, after `purge_messages` has
dropped the open block, no step appends a record of the channel received up to the
cutoff to the open blocks, no later read of the channel returns such a record.  The
read visits the store after `toStore` and the open blocks after `toOpen`. -/
theorem purge_final (cfg : Settings β) (before between toStore toOpen : List NodeAction)
    (userLogin : String) (cutoffMs : ℤ) (hstore : (run cfg before).ingest.task.running = true)
    (hopen : (run cfg (before ++ .store (.purgeChannel (toAsciiLowercase userLogin) cutoffMs) ::
      between)).ingest.task.running = true)
    (hsteps : Along (apply cfg) (AppendsAfter (toAsciiLowercase userLogin) cutoffMs)
      (run cfg (throughPurge before between userLogin cutoffMs)) (toStore ++ toOpen))
    (channelLogin : String) (hlogin : toAsciiLowercase channelLogin = toAsciiLowercase userLogin)
    (options : GetRecentMessagesQueryOptions) (maxBufferSize : ℕ) :
    ∃ records, read cfg (run cfg (throughPurge before between userLogin cutoffMs ++ toStore))
        (run cfg (throughPurge before between userLogin cutoffMs ++ (toStore ++ toOpen)))
        channelLogin options maxBufferSize = .ok records ∧
      ∀ r ∈ records, cutoffMs < r.receivedAtMs := by
  have hpurged := purged_throughPurge hstore hopen
  have hsound := sound_run cfg (throughPurge before between userLogin cutoffMs ++ toStore)
  have hstored := purged_run hpurged (Along.append.mp hsteps).1
  have hopened := purged_run hpurged hsteps
  obtain ⟨records, hread⟩ := read_eq_ok hsound _ channelLogin options maxBufferSize
  exact ⟨records, hread, lt_of_mem_read hsound hstored.cutOff hopened hlogin hread⟩

/-! ### A purge that is undone

A batch is open when its channel is purged.  Its journal row is still there, so a
restart opens the records again. -/

/-- The process starts on an empty journal and goes on to accept a batch. -/
def acceptedActions : List NodeAction :=
  [.start 5 [], .ingest .advance, .ingest (.accept Ingest.firstBatch 10), .ingest .advance,
    .ingest .advance, .ingest .advance]

/-- The process crashes, starts and replays a batch of two records. -/
def restartActions : List NodeAction :=
  [.ingest .crash, .start 20 []] ++ List.replicate 5 (.ingest .advance)

/-- A batch that arrives after the purge. -/
def lateActions : List NodeAction :=
  [.ingest (.accept ⟨"irc", "a", 3, 3, [Ingest.sampleRecord "irc" 6]⟩ 12), .ingest .advance,
    .ingest .advance]

def sampleOptions : GetRecentMessagesQueryOptions := ⟨none, none, none⟩

theorem purge_final_sample : ∃ records, read .plain
      (run .plain (throughPurge acceptedActions [] "Quiet" 5 ++ lateActions))
      (run .plain (throughPurge acceptedActions [] "Quiet" 5 ++ (lateActions ++ [])))
      "quiet" sampleOptions 800 = .ok records ∧ ∀ r ∈ records, 5 < r.receivedAtMs :=
  purge_final .plain acceptedActions [] lateActions [] "Quiet" 5 (by decide +kernel)
    (by decide +kernel) (by decide +kernel) "quiet" (by decide +kernel) sampleOptions 800

/-- After `purge_messages`, no read of the channel returns a record received up to
the cutoff. -/
def PurgeIsFinal (cfg : Settings β) : Prop :=
  ∀ (before between toStore toOpen : List NodeAction) (userLogin channelLogin : String)
    (cutoffMs : ℤ) (options : GetRecentMessagesQueryOptions) (maxBufferSize : ℕ),
    (run cfg before).ingest.task.running = true →
    (run cfg (before ++ .store (.purgeChannel (toAsciiLowercase userLogin) cutoffMs) ::
      between)).ingest.task.running = true →
    toAsciiLowercase channelLogin = toAsciiLowercase userLogin →
    ∀ records, read cfg (run cfg (throughPurge before between userLogin cutoffMs ++ toStore))
        (run cfg (throughPurge before between userLogin cutoffMs ++ (toStore ++ toOpen)))
        channelLogin options maxBufferSize = .ok records →
      ∀ r ∈ records, cutoffMs < r.receivedAtMs

/-- **A restart undoes a purge**: both purged records are returned again. -/
theorem purge_undone : ¬ PurgeIsFinal .plain := by
  intro h
  have hread : read .plain
      (run .plain (throughPurge acceptedActions [] "Quiet" 5 ++ restartActions))
      (run .plain (throughPurge acceptedActions [] "Quiet" 5 ++ (restartActions ++ [])))
      "quiet" sampleOptions 800 = .ok Ingest.firstBatch.records := by
    decide +kernel
  have hlate := h acceptedActions [] restartActions [] "Quiet" "quiet" 5 sampleOptions 800
    (by decide +kernel) (by decide +kernel) (by decide +kernel) _ hread
    (Ingest.sampleRecord "irc" 1) (by decide)
  exact absurd hlate (by decide)

end Node

end RecentMessages
