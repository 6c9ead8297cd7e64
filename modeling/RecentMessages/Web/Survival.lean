/-
RecentMessages/Web/Survival.lean

What a node has accepted, it keeps, until a step loses it.

The journal makes a batch durable whatever ingest does (`Storage/Durability.lean`).
On a node, requests, expiry and the storage budget also change the sealed store and
the open blocks, and the start of the process blocks channels.  None of them touches
the journal or the running call, so each is a step of the same write-ahead log
(`Logged.replace`), and the invariant holds after every run of a node.  An event of a
record whose batch was accepted is therefore held, or about to be appended again,
unless a step of the run has lost it (`held_of_accepted`).
-/
import RecentMessages.Library.Runs
import RecentMessages.Storage.Durability
import RecentMessages.Web.Node

namespace RecentMessages

open CanonicalRecord

variable {β : Type}

/-- One batch has one payload. -/
theorem noCollision_singleton (codec : Codec β) (batch : RawSourceBatch) :
    NoCollision codec [batch] := by
  intro b hb b' hb' p p' hp hp' _
  rw [List.mem_singleton.mp hb] at hp
  rw [List.mem_singleton.mp hb'] at hp'
  exact Except.ok.inj (hp.symm.trans hp')

namespace Ingest

variable {codec : Codec β} {batches : List RawSourceBatch} {lost : Set (String × EventKey)}
variable {s : Ingest β}

/-- **Whatever is done to the sealed store and the open blocks** beside ingest keeps the
invariant, if the journal is left and only events in `lost` are lost. -/
theorem Logged.replace (hs : s.Logged codec batches lost) {db : Db β}
    {openBlocks : OpenBlockManager} (hread : db.Readable codec)
    (hjournal : db.journal = s.db.journal)
    (hopen : ∀ r ∈ openBlocks.records, r ∈ s.openBlocks.records)
    (hloses : ∀ e, Loses codec s { s with db, openBlocks } e → e ∈ lost) :
    ({ s with db, openBlocks } : Ingest β).Logged codec batches lost := by
  have hlog : (({ s with db, openBlocks } : Ingest β).wal codec lost).log =
      (s.wal codec lost).log := by
    show {row | row ∈ db.journal.ingestJournal.rows} = _
    rw [hjournal]
    rfl
  -- for the log it is work of the running process, or happens while it is down
  have hwal : Wal.Step (rowEvents codec) (s.wal codec lost)
      (({ s with db, openBlocks } : Ingest β).wal codec lost) := by
    by_cases hup : s.task.running = true
    · exact .work hup hlog (stable_subset hloses) (reach_subset hup hloses fun r hr => .inl hr)
    · exact .crash hlog (stable_subset hloses) hup
  refine ⟨hread, ?_, hwal.safe hs.safe, ?_, ?_, ?_, ?_⟩
  · show db.journal.Settled
    rw [hjournal]
    exact hs.settled
  · exact fun hquiet r hr => hs.quiet hquiet r (hopen r hr)
  · intro hup row hrow
    exact hs.tracked hup row (hjournal ▸ hrow)
  · intro row hrow
    exact hs.authentic row (hjournal ▸ hrow)
  · intro batch hb
    obtain ⟨row, hkey, hrecords, hdurable⟩ := hs.durable batch hb
    exact ⟨row, hkey, hrecords, hwal.durable hs.safe hdurable⟩

/-- Starting the process changes neither the store nor what is open, unless it fails. -/
theorem Flow.restart_cases {s' : Ingest β} {nowMs : ℕ} (h : Flow codec s (.restart nowMs) s')
    (hdown : s.task = .down) :
    s'.db = s.db ∧ (s'.task.running = true → s'.openBlocks = s.openBlocks) := by
  cases h with
  | crash hdb hopen htask hreturned =>
    refine ⟨hdb, fun hup => ?_⟩
    rw [htask] at hup
    cases hup
  | accept batch payload nowMs initial committed haction => cases haction
  | append record sealed htodo happended hflight hdb hquiet hup => exact absurd hdown hup.1
  | take hidle =>
    rw [hidle] at hdown
    cases hdown
  | commit batches gone happended hflight htodo hopen hquiet hup => exact absurd hdown hup.1
  | turn hdb hopen hflight htodo hquiet hup => exact absurd hdown hup.1
  | retire x retirements haction htask =>
    rw [htask] at hdown
    cases hdown
  | restart pending nowMs htask hpending htask' hdb hopen hreturned =>
    exact ⟨hdb, fun _ => hopen⟩

end Ingest

namespace Node

variable {cfg : Settings β} {n : Node β} {e : String × EventKey}

/-- The batches that the `accept` actions of a run bring. -/
def acceptedBatches (actions : List NodeAction) : List RawSourceBatch :=
  actions.filterMap fun
    | .ingest (.accept batch _) => some batch
    | _ => none

/-- The step loses no copy of the event. -/
def HoldsOnTo (cfg : Settings β) (e : String × EventKey) (n : Node β) (a : NodeAction) : Prop :=
  ¬ Ingest.Loses cfg.codec n.ingest (n.apply cfg a).ingest e

instance (e : String × EventKey) (n : Node β) (a : NodeAction) : Decidable (HoldsOnTo cfg e n a) :=
  inferInstanceAs (Decidable (¬ _))

variable {batches : List RawSourceBatch} {lost : Set (String × EventKey)}

/-- **Every step of a node keeps the invariant**, if it loses only events in `lost`. -/
theorem logged_apply (hn : n.Sound cfg.codec) (hs : n.ingest.Logged cfg.codec batches lost)
    {a : NodeAction} (hbatch : ∀ batch nowMs, a = .ingest (.accept batch nowMs) → batch ∈ batches)
    (hcollision : NoCollision cfg.codec batches)
    (hloses : ∀ e, Ingest.Loses cfg.codec n.ingest (n.apply cfg a).ingest e → e ∈ lost) :
    (n.apply cfg a).ingest.Logged cfg.codec batches lost := by
  rcases change_apply hn a with heq | hchange
  · rw [heq]
    exact hs
  · generalize hnode : n.apply cfg a = n' at hchange hloses ⊢
    cases hchange with
    | ingest b haction hflow hcontrol =>
      refine hs.step hflow (fun batch nowMs hb => hbatch batch nowMs ?_) hcollision hloses
      rw [haction, hb]
    | start nowMs ignored db haction hdown hsync hflow =>
      have htask : n.ingest.task = .down := by
        by_contra hne
        exact Bool.false_ne_true (hdown.symm.trans (Task.running_iff.mpr hne))
      obtain ⟨hdb, hopen⟩ := hflow.restart_cases htask
      have hsynced := kept_sync hn hsync
      have hjournal : db.journal = n.ingest.db.journal :=
        (Db.syncBlockedChannels_eq_ok hsync).2.2.1
      -- blocking the ignored channels loses what the whole step loses
      have hblocked : (n.withStore db).ingest.Logged cfg.codec batches lost := by
        refine hs.replace hsynced.kept.readable hjournal (fun r hr => hr) fun e hl => ?_
        rcases hl with hsealed | ⟨hup, -⟩
        · refine hloses e (.inl ?_)
          rw [hdb]
          exact hsealed
        · exact absurd (hdown.symm.trans hup) Bool.false_ne_true
      refine hblocked.step hflow (fun batch nowMs hb => by cases hb) hcollision fun e hl => ?_
      rcases hl with ⟨hold, hnew⟩ | ⟨hup, ⟨⟨r, hr, -⟩, -⟩ | ⟨hold, hnew, -⟩⟩
      · rw [hdb] at hnew
        exact absurd hold hnew
      · rw [Task.inFlight, show (n.withStore db).ingest.task = .down from htask] at hr
        cases hr
      · rw [hopen hup] at hnew
        exact absurd hold hnew
    | store call haction hup hstore =>
      subst hstore
      obtain ⟨hkept, hjournal⟩ := kept_call hn call
      exact hs.replace hkept.readable hjournal (fun r hr => hr) hloses
    | control hingest =>
      rw [hingest]
      exact hs
    | purgeOpenBlocks channelLogin haction hup hingest =>
      rw [hingest] at hloses ⊢
      exact hs.replace hs.readable rfl
        (fun r hr => (OpenBlockManager.mem_records_takeBlock.mp hr).1) hloses

/-- **Every run keeps the invariant**, if its steps lose only events in `lost`. -/
theorem logged_foldl {actions : List NodeAction} (hn : n.Sound cfg.codec)
    (hs : n.ingest.Logged cfg.codec batches lost)
    (hbatch : ∀ batch nowMs, .ingest (.accept batch nowMs) ∈ actions → batch ∈ batches)
    (hcollision : NoCollision cfg.codec batches)
    (hsteps : Along (apply cfg) (fun n a => ∀ e, Ingest.Loses cfg.codec n.ingest
      (n.apply cfg a).ingest e → e ∈ lost) n actions) :
    (actions.foldl (apply cfg) n).ingest.Logged cfg.codec batches lost := by
  induction actions generalizing n with
  | nil => exact hs
  | cons a actions ih =>
    obtain ⟨ha, hsteps⟩ := hsteps
    refine ih (sound_apply hn a) (logged_apply hn hs (fun batch nowMs haction => ?_) hcollision ha)
      (fun batch nowMs hmem => hbatch batch nowMs (List.mem_cons_of_mem a hmem)) hsteps
    exact hbatch batch nowMs (haction ▸ List.mem_cons_self)

/-- **A running node holds the event of an accepted record**, or is about to append it
again, if no step has lost it. -/
theorem held_of_accepted {actions : List NodeAction}
    (hcollision : NoCollision cfg.codec (acceptedBatches actions)) {r : CanonicalRecord}
    (hsteps : Along (apply cfg) (HoldsOnTo cfg r.event) fresh actions)
    (hup : (run cfg actions).ingest.task.running = true) {batch : RawSourceBatch}
    (hbatch : batch ∈ (run cfg actions).ingest.returned) (hr : r ∈ batch.records) :
    Ingest.HasEvent ((run cfg actions).ingest.held cfg.codec) r.event ∨
      Ingest.HasEvent ((run cfg actions).ingest.task.todo cfg.codec) r.event := by
  have hlogged : (run cfg actions).ingest.Logged cfg.codec (acceptedBatches actions)
      {e | e ≠ r.event} := by
    refine logged_foldl (sound_fresh cfg.codec) Ingest.logged_fresh
      (fun batch nowMs hmem => List.mem_filterMap.mpr ⟨_, hmem, rfl⟩) hcollision ?_
    refine hsteps.mono (I := fun _ : Node β => True) (fun _ _ _ _ => trivial) ?_ trivial
    rintro n a - hholds e hl rfl
    exact hholds hl
  obtain ⟨row, -, hrecords, hdurable⟩ := hlogged.durable batch (.inl hbatch)
  have hmem : r.event ∈ Ingest.rowEvents cfg.codec row := ⟨r, hrecords ▸ hr, rfl⟩
  have hreach : r.event ∈
      ((run cfg actions).ingest.wal cfg.codec {e | e ≠ r.event}).reach := by
    rcases hdurable with hrow | hstable
    · exact hlogged.safe hup row hrow hmem
    · exact .inl (hstable hmem)
  exact (Ingest.mem_reach.mp hreach).resolve_left fun hne => hne rfl

end Node

end RecentMessages
