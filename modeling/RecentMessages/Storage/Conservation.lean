/-
RecentMessages/Storage/Conservation.lean

Where the records of a step come from, and what becomes of them.

Backwards, a record that is open, in flight or sealed after a step was one place
further up before it (`mem_openBlocks`, `mem_inFlight`, `mem_sealedRecords`).
Forwards, the event of a record that a node holds stays held while the process
runs; a step loses it only with an evicted block, or to the policy of its channel
when a vector is committed (`loses_cases`).
-/
import RecentMessages.Storage.Flow
import RecentMessages.Storage.Policy

namespace RecentMessages

open CanonicalRecord

variable {β : Type}

/-- The process is running. -/
def Task.running : Task β → Bool
  | .down => false
  | _ => true

theorem Task.running_iff {t : Task β} : t.running = true ↔ t ≠ .down := by
  cases t <;> simp [running]

namespace Ingest

/-- The records that are sealed, in flight or open. -/
def held (codec : Codec β) (s : Ingest β) : List CanonicalRecord :=
  s.db.sealedRecords codec ++ (s.task.inFlight ++ s.openBlocks.records)

/-- The events of a list of records include `e`. -/
def HasEvent (records : List CanonicalRecord) (e : String × EventKey) : Prop :=
  ∃ r ∈ records, r.event = e

instance (records : List CanonicalRecord) (e : String × EventKey) :
    Decidable (HasEvent records e) := inferInstanceAs (Decidable (∃ r ∈ records, r.event = e))

/-- A step that loses an event: it was sealed and is not; or, while the process goes
on, it was in flight and is neither in flight nor sealed, or it was open and is
neither open nor in flight. -/
def Loses (codec : Codec β) (s s' : Ingest β) (e : String × EventKey) : Prop :=
  (HasEvent (s.db.sealedRecords codec) e ∧ ¬ HasEvent (s'.db.sealedRecords codec) e) ∨
    (s'.task.running = true ∧
      (HasEvent s.task.inFlight e ∧ ¬ HasEvent s'.task.inFlight e ∧
          ¬ HasEvent (s'.db.sealedRecords codec) e ∨
        HasEvent s.openBlocks.records e ∧ ¬ HasEvent s'.openBlocks.records e ∧
          ¬ HasEvent s'.task.inFlight e))

instance (codec : Codec β) (s s' : Ingest β) (e : String × EventKey) :
    Decidable (Loses codec s s' e) := inferInstanceAs (Decidable (_ ∨ _))

variable {codec : Codec β} {s s' : Ingest β} {a : IngestAction} {r : CanonicalRecord}

theorem mem_held : r ∈ s.held codec ↔
    r ∈ s.db.sealedRecords codec ∨ r ∈ s.task.inFlight ∨ r ∈ s.openBlocks.records := by
  rw [held, List.mem_append, List.mem_append]

theorem hasEvent_held {e : String × EventKey} : HasEvent (s.held codec) e ↔
    HasEvent (s.db.sealedRecords codec) e ∨ HasEvent s.task.inFlight e ∨
      HasEvent s.openBlocks.records e := by
  simp only [HasEvent, mem_held, or_and_right, exists_or]

/-- **A running process that does not lose an event goes on holding it.** -/
theorem held_kept {e : String × EventKey} (hup : s'.task.running = true)
    (hl : ¬ Loses codec s s' e) (h : HasEvent (s.held codec) e) : HasEvent (s'.held codec) e := by
  by_contra hnot
  simp only [hasEvent_held, not_or] at h hnot
  obtain ⟨hsealed, hflight, hopen⟩ := hnot
  rcases h with h | h | h
  · exact hl (.inl ⟨h, hsealed⟩)
  · exact hl (.inr ⟨hup, .inl ⟨h, hflight, hsealed⟩⟩)
  · exact hl (.inr ⟨hup, .inr ⟨h, hopen, hflight⟩⟩)

/-- **A record that is appended to the open blocks is held** when the step succeeds. -/
theorem held_of_next {cfg : Settings β} (h : s.task.next = some r)
    (hup : (s.apply cfg .advance).task.running = true) :
    HasEvent ((s.apply cfg .advance).held cfg.codec) r.event := by
  -- only two of the calls append records, and both go on with the blocks that are sealed
  have hstep : ∃ nowMs task, s.step cfg .advance = some (s.openRecord cfg r nowMs task) ∧
      ∀ sealed, (task sealed).inFlight = s.task.inFlight ++ sealed.flatten := by
    rcases htask : s.task with - | ⟨batch, rest, sealed, nowMs⟩ | sealed | sealed | retirements |
      ⟨pending, sealed, nowMs⟩ | ⟨batch, rest, pending, sealed, nowMs⟩ | - <;> rw [htask] at h
    case materializing =>
      rcases rest with - | ⟨first, rest⟩ <;> cases h
      refine ⟨nowMs, fun more => .materializing batch rest (sealed ++ more) nowMs, ?_, ?_⟩
      · show s.advance cfg = _
        rw [advance, htask]
      · exact fun more => List.flatten_append
    case replaying =>
      rcases rest with - | ⟨first, rest⟩
      · cases h
      · rw [Task.next] at h
        split at h <;> cases h
        rename_i hroom
        refine ⟨nowMs, fun more => .replaying batch rest pending (sealed ++ more) nowMs, ?_, ?_⟩
        · show s.advance cfg = _
          rw [advance, htask]
          exact if_neg hroom
        · exact fun more => List.flatten_append
    all_goals cases h
  obtain ⟨nowMs, task, hstep, htask⟩ := hstep
  rw [apply, hstep, Option.getD_some, openRecord] at hup ⊢
  -- a step that fails ends the process, against the hypothesis
  rcases happend : s.openBlocks.append cfg.limits r nowMs with e | ⟨sealed, openBlocks⟩
  · rw [happend] at hup
    cases hup
  -- a copy is open, or in a block that the append has sealed
  · obtain ⟨q, hevent, hq | hq⟩ := (OpenBlockManager.append_eq_ok happend).kept r (.inr rfl)
    · exact ⟨q, mem_held.mpr (.inr (.inr hq)), hevent⟩
    · refine ⟨q, mem_held.mpr (.inr (.inl ?_)), hevent⟩
      show q ∈ (task sealed).inFlight
      rw [htask]
      exact List.mem_append_right _ hq

namespace Flow

/-! ### Where records come from -/

/-- **An open record** was open, or has just been appended. -/
theorem mem_openBlocks (h : Flow codec s a s') (hr : r ∈ s'.openBlocks.records) :
    r ∈ s.openBlocks.records ∨ (a = .advance ∧ s.task.next = some r) := by
  cases h with
  | crash hdb hopen htask hreturned =>
    rw [hopen] at hr
    cases hr
  | accept batch payload nowMs initial committed haction hidle hencode haccepted hdb hopen htask
      hledger hreturned => exact .inl (hopen ▸ hr)
  | append record sealed htodo happended hflight hdb hquiet hup haccepting hledger hreturned
      haction hnext =>
    rcases happended.source r (.inl hr) with hr | rfl
    · exact .inl hr
    · exact .inr ⟨haction, hnext⟩
  | take hidle hrecords htodo hquiet hdb hup haccepting hledger hreturned =>
    exact .inl ((hrecords r).mpr (.inr hr))
  | commit batches gone happended hflight htodo hopen hquiet hup haccepting hledger hreturned =>
    exact .inl (hopen ▸ hr)
  | turn hdb hopen hflight htodo hquiet hup haccepting hledger hreturned =>
    exact .inl (hopen ▸ hr)
  | retire x retirements haction htask htask' hdb hopen hoffsets hrows hreturned =>
    exact .inl (hopen ▸ hr)
  | restart pending nowMs htask hpending htask' hdb hopen hreturned => exact .inl (hopen ▸ hr)

/-- **A record in flight** was in flight or open, or has just been appended. -/
theorem mem_inFlight (h : Flow codec s a s') (hr : r ∈ s'.task.inFlight) :
    r ∈ s.task.inFlight ∨ r ∈ s.openBlocks.records ∨ (a = .advance ∧ s.task.next = some r) := by
  cases h with
  | crash hdb hopen htask hreturned =>
    rw [htask] at hr
    cases hr
  | accept batch payload nowMs initial committed haction hidle hencode haccepted hdb hopen htask
      hledger hreturned =>
    rw [htask] at hr
    cases hr
  | append record sealed htodo happended hflight hdb hquiet hup haccepting hledger hreturned
      -- the blocks that an append seals hold open records and perhaps the new one
      haction hnext =>
    rw [hflight, List.mem_append] at hr
    rcases hr with hr | hr
    · exact .inl hr
    · rcases happended.source r (.inr hr) with hr | rfl
      · exact .inr (.inl hr)
      · exact .inr (.inr ⟨haction, hnext⟩)
  | take hidle hrecords htodo hquiet hdb hup haccepting hledger hreturned =>
    -- blocks are taken out of the open ones
    exact .inr (.inl ((hrecords r).mpr (.inl hr)))
  | commit batches gone happended hflight htodo hopen hquiet hup haccepting hledger hreturned =>
    -- what is not committed yet was in flight before
    exact .inl (hflight ▸ List.mem_append_right _ hr)
  | turn hdb hopen hflight htodo hquiet hup haccepting hledger hreturned =>
    exact .inl (hflight ▸ hr)
  | retire x retirements haction htask htask' hdb hopen hoffsets hrows hreturned =>
    rw [htask'] at hr
    cases hr
  | restart pending nowMs htask hpending htask' hdb hopen hreturned =>
    rw [htask'] at hr
    cases hr

/-- **A sealed record** was sealed, or was in flight and passes the policy. -/
theorem mem_sealedRecords (h : Flow codec s a s') (hr : r ∈ s'.db.sealedRecords codec) :
    r ∈ s.db.sealedRecords codec ∨ (r ∈ s.task.inFlight ∧ s.db.Passes r) := by
  rcases h.db_cases with hdb | ⟨batches, gone, happended, hflight, -⟩
  · rw [hdb] at hr
    exact .inl hr
  · rcases happended.source r hr with hr | ⟨hr, hpasses⟩
    · exact .inl hr
    · exact .inr ⟨hflight ▸ List.mem_append_left _ hr, hpasses⟩

/-- A record that a call will append was in its list before, or comes with an
accepted batch or from a journal row. -/
theorem mem_todo (h : Flow codec s a s') (hr : r ∈ s'.task.todo codec) :
    r ∈ s.task.todo codec ∨ (∃ batch nowMs, a = .accept batch nowMs ∧ r ∈ batch.records) ∨
      ∃ row ∈ s.db.journal.ingestJournal.rows, r ∈ payloadRecords codec row.payload := by
  cases h with
  | crash hdb hopen htask hreturned =>
    rw [htask] at hr
    cases hr
  | accept batch payload nowMs initial committed haction hidle hencode haccepted hdb hopen htask
      hledger hreturned =>
    rw [htask] at hr
    exact .inr (.inl ⟨batch, nowMs, haction, hr⟩)
  | append record sealed htodo happended hflight hdb hquiet hup haccepting hledger hreturned =>
    exact .inl (htodo ▸ List.mem_cons_of_mem record hr)
  | take hidle hrecords htodo hquiet hdb hup haccepting hledger hreturned =>
    rw [htodo] at hr
    cases hr
  | commit batches gone happended hflight htodo hopen hquiet hup haccepting hledger hreturned =>
    exact .inl (htodo ▸ hr)
  | turn hdb hopen hflight htodo hquiet hup haccepting hledger hreturned =>
    exact .inl (htodo ▸ hr)
  | retire x retirements haction htask htask' hdb hopen hoffsets hrows hreturned =>
    rw [htask'] at hr
    cases hr
  | restart pending nowMs htask hpending htask' hdb hopen hreturned =>
    rw [htask'] at hr
    obtain ⟨batch, hmem, hr⟩ := List.mem_flatMap.mp hr
    obtain ⟨row, hrow, hpayload⟩ := Journal.payload_of_pending hpending hmem
    exact .inr (.inr ⟨row, hrow, hpayload ▸ hr⟩)

/-! ### What becomes of them -/

/-- **While the process runs, an open event stays open or goes in flight.** -/
theorem openBlocks_kept (h : Flow codec s a s') (hup : s'.task.running = true)
    (hr : r ∈ s.openBlocks.records) :
    ∃ q, q.event = r.event ∧ (q ∈ s'.openBlocks.records ∨ q ∈ s'.task.inFlight) := by
  cases h with
  | crash hdb hopen htask hreturned =>
    rw [htask] at hup
    cases hup
  | accept batch payload nowMs initial committed haction hidle hencode haccepted hdb hopen htask
      hledger hreturned => exact ⟨r, rfl, .inl (hopen ▸ hr)⟩
  | append record sealed htodo happended hflight hdb hquiet hup haccepting hledger hreturned =>
    obtain ⟨q, hq, hmem⟩ := happended.kept r (.inl hr)
    refine ⟨q, hq, hmem.imp_right fun hmem => ?_⟩
    rw [hflight]
    exact List.mem_append_right _ hmem
  | take hidle hrecords htodo hquiet hdb hup haccepting hledger hreturned =>
    exact ⟨r, rfl, ((hrecords r).mp hr).symm⟩
  | commit batches gone happended hflight htodo hopen hquiet hup haccepting hledger hreturned =>
    exact ⟨r, rfl, .inl (hopen ▸ hr)⟩
  | turn hdb hopen hflight htodo hquiet hup haccepting hledger hreturned =>
    exact ⟨r, rfl, .inl (hopen ▸ hr)⟩
  | retire x retirements haction htask htask' hdb hopen hoffsets hrows hreturned =>
    exact ⟨r, rfl, .inl (hopen ▸ hr)⟩
  | restart pending nowMs htask hpending htask' hdb hopen hreturned =>
    exact ⟨r, rfl, .inl (hopen ▸ hr)⟩

/-- The event of a record to be appended stays so, or goes on to the open blocks. -/
theorem todo_kept (h : Flow codec s a s') (hup : s'.task.running = true)
    (hr : r ∈ s.task.todo codec) : r ∈ s'.task.todo codec ∨
      ∃ q, q.event = r.event ∧ (q ∈ s'.openBlocks.records ∨ q ∈ s'.task.inFlight) := by
  cases h with
  | crash hdb hopen htask hreturned =>
    rw [htask] at hup
    cases hup
  | accept batch payload nowMs initial committed haction hidle hencode haccepted hdb hopen htask
      hledger hreturned =>
    rw [hidle] at hr
    cases hr
  | append record sealed htodo happended hflight hdb hquiet hup haccepting hledger hreturned =>
    -- the record goes to the open blocks, and from there perhaps to the sealed vectors
    rw [htodo] at hr
    rcases List.mem_cons.mp hr with rfl | hr
    · obtain ⟨q, hq, hmem⟩ := happended.kept r (.inr rfl)
      refine .inr ⟨q, hq, hmem.imp_right fun hmem => ?_⟩
      rw [hflight]
      exact List.mem_append_right _ hmem
    · exact .inl hr
  | take hidle hrecords htodo hquiet hdb hup haccepting hledger hreturned =>
    rw [hidle] at hr
    cases hr
  | commit batches gone happended hflight htodo hopen hquiet hup haccepting hledger hreturned =>
    -- a commit is about the vectors, not about what is still to be appended
    exact .inl (htodo ▸ hr)
  | turn hdb hopen hflight htodo hquiet hup haccepting hledger hreturned =>
    exact .inl (htodo ▸ hr)
  | retire x retirements haction htask htask' hdb hopen hoffsets hrows hreturned =>
    rw [htask] at hr
    cases hr
  | restart pending nowMs htask hpending htask' hdb hopen hreturned =>
    rw [htask] at hr
    cases hr

/-- A sealed event stays sealed, unless its block is evicted. -/
theorem sealed_kept (h : Flow codec s a s') {gone : List (MessageBlock β)}
    (hgone : s'.db.evicted = s.db.evicted ++ gone) (hr : r ∈ s.db.sealedRecords codec) :
    ∃ q, q.event = r.event ∧
      (q ∈ s'.db.sealedRecords codec ∨ ∃ row ∈ gone, q ∈ row.records codec) := by
  rcases h.db_cases with hdb | ⟨batches, gone', happended, -, -⟩
  · exact ⟨r, rfl, .inl (by rw [hdb]; exact hr)⟩
  · obtain rfl := List.append_cancel_left (hgone.symm.trans happended.evicted)
    exact happended.kept r (.inl hr)

/-- An event in flight stays so or is sealed, unless its policy drops it or its
block is evicted at once. -/
theorem inFlight_kept (h : Flow codec s a s') (hup : s'.task.running = true)
    {gone : List (MessageBlock β)} (hgone : s'.db.evicted = s.db.evicted ++ gone)
    (hr : r ∈ s.task.inFlight) (hpasses : s.db.Passes r) :
    ∃ q, q.event = r.event ∧ (q ∈ s'.task.inFlight ∨ q ∈ s'.db.sealedRecords codec ∨
      ∃ row ∈ gone, q ∈ row.records codec) := by
  cases h with
  | crash hdb hopen htask hreturned =>
    -- a crash does not leave the process running
    rw [htask] at hup
    cases hup
  -- the calls begin with nothing in flight
  | accept batch payload nowMs initial committed haction hidle hencode haccepted hdb hopen htask
      hledger hreturned =>
    rw [hidle] at hr
    cases hr
  | append record sealed htodo happended hflight hdb hquiet hup haccepting hledger hreturned =>
    exact ⟨r, rfl, .inl (by rw [hflight]; exact List.mem_append_left _ hr)⟩
  | take hidle hrecords htodo hquiet hdb hup haccepting hledger hreturned =>
    rw [hidle] at hr
    cases hr
  | commit batches gone' happended hflight htodo hopen hquiet hup haccepting hledger hreturned =>
    -- what is committed is sealed, or evicted at once; the rest stays in flight
    obtain rfl := List.append_cancel_left (hgone.symm.trans happended.evicted)
    rw [hflight, List.mem_append] at hr
    rcases hr with hr | hr
    · obtain ⟨q, hq, hmem⟩ := happended.kept r (.inr ⟨hr, hpasses⟩)
      exact ⟨q, hq, .inr hmem⟩
    · exact ⟨r, rfl, .inl hr⟩
  | turn hdb hopen hflight htodo hquiet hup haccepting hledger hreturned =>
    exact ⟨r, rfl, .inl (hflight ▸ hr)⟩
  | retire x retirements haction htask htask' hdb hopen hoffsets hrows hreturned =>
    -- a checkpoint retires and a recovery begins with nothing in flight
    rw [htask] at hr
    cases hr
  | restart pending nowMs htask hpending htask' hdb hopen hreturned =>
    rw [htask] at hr
    cases hr

/-- **A step loses an event only with an evicted block, or to the policy** of its
channel when it is in flight. -/
theorem loses_cases (h : Flow codec s a s') {e : String × EventKey} (hl : Loses codec s s' e)
    {gone : List (MessageBlock β)} (hgone : s'.db.evicted = s.db.evicted ++ gone) :
    (∃ row ∈ gone, ∃ q ∈ row.records codec, q.event = e) ∨
      ∃ r ∈ s.task.inFlight, r.event = e ∧ ¬ s.db.Passes r := by
  rcases hl with ⟨⟨r, hr, rfl⟩, hnot⟩ | ⟨hup, ⟨⟨r, hr, rfl⟩, hnot, hnot'⟩ | ⟨⟨r, hr, rfl⟩, hnot, hnot'⟩⟩
  · obtain ⟨q, hq, hmem | ⟨row, hrow, hmem⟩⟩ := h.sealed_kept hgone hr
    · exact absurd ⟨q, hmem, hq⟩ hnot
    · exact .inl ⟨row, hrow, q, hmem, hq⟩
  · by_cases hpasses : s.db.Passes r
    · obtain ⟨q, hq, hmem | hmem | ⟨row, hrow, hmem⟩⟩ := h.inFlight_kept hup hgone hr hpasses
      · exact absurd ⟨q, hmem, hq⟩ hnot
      · exact absurd ⟨q, hmem, hq⟩ hnot'
      · exact .inl ⟨row, hrow, q, hmem, hq⟩
    · exact .inr ⟨r, hr, rfl, hpasses⟩
  · obtain ⟨q, hq, hmem | hmem⟩ := h.openBlocks_kept hup hr
    · exact absurd ⟨q, hmem, hq⟩ hnot
    · exact absurd ⟨q, hmem, hq⟩ hnot'

end Flow

end Ingest

end RecentMessages
