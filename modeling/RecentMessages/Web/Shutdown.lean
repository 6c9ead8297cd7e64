/-
RecentMessages/Web/Shutdown.lean

Graceful shutdown of ingest.

Every batch that was sent is in a queue, in the call that is accepting it, or accepted; and
from the loop on that drains a queue, nobody sends to that queue any more (`Stage`).  So
when `run` returns `Ok` all batches are accepted, and the last checkpoint, which retires
every stream that recovery or an acceptance has touched, leaves the journal empty.
-/
import RecentMessages.Storage.Durability
import RecentMessages.Storage.Runtime
import RecentMessages.Web.Node

namespace RecentMessages

variable {β : Type}

/-! ### The calls on ingest -/

namespace Ingest

variable {cfg : Settings β} {s s' : Ingest β} {a : IngestAction}

/-- The batches that are accepted, and the one that is being accepted. -/
def taken (s : Ingest β) : List RawSourceBatch := s.returned ++ s.task.accepting.toList

/-- Ingest knows how far it is in the journal, and has accepted more than `before`. -/
structure Ledgered (codec : Codec β) (before : List RawSourceBatch) (s : Ingest β) : Prop where
  kept : s.db.Kept codec
  settled : s.db.journal.Settled
  tracked : s.task.running = true →
    ∀ row ∈ s.db.journal.ingestJournal.rows, ∃ x ∈ s.ledger, Covers x row
  returned : before <+: s.returned

/-- A step only ever adds to the accepted batches. -/
theorem Flow.returned_prefix {codec : Codec β} (h : Flow codec s a s') :
    s.returned <+: s'.returned := by
  cases h with
  | turn hdb hopen hflight htodo hquiet hup haccepting hledger hreturned =>
    rcases hreturned with hsame | ⟨batch, -, hmore⟩
    · rw [hsame]
    · exact hmore ▸ List.prefix_append _ _
  | crash hdb hopen htask hreturned => rw [hreturned]
  | accept batch payload nowMs initial committed haction hidle hencode haccepted hdb hopen htask
      hledger hreturned => rw [hreturned]
  | append record sealed htodo happended hflight hdb hquiet hup haccepting hledger hreturned =>
    rw [hreturned]
  | take hidle hrecords htodo hquiet hdb hup haccepting hledger hreturned => rw [hreturned]
  | commit batches gone happended hflight htodo hopen hquiet hup haccepting hledger hreturned =>
    rw [hreturned]
  | retire x retirements haction htask htask' hdb hopen hoffsets hrows hreturned => rw [hreturned]
  | restart pending nowMs htask hpending htask' hdb hopen hreturned => rw [hreturned]

theorem Ledgered.step {before : List RawSourceBatch} (hs : s.Ledgered cfg.codec before)
    (h : s.step cfg a = some s') : s'.Ledgered cfg.codec before := by
  have hflow : Flow cfg.codec s a s' := step_flow hs.kept.readable hs.settled h
  exact ⟨Node.kept_flow hflow hs.kept, hflow.settled hs.settled, hflow.tracked hs.tracked,
    hs.returned.trans hflow.returned_prefix⟩

/-- A call of another task on the store leaves the journal alone. -/
theorem Ledgered.call {before : List RawSourceBatch} (hs : s.Ledgered cfg.codec before)
    (call : StoreCall) :
    { s with db := s.db.call cfg.codec cfg.store call }.Ledgered cfg.codec before := by
  obtain ⟨hkept, hjournal⟩ := Db.kept_call hs.kept call
  refine ⟨hkept, ?_, ?_, hs.returned⟩
  · show (s.db.call cfg.codec cfg.store call).journal.Settled
    rw [hjournal]
    exact hs.settled
  · show _ → ∀ row ∈ (s.db.call cfg.codec cfg.store call).journal.ingestJournal.rows, _
    rw [hjournal]
    exact hs.tracked

theorem taken_commit {t : Task β} {batches : List (List CanonicalRecord)}
    (ht : t.accepting = s.task.accepting) (hup : (s.commit cfg batches t).task.running = true) :
    (s.commit cfg batches t).taken = s.taken := by
  unfold commit at hup ⊢
  split at hup
  · cases hup
  · rw [taken, ht]
    rfl

theorem taken_openRecord {record : CanonicalRecord} {nowMs : ℕ}
    {t : List (List CanonicalRecord) → Task β} (ht : ∀ more, (t more).accepting = s.task.accepting)
    (hup : (s.openRecord cfg record nowMs t).task.running = true) :
    (s.openRecord cfg record nowMs t).taken = s.taken := by
  unfold openRecord at hup ⊢
  split at hup
  · cases hup
  · rw [taken, ht]
    rfl

/-- **A call that goes on drops no batch**, and takes no other. -/
theorem taken_advance (h : s.advance cfg = some s') (hup : s'.task.running = true) :
    s'.taken = s.taken := by
  unfold advance at h
  rcases htask : s.task with - | ⟨batch, rest, sealed, nowMs⟩ | sealed | sealed | retirements |
    ⟨pending, sealed, nowMs⟩ | ⟨batch, rest, pending, sealed, nowMs⟩ | - <;> rw [htask] at h
  case idle => cases h
  case down => cases h
  case materializing =>
    rcases rest with - | ⟨record, rest⟩
    · rcases sealed with - | ⟨v, sealed⟩ <;> cases h
      · -- the call returns
        simp [taken, finish, htask, Task.accepting]
      · exact taken_commit (by rw [htask]; rfl) hup
    · cases h
      exact taken_openRecord (fun _ => by rw [htask]; rfl) hup
  case sealing =>
    rcases sealed with - | ⟨v, sealed⟩ <;> cases h
    · rw [taken, taken, htask]
      rfl
    · exact taken_commit (by rw [htask]; rfl) hup
  case checkpointing =>
    rcases sealed with - | ⟨v, sealed⟩ <;> cases h
    exact taken_commit (by rw [htask]; rfl) hup
  case retiring =>
    rcases retirements with - | ⟨x, retirements⟩ <;> cases h
    · rw [taken, taken, htask]
      rfl
    · unfold retireStream at hup ⊢
      split at hup
      · cases hup
      · rw [taken, taken, htask]
        rfl
  case recovering =>
    rcases pending with - | ⟨batch, pending⟩
    · rcases sealed with - | ⟨v, sealed⟩ <;> cases h
      · rw [taken, taken, htask]
        rfl
      · exact taken_commit (by rw [htask]; rfl) hup
    · cases h
      have hcases : s.replay cfg batch pending sealed nowMs = s.crash ∨ ∃ records,
          s.replay cfg batch pending sealed nowMs =
            { s with task := .replaying batch records pending sealed nowMs } := by
        unfold replay
        split
        · exact .inl rfl
        · split
          · exact .inl rfl
          · exact .inr ⟨_, rfl⟩
      rcases hcases with hcrash | ⟨records, hreplay⟩
      · rw [hcrash] at hup
        cases hup
      · rw [hreplay, taken, taken, htask]
        rfl
  case replaying =>
    dsimp only at h
    split at h
    · cases h
      exact taken_commit (by rw [htask]; rfl) hup
    · rcases rest with - | ⟨record, rest⟩ <;> cases h
      · rw [taken, taken, htask]
        rfl
      · exact taken_openRecord (fun _ => by rw [htask]; rfl) hup

/-- A step takes a batch only by accepting it. -/
theorem taken_step (h : s.step cfg a = some s') (hup : s'.task.running = true)
    (ha : ∀ batch nowMs, a ≠ .accept batch nowMs) : s'.taken = s.taken := by
  cases a with
  | accept batch nowMs => exact absurd rfl (ha batch nowMs)
  | advance => exact taken_advance h hup
  | crash =>
    -- after a crash the process is not running
    cases h
    cases hup
  -- the other calls begin when none is running
  | sealDue nowMs order =>
    rcases htask : s.task <;> simp only [step, htask, reduceCtorEq] at h
    split at h <;> cases h
    rw [taken, taken, htask]
    rfl
  | checkpoint order =>
    rcases htask : s.task <;> simp only [step, htask, reduceCtorEq] at h
    split at h <;> cases h
    rw [taken, taken, htask]
    rfl
  | retire order =>
    simp only [step] at h
    split at h
    · rename_i htask
      split at h <;> cases h
      rw [taken, taken, htask]
      rfl
    · cases h
  | restart nowMs =>
    simp only [step] at h
    split at h
    · rename_i htask
      split at h <;> cases h
      rw [taken, taken, htask]
      rfl
    · cases h

/-- An acceptance takes its batch. -/
theorem taken_accept {batch : RawSourceBatch} {nowMs : ℕ}
    (h : s.step cfg (.accept batch nowMs) = some s') (hup : s'.task.running = true) :
    s'.taken = s.taken ++ [batch] := by
  simp only [step] at h
  split at h
  · rename_i htask
    have hcases : s.accept cfg batch nowMs = s' := Option.some.inj h
    unfold accept at hcases
    split at hcases
    · subst hcases
      cases hup
    · split at hcases <;> subst hcases
      · cases hup
      · simp [taken, htask, Task.accepting]
  · cases h

/-- **The last checkpoint**: nothing is opened, and it ends when all is retired. -/
theorem checkpoint_step (h : s.step cfg a = some s') (ha : a = .advance ∨ ∃ order, a = .retire order)
    (hquiet : s.task.quiet = true) (hup : s'.task.running = true) :
    s'.openBlocks = s.openBlocks ∧
      (s'.task.quiet = true ∨ (s.task = .retiring [] ∧ s'.task = .idle ∧ s'.db = s.db)) := by
  rcases ha with rfl | ⟨order, rfl⟩
  · change s.advance cfg = some s' at h
    unfold advance at h
    rcases htask : s.task with - | ⟨batch, rest, sealed, nowMs⟩ | sealed | sealed | retirements |
      ⟨pending, sealed, nowMs⟩ | ⟨batch, rest, pending, sealed, nowMs⟩ | - <;>
      rw [htask] at h hquiet
    case checkpointing =>
      -- the sealed vectors are committed; a commit that fails ends the process
      rcases sealed with - | ⟨v, sealed⟩ <;> cases h
      unfold commit at hup ⊢
      split at hup
      · cases hup
      · exact ⟨rfl, .inl rfl⟩
    case retiring =>
      -- the streams are retired one by one
      rcases retirements with - | ⟨x, retirements⟩ <;> cases h
      · exact ⟨rfl, .inr ⟨rfl, rfl, rfl⟩⟩
      · unfold retireStream at hup ⊢
        split at hup
        · cases hup
        · exact ⟨rfl, .inl rfl⟩
    all_goals cases hquiet
  · simp only [step] at h
    split at h
    · split at h <;> cases h
      exact ⟨rfl, .inl rfl⟩
    · cases h

end Ingest

namespace RawIngestRuntime

variable {env : RuntimeEnv β} {before : List RawSourceBatch} {s : RawIngestRuntime β}

/-- A run after any history of the node. -/
def run (env : RuntimeEnv β) (history : List NodeAction) (external : Bool)
    (actions : List RuntimeAction) : RawIngestRuntime β :=
  actions.foldl (step env) (start (Node.run env.settings history).ingest external)

/-! ### The stages of a run -/

/-- Nobody sends any more, and both queues are empty. -/
structure Drained (s : RawIngestRuntime β) : Prop where
  tasks : s.tasks = []
  input : s.input = []
  external : s.external = none ∨ (s.external = some [] ∧ s.externalSender = false)

/-- What holds in the loops of the shutdown and after them. -/
def Stage (s : RawIngestRuntime β) : Prop :=
  match s.phase with
  | .recovering => True
  | .looping => True
  | .joining => True
  | .emptying => s.tasks = []
  | .draining => s.tasks = [] ∧ s.input = []
  | .closing => s.Drained ∧ s.ingest.openBlocks.blocks.rows = [] ∧
      (s.ingest.task.quiet = true ∨
        (s.ingest.task = .idle ∧ s.ingest.db.journal.ingestJournal.rows = []))
  | .returned (.ok ()) => s.Drained ∧ s.ingest.openBlocks.blocks.rows = [] ∧
      s.ingest.task = .idle ∧ s.ingest.db.journal.ingestJournal.rows = []
  | .returned (.error _) => True

/-- The phases with source tasks, and the end with an error. -/
def RunPhase.early : RunPhase → Bool
  | .recovering => true
  | .looping => true
  | .joining => true
  | .returned (.error _) => true
  | _ => false

theorem stage_of_early (h : RunPhase.early s.phase = true) : s.Stage := by
  unfold Stage
  split <;> simp_all [RunPhase.early]

/-- Source tasks are left in these phases only. -/
theorem Stage.early (h : s.Stage) (htasks : s.tasks ≠ []) : RunPhase.early s.phase = true := by
  unfold Stage at h
  split at h
  case h_4 => exact absurd h htasks
  case h_5 => exact absurd h.1 htasks
  case h_6 => exact absurd h.1.tasks htasks
  case h_7 => exact absurd h.1.tasks htasks
  all_goals simp [RunPhase.early, *]

/-- A step beside `run` that adds nothing leaves it at its stage. -/
theorem Stage.keep (h : s.Stage) {s' : RawIngestRuntime β} (hphase : s'.phase = s.phase)
    (htasks : s'.tasks = s.tasks) (hinput : s'.input = s.input)
    (hexternal : s'.external = s.external)
    (hsender : s.externalSender = false → s'.externalSender = false)
    (hopen : s.ingest.openBlocks.blocks.rows = [] → s'.ingest.openBlocks.blocks.rows = [])
    (htask : s'.ingest.task = s.ingest.task)
    (hjournal : s'.ingest.db.journal = s.ingest.db.journal) : s'.Stage := by
  have hdrained : s.Drained → s'.Drained := fun hd =>
    ⟨htasks.trans hd.tasks, hinput.trans hd.input, by
      rw [hexternal]
      exact hd.external.imp_right fun h => ⟨h.1, hsender h.2⟩⟩
  unfold Stage at h ⊢
  rw [hphase]
  split at h
  case h_4 => exact htasks.trans h
  case h_5 => exact ⟨htasks.trans h.1, hinput.trans h.2⟩
  case h_6 =>
    rw [htask, hjournal]
    exact ⟨hdrained h.1, hopen h.2.1, h.2.2⟩
  case h_7 =>
    rw [htask, hjournal]
    exact ⟨hdrained h.1, hopen h.2.1, h.2.2⟩
  all_goals simp [*]

/-- A call on ingest matters to the last stages only. -/
theorem Stage.withIngest (h : s.Stage) (hclosing : s.phase ≠ .closing) (hstopped : ¬s.Stopped)
    (ingest : Ingest β) : { s with ingest }.Stage := by
  unfold Stage at h ⊢
  split at h
  case h_6 hphase => exact absurd hphase hclosing
  case h_7 hphase => exact absurd ⟨_, hphase⟩ hstopped
  all_goals simp [*]

/-- **What every step keeps**: ingest knows how far it is in the journal, and a batch that
was sent is in a queue or taken. -/
structure Orderly (env : RuntimeEnv β) (before : List RawSourceBatch) (s : RawIngestRuntime β) :
    Prop where
  ledgered : s.ingest.Ledgered env.settings.codec before
  accounted : (∀ e, s.phase ≠ .returned (.error e)) →
    (s.ingest.taken ++ (s.input ++ s.external.getD [])).Perm (before ++ s.sent)
  stage : s.Stage

theorem Orderly.failed (hs : s.ingest.Ledgered env.settings.codec before)
    (e : IngestRuntimeError) : (s.ret (.error e)).Orderly env before :=
  ⟨hs, fun h => absurd rfl (h e), trivial⟩

/-- **A step of ingest**, of which `haccounted` says what it takes. -/
theorem Orderly.callStep {a : IngestAction} (hs : s.ingest.Ledgered env.settings.codec before)
    (hnone : s.ingest.step env.settings a = none → s.Orderly env before)
    (haccounted : ∀ ingest, s.ingest.step env.settings a = some ingest →
      ingest.task.running = true →
        (∀ e, s.phase ≠ .returned (.error e)) →
          (ingest.taken ++ (s.input ++ s.external.getD [])).Perm (before ++ s.sent))
    (hstage : ∀ ingest, s.ingest.step env.settings a = some ingest →
      ingest.task.running = true → { s with ingest }.Stage) :
    (s.callStep env a).Orderly env before := by
  unfold RawIngestRuntime.callStep
  split
  · exact hnone ‹_›
  · rename_i ingest hstep
    split
    · rename_i hup
      exact ⟨hs.step hstep, haccounted ingest hstep hup, hstage ingest hstep hup⟩
    · exact .failed (hs.step hstep) _

/-- A step of ingest that accepts nothing. -/
theorem Orderly.work (hs : s.Orderly env before) {a : IngestAction}
    (ha : ∀ batch nowMs, a ≠ .accept batch nowMs)
    (hstage : ∀ ingest, s.ingest.step env.settings a = some ingest →
      ingest.task.running = true → { s with ingest }.Stage) :
    (s.callStep env a).Orderly env before := by
  refine .callStep hs.ledgered (fun _ => hs) (fun ingest hstep hup hphase => ?_) hstage
  rw [Ingest.taken_step hstep hup ha]
  exact hs.accounted hphase

/-- **Accepting a batch** that was taken from a queue. -/
theorem Orderly.accept {batch : RawSourceBatch} {nowMs : ℕ}
    (hs : s.ingest.Ledgered env.settings.codec before) (hidle : s.ingest.task = .idle)
    (haccounted : (∀ e, s.phase ≠ .returned (.error e)) →
      (s.ingest.taken ++ batch :: (s.input ++ s.external.getD [])).Perm (before ++ s.sent))
    (hstage : ∀ ingest : Ingest β, { s with ingest }.Stage) :
    (s.accept env batch nowMs).Orderly env before := by
  unfold RawIngestRuntime.accept
  split
  · refine .callStep hs (fun hnone => ?_) (fun ingest hstep hup hphase => ?_)
      fun ingest _ _ => hstage ingest
    · -- a call that is idle takes the batch
      simp [Ingest.step, hidle] at hnone
    · rw [Ingest.taken_accept hstep hup, List.append_assoc]
      exact haccounted hphase
  · exact .failed hs _

/-- A move that leaves ingest, the queues and the history alone. -/
theorem Orderly.turn (hs : s.Orderly env before) {s' : RawIngestRuntime β}
    (hingest : s'.ingest = s.ingest) (hinput : s'.input = s.input)
    (hexternal : s'.external = s.external) (hsent : s'.sent = s.sent)
    (hphase : ∀ e, s.phase = .returned (.error e) → s'.phase = .returned (.error e))
    (hstage : s'.Stage) : s'.Orderly env before := by
  refine ⟨hingest ▸ hs.ledgered, fun h => ?_, hstage⟩
  rw [hingest, hinput, hexternal, hsent]
  exact hs.accounted fun e he => h e (hphase e he)

/-! ### The moves of `run` -/

variable (hs : s.Orderly env before) (hidle : s.ingest.task = .idle)

include hs hidle

theorem Orderly.receive (nowMs : ℕ) : (s.receive env nowMs).Orderly env before := by
  unfold RawIngestRuntime.receive
  split
  -- a batch of the sources, in the main loop
  · rename_i batch input hphase hinput
    split
    · refine .accept hs.ledgered hidle (fun h => ?_) fun ingest => stage_of_early ?_
      · have hperm := hs.accounted h
        rw [hinput] at hperm
        exact hperm
      · simp [hphase, RunPhase.early]
    · exact hs
  -- their queue is closed: without external senders that is an error
  · rename_i hphase hinput
    split
    · split
      · refine hs.turn rfl rfl rfl rfl (fun e h => h) (stage_of_early ?_)
        simp [hphase, RunPhase.early]
      · exact .failed hs.ledgered _
    · exact hs
  -- the shutdown takes batches while it joins the sources
  · rename_i batch input hphase hinput
    split
    · exact hs
    · refine .accept hs.ledgered hidle (fun h => ?_) fun ingest => stage_of_early ?_
      · have hperm := hs.accounted h
        rw [hinput] at hperm
        exact hperm
      · simp [hphase, RunPhase.early]
  -- and afterwards what is left of them
  · rename_i batch input hphase hinput
    refine .accept hs.ledgered hidle (fun h => ?_) fun ingest => ?_
    · have hperm := hs.accounted h
      rw [hinput] at hperm
      exact hperm
    · have hstage := hs.stage
      simp only [Stage, hphase] at hstage ⊢
      exact hstage
  · exact hs

theorem Orderly.receiveExternal (nowMs : ℕ) :
    (s.receiveExternal env nowMs).Orderly env before := by
  -- the batch comes from the other queue, which is counted as well
  have hmove : ∀ (batch : RawSourceBatch) (external : List RawSourceBatch),
      s.external = some (batch :: external) → (∀ e, s.phase ≠ .returned (.error e)) →
        (s.ingest.taken ++ batch :: (s.input ++ external)).Perm (before ++ s.sent) := by
    intro batch external hexternal hphase
    have hperm := hs.accounted hphase
    rw [hexternal] at hperm
    exact (List.perm_middle.symm.append_left s.ingest.taken).trans hperm
  unfold RawIngestRuntime.receiveExternal
  split
  -- the main loop
  · rename_i batch external hphase hexternal
    split
    · refine .accept hs.ledgered hidle (hmove batch external hexternal)
        fun ingest => stage_of_early ?_
      simp [hphase, RunPhase.early]
    · exact hs
  -- the last external sender is gone
  · rename_i hphase hexternal
    split
    · split
      · refine hs.turn rfl rfl rfl rfl (fun e h => h) (stage_of_early ?_)
        simp [hphase, RunPhase.early]
      · refine .failed ?_ _
        exact hs.ledgered
    · exact hs
  -- the last loop of the shutdown
  · rename_i batch external hphase hexternal
    refine .accept hs.ledgered hidle (hmove batch external hexternal) fun ingest => ?_
    have hstage := hs.stage
    simp only [Stage, hphase] at hstage ⊢
    exact hstage
  · exact hs

omit hidle in
theorem Orderly.join (source : ℕ) (hphase : s.phase = .looping ∨ s.phase = .joining) :
    (s.join source).Orderly env before := by
  unfold RawIngestRuntime.join
  split
  · split
    · refine hs.turn rfl rfl rfl rfl (fun e h => h) (stage_of_early ?_)
      rcases hphase with hphase | hphase <;> simp [hphase, RunPhase.early]
    · refine .failed ?_ _
      exact hs.ledgered
  · exact hs

/-- **The ends of the loops**: each of them empties what the next one relies on. -/
theorem Orderly.leave (order : List String) : (s.leave env order).Orderly env before := by
  have hstage := hs.stage
  unfold RawIngestRuntime.leave
  split
  -- the last source task is joined
  -- then their queue is empty
  · rename_i hphase
    split
    · rename_i htasks
      exact hs.turn rfl rfl rfl rfl (by simp [hphase]) htasks
    · exact hs
  -- then the external queue is, which nobody can send to any more
  · rename_i hphase
    simp only [Stage, hphase] at hstage
    split
    · rename_i hinput
      exact hs.turn rfl rfl rfl rfl (by simp [hphase]) ⟨hstage, hinput⟩
    · exact hs
  · rename_i hphase
    simp only [Stage, hphase] at hstage
    split
    · rename_i hexternal
      split
      · exact hs
      · rename_i ingest hstep
        have hledgered := hs.ledgered.step hstep
        simp only [Ingest.step, hidle] at hstep
        split at hstep
        · rename_i horder
          cases hstep
          refine ⟨hledgered, fun _ => ?_, ⟨hstage.1, hstage.2, hexternal⟩,
            OpenBlockManager.rows_sealAll horder, .inl rfl⟩
          have hperm := hs.accounted (by simp [hphase])
          rw [Ingest.taken, hidle] at hperm
          exact hperm
        · cases hstep
    · exact hs
  · exact hs

/-- **A move of `run`** keeps the order. -/
theorem Orderly.move (a : RuntimeAction) : (s.move env a).Orderly env before := by
  cases a with
  | spawn =>
    -- the sources start once the journal is recovered
    show (if _ then _ else _ : RawIngestRuntime β).Orderly env before
    split
    · rename_i hphase
      exact hs.turn rfl rfl rfl rfl (by simp [hphase]) trivial
    · exact hs
  | receive nowMs => exact hs.receive hidle nowMs
  | receiveExternal nowMs => exact hs.receiveExternal hidle nowMs
  | join source =>
    -- a source that ends is joined in two of the loops
    show (if _ then _ else _ : RawIngestRuntime β).Orderly env before
    split
    · rename_i hphase
      exact hs.join source hphase
    · exact hs
  | sealDue nowMs order =>
    -- the timers fire in the main loop only
    show (if _ then _ else _ : RawIngestRuntime β).Orderly env before
    split
    · rename_i hphase
      refine hs.work nofun fun ingest _ _ => stage_of_early ?_
      simp [hphase, RunPhase.early]
    · exact hs
  | checkpoint order =>
    show (if _ then _ else _ : RawIngestRuntime β).Orderly env before
    split
    · rename_i hphase
      refine hs.work nofun fun ingest _ _ => stage_of_early ?_
      simp [hphase, RunPhase.early]
    · exact hs
  | stop =>
    -- the shutdown begins, with no promise yet
    show (if _ then _ else _ : RawIngestRuntime β).Orderly env before
    split
    · rename_i hphase
      exact hs.turn rfl rfl rfl rfl (by simp [hphase]) trivial
    · exact hs
  | leave order => exact hs.leave hidle order
  | finish =>
    -- the last checkpoint is over, and every accepted batch is settled
    show (if _ then _ else _ : RawIngestRuntime β).Orderly env before
    split
    · rename_i hphase
      have hstage := hs.stage
      simp only [Stage, hphase] at hstage
      obtain ⟨hdrained, hopen, hquiet | ⟨-, hrows⟩⟩ := hstage
      · rw [hidle] at hquiet
        cases hquiet
      · obtain ⟨htasks, hinput, hexternal⟩ := hdrained
        exact hs.turn rfl rfl rfl rfl (by simp [hphase])
          ⟨⟨htasks, hinput, hexternal⟩, hopen, hidle, hrows⟩
    · exact hs
  | _ => exact hs

omit hidle

/-! ### The steps of a run -/

/-- **The running call goes on**, the last checkpoint included. -/
theorem Orderly.advance (hrunning : ¬s.Stopped) {a : IngestAction}
    (ha : a = .advance ∨ ∃ order, a = .retire order) : (s.callStep env a).Orderly env before := by
  have haccept : ∀ batch nowMs, a ≠ .accept batch nowMs := by
    rintro batch nowMs rfl
    rcases ha with ha | ⟨order, ha⟩ <;> cases ha
  refine hs.work haccept fun ingest hstep hup => ?_
  by_cases hphase : s.phase = .closing
  · have hstage := hs.stage
    simp only [Stage, hphase] at hstage ⊢
    obtain ⟨⟨htasks, hinput, hexternal⟩, hopen, hquiet | ⟨hidle, hrows⟩⟩ := hstage
    · obtain ⟨hsame, hnext⟩ := Ingest.checkpoint_step hstep ha hquiet hup
      refine ⟨⟨htasks, hinput, hexternal⟩, by rw [hsame]; exact hopen, hnext.imp_right ?_⟩
      rintro ⟨htask, hidle, hdb⟩
      refine ⟨hidle, ?_⟩
      -- no retirement is left, so no row is
      rw [hdb]
      refine List.eq_nil_iff_forall_not_mem.mpr fun row hrow => ?_
      obtain ⟨x, hx, -⟩ := hs.ledgered.tracked (by rw [htask]; rfl) row hrow
      rw [Ingest.ledger, htask] at hx
      cases hx
    · -- the call has ended
      rcases ha with rfl | ⟨order, rfl⟩ <;> simp [Ingest.step, Ingest.advance, hidle] at hstep
  · exact hs.stage.withIngest hphase hrunning ingest

/-- A send adds to a queue. -/
theorem Orderly.send (source : ℕ) (batch : RawSourceBatch) :
    (s.step env (.send source batch)).Orderly env before := by
  show (if _ then _ else _ : RawIngestRuntime β).Orderly env before
  split
  · rename_i hsend
    have hearly : RunPhase.early s.phase = true := by
      refine hs.stage.early ?_
      rintro hnil
      simp [hnil] at hsend
    refine ⟨hs.ledgered, fun h => ?_, stage_of_early hearly⟩
    show (s.ingest.taken ++ (s.input ++ [batch] ++ s.external.getD [])).Perm
      (before ++ (s.sent ++ [batch]))
    rw [← List.append_assoc before, List.append_assoc s.input]
    have hend : (s.ingest.taken ++ (s.input ++ ([batch] ++ s.external.getD []))).Perm
        (s.ingest.taken ++ (s.input ++ s.external.getD []) ++ [batch]) := by
      rw [List.append_assoc, List.append_assoc]
      exact (List.perm_append_comm.append_left s.input).append_left s.ingest.taken
    exact hend.trans ((hs.accounted h).append_right [batch])
  · exact hs

theorem Orderly.sendExternal (batch : RawSourceBatch) :
    (s.step env (.sendExternal batch)).Orderly env before := by
  simp only [RawIngestRuntime.step]
  split
  · rename_i external hexternal
    split
    · rename_i hsend
      refine ⟨hs.ledgered, fun h => ?_, ?_⟩
      · show (s.ingest.taken ++ (s.input ++ (external ++ [batch]))).Perm
          (before ++ (s.sent ++ [batch]))
        have hperm := (hs.accounted h).append_right [batch]
        rw [hexternal] at hperm
        simpa [List.append_assoc] using hperm
      · have hstage := hs.stage
        unfold Stage at hstage ⊢
        split at hstage
        case h_6 hphase =>
          rcases hstage.1.external with hnone | ⟨-, hdropped⟩
          · rw [hexternal] at hnone
            cases hnone
          · rw [hdropped] at hsend
            cases hsend.1
        case h_7 hphase => exact absurd ⟨_, hphase⟩ hsend.2.2
        all_goals simp [*]
    · exact hs
  · exact hs

/-- A step that changes the tasks, while there are some. -/
theorem Orderly.setTask {source : ℕ} {task : SourceTask} (htask : s.tasks[source]? = some task)
    (tasks : List SourceTask) : { s with tasks }.Orderly env before := by
  have hne : s.tasks ≠ [] := by
    intro hnil
    simp [hnil] at htask
  exact hs.turn rfl rfl rfl rfl (fun e h => h) (stage_of_early (hs.stage.early hne))

/-- A purge takes open blocks away. -/
theorem Orderly.purgeOpenBlocks (channelLogin : String) :
    (s.step env (.purgeOpenBlocks channelLogin)).Orderly env before := by
  refine ⟨⟨hs.ledgered.kept, hs.ledgered.settled, hs.ledgered.tracked, hs.ledgered.returned⟩,
    hs.accounted, hs.stage.keep rfl rfl rfl rfl (fun h => h) (fun hopen => ?_) rfl rfl⟩
  apply List.eq_nil_iff_forall_not_mem.mpr
  intro block hblock
  have hold := (OpenBlockManager.mem_blocks_takeBlock.mp hblock).1
  rw [hopen] at hold
  cases hold

/-- Recovery starts the ingest again, and takes nothing that it had not taken before. -/
theorem Orderly.recover (nowMs : ℕ) :
    (s.step env (.recover nowMs)).Orderly env before := by
  simp only [RawIngestRuntime.step]
  split
  · rename_i hphase
    split
    · exact .failed hs.ledgered _
    · rename_i ingest hstep
      refine ⟨hs.ledgered.step hstep, fun h => ?_, stage_of_early ?_⟩
      · have hup : ingest.task.running = true := by
          simp only [Ingest.step] at hstep
          split at hstep
          · split at hstep <;> cases hstep
            rfl
          · cases hstep
        show (ingest.taken ++ (s.input ++ s.external.getD [])).Perm (before ++ s.sent)
        rw [Ingest.taken_step hstep hup (by rintro batch now ⟨⟩)]
        exact hs.accounted h
      · simp [hphase.1, RunPhase.early]
  · exact hs

/-- **Every step keeps the order.** -/
theorem Orderly.step (a : RuntimeAction) : (s.step env a).Orderly env before := by
  have hmove : ∀ a, (s.moveIdle env a).Orderly env before := by
    intro a
    -- a move of `run` is possible only while no call is running
    obtain ⟨hidle, h⟩ | h := moveIdle_cases env s a <;> rw [h]
    · exact hs.move hidle a
    · exact hs
  cases a with
  | send source batch => exact hs.send source batch
  | sendExternal batch => exact hs.sendExternal batch
  -- what the source tasks do before they end
  | dropSender source =>
    simp only [RawIngestRuntime.step]
    split
    · exact hs.setTask ‹_› _
    · exact hs
  | endSource source result =>
    simp only [RawIngestRuntime.step]
    split
    · exact hs.setTask ‹_› _
    · exact hs
  | dropExternal =>
    exact hs.turn rfl rfl rfl rfl (fun e h => h)
      (hs.stage.keep rfl rfl rfl rfl (fun _ => rfl) (fun h => h) rfl rfl)
  | cancel =>
    exact hs.turn rfl rfl rfl rfl (fun e h => h)
      (hs.stage.keep rfl rfl rfl rfl (fun h => h) (fun h => h) rfl rfl)
  | store call =>
    -- the journal is not touched, so the batches in it stay
    exact ⟨hs.ledgered.call call, hs.accounted,
      hs.stage.keep rfl rfl rfl rfl (fun h => h) (fun h => h) rfl
        (Db.kept_call hs.ledgered.kept call).2⟩
  | purgeOpenBlocks channelLogin => exact hs.purgeOpenBlocks channelLogin
  | recover nowMs => exact hs.recover nowMs
  | work =>
    -- a call that is running goes on
    simp only [RawIngestRuntime.step]
    split
    · exact hs
    · exact hs.advance ‹_› (.inl rfl)
  | retire order =>
    simp only [RawIngestRuntime.step]
    split
    · exact hs
    · exact hs.advance ‹_› (.inr ⟨order, rfl⟩)
  | fail =>
    -- after an error of `run` nothing is promised but the journal
    simp only [RawIngestRuntime.step]
    split
    · exact hs
    · exact .failed hs.ledgered _
  -- from here on these are moves of `run` itself
  | spawn => exact hmove _
  | receive nowMs => exact hmove _
  | receiveExternal nowMs => exact hmove _
  | join source => exact hmove _
  | sealDue nowMs order => exact hmove _
  | checkpoint order => exact hmove _
  | stop => exact hmove _
  | leave order => exact hmove _
  | finish => exact hmove _

omit hs

theorem orderly_start {ingest : Ingest β} (hkept : ingest.db.Kept env.settings.codec)
    (hsettled : ingest.db.journal.Settled) (external : Bool) :
    (start ingest external).Orderly env ingest.returned := by
  refine ⟨⟨hkept, hsettled, nofun, List.prefix_rfl⟩, fun _ => ?_, trivial⟩
  cases external <;> simp [start, Ingest.taken, Ingest.crash, Task.accepting]

theorem orderly_run (env : RuntimeEnv β) (history : List NodeAction) (external : Bool)
    (actions : List RuntimeAction) :
    (run env history external actions).Orderly env (Node.run env.settings history).ingest.returned := by
  have hnode := Node.sound_run env.settings history
  exact List.foldlRecOn actions (step env) (orderly_start hnode.kept hnode.settled external)
    fun _ hs a _ => hs.step a

/-- **Graceful shutdown drains everything.**  If `run` returns `Ok`, then the batches it has
accepted are those whose send succeeded, each once, no block is open, and no batch of any
stream is pending in the journal. -/
theorem shutdown_drains (env : RuntimeEnv β) (history : List NodeAction) (external : Bool)
    (actions : List RuntimeAction)
    (hok : (run env history external actions).phase = .returned (.ok ())) :
    (∃ accepted,
      (run env history external actions).ingest.returned =
        (Node.run env.settings history).ingest.returned ++ accepted ∧
      accepted.Perm (run env history external actions).sent) ∧
    (run env history external actions).ingest.openBlocks.blocks.rows = [] ∧
    (run env history external actions).ingest.db.journal.pendingJournalBatches = .ok [] := by
  obtain ⟨hledgered, haccounted, hstage⟩ := orderly_run env history external actions
  simp only [Stage, hok] at hstage
  obtain ⟨⟨-, hinput, hexternal⟩, hopen, hidle, hrows⟩ := hstage
  refine ⟨?_, hopen, ?_⟩
  · obtain ⟨accepted, haccepted⟩ := hledgered.returned
    refine ⟨accepted, haccepted.symm, ?_⟩
    have hnone : (run env history external actions).external.getD [] = [] := by
      rcases hexternal with h | ⟨h, -⟩ <;> rw [h] <;> rfl
    have hperm := haccounted (by simp [hok])
    rw [Ingest.taken, hidle, hinput, hnone, ← haccepted] at hperm
    exact (List.perm_append_left_iff _).mp (by simpa [Task.accepting] using hperm)
  · rw [Journal.pendingJournalBatches, hrows]
    rfl

def sampleRuntime : RuntimeEnv Plain := ⟨Settings.plain, 1, 2, 2⟩

/-- A batch is journalled, and the process dies. -/
def sampleCrash : List NodeAction :=
  [.start 1 [], .ingest .advance, .ingest (.accept Ingest.firstBatch 2), .ingest .crash]

/-- The journal is recovered, a batch comes from the source while `run` is cancelled, and one
from outside after the source has ended. -/
def sampleShutdown : List RuntimeAction :=
  [.recover 10, .work, .work, .work, .work, .work, .spawn, .send 0 Ingest.secondBatch, .cancel,
    .stop, .receive 11, .work, .work, .work, .dropSender 0, .endSource 0 (.ok ()), .join 0,
    .leave [], .leave [], .sendExternal Ingest.firstBatch, .receiveExternal 12, .work, .work,
    .work, .dropExternal, .leave ["quiet"], .work, .retire [("irc", "a"), ("firehose", "b")],
    .work, .work, .work, .finish]

theorem shutdown_drains_sample :
    (∃ accepted,
      (run sampleRuntime sampleCrash true sampleShutdown).ingest.returned =
        (Node.run Settings.plain sampleCrash).ingest.returned ++ accepted ∧
      accepted.Perm [Ingest.secondBatch, Ingest.firstBatch]) ∧
    (run sampleRuntime sampleCrash true sampleShutdown).ingest.openBlocks.blocks.rows = [] ∧
    (run sampleRuntime sampleCrash true
      sampleShutdown).ingest.db.journal.pendingJournalBatches = .ok [] :=
  shutdown_drains sampleRuntime sampleCrash true sampleShutdown (by decide +kernel)

end RawIngestRuntime

end RecentMessages
