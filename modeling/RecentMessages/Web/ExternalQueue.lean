/-
RecentMessages/Web/ExternalQueue.lean

The external queue of the ingest runtime, as its sender sees it.

A batch that was sent is in the queue, then in the call that accepts it, and then it is
accepted (`Handles.pending`); it is lost only where the runtime stops.  `handles_step` says
once what each step of the runtime can do to ingest and to the queue.
-/
import RecentMessages.Web.Shutdown

namespace RecentMessages

variable {β : Type}

namespace RawIngestRuntime

variable {env : RuntimeEnv β} {before : List RawSourceBatch} {s s' : RawIngestRuntime β}

/-- The batches that are in the external queue, or being accepted. -/
def pending (s : RawIngestRuntime β) : List RawSourceBatch :=
  s.ingest.task.accepting.toList ++ s.external.getD []

/-- **What a step of the runtime can do** to ingest and to the external queue. -/
inductive Handles (env : RuntimeEnv β) (s s' : RawIngestRuntime β) : Prop
  | rest (hexternal : s'.external = s.external) (htask : s'.ingest.task = s.ingest.task)
      (hreturned : s'.ingest.returned = s.ingest.returned)
  | call (a : IngestAction) (ha : ∀ batch nowMs, a ≠ .accept batch nowMs)
      (hexternal : s'.external = s.external)
      (hstep : s.ingest.step env.settings a = some s'.ingest)
      (hup : ¬s'.Stopped → s'.ingest.task.running = true)
  | accept (batch : RawSourceBatch) (nowMs : ℕ)
      (hexternal : s'.external = s.external ∨
        ∃ external, s.external = some (batch :: external) ∧ s'.external = some external)
      (hidle : s.ingest.task = .idle)
      (hstep : s.ingest.step env.settings (.accept batch nowMs) = some s'.ingest)
      (hup : ¬s'.Stopped → s'.ingest.task.running = true)
  | stop (hstopped : s'.Stopped) (hreturned : s'.ingest.returned = s.ingest.returned)

theorem Handles.refl : Handles env s s := .rest rfl rfl rfl

theorem handles_callStep {a : IngestAction} (ha : ∀ batch nowMs, a ≠ .accept batch nowMs) :
    Handles env s (s.callStep env a) := by
  unfold RawIngestRuntime.callStep
  split
  · exact .refl
  · rename_i ingest hstep
    split
    · exact .call a ha rfl hstep fun _ => ‹_›
    · exact .call a ha rfl hstep fun hup => absurd ⟨_, rfl⟩ hup

/-- An acceptance, after its batch was taken from a queue. -/
theorem handles_accept {t : RawIngestRuntime β} {batch : RawSourceBatch} {nowMs : ℕ}
    (hingest : t.ingest = s.ingest) (hidle : s.ingest.task = .idle)
    (hexternal : t.external = s.external ∨
      ∃ external, s.external = some (batch :: external) ∧ t.external = some external) :
    Handles env s (t.accept env batch nowMs) := by
  unfold RawIngestRuntime.accept
  split
  · unfold RawIngestRuntime.callStep
    rw [hingest]
    split
    · rename_i hnone
      -- a call that is idle takes the batch
      simp [Ingest.step, hidle] at hnone
    · rename_i ingest hstep
      split
      · exact .accept batch nowMs hexternal hidle hstep fun _ => ‹_›
      · exact .accept batch nowMs hexternal hidle hstep fun hup => absurd ⟨_, rfl⟩ hup
  · exact .stop ⟨_, rfl⟩ (by rw [← hingest]; rfl)

theorem handles_receive (hidle : s.ingest.task = .idle) (nowMs : ℕ) :
    Handles env s (s.receive env nowMs) := by
  unfold RawIngestRuntime.receive
  split
  · split
    · exact handles_accept rfl hidle (.inl rfl)
    · exact .refl
  · split
    · split <;> exact .rest rfl rfl rfl
    · exact .refl
  · split
    · exact .refl
    · exact handles_accept rfl hidle (.inl rfl)
  · exact handles_accept rfl hidle (.inl rfl)
  · exact .refl

theorem handles_receiveExternal (hidle : s.ingest.task = .idle) (nowMs : ℕ) :
    Handles env s (s.receiveExternal env nowMs) := by
  unfold RawIngestRuntime.receiveExternal
  split
  · rename_i batch external hphase hexternal
    split
    · exact handles_accept rfl hidle (.inr ⟨external, hexternal, rfl⟩)
    · exact .refl
  · split
    · split <;> exact .rest rfl rfl rfl
    · exact .refl
  · rename_i batch external hphase hexternal
    exact handles_accept rfl hidle (.inr ⟨external, hexternal, rfl⟩)
  · exact .refl

theorem handles_join (source : ℕ) : Handles env s (s.join source) := by
  unfold RawIngestRuntime.join
  split
  · split <;> exact .rest rfl rfl rfl
  · exact .refl

theorem handles_leave (hidle : s.ingest.task = .idle) (order : List String) :
    Handles env s (s.leave env order) := by
  unfold RawIngestRuntime.leave
  split
  · split <;> exact .rest rfl rfl rfl
  · split <;> exact .rest rfl rfl rfl
  · split
    · split
      · exact .refl
      · rename_i ingest hstep
        refine .call (.checkpoint order) nofun rfl hstep fun _ => ?_
        simp only [Ingest.step, hidle] at hstep
        split at hstep <;> cases hstep
        rfl
    · exact .refl
  · exact .refl

/-- A step that is taken under a condition. -/
theorem handles_ite {p : Prop} [Decidable p] {t t' : RawIngestRuntime β} (ht : Handles env s t)
    (ht' : Handles env s t') : Handles env s (if p then t else t') := by
  split
  · exact ht
  · exact ht'

theorem handles_move (hidle : s.ingest.task = .idle) (a : RuntimeAction) :
    Handles env s (s.move env a) := by
  cases a with
  | spawn => exact handles_ite (.rest rfl rfl rfl) .refl
  | receive nowMs => exact handles_receive hidle nowMs
  | receiveExternal nowMs => exact handles_receiveExternal hidle nowMs
  | join source => exact handles_ite (handles_join source) .refl
  | sealDue nowMs order => exact handles_ite (handles_callStep nofun) .refl
  | checkpoint order => exact handles_ite (handles_callStep nofun) .refl
  | stop => exact handles_ite (.rest rfl rfl rfl) .refl
  | leave order => exact handles_leave hidle order
  | finish => exact handles_ite (.rest rfl rfl rfl) .refl
  | _ => exact .refl

/-- **Every step** but a send into the external queue. -/
theorem handles_step (env : RuntimeEnv β) (s : RawIngestRuntime β) (a : RuntimeAction)
    (ha : ∀ batch, a ≠ .sendExternal batch) :
    Handles env s (s.step env a) := by
  have hmove : ∀ a, Handles env s (s.moveIdle env a) := by
    intro a
    -- a move of `run` is possible only while no call is running
    obtain ⟨hidle, h⟩ | h := RawIngestRuntime.moveIdle_cases env s a <;> rw [h]
    · exact handles_move hidle a
    · exact .refl
  cases a with
  | sendExternal batch => exact absurd rfl (ha batch)
  | send source batch => exact handles_ite (.rest rfl rfl rfl) .refl
  | dropSender source => exact handles_ite (.rest rfl rfl rfl) .refl
  | endSource source result => exact handles_ite (.rest rfl rfl rfl) .refl
  | dropExternal => exact .rest rfl rfl rfl
  | cancel => exact .rest rfl rfl rfl
  | store call => exact .rest rfl rfl rfl
  | purgeOpenBlocks channelLogin => exact .rest rfl rfl rfl
  | recover nowMs =>
    -- recovery replays the journal; the queue waits
    refine handles_ite ?_ .refl
    split
    · exact .rest rfl rfl rfl
    · rename_i ingest hstep
      refine .call (.restart nowMs) (by rintro batch now ⟨⟩) rfl hstep fun _ => ?_
      simp only [Ingest.step] at hstep
      split at hstep
      · split at hstep <;> cases hstep
        rfl
      · cases hstep
  | work => exact handles_ite .refl (handles_callStep (by rintro batch now ⟨⟩))
  | retire order => exact handles_ite .refl (handles_callStep (by rintro batch now ⟨⟩))
  | fail => exact handles_ite .refl (.rest rfl rfl rfl)
  | spawn => exact hmove _
  | receive nowMs => exact hmove _
  | receiveExternal nowMs => exact hmove _
  | join source => exact hmove _
  | sealDue nowMs order => exact hmove _
  | checkpoint order => exact hmove _
  | stop => exact hmove _
  | leave order => exact hmove _
  | finish => exact hmove _

/-- An accepted batch stays accepted. -/
theorem Handles.returned (h : Handles env s s') (hs : s.Orderly env before) :
    s.ingest.returned <+: s'.ingest.returned := by
  have hflow : ∀ a, s.ingest.step env.settings a = some s'.ingest →
      s.ingest.returned <+: s'.ingest.returned := by
    intro a hstep
    have hflow := Ingest.step_flow hs.ledgered.kept.readable hs.ledgered.settled hstep
    exact hflow.returned_prefix
  cases h with
  | rest hexternal htask hreturned => rw [hreturned]
  | call a ha hexternal hstep hup => exact hflow a hstep
  | accept batch nowMs hexternal hidle hstep hup => exact hflow _ hstep
  | stop hstopped hreturned => rw [hreturned]

/-- **A batch is not lost while the runtime is up**: it stays in the queue, is being
accepted, or is accepted. -/
theorem Handles.pending (h : Handles env s s') (hup : ¬s'.Stopped) {batch : RawSourceBatch}
    (hbatch : batch ∈ s.pending) : batch ∈ s'.pending ∨ batch ∈ s'.ingest.returned := by
  have htaken : ∀ taken, s'.ingest.taken = taken → batch ∈ taken →
      batch ∈ s'.pending ∨ batch ∈ s'.ingest.returned := by
    intro taken htaken hmem
    rw [← htaken] at hmem
    rcases List.mem_append.mp hmem with hreturned | haccepting
    · exact .inr hreturned
    · exact .inl (List.mem_append_left _ haccepting)
  rcases List.mem_append.mp hbatch with haccepting | hqueued
  · have hold : batch ∈ s.ingest.taken := List.mem_append_right _ haccepting
    cases h with
    | rest hexternal htask hreturned =>
      exact htaken _ (by rw [Ingest.taken, htask, hreturned]; rfl) hold
    | call a ha hexternal hstep hrunning =>
      exact htaken _ (Ingest.taken_step hstep (hrunning hup) ha) hold
    | accept more nowMs hexternal hidle hstep hrunning =>
      exact htaken _ (Ingest.taken_accept hstep (hrunning hup)) (List.mem_append_left _ hold)
    | stop hstopped hreturned => exact absurd hstopped hup
  · have hkeep : s'.external = s.external → batch ∈ s'.pending := by
      intro hexternal
      apply List.mem_append_right
      rw [hexternal]
      exact hqueued
    cases h with
    | rest hexternal htask hreturned => exact .inl (hkeep hexternal)
    | call a ha hexternal hstep hrunning => exact .inl (hkeep hexternal)
    | accept more nowMs hexternal hidle hstep hrunning =>
      rcases hexternal with hsame | ⟨external, hold, hnew⟩
      · exact .inl (hkeep hsame)
      · rw [hold] at hqueued
        rcases List.mem_cons.mp hqueued with rfl | hmore
        · -- the batch at the head is the one that is taken
          exact htaken _ (Ingest.taken_accept hstep (hrunning hup)) (by simp)
        · refine .inl (List.mem_append_right _ ?_)
          rw [hnew]
          exact hmore
    | stop hstopped hreturned => exact absurd hstopped hup

/-- A batch that there is room for is in the queue. -/
theorem pending_sendExternal (batch : RawSourceBatch) (hup : ¬s.Stopped)
    (hroom : (∃ external ∈ s.external, external.length < env.externalBatches) ∧
      s.externalSender = true) :
    (s.step env (.sendExternal batch)).pending = s.pending ++ [batch] ∧
      (s.step env (.sendExternal batch)).phase = s.phase ∧
      (s.step env (.sendExternal batch)).ingest = s.ingest := by
  obtain ⟨⟨external, hexternal, hlength⟩, hsender⟩ := hroom
  rw [Option.mem_def] at hexternal
  have hsend : s.step env (.sendExternal batch) =
      { s with external := some (external ++ [batch]), sent := s.sent ++ [batch] } := by
    simp [RawIngestRuntime.step, hexternal, hsender, hlength, hup]
  rw [hsend]
  refine ⟨?_, rfl, rfl⟩
  simp [RawIngestRuntime.pending, hexternal]

end RawIngestRuntime

end RecentMessages
