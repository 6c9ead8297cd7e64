/-
RecentMessages/Storage/Acknowledgement.lean

Runs of journal calls.  A run is any sequence of `accept_journal_batch` and
`retire_journal_through` calls on a new store; `JournalHistory` keeps, beside the
tables, the batches that were accepted on the way.

`JournalHistory.Sound` is the invariant: the tables are settled, every pending
row was accepted, and between its initial offset and its watermark a stream has
no number that was not accepted.  `sound_call` is the step, `sound_run` the run,
and `journal_acknowledgement_sound` the summary of what a caller can rely on.
-/
import RecentMessages.Storage.Journal

namespace RecentMessages

open Watermark

/-- A call on the journal. -/
inductive JournalCall (β : Type)
  | accept (sourceId streamId : String) (firstSequence lastSequence : ℕ) (checksum : Digest)
      (payload : β) (nowMs : ℕ)
  | retire (sourceId streamId : String) (processedThrough : ℕ)
  deriving DecidableEq, Repr

/-- A batch that `accept_journal_batch` returned `Ok` for. -/
structure Acceptance where
  sourceId : String
  streamId : String
  firstSequence : ℕ
  lastSequence : ℕ
  deriving DecidableEq, Repr

/-- `k` is one of the sequence numbers of an accepted batch of a stream. -/
def Acceptance.Covers (a : Acceptance) (sourceId streamId : String) (k : ℤ) : Prop :=
  a.sourceId = sourceId ∧ a.streamId = streamId ∧ (a.firstSequence : ℤ) ≤ k ∧
    k ≤ (a.lastSequence : ℤ)

/-- The tables, and the batches accepted so far, oldest first. -/
structure JournalHistory (β : Type) where
  journal : Journal β
  acceptances : List Acceptance

namespace JournalHistory

variable {β : Type}

/-- A new store. -/
def empty : JournalHistory β := ⟨Journal.empty, []⟩

/-- One call. -/
def call (h : JournalHistory β) : JournalCall β → JournalHistory β
  | .accept sourceId streamId first last checksum payload now =>
    match h.journal.acceptJournalBatch sourceId streamId first last checksum payload now with
    | (.ok _, j) => ⟨j, h.acceptances ++ [⟨sourceId, streamId, first, last⟩]⟩
    | (.error _, j) => ⟨j, h.acceptances⟩
  | .retire sourceId streamId through =>
    ⟨(h.journal.retireJournalThrough sourceId streamId through).2, h.acceptances⟩

/-- A run of calls on a new store. -/
def run (calls : List (JournalCall β)) : JournalHistory β := calls.foldl call empty

/-- The offset a stream started from: right before its first accepted batch. -/
def initialOffset (h : JournalHistory β) (sourceId streamId : String) : Option ℤ :=
  (h.acceptances.find? fun a => a.sourceId = sourceId ∧ a.streamId = streamId).map
    fun a => (a.firstSequence : ℤ) - 1

/-! ### The invariant -/

/-- What holds after every run. -/
structure Sound (h : JournalHistory β) : Prop where
  settled : h.journal.Settled
  recorded : ∀ row ∈ h.journal.ingestJournal.rows, ∃ a ∈ h.acceptances,
    a.sourceId = row.sourceId ∧ a.streamId = row.streamId ∧
      (a.firstSequence : ℤ) = row.firstSequence ∧ (a.lastSequence : ℤ) = row.lastSequence
  started : ∀ s t, h.initialOffset s t = none ↔ h.journal.offset s t = none
  start_le : ∀ s t i c, h.initialOffset s t = some i → h.journal.offset s t = some c → i ≤ c
  covered : ∀ s t i c, h.initialOffset s t = some i → h.journal.offset s t = some c →
    ∀ k, i < k → k ≤ c → ∃ a ∈ h.acceptances, a.Covers s t k

theorem sound_empty : (empty : JournalHistory β).Sound where
  settled := Journal.settled_empty
  recorded := by rintro row ⟨⟩
  started := fun s t => ⟨fun _ => rfl, fun _ => rfl⟩
  start_le := by rintro s t i c ⟨⟩
  covered := by rintro s t i c ⟨⟩

variable {h : JournalHistory β} {sourceId streamId : String} {first last now : ℕ}
  {checksum : Digest} {payload : β}

/-- In a settled store the conversion after the commit never fails, so a call
either returns the stored offset or leaves everything as it was. -/
theorem accept_cases (hj : h.journal.Settled) (sourceId streamId : String) (first last : ℕ)
    (checksum : Digest) (payload : β) (now : ℕ) :
    (∃ e, h.journal.acceptJournalBatch sourceId streamId first last checksum payload now =
        (.error e, h.journal)) ∨
      ∃ j' initial committed, Journal.Accepted h.journal j' sourceId streamId first last checksum
          payload now initial committed ∧
        h.journal.acceptJournalBatch sourceId streamId first last checksum payload now =
          (.ok committed.toNat, j') ∧ 0 ≤ committed := by
  rcases h.journal.acceptJournalBatch_cases sourceId streamId first last checksum payload now with
    hrolled | ⟨j', initial, committed, hacc, heq⟩
  · exact .inl hrolled
  · have hnonneg := (hacc.committed_bounds hj).1
    rw [tryToU64_of_nonneg hnonneg] at heq
    exact .inr ⟨j', initial, committed, hacc, heq, hnonneg⟩

theorem initialOffset_append {a : Acceptance} {j' : Journal β} (s t : String) :
    (JournalHistory.mk j' (h.acceptances ++ [a])).initialOffset s t =
      ((h.initialOffset s t).or
        (if a.sourceId = s ∧ a.streamId = t then some ((a.firstSequence : ℤ) - 1) else none)) := by
  unfold initialOffset
  rw [List.find?_append, Option.map_or]
  congr 1
  rw [List.find?_singleton]
  by_cases ha : a.sourceId = s ∧ a.streamId = t
  · simp [ha]
  · simp [ha]

section Accept

variable {j' : Journal β} {initial committed : ℤ}

/-- The pending rows after an acceptance were accepted. -/
theorem recorded_accept (hs : h.Sound)
    (hacc : Journal.Accepted h.journal j' sourceId streamId first last checksum payload now
      initial committed) :
    ∀ row ∈ j'.ingestJournal.rows, ∃ a ∈ h.acceptances ++ [⟨sourceId, streamId, first, last⟩],
      a.sourceId = row.sourceId ∧ a.streamId = row.streamId ∧
        (a.firstSequence : ℤ) = row.firstSequence ∧ (a.lastSequence : ℤ) = row.lastSequence := by
  intro row hrow
  rcases hacc.added row hrow with hold | rfl
  · obtain ⟨a, ha, hrow⟩ := hs.recorded row hold
    exact ⟨a, List.mem_append_left _ ha, hrow⟩
  · exact ⟨_, List.mem_append_right _ (List.mem_singleton.mpr rfl), rfl, rfl, rfl, rfl⟩

theorem initialOffset_accept_ne {s t : String} (hst : (s, t) ≠ (sourceId, streamId)) :
    (JournalHistory.mk j' (h.acceptances ++ [⟨sourceId, streamId, first, last⟩])).initialOffset s t
      = h.initialOffset s t := by
  have hne : ¬ (sourceId = s ∧ streamId = t) := fun ⟨h₁, h₂⟩ => hst (by rw [h₁, h₂])
  rw [initialOffset_append, if_neg hne, Option.or_none]

theorem initialOffset_accept_self :
    (JournalHistory.mk j' (h.acceptances ++ [⟨sourceId, streamId, first, last⟩])).initialOffset
        sourceId streamId =
      some ((h.initialOffset sourceId streamId).getD ((first : ℤ) - 1)) := by
  rw [initialOffset_append, if_pos ⟨rfl, rfl⟩]
  cases h.initialOffset sourceId streamId <;> rfl

/-- Where the walk of an acceptance begins. -/
theorem initial_accept (hs : h.Sound)
    (hacc : Journal.Accepted h.journal j' sourceId streamId first last checksum payload now
      initial committed) :
    initial = (h.journal.offset sourceId streamId).getD ((first : ℤ) - 1) ∧ -1 ≤ initial := by
  have hfirst := hacc.first_le
  have hlast := hacc.last_le
  have hsat : satSub (first : ℤ) 1 = (first : ℤ) - 1 := by
    rw [satSub_eq] <;> simp only [i64Min, i64Max] at hlast ⊢ <;> omega
  rw [hacc.initial_eq, hsat]
  refine ⟨rfl, ?_⟩
  rcases e : h.journal.offset sourceId streamId with - | c
  · rw [Option.getD_none]
    omega
  · have hc := (hs.settled.bounds _ _ c e).1
    rw [Option.getD_some]
    omega

/-- It does not begin before the stream did. -/
theorem initialOffset_le_initial (hs : h.Sound)
    (hacc : Journal.Accepted h.journal j' sourceId streamId first last checksum payload now
      initial committed) :
    (h.initialOffset sourceId streamId).getD ((first : ℤ) - 1) ≤ initial := by
  rw [(initial_accept hs hacc).1]
  rcases e : h.journal.offset sourceId streamId with - | c
  · rw [(hs.started _ _).mpr e]
  · rcases e' : h.initialOffset sourceId streamId with - | i
    · rw [(hs.started _ _).mp e'] at e
      cases e
    · exact hs.start_le _ _ i c e' e

/-- **What the walk covers was accepted**: below its start by an earlier call, and from there
on by the rows that it went over. -/
theorem covered_accept (hs : h.Sound)
    (hacc : Journal.Accepted h.journal j' sourceId streamId first last checksum payload now
      initial committed) {k : ℤ}
    (hik : (h.initialOffset sourceId streamId).getD ((first : ℤ) - 1) < k) (hkc : k ≤ committed) :
    ∃ a ∈ h.acceptances ++ [⟨sourceId, streamId, first, last⟩],
      a.Covers sourceId streamId k := by
  obtain ⟨hinitial, hge⟩ := initial_accept hs hacc
  by_cases hk : k ≤ initial
  · rcases e : h.journal.offset sourceId streamId with - | c'
    · -- a new stream begins where the walk does
      rw [(hs.started sourceId streamId).mpr e, Option.getD_none] at hik
      rw [e, Option.getD_none] at hinitial
      omega
    · rcases e' : h.initialOffset sourceId streamId with - | i'
      · rw [(hs.started sourceId streamId).mp e'] at e
        cases e
      · rw [e', Option.getD_some] at hik
        rw [e, Option.getD_some] at hinitial
        obtain ⟨a, ha, hcov⟩ := hs.covered sourceId streamId i' c' e' e k hik (hinitial ▸ hk)
        exact ⟨a, List.mem_append_left _ ha, hcov⟩
  · obtain ⟨a, b, hwa, hab, hak, hkb⟩ := hacc.reaches.cover (not_le.mp hk) hkc
    obtain ⟨row, hrow, hkey, rfl⟩ := Journal.next_eq_some.mp hab
    obtain ⟨acc, hmem, h₁, h₂, h₃, h₄⟩ := recorded_accept hs hacc row hrow
    simp only [JournalRow.key, Prod.mk.injEq] at hkey
    refine ⟨acc, hmem, h₁.trans hkey.1, h₂.trans hkey.2.1, ?_, h₄ ▸ hkb⟩
    rw [h₃, hkey.2.2, satAdd, satI64]
    simp only [i64Min, i64Max]
    omega

/-- **An acceptance keeps the invariant.** -/
theorem sound_accept (hs : h.Sound)
    (hacc : Journal.Accepted h.journal j' sourceId streamId first last checksum payload now
      initial committed) :
    (JournalHistory.mk j' (h.acceptances ++ [⟨sourceId, streamId, first, last⟩])).Sound := by
  -- in each part: the stream of the batch, and the streams that it does not touch
  refine ⟨Journal.settled_accept hacc hs.settled, recorded_accept hs hacc, fun s t => ?_,
    fun s t i c hi hc => ?_, fun s t i c hi hc k hik hkc => ?_⟩
  · by_cases hst : (s, t) = (sourceId, streamId)
    · obtain ⟨rfl, rfl⟩ := Prod.mk.inj hst
      simp [initialOffset_accept_self, hacc.offset_self]
    · rw [initialOffset_accept_ne hst, hacc.offset_ne s t hst]
      exact hs.started s t
  · by_cases hst : (s, t) = (sourceId, streamId)
    · obtain ⟨rfl, rfl⟩ := Prod.mk.inj hst
      obtain rfl := Option.some.inj (initialOffset_accept_self.symm.trans hi)
      obtain rfl := Option.some.inj (hacc.offset_self.symm.trans hc)
      exact (initialOffset_le_initial hs hacc).trans hacc.reaches.le
    · rw [initialOffset_accept_ne hst] at hi
      rw [hacc.offset_ne s t hst] at hc
      exact hs.start_le s t i c hi hc
  · by_cases hst : (s, t) = (sourceId, streamId)
    · obtain ⟨rfl, rfl⟩ := Prod.mk.inj hst
      obtain rfl := Option.some.inj (initialOffset_accept_self.symm.trans hi)
      obtain rfl := Option.some.inj (hacc.offset_self.symm.trans hc)
      exact covered_accept hs hacc hik hkc
    · rw [initialOffset_accept_ne hst] at hi
      rw [hacc.offset_ne s t hst] at hc
      obtain ⟨a, ha, hcov⟩ := hs.covered s t i c hi hc k hik hkc
      exact ⟨a, List.mem_append_left _ ha, hcov⟩

end Accept

/-- **Every call keeps the invariant.** -/
theorem sound_call (hs : h.Sound) (c : JournalCall β) : (h.call c).Sound := by
  cases c with
  | accept sourceId streamId first last checksum payload now =>
    rcases accept_cases hs.settled sourceId streamId first last checksum payload now with
      ⟨e, heq⟩ | ⟨j', initial, committed, hacc, heq, -⟩
    · simp only [call, heq]; exact hs
    · simp only [call, heq]; exact sound_accept hs hacc
  | retire sourceId streamId through =>
    rcases h.journal.retireJournalThrough_cases sourceId streamId through with
      ⟨e, heq⟩ | ⟨n, j', heq, hoffsets, hrows⟩
    · simp only [call, heq]; exact hs
    · simp only [call, heq]
      have hoff : ∀ s t, j'.offset s t = h.journal.offset s t := fun s t => by
        rw [Journal.offset, Journal.offset, hoffsets]
      have hsub : ∀ row ∈ j'.ingestJournal.rows, row ∈ h.journal.ingestJournal.rows :=
        fun row hrow => ((hrows row).mp hrow).1
      exact {
        settled := Journal.settled_retire hoffsets hsub hs.settled
        recorded := fun row hrow => hs.recorded row (hsub row hrow)
        started := fun s t => (hs.started s t).trans (by rw [hoff])
        start_le := fun s t i c hi hc => hs.start_le s t i c hi ((hoff s t).symm.trans hc)
        covered := fun s t i c hi hc => hs.covered s t i c hi ((hoff s t).symm.trans hc) }

/-- The invariant holds after every run. -/
theorem sound_foldl (calls : List (JournalCall β)) : ∀ {h : JournalHistory β}, h.Sound →
    (calls.foldl call h).Sound := by
  induction calls with
  | nil => exact id
  | cons c calls ih => exact fun hs => ih (sound_call hs c)

theorem sound_run (calls : List (JournalCall β)) : (run calls).Sound :=
  sound_foldl calls sound_empty

/-! ### What a caller can rely on -/

/-- A pending batch that is sent again changes no row and no offset. -/
theorem resend_unchanged (hs : h.Sound) {row : JournalRow β}
    (hrow : row ∈ h.journal.ingestJournal.rows) (hfirst : row.firstSequence = first)
    {j' : Journal β} {initial committed : ℤ}
    (hacc : Journal.Accepted h.journal j' row.sourceId row.streamId first last checksum payload now
      initial committed) :
    j'.ingestJournal = h.journal.ingestJournal ∧ ∀ s t, j'.offset s t = h.journal.offset s t := by
  have hkey : row.key = (row.sourceId, row.streamId, (first : ℤ)) := by
    rw [JournalRow.key, hfirst]
  have hsame : j'.ingestJournal = h.journal.ingestJournal :=
    hacc.same fun hnone => KeyTable.lookup_eq_none.mp hnone row hrow hkey
  refine ⟨hsame, fun s t => ?_⟩
  by_cases hst : (s, t) = (row.sourceId, row.streamId)
  · obtain ⟨rfl, rfl⟩ := Prod.mk.inj hst
    -- the stream has an offset, and its pending rows do not continue it
    rcases e : h.journal.offset row.sourceId row.streamId with - | c
    · obtain ⟨a, ha, h₁, h₂, -⟩ := hs.recorded row hrow
      have hnone := (hs.started _ _).mpr e
      rw [initialOffset, Option.map_eq_none_iff, List.find?_eq_none] at hnone
      exact absurd (decide_eq_true ⟨h₁, h₂⟩) (hnone a ha)
    · have hreach := hacc.reaches
      rw [hsame, hacc.initial_eq, e, Option.getD_some] at hreach
      rw [hacc.offset_self, hreach.eq_of_none (hs.settled.stuck _ _ c e)]
  · exact hacc.offset_ne s t hst

theorem offset_le_call (hs : h.Sound) (c : JournalCall β) {s t : String} {w : ℤ}
    (hw : h.journal.offset s t = some w) :
    ∃ w', (h.call c).journal.offset s t = some w' ∧ w ≤ w' := by
  cases c with
  | accept sourceId streamId first last checksum payload now =>
    rcases accept_cases hs.settled sourceId streamId first last checksum payload now with
      ⟨e, heq⟩ | ⟨j', initial, committed, hacc, heq, -⟩
    · simp only [call, heq]; exact ⟨w, hw, le_rfl⟩
    · simp only [call, heq]; exact hacc.offset_le hw
  | retire sourceId streamId through =>
    rcases h.journal.retireJournalThrough_cases sourceId streamId through with
      ⟨e, heq⟩ | ⟨n, j', heq, hoffsets, -⟩
    · simp only [call, heq]; exact ⟨w, hw, le_rfl⟩
    · simp only [call, heq]
      exact ⟨w, by rw [Journal.offset, hoffsets]; exact hw, le_rfl⟩

/-- **Journal acknowledgement is sound and failure-atomic.**  After any run of
calls: the acknowledgement loop ends on every table; the watermark of a stream
never decreases; an accepted batch is answered with the stored watermark; every
sequence number between a stream's initial offset and its watermark was
accepted; sending a pending batch again changes no row and no watermark; and a
call that fails leaves the tables as they were. -/
theorem journal_acknowledgement_sound (calls : List (JournalCall β)) :
    (∀ (rows : KeyTable (JournalRow.key (β := β))) (s t : String) (w : ℤ),
      (Journal.acknowledgeLoop rows s t (rows.rows.length + 1) w).isSome) ∧
    (∀ c s t w, (run calls).journal.offset s t = some w →
      ∃ w', ((run calls).call c).journal.offset s t = some w' ∧ w ≤ w') ∧
    (∀ s t first last checksum payload now n,
      ((run calls).journal.acceptJournalBatch s t first last checksum payload now).1 = .ok n →
      ((run calls).journal.acceptJournalBatch s t first last checksum payload now).2.offset s t =
        some (n : ℤ)) ∧
    (∀ s t c, (run calls).journal.offset s t = some c →
      ∃ i, (run calls).initialOffset s t = some i ∧
        ∀ k, i < k → k ≤ c → ∃ a ∈ (run calls).acceptances, a.Covers s t k) ∧
    (∀ row ∈ (run calls).journal.ingestJournal.rows, ∀ (first last : ℕ) payload now,
      row.firstSequence = first → row.lastSequence = last →
      ((run calls).journal.acceptJournalBatch row.sourceId row.streamId first last row.checksum
          payload now).2.ingestJournal = (run calls).journal.ingestJournal ∧
        ∀ s t, ((run calls).journal.acceptJournalBatch row.sourceId row.streamId first last
          row.checksum payload now).2.offset s t = (run calls).journal.offset s t) ∧
    (∀ s t first last checksum payload now e,
      ((run calls).journal.acceptJournalBatch s t first last checksum payload now).1 = .error e →
      ((run calls).journal.acceptJournalBatch s t first last checksum payload now).2 =
        (run calls).journal) := by
  have hs := sound_run calls
  refine ⟨Journal.acknowledgeLoop_isSome, fun c s t w hw => offset_le_call hs c hw, ?_,
    fun s t c hc => ?_, ?_, ?_⟩
  -- the answer of a call is the watermark that it stores
  · intro s t first last checksum payload now n hn
    rcases accept_cases hs.settled s t first last checksum payload now with
      ⟨e, heq⟩ | ⟨j', initial, committed, hacc, heq, hnonneg⟩ <;> rw [heq] at hn ⊢
    · cases hn
    · obtain rfl := Except.ok.inj hn
      rw [Int.toNat_of_nonneg hnonneg]
      exact hacc.offset_self
  -- a stream without an initial offset has no watermark
  · rcases e : (run calls).initialOffset s t with - | i
    · rw [(hs.started s t).mp e] at hc
      cases hc
    · exact ⟨i, rfl, hs.covered s t i c e hc⟩
  -- a batch that is pending is found, not inserted
  · intro row hrow first last payload now hfirst _
    rcases accept_cases hs.settled row.sourceId row.streamId first last row.checksum payload
      now with ⟨e, heq⟩ | ⟨j', initial, committed, hacc, heq, -⟩ <;> rw [heq]
    · exact ⟨rfl, fun s t => rfl⟩
    · exact resend_unchanged hs hrow hfirst hacc
  -- a failed call is rolled back
  · intro s t first last checksum payload now e he
    rcases accept_cases hs.settled s t first last checksum payload now with
      ⟨e', heq⟩ | ⟨j', initial, committed, hacc, heq, -⟩ <;> rw [heq] at he ⊢
    cases he

end JournalHistory

end RecentMessages
