/-
RecentMessages/Storage/CatchUp.lean

When the acknowledgement of a stream catches up with the batches it has received.

The watermark moves over the rows of the journal, and a checkpoint deletes rows up
to the highest sequence that is materialized, also beyond a gap.  A row that is
gone before the watermark has reached it stops the watermark for good, even when
the gap is filled later (`acknowledgement_stops_at_retired_row`).  That is the only
way: in a run in which no checkpoint retires a row ahead of the watermark, the
watermark passes every segment that accepted batches tile
(`acknowledgement_catches_up`).

Runs of ingest are related to runs of journal calls by `journalCalls`.
-/
import RecentMessages.Storage.Durability

namespace RecentMessages

open Watermark

variable {β : Type}

/-- The sequence numbers of an accepted batch. -/
def Acceptance.range (a : Acceptance) : ℤ × ℤ := (a.firstSequence, a.lastSequence)

/-- The primary key of the row of an accepted batch. -/
def Acceptance.key (a : Acceptance) : String × String × ℤ :=
  (a.sourceId, a.streamId, a.firstSequence)

namespace Journal

/-- The row of an accepted batch is pending. -/
def Pending (j : Journal β) (tile : Acceptance) : Prop :=
  ∃ row ∈ j.ingestJournal.rows, row.key = tile.key ∧ row.lastSequence = tile.lastSequence

/-- A call that retires the row of an accepted batch while the watermark of its
stream is below the end of the batch. -/
def RetiresAhead (j : Journal β) (tile : Acceptance) : JournalCall β → Prop
  | .accept .. => False
  | .retire sourceId streamId through =>
    sourceId = tile.sourceId ∧ streamId = tile.streamId ∧ tile.lastSequence ≤ through ∧
      j.Pending tile ∧ ∀ c ∈ j.offset tile.sourceId tile.streamId, c < tile.lastSequence

instance (j : Journal β) (tile : Acceptance) : Decidable (j.Pending tile) :=
  inferInstanceAs (Decidable (∃ row ∈ j.ingestJournal.rows, _))

instance (j : Journal β) (tile : Acceptance) : DecidablePred (j.RetiresAhead tile)
  | .accept .. => inferInstanceAs (Decidable False)
  | .retire .. => inferInstanceAs (Decidable (_ ∧ _))

end Journal

namespace JournalHistory

variable {h : JournalHistory β} {tile : Acceptance}

/-- The watermark of a stream stands at the end of an accepted batch. -/
def Ended (h : JournalHistory β) : Prop := ∀ s t c, h.journal.offset s t = some c →
  ∃ a ∈ h.acceptances, a.sourceId = s ∧ a.streamId = t ∧ (a.lastSequence : ℤ) = c

/-- An accepted batch is pending, or the watermark has passed it. -/
def Reckoned (h : JournalHistory β) (tile : Acceptance) : Prop :=
  h.journal.Pending tile ∨
    ∃ c, h.journal.offset tile.sourceId tile.streamId = some c ∧ tile.lastSequence ≤ c

theorem ended_call (hs : h.Sound) (he : h.Ended) (c : JournalCall β) : (h.call c).Ended := by
  have hsound := sound_call hs c
  cases c with
  | accept sourceId streamId first last checksum payload now =>
    -- a watermark moves only to the end of a row, and the row of an accepted batch is noted
    rcases accept_cases hs.settled sourceId streamId first last checksum payload now with
      ⟨e, heq⟩ | ⟨j', initial, committed, hacc, heq, -⟩
    · simp only [call, heq]
      exact he
    · simp only [call, heq] at hsound ⊢
      have hold : ∀ s t c, h.journal.offset s t = some c →
          ∃ a ∈ h.acceptances ++ [⟨sourceId, streamId, first, last⟩],
            a.sourceId = s ∧ a.streamId = t ∧ (a.lastSequence : ℤ) = c := by
        intro s t c hc
        obtain ⟨a, ha, hstream⟩ := he s t c hc
        exact ⟨a, List.mem_append_left _ ha, hstream⟩
      intro s t c hc
      by_cases hst : (s, t) = (sourceId, streamId)
      · obtain ⟨rfl, rfl⟩ := Prod.mk.inj hst
        obtain rfl := Option.some.inj (hacc.offset_self.symm.trans hc)
        rcases hacc.committed_cases with hsame | ⟨row, hrow, hsource, hstream, rfl⟩
        · exact hold s t committed hsame
        · obtain ⟨a, ha, h₁, h₂, -, h₄⟩ := hsound.recorded row hrow
          exact ⟨a, ha, h₁.trans hsource, h₂.trans hstream, h₄⟩
      · exact hold s t c ((hacc.offset_ne s t hst).symm.trans hc)
  | retire sourceId streamId through =>
    -- no watermark moves
    rcases h.journal.retireJournalThrough_cases sourceId streamId through with
      ⟨e, heq⟩ | ⟨n, j', heq, hoffsets, -⟩
    · simp only [call, heq]
      exact he
    · simp only [call, heq]
      intro s t c hc
      rw [Journal.offset, hoffsets] at hc
      exact he s t c hc

/-- **A call that retires nothing ahead of the watermark** keeps every accepted
batch pending or passed. -/
theorem reckoned_call (hs : h.Sound) {c : JournalCall β}
    (hold : tile ∈ h.acceptances → h.Reckoned tile) (hretire : ¬ h.journal.RetiresAhead tile c)
    (hmem : tile ∈ (h.call c).acceptances) : (h.call c).Reckoned tile := by
  cases c with
  | accept sourceId streamId first last checksum payload now =>
    rcases accept_cases hs.settled sourceId streamId first last checksum payload now with
      ⟨e, heq⟩ | ⟨j', initial, committed, hacc, heq, -⟩
    · simp only [call, heq] at hmem ⊢
      exact hold hmem
    · simp only [call, heq] at hmem ⊢
      rcases List.mem_append.mp hmem with hmem | hmem
      · rcases hold hmem with ⟨row, hrow, hkey⟩ | ⟨c, hc, hle⟩
        · exact .inl ⟨row, hacc.kept row hrow, hkey⟩
        · obtain ⟨c', hc', hcc'⟩ := hacc.offset_le hc
          exact .inr ⟨c', hc', hle.trans hcc'⟩
      · obtain rfl := List.mem_singleton.mp hmem
        obtain ⟨row, hrow, hkey, hlast, -⟩ := hacc.held
        exact .inl ⟨row, hrow, hkey, hlast⟩
  | retire sourceId streamId through =>
    rcases h.journal.retireJournalThrough_cases sourceId streamId through with
      ⟨e, heq⟩ | ⟨n, j', heq, hoffsets, hrows⟩
    · simp only [call, heq] at hmem ⊢
      exact hold hmem
    · simp only [call, heq] at hmem ⊢
      have hpassed : (∃ c, h.journal.offset tile.sourceId tile.streamId = some c ∧
          (tile.lastSequence : ℤ) ≤ c) →
          (JournalHistory.mk j' h.acceptances).Reckoned tile := by
        rintro ⟨c, hc, hle⟩
        exact .inr ⟨c, by rw [Journal.offset, hoffsets]; exact hc, hle⟩
      rcases hold hmem with hpending | hpast
      · obtain ⟨row, hrow, hkey, hlast⟩ := hpending
        by_cases hretired : Journal.retires sourceId streamId through row = true
        · -- the row goes, so the watermark has passed it
          simp only [Journal.retires, Bool.and_eq_true, decide_eq_true_eq] at hretired
          simp only [JournalRow.key, Acceptance.key, Prod.mk.injEq] at hkey
          refine hpassed ?_
          by_contra hnot
          refine hretire ⟨hretired.1.1.symm.trans hkey.1, hretired.1.2.symm.trans hkey.2.1,
            Int.ofNat_le.mp (hlast ▸ hretired.2),
            ⟨row, hrow, by rw [JournalRow.key, Acceptance.key, hkey.1, hkey.2.1, hkey.2.2], hlast⟩,
            fun c hc => ?_⟩
          exact not_le.mp fun hle => hnot ⟨c, hc, hle⟩
        · exact .inl ⟨row, (hrows row).mpr ⟨hrow, Bool.eq_false_iff.mpr hretired⟩, hkey, hlast⟩
      · exact hpassed hpast

end JournalHistory

namespace Ingest

/-! ### The journal calls of a run -/

/-- The call that an action makes on the journal, if it makes one. -/
def journalCall (cfg : Settings β) (s : Ingest β) : IngestAction → Option (JournalCall β)
  | .accept batch nowMs =>
    match s.task, encodeJournal cfg.codec batch.records with
    | .idle, .ok payload =>
      some (.accept batch.sourceId batch.streamId batch.firstSequence batch.lastSequence
        (cfg.codec.blake3 payload) payload nowMs)
    | _, _ => none
  | .advance =>
    match s.task with
    | .retiring (x :: _) => some (.retire x.sourceId x.streamId x.through)
    | _ => none
  | _ => none

/-- The calls that a run makes on the journal. -/
def journalCalls (cfg : Settings β) : Ingest β → List IngestAction → List (JournalCall β)
  | _, [] => []
  | s, a :: actions => (s.journalCall cfg a).toList ++ journalCalls cfg (s.apply cfg a) actions

/-- The journal of a run, with the batches it has accepted. -/
def journalHistory (cfg : Settings β) (actions : List IngestAction) : JournalHistory β :=
  JournalHistory.run (journalCalls cfg fresh actions)

variable {cfg : Settings β} {s : Ingest β}

/-- **An action does to the journal what its call does.** -/
theorem journal_apply (hs : s.Intact cfg.codec) (a : IngestAction) (l : List Acceptance) :
    (s.apply cfg a).db.journal =
      ((s.journalCall cfg a).toList.foldl JournalHistory.call ⟨s.db.journal, l⟩).journal := by
  rcases hcall : s.journalCall cfg a with - | c
  · -- an action without a call leaves the journal
    show (s.apply cfg a).db.journal = s.db.journal
    rcases flow_apply hs a with heq | hflow
    · rw [heq]
    · rcases hflow.journal_cases with hsame | ⟨batch, payload, nowMs, _, _, rfl, hidle, hencode, -⟩ |
        ⟨x, retirements, rfl, htask, -⟩
      · exact hsame
      · simp [journalCall, hidle, hencode] at hcall
      · simp [journalCall, htask] at hcall
  · show _ = (JournalHistory.call ⟨s.db.journal, l⟩ c).journal
    cases a with
    | accept batch nowMs =>
      simp only [journalCall] at hcall
      split at hcall
      · rename_i payload htask hencode
        cases hcall
        have happly : s.apply cfg (.accept batch nowMs) = s.accept cfg batch nowMs := by
          rw [apply, step, htask]
          rfl
        rw [happly, accept, hencode]
        dsimp only [JournalHistory.call]
        split
        · rename_i heq
          rw [heq]
          rfl
        · rename_i heq
          rw [heq]
      · cases hcall
    | advance =>
      simp only [journalCall] at hcall
      split at hcall
      · rename_i x retirements htask
        cases hcall
        have happly : s.apply cfg .advance = s.retireStream x retirements := by
          rw [apply, step, advance, htask]
          rfl
        rw [happly, retireStream]
        dsimp only [JournalHistory.call]
        split
        · rename_i heq
          rw [heq]
          rfl
        · rename_i heq
          rw [heq]
      · cases hcall
    | sealDue nowMs order => cases hcall
    | checkpoint order => cases hcall
    | retire order => cases hcall
    | crash => cases hcall
    | restart nowMs => cases hcall

/-- What holds of the journal along a run, for the batches in `tiles`. -/
structure Reckoning (cfg : Settings β) (tiles : List Acceptance) (s : Ingest β)
    (h : JournalHistory β) : Prop where
  intact : s.Intact cfg.codec
  journal : h.journal = s.db.journal
  sound : h.Sound
  ended : h.Ended
  reckoned : ∀ tile ∈ tiles, tile ∈ h.acceptances → h.Reckoned tile

variable {tiles : List Acceptance} {h : JournalHistory β}

theorem reckoning_fresh : Reckoning cfg tiles fresh JournalHistory.empty where
  intact := intact_fresh cfg.codec
  journal := rfl
  sound := JournalHistory.sound_empty
  ended := nofun
  reckoned := nofun

/-- **An action that retires no tile ahead of the watermark** keeps the
reckoning. -/
theorem reckoning_apply (hr : Reckoning cfg tiles s h) (a : IngestAction)
    (hretire : ∀ c ∈ s.journalCall cfg a, ∀ tile ∈ tiles, ¬ s.db.journal.RetiresAhead tile c) :
    Reckoning cfg tiles (s.apply cfg a)
      ((s.journalCall cfg a).toList.foldl JournalHistory.call h) := by
  have hjournal := journal_apply hr.intact a h.acceptances
  rw [← hr.journal] at hjournal
  rcases hcall : s.journalCall cfg a with - | c <;> rw [hcall] at hjournal
  · exact ⟨intact_apply hr.intact a, hjournal.symm, hr.sound, hr.ended, hr.reckoned⟩
  · refine ⟨intact_apply hr.intact a, hjournal.symm, JournalHistory.sound_call hr.sound c,
      JournalHistory.ended_call hr.sound hr.ended c, fun tile htile hmem => ?_⟩
    refine JournalHistory.reckoned_call hr.sound (hr.reckoned tile htile) ?_ hmem
    rw [hr.journal]
    exact hretire c hcall tile htile

theorem reckoning_run (actions : List IngestAction) (hr : Reckoning cfg tiles s h)
    (hretire : ∀ i, ∀ a ∈ actions[i]?,
      ∀ c ∈ ((actions.take i).foldl (apply cfg) s).journalCall cfg a, ∀ tile ∈ tiles,
        ¬ ((actions.take i).foldl (apply cfg) s).db.journal.RetiresAhead tile c) :
    Reckoning cfg tiles (actions.foldl (apply cfg) s)
      ((journalCalls cfg s actions).foldl JournalHistory.call h) := by
  induction actions generalizing s h with
  | nil => exact hr
  | cons a actions ih =>
    rw [List.foldl_cons, journalCalls, List.foldl_append]
    exact ih (reckoning_apply hr a (hretire 0 a rfl)) fun i b hb => hretire (i + 1) b hb

/-! ### Catching up -/

/-- **Acknowledgement catches up with filled gaps** in every run in which no
checkpoint retires the row of a tile while the watermark is below the tile's
end, and no accepted batch ends inside a tile. -/
theorem acknowledgement_catches_up (cfg : Settings β) (actions : List IngestAction)
    (sourceId streamId : String) (initial n : ℤ) (tiles : List Acceptance)
    (hinitial : (journalHistory cfg actions).initialOffset sourceId streamId = some initial)
    (htile : Tile (tiles.map Acceptance.range) initial n)
    (haccepted : ∀ tile ∈ tiles, tile ∈ (journalHistory cfg actions).acceptances ∧
      tile.sourceId = sourceId ∧ tile.streamId = streamId)
    (hinside : ∀ a ∈ (journalHistory cfg actions).acceptances, a.sourceId = sourceId →
      a.streamId = streamId → ∀ tile ∈ tiles,
        ¬ (tile.firstSequence ≤ a.lastSequence ∧ a.lastSequence < tile.lastSequence))
    (hretire : ∀ i, ∀ a ∈ actions[i]?, ∀ c ∈ (run cfg (actions.take i)).journalCall cfg a,
      ∀ tile ∈ tiles, ¬ (run cfg (actions.take i)).db.journal.RetiresAhead tile c) :
    ∃ w, (run cfg actions).db.journal.offset sourceId streamId = some w ∧ n ≤ w := by
  have hr : Reckoning cfg tiles (run cfg actions) (journalHistory cfg actions) :=
    reckoning_run actions reckoning_fresh hretire
  rcases hw : (run cfg actions).db.journal.offset sourceId streamId with - | w
  · have hnone := (hr.sound.started sourceId streamId).mpr (hr.journal ▸ hw)
    rw [hinitial] at hnone
    cases hnone
  · rw [← hr.journal] at hw
    refine ⟨w, rfl, le_of_tiled htile (hr.sound.start_le _ _ _ _ hinitial hw)
      (hr.sound.settled.stuck _ _ _ hw) ?_ ?_⟩
    · -- a tile above the watermark is pending, so its row continues its start
      intro t ht hlt
      obtain ⟨tile, hmem, rfl⟩ := List.mem_map.mp ht
      obtain ⟨hacc, rfl, rfl⟩ := haccepted tile hmem
      have hpending := (hr.reckoned tile hmem hacc).resolve_right fun ⟨c, hc, hle⟩ => by
        obtain rfl := Option.some.inj (hw.symm.trans hc)
        exact absurd hlt (not_lt.mpr hle)
      obtain ⟨row, hrow, hkey, hlast⟩ := hpending
      refine Journal.next_eq_some.mpr ⟨row, hrow, ?_, hlast⟩
      have hrange := hr.sound.settled.range row hrow
      have hfirst : row.firstSequence = tile.firstSequence := by
        simp only [JournalRow.key, Acceptance.key, Prod.mk.injEq] at hkey
        exact hkey.2.2
      have hsat : satAdd ((tile.firstSequence : ℤ) - 1) 1 = tile.firstSequence := by
        rw [satAdd_eq] <;> simp only [i64Min, i64Max] at hrange ⊢ <;> omega
      rw [hkey, Acceptance.range, hsat, Acceptance.key]
    · rintro t ht ⟨hfirst, hlt⟩
      obtain ⟨tile, hmem, rfl⟩ := List.mem_map.mp ht
      obtain ⟨a, ha, hsource, hstream, rfl⟩ := hr.ended _ _ _ hw
      exact hinside a ha hsource hstream tile hmem
        ⟨Int.ofNat_le.mp hfirst, Int.ofNat_lt.mp hlt⟩

/-! ### A gap that is filled

Three batches of one record; the middle one comes last.  A checkpoint after it
retires what the watermark has passed; a checkpoint before it retires the last
batch ahead of the watermark. -/

/-- The batch with the single sequence number `n`. -/
def sampleBatch (n : ℕ) : RawSourceBatch := ⟨"irc", "a", n, n, [sampleRecord "irc" n]⟩

def sampleTiles : List Acceptance := [⟨"irc", "a", 10, 10⟩, ⟨"irc", "a", 11, 11⟩, ⟨"irc", "a", 12, 12⟩]

def acceptActions (n : ℕ) : List IngestAction := [.accept (sampleBatch n) n, .advance, .advance]

def checkpointActions : List IngestAction :=
  [.checkpoint ["quiet"], .advance, .retire [("irc", "a")], .advance, .advance]

def filledActions : List IngestAction :=
  [.restart 5, .advance] ++ acceptActions 10 ++ acceptActions 12 ++ acceptActions 11 ++
    checkpointActions

def retiredActions : List IngestAction :=
  [.restart 5, .advance] ++ acceptActions 10 ++ acceptActions 12 ++ checkpointActions ++
    acceptActions 11

theorem tile_sampleTiles : Tile (sampleTiles.map Acceptance.range) 9 12 := by
  intro k
  simp only [sampleTiles, List.map_cons, List.map_nil, Acceptance.range, List.mem_cons,
    List.not_mem_nil, or_false, exists_eq_or_imp, exists_eq_left]
  omega

theorem acknowledgement_catches_up_sample :
    ∃ w, (run .plain filledActions).db.journal.offset "irc" "a" = some w ∧ 12 ≤ w := by
  refine acknowledgement_catches_up .plain filledActions "irc" "a" 9 12 sampleTiles
    (by decide +kernel) tile_sampleTiles (by decide +kernel) (by decide +kernel) ?_
  have hretire : ∀ i < filledActions.length, ∀ a ∈ filledActions[i]?,
      ∀ c ∈ (run .plain (filledActions.take i)).journalCall .plain a, ∀ tile ∈ sampleTiles,
        ¬ (run .plain (filledActions.take i)).db.journal.RetiresAhead tile c := by
    decide +kernel
  intro i a ha
  exact hretire i (List.getElem?_eq_some_iff.mp ha).1 a ha

/-- Once pairwise disjoint accepted batches tile the sequence numbers of a stream
from its initial offset to `n`, the watermark is at least `n`. -/
def CatchesUp (cfg : Settings β) (actions : List IngestAction) : Prop :=
  ∀ (sourceId streamId : String) (initial n : ℤ) (tiles : List Acceptance),
    (journalHistory cfg actions).initialOffset sourceId streamId = some initial →
    tiles.Pairwise (fun a b => a.lastSequence < b.firstSequence ∨ b.lastSequence < a.firstSequence) →
    Tile (tiles.map Acceptance.range) initial n →
    (∀ tile ∈ tiles, tile ∈ (journalHistory cfg actions).acceptances ∧
      tile.sourceId = sourceId ∧ tile.streamId = streamId) →
    ∃ w, (run cfg actions).db.journal.offset sourceId streamId = some w ∧ n ≤ w

/-- **A row that is retired ahead of the watermark stops it**: all three batches
are accepted and materialized, and the watermark stays at 11. -/
theorem acknowledgement_stops_at_retired_row : ¬ CatchesUp .plain retiredActions := by
  intro h
  obtain ⟨w, hw, hle⟩ := h "irc" "a" 9 12 sampleTiles (by decide +kernel) (by decide)
    tile_sampleTiles (by decide +kernel)
  have hstuck : (run .plain retiredActions).db.journal.offset "irc" "a" = some 11 := by
    decide +kernel
  obtain rfl := Option.some.inj (hstuck.symm.trans hw)
  omega

end Ingest

end RecentMessages
