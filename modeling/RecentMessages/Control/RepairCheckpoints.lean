/-
RecentMessages/Control/RepairCheckpoints.lean

The history of a channel's repairs (`repair_checkpoint` in `db.rs`).

A finished repair inserts a row and then deletes all rows of its channel but the newest eight,
`ORDER BY completed_at_ms DESC, id DESC`; a read lists them in that order.  The table never sees
the whole history, the clock may jump, and a row id that was deleted is given out again.

`repair_checkpoints_newest` says what a read returns all the same: the newest eight of all
checkpoints that were recorded since the history of the channel was last cleared, where of two
checkpoints with one time the one recorded later is the newer.
-/
import RecentMessages.Control.ControlStore
import RecentMessages.Library.Ranking
import RecentMessages.Web.RepairState
import Mathlib.Data.Prod.Lex
import Mathlib.Order.OrderDual

namespace RecentMessages

open OrderDual

/-- A row of `repair_checkpoint`. -/
structure RepairCheckpointRow where
  id : ℤ
  channelLogin : String
  checkpoint : RepairCheckpoint
  deriving DecidableEq, Repr

/-- `ORDER BY completed_at_ms DESC, id DESC`. -/
def RepairCheckpointRow.newestFirst (row : RepairCheckpointRow) : ℤᵒᵈ ×ₗ ℤᵒᵈ :=
  toLex (toDual row.checkpoint.completedAtMs, toDual row.id)

/-- `LIMIT 8`. -/
def repairCheckpointLimit : ℕ := 8

/-- The table `repair_checkpoint`. -/
abbrev RepairCheckpoints := KeyTable RepairCheckpointRow.id

namespace RepairCheckpoints

/-- The rows of a channel. -/
def rowsOf (t : RepairCheckpoints) (login : String) : List RepairCheckpointRow :=
  t.rows.filter (·.channelLogin = login)

/-- The newest rows of a channel. -/
def newestRows (t : RepairCheckpoints) (login : String) : List RepairCheckpointRow :=
  (sortByKey RepairCheckpointRow.newestFirst (t.rowsOf login)).take repairCheckpointLimit

/-- `INSERT INTO repair_checkpoint`. -/
def inserted (t : RepairCheckpoints) (login : String) (checkpoint : RepairCheckpoint) :
    RepairCheckpoints :=
  t.insertIgnore ⟨t.nextKey, login, checkpoint⟩

/-- `DELETE FROM repair_checkpoint … WHERE id NOT IN`. -/
def keepNewest (t : RepairCheckpoints) (login : String) : RepairCheckpoints :=
  t.deleteWhere fun row => row.channelLogin = login && row.id ∉ (t.newestRows login).map (·.id)

/-- `record_repair_checkpoint`; a count that an `i64` cannot hold is cut off. -/
def recordRepairCheckpoint (t : RepairCheckpoints) (channelLogin : String)
    (checkpoint : RepairCheckpoint) : Except StorageError RepairCheckpoints :=
  if checkpoint.requestedEndMs < checkpoint.requestedStartMs then
    .error (.invalidCoverageInterval checkpoint.requestedStartMs checkpoint.requestedEndMs)
  else
    let login := toAsciiLowercase channelLogin
    let recordCount := min checkpoint.recordCount (2 ^ 63 - 1)
    .ok ((t.inserted login { checkpoint with recordCount }).keepNewest login)

/-- `get_repair_checkpoints`. -/
def getRepairCheckpoints (t : RepairCheckpoints) (channelLogin : String) : List RepairCheckpoint :=
  (t.newestRows (toAsciiLowercase channelLogin)).map (·.checkpoint)

/-- A call on the table.  `set_channel_ignored`, `invalidate_channel_coverage` and
`prune_inactive_channels` delete all rows of some channels. -/
inductive Call
  | record (channelLogin : String) (checkpoint : RepairCheckpoint)
  | clear (channels : String → Bool)

/-- The table after a call; a failed one changes nothing. -/
def call (t : RepairCheckpoints) : Call → RepairCheckpoints
  | .record channelLogin checkpoint =>
    match t.recordRepairCheckpoint channelLogin checkpoint with
    | .ok t' => t'
    | .error _ => t
  | .clear channels => t.deleteWhere fun row => channels row.channelLogin

/-- The table after a run on a new store. -/
def run (calls : List Call) : RepairCheckpoints := calls.foldl call KeyTable.empty

/-- One more call in the history of a channel, which starts with the latest checkpoint. -/
def note (login : String) (history : List RepairCheckpoint) : Call → List RepairCheckpoint
  | .record channelLogin checkpoint =>
    if toAsciiLowercase channelLogin = login ∧
        checkpoint.requestedStartMs ≤ checkpoint.requestedEndMs then
      { checkpoint with recordCount := min checkpoint.recordCount (2 ^ 63 - 1) } :: history
    else
      history
  | .clear channels => if channels login then [] else history

/-- The checkpoints recorded for a channel since its history was last cleared. -/
def history (login : String) (calls : List Call) : List RepairCheckpoint :=
  calls.foldl (note login) []

/-- The newest of a history, of equal times the later recorded one. -/
def newestOf (history : List RepairCheckpoint) : List RepairCheckpoint :=
  (sortByKey (fun checkpoint => toDual checkpoint.completedAtMs) history).take
    repairCheckpointLimit

variable {t : RepairCheckpoints} {login : String}

theorem mem_rowsOf {row : RepairCheckpointRow} :
    row ∈ t.rowsOf login ↔ row ∈ t.rows ∧ row.channelLogin = login := by
  simp [rowsOf]

/-- The order of the reads tells all rows apart. -/
theorem newestFirst_inj {row row' : RepairCheckpointRow} (h : row ∈ t.rows) (h' : row' ∈ t.rows)
    (heq : row.newestFirst = row'.newestFirst) : row = row' :=
  KeyTable.eq_of_key t h h' (congrArg (fun k : ℤᵒᵈ ×ₗ ℤᵒᵈ => ofDual (ofLex k).2) heq)

/-! ### Inserting a checkpoint -/

/-- A row with a new id comes before all rows that are not newer than its checkpoint. -/
theorem newestFirst_le_iff {row row' : RepairCheckpointRow} (h : row'.id < row.id) :
    row.newestFirst ≤ row'.newestFirst ↔
      toDual row.checkpoint.completedAtMs ≤ toDual row'.checkpoint.completedAtMs := by
  rw [RepairCheckpointRow.newestFirst, RepairCheckpointRow.newestFirst, Prod.Lex.toLex_le_toLex]
  constructor
  · rintro (hlt | ⟨heq, -⟩)
    · exact hlt.le
    · exact heq.le
  · intro hle
    rcases hle.lt_or_eq with hlt | heq
    · exact .inl hlt
    · exact .inr ⟨heq, toDual_le_toDual.mpr h.le⟩

theorem rowsOf_inserted (t : RepairCheckpoints) (login : String) (checkpoint : RepairCheckpoint) :
    (t.inserted login checkpoint).rowsOf login =
      t.rowsOf login ++ [⟨t.nextKey, login, checkpoint⟩] := by
  rw [rowsOf, inserted, KeyTable.insertIgnore_of_none (KeyTable.lookup_nextKey t),
    List.filter_append, rowsOf]
  simp

theorem rowsOf_inserted_ne {other : String} (h : other ≠ login) (checkpoint : RepairCheckpoint) :
    (t.inserted login checkpoint).rowsOf other = t.rowsOf other := by
  rw [rowsOf, inserted, KeyTable.insertIgnore_of_none (KeyTable.lookup_nextKey t),
    List.filter_append, rowsOf]
  simp [Ne.symm h]

/-- The new row is sorted in by its time. -/
theorem map_sort_inserted (t : RepairCheckpoints) (login : String)
    (checkpoint : RepairCheckpoint) :
    (sortByKey RepairCheckpointRow.newestFirst ((t.inserted login checkpoint).rowsOf login)).map
        (·.checkpoint) =
      ((sortByKey RepairCheckpointRow.newestFirst (t.rowsOf login)).map
        (·.checkpoint)).orderedInsert
          (fun a b => toDual a.completedAtMs ≤ toDual b.completedAtMs) checkpoint := by
  have hsort :
      sortByKey RepairCheckpointRow.newestFirst ((t.inserted login checkpoint).rowsOf login) =
        sortByKey RepairCheckpointRow.newestFirst
          (⟨t.nextKey, login, checkpoint⟩ :: t.rowsOf login) := by
    refine sortByKey_eq_of_perm ?_ fun a ha b hb => newestFirst_inj (mem_rowsOf.mp ha).1
      (mem_rowsOf.mp hb).1
    rw [rowsOf_inserted]
    exact List.perm_append_singleton _ _
  rw [hsort]
  refine map_orderedInsert_of_iff fun row hrow => newestFirst_le_iff ?_
  exact KeyTable.lt_nextKey (mem_rowsOf.mp (mem_sortByKey.mp hrow)).1

/-! ### Deleting the others -/

theorem mem_keepNewest {row : RepairCheckpointRow} :
    row ∈ (t.keepNewest login).rows ↔
      row ∈ t.rows ∧ (row.channelLogin = login → row ∈ t.newestRows login) := by
  rw [keepNewest, KeyTable.mem_deleteWhere, and_congr_right_iff]
  intro hrow
  have hids : row.id ∈ (t.newestRows login).map (·.id) ↔ row ∈ t.newestRows login := by
    constructor
    · intro hmem
      obtain ⟨row', hrow', hid⟩ := List.mem_map.mp hmem
      have hold := (mem_rowsOf.mp (mem_sortByKey.mp (List.mem_of_mem_take hrow'))).1
      exact KeyTable.eq_of_key t hold hrow hid ▸ hrow'
    · exact fun hmem => List.mem_map_of_mem hmem
  rw [Bool.and_eq_false_iff, decide_eq_false_iff_not, decide_eq_false_iff_not, not_not, hids]
  exact imp_iff_not_or.symm

/-- **The rows that are left** to the channel are its newest ones. -/
theorem sort_rowsOf_keepNewest (t : RepairCheckpoints) (login : String) :
    sortByKey RepairCheckpointRow.newestFirst ((t.keepNewest login).rowsOf login) =
      t.newestRows login := by
  have hnodup : ∀ (t : RepairCheckpoints), (t.rowsOf login).Nodup :=
    fun t => (List.Nodup.of_map _ t.nodup).filter _
  refine eq_of_perm_of_sorted ?_ ?_ (sortByKey_sorted _) ((sortByKey_sorted _).sublist
    (List.take_sublist _ _))
  · refine (sortByKey_perm _).trans ?_
    refine (List.perm_ext_iff_of_nodup (hnodup _) ?_).mpr fun row => ?_
    · exact (((sortByKey_perm _).nodup_iff).mpr (hnodup t)).sublist (List.take_sublist _ _)
    · rw [mem_rowsOf, mem_keepNewest]
      constructor
      · rintro ⟨⟨-, hmem⟩, hlogin⟩
        exact hmem hlogin
      · intro hmem
        have hold := mem_rowsOf.mp (mem_sortByKey.mp (List.mem_of_mem_take hmem))
        exact ⟨⟨hold.1, fun _ => hmem⟩, hold.2⟩
  · intro a ha b hb
    exact newestFirst_inj (mem_rowsOf.mp (mem_sortByKey.mp ha)).1
      (mem_rowsOf.mp (mem_sortByKey.mp hb)).1

theorem rowsOf_keepNewest_ne {other : String} (h : other ≠ login) :
    (t.keepNewest login).rowsOf other = t.rowsOf other := by
  rw [rowsOf, keepNewest, KeyTable.rows_deleteWhere, List.filter_filter, rowsOf]
  refine List.filter_congr fun row _ => ?_
  by_cases hrow : row.channelLogin = other
  · have hne : row.channelLogin ≠ login := fun heq => h (hrow.symm.trans heq)
    simp [hrow, h]
  · simp [hrow]

/-! ### Runs -/

/-- What the table holds of a channel is the newest of its history. -/
def Holds (t : RepairCheckpoints) (login : String) (history : List RepairCheckpoint) : Prop :=
  (sortByKey RepairCheckpointRow.newestFirst (t.rowsOf login)).map (·.checkpoint) =
    newestOf history

theorem holds_congr {t' : RepairCheckpoints} {history : List RepairCheckpoint}
    (h : t'.rowsOf login = t.rowsOf login) (ht : t.Holds login history) :
    t'.Holds login history := by
  rw [Holds, h]
  exact ht

/-- A finished repair is added to the history. -/
theorem holds_record {history : List RepairCheckpoint} (h : t.Holds login history)
    (checkpoint : RepairCheckpoint) :
    ((t.inserted login checkpoint).keepNewest login).Holds login (checkpoint :: history) := by
  rw [Holds, sort_rowsOf_keepNewest, newestRows, List.map_take, map_sort_inserted, h, newestOf,
    take_orderedInsert_take]
  rfl

/-- **A call keeps** what the table holds of every channel. -/
theorem holds_call {history : List RepairCheckpoint} (h : t.Holds login history) (c : Call) :
    (t.call c).Holds login (note login history c) := by
  cases c with
  | record channelLogin checkpoint =>
    -- a span that ends before it starts is refused
    rw [call, recordRepairCheckpoint, note]
    by_cases hrange : checkpoint.requestedEndMs < checkpoint.requestedStartMs
    · rw [if_pos hrange, if_neg fun hc => absurd hc.2 (not_le.mpr hrange)]
      exact h
    · rw [if_neg hrange]
      -- the newest rows are kept channel by channel
      by_cases hlogin : toAsciiLowercase channelLogin = login
      · subst hlogin
        rw [if_pos ⟨rfl, not_lt.mp hrange⟩]
        exact holds_record h _
      · rw [if_neg fun hc => hlogin hc.1]
        refine holds_congr ?_ h
        exact (rowsOf_keepNewest_ne (Ne.symm hlogin)).trans (rowsOf_inserted_ne (Ne.symm hlogin) _)
  | clear channels =>
    -- a channel goes with all its checkpoints or keeps them
    rw [call, note]
    split
    · rename_i hclear
      have hnone : RepairCheckpoints.rowsOf (t.deleteWhere fun row => channels row.channelLogin)
          login = [] := by
        rw [rowsOf, KeyTable.rows_deleteWhere, List.filter_filter, List.filter_eq_nil_iff]
        rintro row -
        simp only [Bool.and_eq_true, decide_eq_true_eq, Bool.not_eq_true', not_and]
        rintro rfl hkept
        rw [hclear] at hkept
        cases hkept
      rw [Holds, hnone]
      rfl
    · rename_i hkeep
      refine holds_congr ?_ h
      rw [rowsOf, KeyTable.rows_deleteWhere, List.filter_filter, rowsOf]
      refine List.filter_congr fun row _ => ?_
      by_cases hrow : row.channelLogin = login
      · simp [hrow, hkeep]
      · simp [hrow]

/-- **The repair history of a channel**: after every run, a read returns the newest eight of the
checkpoints recorded since the history was last cleared, newest first, and the table holds no
other row of the channel. -/
theorem repair_checkpoints_newest (calls : List Call) (channelLogin : String) :
    (run calls).getRepairCheckpoints channelLogin =
        newestOf (history (toAsciiLowercase channelLogin) calls) ∧
      ((run calls).rowsOf (toAsciiLowercase channelLogin)).length ≤ repairCheckpointLimit := by
  have hholds : (run calls).Holds (toAsciiLowercase channelLogin)
      (history (toAsciiLowercase channelLogin) calls) := by
    induction calls using List.reverseRecOn with
    | nil => rfl
    | append_singleton calls c ih =>
      rw [run, history, List.foldl_append, List.foldl_append]
      exact holds_call ih c
  have hlength : ((run calls).rowsOf (toAsciiLowercase channelLogin)).length ≤
      repairCheckpointLimit := by
    have hle := congrArg List.length hholds
    rw [List.length_map, length_sortByKey, newestOf, List.length_take] at hle
    rw [hle]
    exact Nat.min_le_left _ _
  refine ⟨?_, hlength⟩
  rw [getRepairCheckpoints, newestRows, List.take_of_length_le]
  · exact hholds
  · rw [length_sortByKey]
    exact hlength

end RepairCheckpoints

end RecentMessages
