/-
RecentMessages/Control/LiveCoverage.lean

When live coverage is ended.

`end_live_coverage` and `close_all_live_coverage` delete live rows and store the intervals
that they covered in one transaction.  The intervals are unique, and the insertion is a
plain `INSERT`: if an interval is stored already, the transaction fails and the live rows
stay.  `record_coverage_interval` ignores such a row instead.

* `ControlCall.Ends` — what a call that ends live coverage has to do;
* `ControlCall.NotStored` — the intervals of the call are new;
* `ends_iff_notStored` — in every run, all calls do what they have to if and only if all of
  their intervals are new.
-/
import RecentMessages.Control.ControlStore

namespace RecentMessages

namespace ControlStore

/-- A call of `end_live_coverage` succeeds, the channel has no live row any more, and what it
covered is stored once. -/
def EndsChannel (c : ControlStore) (channelLogin : String) (endedAtMs : ℤ) : Prop :=
  ∃ c', c.endLiveCoverage channelLogin endedAtMs = .ok c' ∧
    c'.liveCoverage.lookup (toAsciiLowercase channelLogin) = none ∧
    ∀ live, c.liveCoverage.lookup (toAsciiLowercase channelLogin) = some live →
      live.startedAtMs ≤ endedAtMs → c'.coverageInterval.rows.count (live.ended endedAtMs) = 1

/-- A call of `close_all_live_coverage` succeeds, there is no live row any more, and what they
covered is stored once. -/
def EndsAll (c : ControlStore) (endedAtMs : ℤ) : Prop :=
  ∃ c', c.closeAllLiveCoverage endedAtMs = .ok c' ∧ c'.liveCoverage.rows = [] ∧
    ∀ live ∈ c.liveCoverage.rows, live.startedAtMs ≤ endedAtMs →
      c'.coverageInterval.rows.count (live.ended endedAtMs) = 1

variable {c c' : ControlStore} {channelLogin : String} {endedAtMs : ℤ} {row : CoverageRow}

theorem exists_insertCoverage (h : row ∉ c.coverageInterval.rows) :
    ∃ c', c.insertCoverage row = .ok c' := by
  have hnone : c.coverageInterval.lookup (id row) = none := by
    apply KeyTable.lookup_eq_none.mpr
    rintro stored hstored rfl
    exact h hstored
  unfold insertCoverage KeyTable.insert?
  rw [dif_pos hnone]
  exact ⟨_, rfl⟩

theorem count_coverage (h : row ∈ c.coverageInterval.rows) :
    c.coverageInterval.rows.count row = 1 := by
  have hnodup := c.coverageInterval.nodup
  rw [List.map_id] at hnodup
  exact List.count_eq_one_of_mem hnodup h

/-! ### One channel -/

/-- **What `end_live_coverage` does**: it deletes the live row, and then inserts at most one
interval. -/
theorem endLiveCoverage_cases (c : ControlStore) (channelLogin : String) (endedAtMs : ℤ) :
    (c.endedCoverage channelLogin endedAtMs = [] ∧
        c.endLiveCoverage channelLogin endedAtMs = .ok (c.discardLiveCoverage channelLogin)) ∨
      ∃ live, c.liveCoverage.lookup (toAsciiLowercase channelLogin) = some live ∧
        c.endedCoverage channelLogin endedAtMs = [live.ended endedAtMs] ∧
        c.endLiveCoverage channelLogin endedAtMs =
          (c.discardLiveCoverage channelLogin).insertCoverage (live.ended endedAtMs) := by
  rcases hlive : c.liveCoverage.lookup (toAsciiLowercase channelLogin) with - | live
  · left
    simp [endedCoverage, endLiveCoverage, discardLiveCoverage, hlive]
  · by_cases hstarted : live.startedAtMs ≤ endedAtMs
    · right
      refine ⟨live, rfl, by simp [endedCoverage, hlive, hstarted], ?_⟩
      simp [endLiveCoverage, discardLiveCoverage, hlive, hstarted, LiveCoverage.ended,
        KeyTable.key_of_lookup hlive]
    · left
      simp [endedCoverage, endLiveCoverage, discardLiveCoverage, hlive, hstarted]

/-- **When a channel is ended**: the interval is not stored yet. -/
theorem endsChannel_iff : c.EndsChannel channelLogin endedAtMs ↔
    ∀ row ∈ c.endedCoverage channelLogin endedAtMs, row ∉ c.coverageInterval.rows := by
  have herased : (c.discardLiveCoverage channelLogin).liveCoverage.lookup
      (toAsciiLowercase channelLogin) = none := KeyTable.lookup_erase_self _ _
  rcases c.endLiveCoverage_cases channelLogin endedAtMs with
    ⟨hnone, hend⟩ | ⟨live, hlive, hone, hend⟩
  · -- there is nothing to store
    rw [hnone]
    refine iff_of_true ⟨_, hend, herased, ?_⟩ nofun
    intro live hlive hstarted
    simp [endedCoverage, hlive, hstarted] at hnone
  · rw [hone, List.forall_mem_singleton]
    constructor
    · rintro ⟨c', hok, -⟩
      exact (insertCoverage_eq_ok (hend.symm.trans hok)).1
    · intro hnew
      obtain ⟨c', hinsert⟩ :=
        exists_insertCoverage (c := c.discardLiveCoverage channelLogin) hnew
      obtain ⟨-, hrows, hlives⟩ := insertCoverage_eq_ok hinsert
      refine ⟨c', hend.trans hinsert, hlives ▸ herased, fun live' hlive' _ => ?_⟩
      obtain rfl := Option.some.inj (hlive.symm.trans hlive')
      apply count_coverage
      rw [hrows]
      exact List.mem_append_right _ (List.mem_singleton.mpr rfl)

/-! ### All channels -/

/-- The loop of `close_all_live_coverage` succeeds, as intervals of different channels differ. -/
theorem exists_foldlM_insertCoverage {live : List LiveCoverage}
    (hlogins : (live.map (·.channelLogin)).Nodup)
    (hnew : ∀ active ∈ live, active.ended endedAtMs ∉ c.coverageInterval.rows) :
    ∃ c', live.foldlM (fun c active =>
      c.insertCoverage ⟨active.channelLogin, active.source, active.startedAtMs, endedAtMs⟩) c =
        .ok c' := by
  induction live generalizing c with
  | nil => exact ⟨c, rfl⟩
  | cons active live ih =>
    rw [List.map_cons, List.nodup_cons] at hlogins
    rw [List.forall_mem_cons] at hnew
    obtain ⟨c₁, hinsert⟩ := exists_insertCoverage hnew.1
    have hrest : ∀ more ∈ live, more.ended endedAtMs ∉ c₁.coverageInterval.rows := by
      intro more hmore hmem
      rw [(insertCoverage_eq_ok hinsert).2.1, List.mem_append, List.mem_singleton] at hmem
      rcases hmem with hold | hsame
      · exact hnew.2 more hmore hold
      · apply hlogins.1
        have hlogin : more.channelLogin = active.channelLogin :=
          congrArg CoverageRow.channelLogin hsame
        exact hlogin ▸ List.mem_map_of_mem hmore
    obtain ⟨c', hloop⟩ := ih hlogins.2 hrest
    refine ⟨c', ?_⟩
    rw [List.foldlM_cons, Except.bind_eq_ok]
    exact ⟨c₁, hinsert, hloop⟩

/-- **When all channels are ended**: none of the intervals is stored yet. -/
theorem endsAll_iff : c.EndsAll endedAtMs ↔
    ∀ row ∈ c.closedCoverage endedAtMs, row ∉ c.coverageInterval.rows := by
  have hclosed : (∀ row ∈ c.closedCoverage endedAtMs, row ∉ c.coverageInterval.rows) ↔
      ∀ active ∈ c.liveCoverage.rows.filter (·.startedAtMs ≤ endedAtMs),
        active.ended endedAtMs ∉ c.coverageInterval.rows := by
    rw [closedCoverage]
    exact List.forall_mem_map
  rw [hclosed]
  constructor
  · rintro ⟨c', hclose, -⟩
    obtain ⟨c₁, hloop, -⟩ := Except.bind_eq_ok.mp hclose
    exact (foldlM_insertCoverage hloop).2
  · intro hnew
    obtain ⟨c₁, hloop⟩ := exists_foldlM_insertCoverage
      (KeyTable.nodup_filter c.liveCoverage) hnew
    refine ⟨_, Except.bind_eq_ok.mpr ⟨c₁, hloop, rfl⟩, rfl, fun live hlive hstarted => ?_⟩
    apply count_coverage (c := c₁)
    rw [(foldlM_insertCoverage hloop).1]
    apply List.mem_append_right
    apply List.mem_map_of_mem
    exact List.mem_filter.mpr ⟨hlive, decide_eq_true hstarted⟩

end ControlStore

/-! ### Runs -/

namespace ControlCall

/-- What a call has to do in a store, if it is one that ends live coverage. -/
def Ends (c : ControlStore) : ControlCall → Prop
  | .endLiveCoverage channelLogin endedAtMs => c.EndsChannel channelLogin endedAtMs
  | .closeAllLiveCoverage endedAtMs => c.EndsAll endedAtMs
  | _ => True

/-- The intervals that a call ends are not stored yet. -/
def NotStored (c : ControlStore) : ControlCall → Prop
  | .endLiveCoverage channelLogin endedAtMs =>
    ∀ row ∈ c.endedCoverage channelLogin endedAtMs, row ∉ c.coverageInterval.rows
  | .closeAllLiveCoverage endedAtMs =>
    ∀ row ∈ c.closedCoverage endedAtMs, row ∉ c.coverageInterval.rows
  | _ => True

theorem ends_iff (c : ControlStore) (call : ControlCall) : call.Ends c ↔ call.NotStored c := by
  cases call with
  | endLiveCoverage => exact ControlStore.endsChannel_iff
  | closeAllLiveCoverage => exact ControlStore.endsAll_iff
  | _ => exact Iff.rfl

end ControlCall

/-- The store after calls on a new one. -/
def ControlStore.run (calls : List ControlCall) : ControlStore :=
  calls.foldl ControlStore.call ControlStore.empty

/-- **Ending live coverage ends it as long as no interval is stored twice.**  In every run of
calls, every `end_live_coverage` and every `close_all_live_coverage` succeeds, leaves no live
row behind and stores each interval exactly once, if and only if none of the intervals that
such a call ends is stored already. -/
theorem ends_iff_notStored (calls : List ControlCall) :
    (∀ before call after, calls = before ++ call :: after → call.Ends (ControlStore.run before)) ↔
      ∀ before call after, calls = before ++ call :: after →
        call.NotStored (ControlStore.run before) := by
  simp only [ControlCall.ends_iff]

/-- A channel is joined and left twice within a millisecond, while another one is joined. -/
def rejoinedCalls : List ControlCall :=
  [.beginLiveCoverage "other" "direct-irc" 3, .beginLiveCoverage "example" "direct-irc" 5,
    .endLiveCoverage "example" 5, .beginLiveCoverage "example" "direct-irc" 5]

/-- Live coverage that is not ended: the interval of the second visit is stored already, and so
neither its channel nor all channels can be ended. -/
theorem live_coverage_stays :
    ¬ (ControlStore.run rejoinedCalls).EndsChannel "example" 5 ∧
      ¬ (ControlStore.run rejoinedCalls).EndsAll 5 ∧
      (((ControlStore.run rejoinedCalls).call (.closeAllLiveCoverage 5)).liveCoverage.rows.map
        (·.channelLogin)) = ["other", "example"] := by
  rw [ControlStore.endsChannel_iff, ControlStore.endsAll_iff]
  decide

end RecentMessages
