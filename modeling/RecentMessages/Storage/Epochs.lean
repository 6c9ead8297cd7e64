/-
RecentMessages/Storage/Epochs.lean

What the open blocks conserve over a run of appends and seals.  The period between two takes
of a channel's block is an epoch of the channel.  `Epochs` keeps, beside the manager, what an
observer of the calls can know: the appends that succeeded, and for each returned vector the
appends of its channel since the previous one.

Blocks leave by four routes: full, over the bound on channels, over the bound on bytes, idle or
old.  All of them are chains of `take_block` (`Takes`), so what one take does to an epoch is
proved once (`Conserved.take`).  An append puts its record into its channel's block first
(`Stored`); what the block then holds is the earliest of the best copies that the epoch
appended, since it is built by deduplicating insertion.
-/
import RecentMessages.Storage.OpenBlocks

namespace RecentMessages

namespace OpenBlockManager

variable {limits : OpenBlockLimits} {m m' : OpenBlockManager}
  {taken : List (List CanonicalRecord)} {record : CanonicalRecord} {nowMs : ℕ}

/-! ### Storing a record -/

/-- The records of a channel's open block. -/
def openRecords (m : OpenBlockManager) (channelKey : String) : List CanonicalRecord :=
  ((m.blocks.lookup channelKey).map (·.records.items)).getD []

theorem openRecords_of_mem {block : OpenBlock} (h : block ∈ m.blocks.rows) :
    m.openRecords block.channelKey = block.records.items := by
  rw [openRecords, KeyTable.lookup_of_mem h]
  rfl

theorem openRecords_eq_blockOf (m : OpenBlockManager) (channelKey : String) (nowMs : ℕ) :
    m.openRecords channelKey = (m.blockOf channelKey nowMs).records.items := by
  rw [openRecords, blockOf]
  cases m.blocks.lookup channelKey <;> rfl

theorem openRecords_put_self (block : OpenBlock) (estimatedBytes openMessages : ℕ) :
    (mk (m.blocks.put block) estimatedBytes openMessages).openRecords block.channelKey =
      block.records.items := by
  rw [openRecords, KeyTable.lookup_put_self]
  rfl

theorem openRecords_put_ne {block : OpenBlock} {channelKey : String}
    (h : block.channelKey ≠ channelKey) (estimatedBytes openMessages : ℕ) :
    (mk (m.blocks.put block) estimatedBytes openMessages).openRecords channelKey =
      m.openRecords channelKey := by
  rw [openRecords, KeyTable.lookup_put_ne m.blocks h, openRecords]

theorem openRecords_takeBlock_self (m : OpenBlockManager) (channelKey : String) :
    (m.takeBlock channelKey).2.openRecords channelKey = [] := by
  rw [takeBlock]
  rcases e : m.blocks.lookup channelKey with - | block
  · rw [openRecords, e]
    rfl
  · rw [openRecords, KeyTable.lookup_erase_self]
    rfl

theorem openRecords_takeBlock_ne (m : OpenBlockManager) {channelKey c : String}
    (h : c ≠ channelKey) : (m.takeBlock channelKey).2.openRecords c = m.openRecords c := by
  rw [takeBlock]
  rcases m.blocks.lookup channelKey with - | block
  · rfl
  · rw [openRecords, KeyTable.lookup_erase_ne m.blocks h, openRecords]

/-- Every open block holds records, but not enough to be sealed. -/
def Filling (limits : OpenBlockLimits) (m : OpenBlockManager) : Prop :=
  ∀ block ∈ m.blocks.rows,
    block.records.items ≠ [] ∧ block.records.items.length < limits.blockMessages

theorem Takes.filling (h : Takes m taken m') (hfill : m.Filling limits) : m'.Filling limits :=
  fun block hblock => hfill block (h.mem_blocks block hblock)

/-- `m₁` is `m` after a record went to its channel's block, before any block is taken. -/
structure Stored (limits : OpenBlockLimits) (m m₁ : OpenBlockManager) (record : CanonicalRecord) :
    Prop where
  own : ∃ l : IndexedList CanonicalRecord.eventKey,
    l.items = m.openRecords record.channelKey ∧
      m₁.openRecords record.channelKey = (l.upsert CanonicalRecord.shouldReplace record).items
  others : ∀ c, c ≠ record.channelKey → m₁.openRecords c = m.openRecords c
  sized : ∀ block ∈ m₁.blocks.rows, block.records.items ≠ [] ∧
    block.records.items.length ≤ limits.blockMessages
  blocks : ∀ block ∈ m₁.blocks.rows, block.channelKey ≠ record.channelKey → block ∈ m.blocks.rows

/-- `settle` seals the one block that may be full. -/
theorem filling_settle {channelKey : String}
    (hsized : ∀ block ∈ m.blocks.rows, block.records.items ≠ [] ∧
      block.records.items.length ≤ limits.blockMessages)
    (hothers : ∀ block ∈ m.blocks.rows, block.channelKey ≠ channelKey →
      block.records.items.length < limits.blockMessages) :
    (settle limits m channelKey).2.Filling limits := by
  -- `enforce_bounds` only takes blocks
  have hbounds : ∀ (rounds : ℕ) (m₁ : OpenBlockManager) (taken : List (List CanonicalRecord)),
      m₁.Filling limits → (enforceBounds limits rounds m₁ taken).2.Filling limits := by
    intro rounds m₁ taken hfill
    obtain ⟨more, -, htakes⟩ := takes_enforceBounds limits rounds m₁ taken
    exact htakes.filling hfill
  unfold settle
  split
  · rename_i hlookup
    refine hbounds _ _ _ fun block hblock => ⟨(hsized block hblock).1, ?_⟩
    exact hothers block hblock (KeyTable.lookup_eq_none.mp hlookup block hblock)
  · rename_i block hlookup
    split
    · refine hbounds _ _ _ fun b hb => ?_
      obtain ⟨hb, hne⟩ := mem_blocks_takeBlock.mp hb
      exact ⟨(hsized b hb).1, hothers b hb hne⟩
    · rename_i hshort
      obtain ⟨hblock, rfl⟩ := KeyTable.lookup_eq_some.mp hlookup
      refine hbounds _ _ _ fun b hb => ⟨(hsized b hb).1, ?_⟩
      by_cases hkey : b.channelKey = block.channelKey
      · obtain rfl := m.blocks.eq_of_key hb hblock hkey
        exact not_le.mp hshort
      · exact hothers b hb hkey

theorem Stored.of_put (block : OpenBlock) (hchannel : block.channelKey = record.channelKey)
    (hitems : block.records.items =
      ((m.blockOf record.channelKey nowMs).records.upsert CanonicalRecord.shouldReplace
        record).items)
    (hlength : block.records.items.length ≤ limits.blockMessages) (hfill : m.Filling limits)
    (estimatedBytes openMessages : ℕ) :
    Stored limits m ⟨m.blocks.put block, estimatedBytes, openMessages⟩ record where
  own := by
    refine ⟨_, (m.openRecords_eq_blockOf record.channelKey nowMs).symm, ?_⟩
    rw [← hchannel, openRecords_put_self, hitems, hchannel]
  others := fun c hc => openRecords_put_ne (by rw [hchannel]; exact hc.symm) _ _
  sized := by
    intro b hb
    rcases KeyTable.mem_put.mp hb with ⟨hb, -⟩ | rfl
    · exact ⟨(hfill b hb).1, (hfill b hb).2.le⟩
    · refine ⟨fun hempty => ?_, hlength⟩
      have hmem : record.eventKey ∈ b.records.items.map CanonicalRecord.eventKey := by
        rw [hitems]
        exact IndexedList.mem_keys_upsert.mpr (.inr rfl)
      rw [hempty] at hmem
      cases hmem
  blocks := fun b hb hne =>
    ((KeyTable.mem_put.mp hb).resolve_right fun heq => hne (heq ▸ hchannel)).1

theorem Stored.settle {m₁ : OpenBlockManager} (h : Stored limits m m₁ record)
    (hfill : m.Filling limits)
    (hsettle : OpenBlockManager.settle limits m₁ record.channelKey = (taken, m')) :
    Takes m₁ taken m' ∧ m'.Filling limits := by
  have htakes := takes_settle limits m₁ record.channelKey
  have hfilling := filling_settle h.sized fun block hblock hne =>
    (hfill block (h.blocks block hblock hne)).2
  rw [hsettle] at htakes hfilling
  exact ⟨htakes, hfilling⟩

/-- **What an append does**: the record goes to its block, and then blocks are taken. -/
theorem append_stores {sealed : List (List CanonicalRecord)} (hfill : m.Filling limits)
    (h : m.append limits record nowMs = .ok (sealed, m')) :
    ∃ m₁, Stored limits m m₁ record ∧ Takes m₁ sealed m' ∧ m'.Filling limits := by
  have hchannel := m.channelKey_blockOf record.channelKey nowMs
  -- the block that the append finds is short
  have hshort : (m.blockOf record.channelKey nowMs).records.items.length <
      limits.blockMessages := by
    rw [blockOf]
    rcases e : m.blocks.lookup record.channelKey with - | block
    · exact limits.blockMessages_pos
    · exact (hfill block (KeyTable.mem_of_lookup e)).2
  obtain ⟨-, hcase⟩ := append_cases h
  cases hcase with
  | kept hindex hitem hworse =>
    -- a copy that is not better changes nothing
    have hitems := IndexedList.items_upsert_of_not_better hindex hitem hworse
    refine ⟨m, ⟨⟨_, (m.openRecords_eq_blockOf record.channelKey nowMs).symm, ?_⟩,
      fun _ _ => rfl, fun b hb => ⟨(hfill b hb).1, (hfill b hb).2.le⟩, fun b hb _ => hb⟩,
      .refl m, hfill⟩
    rw [hitems]
    exact m.openRecords_eq_blockOf record.channelKey nowMs
  | @replaced i retained hindex hitem hbetter =>
    -- the retained copy makes way for a better one
    have hitems := IndexedList.items_upsert_of_better hindex hitem hbetter
    have hlength : ((m.blockOf record.channelKey nowMs).records.items.set i record).length <
        limits.blockMessages := by
      rwa [List.length_set]
    have hstored : Stored limits m (m.withUpgrade record retained nowMs i hindex) record :=
      .of_put ((m.blockOf record.channelKey nowMs).upgrade i retained record hchannel.symm hindex)
        hchannel hitems.symm hlength.le hfill _ _
    refine ⟨_, hstored, .refl _, fun b hb => ⟨(hstored.sized b hb).1, ?_⟩⟩
    rcases KeyTable.mem_put.mp hb with ⟨hb, -⟩ | rfl
    · exact (hfill b hb).2
    · exact hlength
  | new hindex hsettle =>
    have hlength : ((m.blockOf record.channelKey nowMs).records.items ++ [record]).length ≤
        limits.blockMessages := by
      rw [List.length_append]
      exact hshort
    have hstored : Stored limits m (m.withNew record nowMs hindex) record :=
      .of_put ((m.blockOf record.channelKey nowMs).push record nowMs hchannel.symm hindex)
        hchannel (IndexedList.items_upsert_of_none hindex).symm hlength hfill _ _
    exact ⟨_, hstored, hstored.settle hfill hsettle⟩

/-! ### Calls -/

/-- `entry(..).or_insert_with(..)`, the first thing an append does to the map. -/
def openEntry (m : OpenBlockManager) (channelKey : String) (nowMs : ℕ) : OpenBlockManager :=
  match m.blocks.lookup channelKey with
  | some _ => m
  | none => { m with blocks := m.blocks.put (.fresh channelKey nowMs) }

/-- The one error of an append: the clock is behind the channel's block. -/
theorem clock_of_append_eq_error {error : OpenBlockError}
    (h : m.append limits record nowMs = .error error) :
    nowMs < (m.blockOf record.channelKey nowMs).lastAppendAtMs := by
  unfold append at h
  dsimp only at h
  split at h
  · assumption
  split at h
  · split at h
    · cases h
    · split at h <;> cases h
  · cases h

/-- A clock error concerns a block that was open, so no entry was made. -/
theorem openEntry_of_append_eq_error {error : OpenBlockError}
    (h : m.append limits record nowMs = .error error) :
    m.openEntry record.channelKey nowMs = m := by
  have hclock := clock_of_append_eq_error h
  rw [openEntry]
  rcases e : m.blocks.lookup record.channelKey with - | block
  · -- the clock of a block that is created here is `nowMs`
    rw [blockOf, e] at hclock
    exact absurd hclock (lt_irrefl nowMs)
  · rfl

end OpenBlockManager

/-- A call of the open blocks; `order` is the order in which the hash map yields its
channels. -/
inductive OpenBlockCall
  | append (record : CanonicalRecord) (nowMs : ℕ)
  | sealDue (nowMs : ℕ) (order : List String)
  | sealAll (order : List String)

/-- The vectors that a call returns, and the manager that it leaves. -/
def OpenBlockManager.call (limits : OpenBlockLimits) (m : OpenBlockManager) :
    OpenBlockCall → List (List CanonicalRecord) × OpenBlockManager
  | .append record nowMs =>
    match m.append limits record nowMs with
    | .ok result => result
    | .error _ => ([], m.openEntry record.channelKey nowMs)
  | .sealDue nowMs order => m.sealDue limits nowMs order
  | .sealAll order => m.sealAll order

/-- All vectors that a run of calls returns. -/
def OpenBlockManager.returnedBy (limits : OpenBlockLimits) :
    OpenBlockManager → List OpenBlockCall → List (List CanonicalRecord)
  | _, [] => []
  | m, c :: calls => (m.call limits c).1 ++ (m.call limits c).2.returnedBy limits calls

/-! ### Epochs -/

/-- An epoch that ended: its channel, the appends that succeeded in it, and the vector that
was returned. -/
structure Epoch where
  channelKey : Option String
  appended : List CanonicalRecord
  returned : List CanonicalRecord
  deriving DecidableEq

/-- What an observer notes: the appends that succeeded, those of each channel since its block
was last taken, and the epochs that ended. -/
structure Epochs where
  accepted : List CanonicalRecord
  current : String → List CanonicalRecord
  ended : List Epoch

namespace Epochs

/-- Before any call. -/
def start : Epochs := ⟨[], fun _ => [], []⟩

/-- An append succeeded. -/
def accept (e : Epochs) (record : CanonicalRecord) : Epochs :=
  { e with
    accepted := e.accepted ++ [record]
    current := Function.update e.current record.channelKey
      (e.current record.channelKey ++ [record]) }

/-- A vector was returned, which ends the epoch of its channel. -/
def close (e : Epochs) (returned : List CanonicalRecord) : Epochs :=
  match returned.head? with
  | none => { e with ended := e.ended ++ [⟨none, [], returned⟩] }
  | some r =>
    { e with
      current := Function.update e.current r.channelKey []
      ended := e.ended ++ [⟨some r.channelKey, e.current r.channelKey, returned⟩] }

section Close

variable {returned : List CanonicalRecord} {c : String} (hne : returned ≠ [])
  (hchannel : ∀ r ∈ returned, r.channelKey = c)

include hne hchannel

theorem ended_close (e : Epochs) :
    (e.close returned).ended = e.ended ++ [⟨some c, e.current c, returned⟩] := by
  obtain ⟨r, rest, rfl⟩ := List.exists_cons_of_ne_nil hne
  obtain rfl := hchannel r List.mem_cons_self
  rfl

theorem current_close (e : Epochs) :
    (e.close returned).current = Function.update e.current c [] := by
  obtain ⟨r, rest, rfl⟩ := List.exists_cons_of_ne_nil hne
  obtain rfl := hchannel r List.mem_cons_self
  rfl

end Close

@[simp] theorem accepted_close (e : Epochs) (returned : List CanonicalRecord) :
    (e.close returned).accepted = e.accepted := by
  unfold close
  split <;> rfl

theorem returned_close (e : Epochs) (returned : List CanonicalRecord) :
    (e.close returned).ended.map Epoch.returned = e.ended.map Epoch.returned ++ [returned] := by
  unfold close
  split <;> simp

theorem returned_foldl_close (taken : List (List CanonicalRecord)) (e : Epochs) :
    (taken.foldl close e).ended.map Epoch.returned = e.ended.map Epoch.returned ++ taken := by
  induction taken generalizing e with
  | nil => simp
  | cons returned taken ih =>
    rw [List.foldl_cons, ih, returned_close, List.append_assoc]
    rfl

theorem current_accept (e : Epochs) (record : CanonicalRecord) :
    (e.accept record).current = Function.update e.current record.channelKey
      (e.current record.channelKey ++ [record]) := rfl

/-- What an observer notes of a call to `m` before its vectors. -/
def note (limits : OpenBlockLimits) (m : OpenBlockManager) (e : Epochs) : OpenBlockCall → Epochs
  | .append record nowMs =>
    match m.append limits record nowMs with
    | .ok _ => e.accept record
    | .error _ => e
  | .sealDue _ _ => e
  | .sealAll _ => e

end Epochs

/-- The open blocks with what was observed of them. -/
structure Observed where
  manager : OpenBlockManager
  epochs : Epochs

/-- A call. -/
def Observed.step (limits : OpenBlockLimits) (s : Observed) (c : OpenBlockCall) : Observed where
  manager := (s.manager.call limits c).2
  epochs := (s.manager.call limits c).1.foldl Epochs.close (s.epochs.note limits s.manager c)

/-- `records` are what `appended` leaves: each event key once, with the earliest of its copies of
the highest fidelity. -/
abbrev Condensed (appended records : List CanonicalRecord) : Prop :=
  Earliest CanonicalRecord.eventKey (fun r => r.fidelity.rank) appended records

/-- What holds of an epoch that ended. -/
structure Epoch.Sealed (limits : OpenBlockLimits) (epoch : Epoch) : Prop where
  nonempty : epoch.returned ≠ []
  sized : epoch.returned.length ≤ limits.blockMessages
  channel : ∃ c, epoch.channelKey = some c ∧ ∀ r ∈ epoch.returned, r.channelKey = c
  condensed : Condensed epoch.appended epoch.returned

/-- **Conservation.**  The ended epochs of a channel and the current one are the appends of the
channel, cut into parts, and each part is condensed in one vector or in the open block. -/
structure Conserved (limits : OpenBlockLimits) (m : OpenBlockManager) (e : Epochs) : Prop where
  ended : ∀ epoch ∈ e.ended, epoch.Sealed limits
  current : ∀ c, Condensed (e.current c) (m.openRecords c)
  parts : ∀ c, ((e.ended.filter fun epoch => epoch.channelKey = some c).flatMap Epoch.appended) ++
    e.current c = e.accepted.filter fun r => r.channelKey = c

namespace Conserved

open OpenBlockManager

variable {limits : OpenBlockLimits} {m m' : OpenBlockManager} {e : Epochs}
  {taken : List (List CanonicalRecord)} {record : CanonicalRecord}

/-- **One take** ends the epoch of the block's channel. -/
theorem take (h : Conserved limits m e) {block : OpenBlock} (hblock : block ∈ m.blocks.rows)
    (hsized : block.records.items ≠ [] ∧ block.records.items.length ≤ limits.blockMessages) :
    Conserved limits (m.takeBlock block.channelKey).2 (e.close block.records.items) := by
  have hended := e.ended_close hsized.1 block.channel
  have hcurrent := e.current_close hsized.1 block.channel
  refine ⟨fun epoch hepoch => ?_, fun c => ?_, fun c => ?_⟩
  · rw [hended] at hepoch
    rcases List.mem_append.mp hepoch with hepoch | hepoch
    · exact h.ended epoch hepoch
    · rw [List.mem_singleton.mp hepoch]
      refine ⟨hsized.1, hsized.2, ⟨block.channelKey, rfl, block.channel⟩, ?_⟩
      rw [← openRecords_of_mem hblock]
      exact h.current block.channelKey
  · rw [hcurrent]
    by_cases hc : c = block.channelKey
    · subst hc
      rw [Function.update_self, openRecords_takeBlock_self]
      exact .nil
    · rw [Function.update_of_ne hc, openRecords_takeBlock_ne m hc]
      exact h.current c
  · -- the current epoch of the channel becomes its last ended one
    rw [hended, hcurrent, Epochs.accepted_close, ← h.parts c, List.filter_append,
      List.flatMap_append]
    by_cases hc : c = block.channelKey
    · subst hc
      simp
    · simp [Function.update_of_ne hc, Ne.symm hc]

/-- **A chain of takes** ends the epochs of the channels whose blocks it takes. -/
theorem takes (htakes : Takes m taken m') (h : Conserved limits m e)
    (hsized : ∀ block ∈ m.blocks.rows, block.records.items ≠ [] ∧
      block.records.items.length ≤ limits.blockMessages) :
    Conserved limits m' (taken.foldl Epochs.close e) := by
  induction htakes generalizing e with
  | refl m => exact h
  | take hblock rest ih =>
    exact ih (h.take hblock (hsized _ hblock)) fun b hb => hsized b (mem_blocks_takeBlock.mp hb).1

/-- **A record that is stored** joins the epoch of its channel. -/
theorem store {m₁ : OpenBlockManager} (hstored : Stored limits m m₁ record)
    (h : Conserved limits m e) : Conserved limits m₁ (e.accept record) := by
  refine ⟨h.ended, fun c => ?_, fun c => ?_⟩
  · rw [Epochs.current_accept]
    by_cases hc : c = record.channelKey
    · subst hc
      -- the upsert condenses the epoch with the record behind it
      obtain ⟨l, hl, hopen⟩ := hstored.own
      have hcurrent := h.current record.channelKey
      rw [← hl] at hcurrent
      rw [Function.update_self, hopen]
      refine hcurrent.upsert (fun r q hkey => ?_) record
      simp [CanonicalRecord.shouldReplace, hkey]
    · rw [Function.update_of_ne hc, hstored.others c hc]
      exact h.current c
  · rw [Epochs.current_accept, Epochs.accept, List.filter_append, ← h.parts c]
    by_cases hc : c = record.channelKey
    · subst hc
      simp
    · simp [Function.update_of_ne hc, Ne.symm hc]

end Conserved

namespace Observed

variable {limits : OpenBlockLimits}

/-- **Every call conserves records.** -/
theorem step_conserved (s : Observed) (c : OpenBlockCall)
    (h : s.manager.Filling limits ∧ Conserved limits s.manager s.epochs) :
    (s.step limits c).manager.Filling limits ∧
      Conserved limits (s.step limits c).manager (s.step limits c).epochs := by
  obtain ⟨hfill, h⟩ := h
  have hsized : ∀ block ∈ s.manager.blocks.rows, block.records.items ≠ [] ∧
      block.records.items.length ≤ limits.blockMessages :=
    fun block hblock => ⟨(hfill block hblock).1, (hfill block hblock).2.le⟩
  cases c with
  | append record nowMs =>
    rw [step, Epochs.note, OpenBlockManager.call]
    rcases happend : s.manager.append limits record nowMs with error | ⟨sealed, m'⟩
    · -- a clock error
      rw [OpenBlockManager.openEntry_of_append_eq_error happend]
      exact ⟨hfill, h⟩
    · obtain ⟨m₁, hstored, htakes, hfill'⟩ := OpenBlockManager.append_stores hfill happend
      exact ⟨hfill', .takes htakes (h.store hstored) hstored.sized⟩
  | sealDue nowMs order =>
    have htakes := OpenBlockManager.takes_takeAll (order.filter fun channelKey =>
      (s.manager.blocks.lookup channelKey).any (OpenBlock.due limits nowMs)) s.manager
    exact ⟨htakes.filling hfill, h.takes htakes hsized⟩
  | sealAll order =>
    have htakes := OpenBlockManager.takes_takeAll order s.manager
    exact ⟨htakes.filling hfill, h.takes htakes hsized⟩

/-- The ended epochs hold what the calls returned. -/
theorem returned_step (s : Observed) (c : OpenBlockCall) :
    (s.step limits c).epochs.ended.map Epoch.returned =
      s.epochs.ended.map Epoch.returned ++ (s.manager.call limits c).1 := by
  rw [step, Epochs.returned_foldl_close]
  congr 2
  cases c with
  | append record nowMs =>
    rw [Epochs.note]
    split <;> rfl
  | sealDue nowMs order => rfl
  | sealAll order => rfl

theorem returned_run (calls : List OpenBlockCall) (s : Observed) :
    (calls.foldl (step limits) s).epochs.ended.map Epoch.returned =
      s.epochs.ended.map Epoch.returned ++ s.manager.returnedBy limits calls := by
  induction calls generalizing s with
  | nil => simp [OpenBlockManager.returnedBy]
  | cons c calls ih =>
    rw [List.foldl_cons, ih, returned_step, List.append_assoc]
    rfl

/-- No open block, and nothing observed. -/
def start : Observed := ⟨.new, .start⟩

theorem start_conserved : start.manager.Filling limits ∧
    Conserved limits start.manager start.epochs := by
  refine ⟨?_, ?_, fun c => .nil, fun c => rfl⟩
  · rintro block ⟨⟩
  · rintro epoch ⟨⟩

/-- **Open blocks conserve records.**  After every run of appends and seals, the appends that
succeeded are cut into epochs, every vector that was returned condenses one of them, and the
open block of each channel condenses the epoch that has not ended; a clock error changes
nothing. -/
theorem open_blocks_conserve_records (limits : OpenBlockLimits) (calls : List OpenBlockCall) :
    let s := calls.foldl (step limits) start
    Conserved limits s.manager s.epochs ∧
      s.epochs.ended.map Epoch.returned = OpenBlockManager.new.returnedBy limits calls ∧
      ∀ record nowMs error, s.manager.append limits record nowMs = .error error →
        s.step limits (.append record nowMs) = s := by
  intro s
  have hrun : s.manager.Filling limits ∧ Conserved limits s.manager s.epochs := by
    refine List.foldlRecOn calls (step limits) (motive := fun s =>
      s.manager.Filling limits ∧ Conserved limits s.manager s.epochs) start_conserved ?_
    exact fun s hs c _ => s.step_conserved c hs
  refine ⟨hrun.2, ?_, fun record nowMs error herror => ?_⟩
  · exact returned_run calls start
  · rw [step, OpenBlockManager.call, Epochs.note, herror]
    dsimp only
    rw [OpenBlockManager.openEntry_of_append_eq_error herror]
    rfl

end Observed

end RecentMessages
