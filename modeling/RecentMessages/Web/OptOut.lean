/-
RecentMessages/Web/OptOut.lean

What an opt-out erases.

While a channel is blocked the sealed store has none of its records and drops what
is appended.  But the open blocks and the vectors in flight are left alone, and so
are the journal rows: a record of the channel that is open when the block is lifted
is returned by the next read (`opt_out_remembers`), and one that is sealed or
replayed later comes back with it.  `opt_out_erases` says that these are the only
ways.
-/
import RecentMessages.Library.Runs
import RecentMessages.Web.Purge

namespace RecentMessages

/-- The records that an action brings into the sealed store from outside ingest. -/
def NodeAction.stored : NodeAction → List CanonicalRecord
  | .store (.appendChannelBatches batches) => batches.flatten
  | _ => []

namespace Node

variable {β : Type} (cfg : Settings β)

/-- The batch that a step commits to the journal. -/
def acceptedBatch (n : Node β) : NodeAction → Option RawSourceBatch
  | .ingest (.accept batch nowMs) =>
    if n.ingest.task.accepting = none then
      (n.apply cfg (.ingest (.accept batch nowMs))).ingest.task.accepting
    else none
  | _ => none

/-- The records that are accepted in the course of a run. -/
def acceptedRecords : Node β → List NodeAction → List CanonicalRecord
  | _, [] => []
  | n, a :: actions =>
    ((n.acceptedBatch cfg a).map (·.records)).getD [] ++ acceptedRecords (n.apply cfg a) actions

/-- The step brings no record of the channel that is in `old`, neither into the
open blocks nor into the sealed store. -/
def BringsNew (c : String) (old : List CanonicalRecord) (n : Node β) (a : NodeAction) : Prop :=
  ∀ r ∈ (n.appended a).toList ++ a.stored, r.channelKey = c → r ∉ old

instance (c : String) (old : List CanonicalRecord) (n : Node β) (a : NodeAction) :
    Decidable (BringsNew c old n a) :=
  inferInstanceAs (Decidable (∀ r ∈ (n.appended a).toList ++ a.stored, _))

/-- The node holds no record of the channel that is in `old`. -/
def Forgets (c : String) (old : List CanonicalRecord) (n : Node β) : Prop :=
  ∀ r ∈ n.ingest.held cfg.codec, r.channelKey = c → r ∉ old

variable {cfg} {n n' : Node β} {a : NodeAction} {r : CanonicalRecord}
variable {c : String} {old : List CanonicalRecord}

/-- **What is held after a step** was held before, or is brought by it. -/
theorem Change.mem_held (h : Change cfg n a n') (hn : n.Sound cfg.codec)
    (hr : r ∈ n'.ingest.held cfg.codec) :
    r ∈ n.ingest.held cfg.codec ∨ r ∈ (n.appended a).toList ++ a.stored := by
  have hbrought : n.appended a = some r → r ∈ (n.appended a).toList ++ a.stored := by
    intro happended
    rw [happended]
    exact List.mem_cons_self
  simp only [Ingest.mem_held] at hr ⊢
  rcases hr with hr | hr | hr
  · rcases h.mem_sealedRecords hn hr with hr | hr | ⟨batches, rfl, hr⟩
    · exact .inl (.inl hr)
    · exact .inl (.inr (.inl hr))
    · exact .inr (List.mem_append_right _ hr)
  · rcases h.mem_inFlight hr with hr | hr | hr
    · exact .inl (.inr (.inl hr))
    · exact .inl (.inr (.inr hr))
    · exact .inr (hbrought hr)
  · rcases h.mem_openBlocks hr with hr | hr
    · exact .inl (.inr (.inr hr))
    · exact .inr (hbrought hr)

/-- **A step that brings nothing old** keeps a node that holds nothing old. -/
theorem forgets_apply (hn : n.Sound cfg.codec) (h : n.Forgets cfg c old)
    (ha : BringsNew c old n a) : (n.apply cfg a).Forgets cfg c old := by
  intro r hr hc
  rcases change_apply hn a with heq | hchange
  · rw [heq] at hr
    exact h r hr hc
  · rcases hchange.mem_held hn hr with hr | hr
    · exact h r hr hc
    · exact ha r hr hc

theorem forgets_run {actions more : List NodeAction} (h : (run cfg actions).Forgets cfg c old)
    (hsteps : Along (apply cfg) (BringsNew c old) (run cfg actions) more) :
    (run cfg (actions ++ more)).Forgets cfg c old := by
  rw [run_append]
  have hboth := hsteps.invariant (I := fun n : Node β => n.Sound cfg.codec ∧ n.Forgets cfg c old)
    (fun n a hn ha => ⟨sound_apply hn.1 a, forgets_apply hn.1 hn.2 ha⟩) ⟨sound_run cfg actions, h⟩
  exact hboth.2

/-- A blocked channel has no sealed record, so it is enough to look at the open
blocks and at what is in flight. -/
theorem forgets_of_blocked (hn : n.Sound cfg.codec) (hblocked : n.ingest.db.blocked c = true)
    (h : ∀ r ∈ n.ingest.task.inFlight ++ n.ingest.openBlocks.records, r.channelKey = c → r ∉ old) :
    n.Forgets cfg c old := by
  intro r hr hc
  rcases List.mem_append.mp hr with hr | hr
  · have hnot := (hn.kept.compliant r hr).1
    rw [hc, hblocked] at hnot
    cases hnot
  · exact h r hr hc

/-- **What an opt-out erases.**  After `before` the channel is blocked; the run goes
on with the step that lifts the block.  If no record of the channel that was accepted
before is open or in flight at that moment, and no later step brings one back, then no
read returns one.  The read visits the store after `toStore` and the open blocks
after `toOpen`. -/
theorem opt_out_erases (cfg : Settings β) (before toStore toOpen : List NodeAction)
    (userLogin : String)
    (hblocked : (run cfg before).ingest.db.blocked (toAsciiLowercase userLogin) = true)
    (hmemory : ∀ r ∈ (run cfg before).ingest.task.inFlight ++
      (run cfg before).ingest.openBlocks.records,
        r.channelKey = toAsciiLowercase userLogin → r ∉ acceptedRecords cfg fresh before)
    (hsteps : Along (apply cfg)
      (BringsNew (toAsciiLowercase userLogin) (acceptedRecords cfg fresh before))
      (run cfg before) (toStore ++ toOpen))
    (channelLogin : String) (hlogin : toAsciiLowercase channelLogin = toAsciiLowercase userLogin)
    (options : GetRecentMessagesQueryOptions) (maxBufferSize : ℕ) :
    ∃ records, read cfg (run cfg (before ++ toStore)) (run cfg (before ++ (toStore ++ toOpen)))
        channelLogin options maxBufferSize = .ok records ∧
      ∀ r ∈ records, r ∉ acceptedRecords cfg fresh before := by
  have hforgets := forgets_of_blocked (sound_run cfg before) hblocked hmemory
  have hstored := forgets_run hforgets (Along.append.mp hsteps).1
  have hopened := forgets_run hforgets hsteps
  have hsound := sound_run cfg (before ++ toStore)
  obtain ⟨records, hread⟩ := read_eq_ok hsound (run cfg (before ++ (toStore ++ toOpen))) channelLogin
    options maxBufferSize
  refine ⟨records, hread, fun r hr => ?_⟩
  obtain ⟨hvisible, hc, -⟩ := visible_of_mem_queryLocalMessages hsound.kept.readable hread hr
  rw [hlogin] at hc
  rcases List.mem_append.mp hvisible with hsealed | hopen
  · exact hstored r (Ingest.mem_held.mpr (.inl hsealed)) hc
  · exact hopened r (Ingest.mem_held.mpr (.inr (.inr hopen))) hc

/-! ### An opt-out that remembers

A batch is open while its channel opts out and in again. -/

/-- A checkpoint of one channel and one stream. -/
def checkpointedActions : List NodeAction :=
  [.ingest (.checkpoint ["quiet"]), .ingest .advance, .ingest (.retire [("irc", "a")]),
    .ingest .advance, .ingest .advance]

/-- The channel opts out, and in again up to the access that lifts the block. -/
def toggledActions : List NodeAction :=
  setIgnored "Quiet" true 15 ++ [.control (.setChannelIgnored "Quiet" false 16)]

/-- The access that lifts the block. -/
def liftingActions : List NodeAction := [.store (.setChannelBlocked "quiet" false)]

theorem opt_out_erases_sample : ∃ records, read .plain
      (run .plain (acceptedActions ++ checkpointedActions ++ toggledActions ++
        (liftingActions ++ lateActions)))
      (run .plain (acceptedActions ++ checkpointedActions ++ toggledActions ++
        (liftingActions ++ lateActions ++ []))) "quiet" sampleOptions 800 = .ok records ∧
      ∀ r ∈ records, r ∉ acceptedRecords .plain fresh
        (acceptedActions ++ checkpointedActions ++ toggledActions) :=
  opt_out_erases .plain (acceptedActions ++ checkpointedActions ++ toggledActions)
    (liftingActions ++ lateActions) [] "Quiet" (by decide +kernel) (by decide +kernel)
    (by decide +kernel) "quiet" (by decide +kernel) sampleOptions 800

/-- After the access of `set_ignored` that lifts a block, no read of the channel
returns a record that was accepted before it. -/
def OptOutErases (cfg : Settings β) : Prop :=
  ∀ (before toStore toOpen : List NodeAction) (userLogin channelLogin : String)
    (options : GetRecentMessagesQueryOptions) (maxBufferSize : ℕ),
    (run cfg before).ingest.task.running = true →
    (run cfg before).ingest.db.blocked (toAsciiLowercase userLogin) = true →
    toAsciiLowercase channelLogin = toAsciiLowercase userLogin →
    ∀ records, read cfg
        (run cfg (before ++ .store (.setChannelBlocked (toAsciiLowercase userLogin) false) :: toStore))
        (run cfg (before ++ .store (.setChannelBlocked (toAsciiLowercase userLogin) false) ::
          (toStore ++ toOpen))) channelLogin options maxBufferSize = .ok records →
      ∀ r ∈ records, r ∉ acceptedRecords cfg fresh before

/-- **An open record survives an opt-out**: the read after it returns both records
that were accepted before. -/
theorem opt_out_remembers : ¬ OptOutErases .plain := by
  intro h
  have hread : read .plain
      (run .plain (acceptedActions ++ toggledActions ++
        .store (.setChannelBlocked (toAsciiLowercase "Quiet") false) :: []))
      (run .plain (acceptedActions ++ toggledActions ++
        .store (.setChannelBlocked (toAsciiLowercase "Quiet") false) :: ([] ++ [])))
      "quiet" sampleOptions 800 = .ok Ingest.firstBatch.records := by
    decide +kernel
  have hnew := h (acceptedActions ++ toggledActions) [] [] "Quiet" "quiet" sampleOptions 800
    (by decide +kernel) (by decide +kernel) (by decide +kernel) _ hread
    (Ingest.sampleRecord "irc" 1) (by decide)
  exact hnew (by decide +kernel)

end Node

end RecentMessages
