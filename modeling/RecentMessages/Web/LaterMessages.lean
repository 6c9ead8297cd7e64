/-
RecentMessages/Web/LaterMessages.lean

What a purge deletes too much.

The cutoff of a purge is taken first, on this node or on the owner of the policy;
the accesses that delete come later (`throughPurge`: `purge_messages`, and
`AppliedPolicies::apply` when it raises the cutoff, make the same two), and both
drop the channel as a whole.  A message that was received after the cutoff and is
sealed or open by then goes with the others (`purge_deletes_later`), although the live
coverage that `purge_messages` begins at the cutoff covers it.

`Observed` is a node together with the records of the channel that it has ingested.
In a run in which the two accesses find no copy of a record that was received after
the cutoff, and in which no other step loses one, the node holds all of them when
the purge has finished (`purge_keeps_later`).
-/
import RecentMessages.Web.Purge

namespace RecentMessages

/-- The access deletes a channel, from the sealed store or from the open blocks. -/
def NodeAction.purges : NodeAction → Bool
  | .store (.purgeChannel _ _) => true
  | .purgeOpenBlocks _ => true
  | _ => false

namespace Node

variable {β : Type} (cfg : Settings β)

/-- A node, and the records of the channel that it has appended to its open blocks. -/
structure Observed (β : Type) where
  node : Node β
  ingested : List CanonicalRecord

/-- One step of an observed node; an append that ends the process ingests nothing. -/
def observe (c : String) (s : Observed β) (a : NodeAction) : Observed β where
  node := s.node.apply cfg a
  ingested :=
    if (s.node.apply cfg a).ingest.task.running then
      s.ingested ++ (s.node.appended a).toList.filter (·.channelKey = c)
    else s.ingested

/-- A run from empty stores, observed. -/
def observed (c : String) (actions : List NodeAction) : Observed β :=
  actions.foldl (observe cfg c) ⟨.fresh, []⟩

/-- The records that an access of a purge deletes. -/
def deleted (n : Node β) : NodeAction → List CanonicalRecord
  | .store (.purgeChannel channelKey _) =>
    (n.ingest.db.sealedRecords cfg.codec).filter (·.channelKey = channelKey)
  | .purgeOpenBlocks channelLogin =>
    n.ingest.openBlocks.records.filter (·.channelKey = toAsciiLowercase channelLogin)
  | _ => []

/-- An access of a purge finds no copy of the event; any other step leaves the process
running and does not lose the event. -/
def Spares (e : String × EventKey) (n : Node β) (a : NodeAction) : Prop :=
  if a.purges then ¬ Ingest.HasEvent (n.deleted cfg a) e
  else (n.apply cfg a).ingest.task.running = true ∧
    ¬ Ingest.Loses cfg.codec n.ingest (n.apply cfg a).ingest e

instance (e : String × EventKey) (n : Node β) (a : NodeAction) : Decidable (Spares cfg e n a) :=
  inferInstanceAs (Decidable (if a.purges then ¬ Ingest.HasEvent (n.deleted cfg a) e else _ ∧ ¬ _))

/-- The step spares the records that were received after the cutoff. -/
def SparesLater (cutoffMs : ℤ) (s : Observed β) (a : NodeAction) : Prop :=
  ∀ r ∈ s.ingested, cutoffMs < r.receivedAtMs → Spares cfg r.event s.node a

instance (cutoffMs : ℤ) (s : Observed β) (a : NodeAction) :
    Decidable (SparesLater cfg cutoffMs s a) :=
  inferInstanceAs (Decidable (∀ r ∈ s.ingested, _))

variable {cfg} {n n' : Node β} {a : NodeAction} {c : String} {cutoffMs : ℤ}

theorem node_observed (actions : List NodeAction) :
    (observed cfg c actions).node = run cfg actions := by
  have hfold : ∀ s : Observed β,
      (actions.foldl (observe cfg c) s).node = actions.foldl (apply cfg) s.node := by
    induction actions with
    | nil => exact fun _ => rfl
    | cons a actions ih => exact fun s => ih (observe cfg c s a)
  exact hfold ⟨.fresh, []⟩

/-! ### What a step keeps -/

theorem hasEvent_deleted {records : List CanonicalRecord} {e : String × EventKey} {c : String}
    (h : Ingest.HasEvent records e)
    (hnot : ¬ Ingest.HasEvent (records.filter (·.channelKey = c)) e) :
    Ingest.HasEvent (records.filter (·.channelKey ≠ c)) e := by
  obtain ⟨r, hr, he⟩ := h
  refine ⟨r, List.mem_filter.mpr ⟨hr, decide_eq_true fun hc => hnot ⟨r, ?_, he⟩⟩, he⟩
  exact List.mem_filter.mpr ⟨hr, decide_eq_true hc⟩

/-- **An access of a purge** that finds no copy of the event keeps those that there are. -/
theorem held_of_purges {e : String × EventKey} (hpurges : a.purges = true)
    (hn : n.Sound cfg.codec) (hnot : ¬ Ingest.HasEvent (n.deleted cfg a) e)
    (h : Ingest.HasEvent (n.ingest.held cfg.codec) e) :
    Ingest.HasEvent ((n.apply cfg a).ingest.held cfg.codec) e := by
  by_cases hup : n.ingest.task.running = true
  · rw [Ingest.hasEvent_held] at h ⊢
    cases a with
    | store call =>
      cases call with
      | purgeChannel channelKey receivedAtMs =>
        have happly : n.apply cfg (.store (.purgeChannel channelKey receivedAtMs)) =
            n.withStore ((n.ingest.db.raiseCutoff channelKey receivedAtMs).dropChannel cfg.codec
              channelKey) := by
          rw [apply, step, if_pos hup]
          rfl
        rw [happly]
        refine h.imp_left fun hsealed => ?_
        obtain ⟨r, hr, he⟩ := hasEvent_deleted hsealed hnot
        obtain ⟨hr, hc⟩ := List.mem_filter.mp hr
        obtain ⟨row, hrow, hrrow⟩ := Db.mem_sealedRecords.mp hr
        refine ⟨r, Db.mem_sealedRecords.mpr ⟨row, Db.mem_dropChannel.mpr ⟨hrow, ?_⟩, hrrow⟩, he⟩
        rw [← (hn.kept.readable row hrow).channel hrrow]
        exact of_decide_eq_true hc
      | _ => cases hpurges
    | purgeOpenBlocks channelLogin =>
      rw [apply, step, if_pos hup]
      refine h.imp_right (Or.imp_right fun hopen => ?_)
      obtain ⟨r, hr, he⟩ := hasEvent_deleted hopen hnot
      obtain ⟨hr, hc⟩ := List.mem_filter.mp hr
      exact ⟨r, OpenBlockManager.mem_records_takeBlock.mpr ⟨hr, of_decide_eq_true hc⟩, he⟩
    | _ => cases hpurges
  · -- the process is down
    have happly : n.apply cfg a = n := by
      cases a with
      | store call => rw [apply, step, if_neg hup]; rfl
      | purgeOpenBlocks channelLogin => rw [apply, step, if_neg hup]; rfl
      | _ => cases hpurges
    rw [happly]
    exact h

/-- **A step that spares an event** keeps it. -/
theorem held_of_spares {e : String × EventKey} (hn : n.Sound cfg.codec)
    (hspares : Spares cfg e n a) (h : Ingest.HasEvent (n.ingest.held cfg.codec) e) :
    Ingest.HasEvent ((n.apply cfg a).ingest.held cfg.codec) e := by
  unfold Spares at hspares
  split at hspares
  · rename_i hpurges
    exact held_of_purges hpurges hn hspares h
  · exact Ingest.held_kept hspares.1 hspares.2 h

/-- A record that is ingested is held. -/
theorem held_of_appended {r : CanonicalRecord} (h : n.appended a = some r)
    (hup : (n.apply cfg a).ingest.task.running = true) :
    Ingest.HasEvent ((n.apply cfg a).ingest.held cfg.codec) r.event := by
  unfold appended at h
  split at h
  · have happly : (n.apply cfg (.ingest .advance)).ingest = n.ingest.apply cfg .advance := by
      show (((n.ingest.step cfg .advance).map fun ingest => { n with ingest }).getD n).ingest =
        (n.ingest.step cfg .advance).getD n.ingest
      cases n.ingest.step cfg .advance <;> rfl
    rw [happly] at hup ⊢
    exact Ingest.held_of_next h hup
  · cases h

/-! ### Runs -/

/-- An observed node that holds what it has ingested after the cutoff. -/
structure HoldsLater (cfg : Settings β) (cutoffMs : ℤ) (s : Observed β) : Prop where
  sound : s.node.Sound cfg.codec
  held : ∀ r ∈ s.ingested, cutoffMs < r.receivedAtMs →
    Ingest.HasEvent (s.node.ingest.held cfg.codec) r.event

theorem holdsLater_observe {s : Observed β} (h : HoldsLater cfg cutoffMs s)
    (ha : SparesLater cfg cutoffMs s a) : HoldsLater cfg cutoffMs (observe cfg c s a) := by
  have hold : ∀ r ∈ s.ingested, cutoffMs < r.receivedAtMs →
      Ingest.HasEvent ((s.node.apply cfg a).ingest.held cfg.codec) r.event :=
    fun r hr hlater => held_of_spares h.sound (ha r hr hlater) (h.held r hr hlater)
  refine ⟨sound_apply h.sound a, ?_⟩
  show ∀ r ∈ (observe cfg c s a).ingested, _
  rw [observe]
  split
  · rename_i hup
    intro r hr hlater
    rcases List.mem_append.mp hr with hr | hr
    · exact hold r hr hlater
    · exact held_of_appended (Option.mem_toList.mp (List.mem_of_mem_filter hr)) hup
  · exact hold

/-- **A run that spares what was received after the cutoff** holds it in the end. -/
theorem holdsLater_observed {actions : List NodeAction}
    (h : Along (observe cfg c) (SparesLater cfg cutoffMs) ⟨.fresh, []⟩ actions) :
    HoldsLater cfg cutoffMs (observed cfg c actions) :=
  h.invariant (fun _ _ hs ha => holdsLater_observe hs ha) ⟨sound_fresh cfg.codec, nofun⟩

/-- A copy of the event is sealed or open. -/
def Stored (cfg : Settings β) (n : Node β) (e : String × EventKey) : Prop :=
  Ingest.HasEvent (n.ingest.db.sealedRecords cfg.codec) e ∨
    Ingest.HasEvent n.ingest.openBlocks.records e

instance (cfg : Settings β) (n : Node β) (e : String × EventKey) : Decidable (Stored cfg n e) :=
  inferInstanceAs (Decidable (_ ∨ _))

/-- **When a purge keeps later messages.**  Take a run in which the accesses of the
purge find no copy of a record of the channel that was received after the cutoff and
ingested, no other step loses one, and none is in flight when the purge has finished.
Then all of them are sealed or open; and live coverage that was begun at the cutoff
covers no other ingested record, except those received in the very millisecond of the
cutoff. -/
theorem purge_keeps_later (cfg : Settings β) (before between after : List NodeAction)
    (userLogin : String) (cutoffMs : ℤ)
    (hsteps : Along (observe cfg (toAsciiLowercase userLogin)) (SparesLater cfg cutoffMs)
      ⟨.fresh, []⟩ (throughPurge before between userLogin cutoffMs ++ after))
    (hflight : ∀ r ∈ (observed cfg (toAsciiLowercase userLogin)
        (throughPurge before between userLogin cutoffMs ++ after)).ingested,
      cutoffMs < r.receivedAtMs → ¬ Ingest.HasEvent (run cfg
        (throughPurge before between userLogin cutoffMs ++ after)).ingest.task.inFlight r.event) :
    (∀ r ∈ (observed cfg (toAsciiLowercase userLogin)
        (throughPurge before between userLogin cutoffMs ++ after)).ingested,
      cutoffMs < r.receivedAtMs →
        Stored cfg (run cfg (throughPurge before between userLogin cutoffMs ++ after)) r.event) ∧
    ∀ live ∈ (run cfg (throughPurge before between userLogin cutoffMs ++
        after)).control.liveCoverage.rows,
      live.channelLogin = toAsciiLowercase userLogin → live.startedAtMs = cutoffMs →
      ∀ r ∈ (observed cfg (toAsciiLowercase userLogin)
          (throughPurge before between userLogin cutoffMs ++ after)).ingested,
        live.startedAtMs ≤ r.receivedAtMs → r.receivedAtMs = cutoffMs ∨
          Stored cfg (run cfg (throughPurge before between userLogin cutoffMs ++ after)) r.event := by
  -- what is held and not in flight is stored
  have hstored : ∀ r ∈ (observed cfg (toAsciiLowercase userLogin)
      (throughPurge before between userLogin cutoffMs ++ after)).ingested,
      cutoffMs < r.receivedAtMs →
        Stored cfg (run cfg (throughPurge before between userLogin cutoffMs ++ after)) r.event := by
    intro r hr hlater
    have hheld := (holdsLater_observed hsteps).held r hr hlater
    rw [node_observed, Ingest.hasEvent_held] at hheld
    exact hheld.imp_right fun h => h.resolve_left (hflight r hr hlater)
  refine ⟨hstored, fun live _ _ hstarted r hr hcovered => ?_⟩
  rw [hstarted] at hcovered
  exact (eq_or_lt_of_le hcovered).imp Eq.symm (hstored r hr)

/-! ### A purge that deletes a later message -/

/-- A batch that arrives after the purge has dropped the open block, and the end of
`purge_messages`. -/
def finishActions (cutoffMs : ℤ) : List NodeAction :=
  lateActions ++ [.control (.beginLiveCoverage "Quiet" "direct-irc" cutoffMs)]

theorem purge_keeps_later_sample :
    Stored .plain (run .plain (throughPurge acceptedActions [] "Quiet" 5 ++ finishActions 5))
      (Ingest.sampleRecord "irc" 6).event :=
  (purge_keeps_later .plain acceptedActions [] (finishActions 5) "Quiet" 5 (by decide +kernel)
    (by decide +kernel)).1 (Ingest.sampleRecord "irc" 6) (by decide +kernel) (by decide)

/-- A step of ingest or a start of the process, and no crash. -/
def Ingests : NodeAction → Prop
  | .ingest a => a ≠ .crash
  | .start _ _ => True
  | _ => False

instance : DecidablePred Ingests
  | .ingest a => inferInstanceAs (Decidable (a ≠ .crash))
  | .start _ _ => .isTrue trivial
  | .store _ => .isFalse id
  | .control _ => .isFalse id
  | .purgeOpenBlocks _ => .isFalse id

/-- While a purge runs beside ingest, every record of the channel that is received
after the cutoff and ingested stays, if it is not in flight in the end. -/
def PurgeKeepsLater (cfg : Settings β) : Prop :=
  ∀ (before between after : List NodeAction) (userLogin : String) (cutoffMs : ℤ),
    (∀ a ∈ before ++ between ++ after, Ingests a) →
    ∀ r ∈ (observed cfg (toAsciiLowercase userLogin)
        (throughPurge before between userLogin cutoffMs ++ after)).ingested,
      cutoffMs < r.receivedAtMs →
      ¬ Ingest.HasEvent (run cfg (throughPurge before between userLogin cutoffMs ++
        after)).ingest.task.inFlight r.event →
      Stored cfg (run cfg (throughPurge before between userLogin cutoffMs ++ after)) r.event

/-- **A purge deletes a later message**: the cutoff is 1, and a message that is received
at 2 is open by the time the open block is dropped. -/
theorem purge_deletes_later : ¬ PurgeKeepsLater .plain := by
  intro h
  have hstored := h acceptedActions [] [] "Quiet" 1 (by decide +kernel)
    (Ingest.sampleRecord "irc" 2) (by decide +kernel) (by decide) (by decide +kernel)
  exact absurd hstored (by decide +kernel)

end Node

end RecentMessages
