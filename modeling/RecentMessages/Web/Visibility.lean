/-
RecentMessages/Web/Visibility.lean

What a read sees while ingest seals.

A record goes from the open blocks into the vectors of the running call and from
there into the sealed store, in two steps.  A read visits the sealed store first and
the open blocks second, and the vectors never.  So it misses a record that is not
committed at its first visit and is no longer open at its second one
(`sealing_hides`).  Duplicates are the other way to be missed: the store counts
copies where the merge counts events.  There is no third way (`read_shows`).
-/
import RecentMessages.Web.Purge

namespace RecentMessages

open CanonicalRecord

namespace QueryRequest

variable {request : QueryRequest} {records more : List CanonicalRecord} {q : CanonicalRecord}

/-- With fewer records to compete with, a record ranks no lower. -/
theorem Ranks.anti (h : request.Ranks records q) (hsub : more ⊆ records) :
    request.Ranks more q := by
  refine ⟨h.1, lt_of_le_of_lt (Finset.card_le_card fun k hk => ?_) h.2⟩
  rw [List.mem_toFinset, List.mem_map] at hk ⊢
  obtain ⟨x, hx, hk⟩ := hk
  obtain ⟨hmem, hx⟩ := mem_newer.mp hx
  exact ⟨x, mem_newer.mpr ⟨hsub hmem, hx⟩, hk⟩

end QueryRequest

namespace Node

variable {β : Type} {cfg : Settings β} {n n' : Node β} {e : String × EventKey}
variable {channelLogin : String} {options : GetRecentMessagesQueryOptions} {maxBufferSize : ℕ}

/-- The process goes on, and the step loses no copy of the event. -/
def Keeps (cfg : Settings β) (e : String × EventKey) (n : Node β) (a : NodeAction) : Prop :=
  (n.apply cfg a).ingest.task.running = true ∧
    ¬ Ingest.Loses cfg.codec n.ingest (n.apply cfg a).ingest e

instance (e : String × EventKey) (n : Node β) (a : NodeAction) : Decidable (Keeps cfg e n a) :=
  inferInstanceAs (Decidable (_ ∧ _))

/-! ### A read during a run -/

/-- The request that a read puts to both stores. -/
def readRequest (channelLogin : String) (options : GetRecentMessagesQueryOptions)
    (maxBufferSize : ℕ) : QueryRequest :=
  options.request channelLogin (requestedLimit options maxBufferSize)

/-- The event is held in one state of the node, no step of a run from there loses it,
and its copies are in the window and among the newest `limit` of all that is held at
the two visits of the read. -/
structure Asked (cfg : Settings β) (n : Node β) (toStore toOpen : List NodeAction)
    (channelLogin : String) (options : GetRecentMessagesQueryOptions) (maxBufferSize : ℕ)
    (e : String × EventKey) : Prop where
  held : Ingest.HasEvent (n.ingest.held cfg.codec) e
  kept : Along (apply cfg) (Keeps cfg e) n (toStore ++ toOpen)
  channel : e.1 = toAsciiLowercase channelLogin
  ranked : ∀ q ∈ (toStore.foldl (apply cfg) n).ingest.held cfg.codec ++
      ((toStore ++ toOpen).foldl (apply cfg) n).ingest.held cfg.codec, q.event = e →
    (readRequest channelLogin options maxBufferSize).Ranks
      ((toStore.foldl (apply cfg) n).ingest.held cfg.codec ++
        ((toStore ++ toOpen).foldl (apply cfg) n).ingest.held cfg.codec) q

instance (n : Node β) (toStore toOpen : List NodeAction) :
    Decidable (Asked cfg n toStore toOpen channelLogin options maxBufferSize e) :=
  decidable_of_iff (_ ∧ _ ∧ _ ∧ _)
    ⟨fun ⟨held, kept, channel, ranked⟩ => ⟨held, kept, channel, ranked⟩,
      fun h => ⟨h.held, h.kept, h.channel, h.ranked⟩⟩

/-- The event is committed at the first visit, behind fewer than `limit` newer records
of the store, or it is open at the second one. -/
def Shown (codec : Codec β) (n n' : Node β) (request : QueryRequest) (e : String × EventKey) :
    Prop :=
  (∃ q ∈ n.ingest.db.sealedRecords codec, q.event = e ∧
      (request.newer (n.ingest.db.sealedRecords codec) q).length < request.limit) ∨
    Ingest.HasEvent n'.ingest.openBlocks.records e

instance (codec : Codec β) (n n' : Node β) (request : QueryRequest) (e : String × EventKey) :
    Decidable (Shown codec n n' request e) :=
  inferInstanceAs (Decidable ((∃ q ∈ _, _) ∨ _))

/-- The read succeeds and returns a copy of the event. -/
def Returns (cfg : Settings β) (n n' : Node β) (channelLogin : String)
    (options : GetRecentMessagesQueryOptions) (maxBufferSize : ℕ) (e : String × EventKey) : Prop :=
  ∃ records, read cfg n n' channelLogin options maxBufferSize = .ok records ∧
    e ∈ records.map event

/-- What a read can see is held at one of its visits. -/
theorem visible_subset_held (codec : Codec β) (n n' : Node β) :
    visible codec n.ingest.db (some n'.ingest.openBlocks) ⊆
      n.ingest.held codec ++ n'.ingest.held codec := by
  intro q hq
  rcases List.mem_append.mp hq with hsealed | hopened
  · exact List.mem_append_left _ (Ingest.mem_held.mpr (.inl hsealed))
  · exact List.mem_append_right _ (Ingest.mem_held.mpr (.inr (.inr hopened)))

/-- **A read returns what it is shown**, if its copies rank among the newest `limit`. -/
theorem returns_iff_shown (hn : n.Sound cfg.codec) {r : CanonicalRecord}
    (hchannel : r.channelKey = toAsciiLowercase channelLogin)
    (hranked : ∀ q ∈ n.ingest.held cfg.codec ++ n'.ingest.held cfg.codec, q.event = r.event →
      (readRequest channelLogin options maxBufferSize).Ranks
        (n.ingest.held cfg.codec ++ n'.ingest.held cfg.codec) q) :
    Returns cfg n n' channelLogin options maxBufferSize r.event ↔
      Shown cfg.codec n n' (readRequest channelLogin options maxBufferSize) r.event := by
  have hsub := visible_subset_held cfg.codec n n'
  have hvisible : ∀ q ∈ visible cfg.codec n.ingest.db (some n'.ingest.openBlocks),
      q.event = r.event → (options.request channelLogin
        (requestedLimit options maxBufferSize)).Ranks
          (visible cfg.codec n.ingest.db (some n'.ingest.openBlocks)) q := by
    intro q hq hqe
    exact (hranked q (hsub hq) hqe).anti hsub
  obtain ⟨records, hread, hmem⟩ := mem_queryLocalMessages hn.kept.readable hchannel hvisible
  have hreturns : Returns cfg n n' channelLogin options maxBufferSize r.event ↔
      r.event ∈ records.map event := by
    constructor
    · rintro ⟨records', hread', hmem'⟩
      cases hread.symm.trans hread'
      exact hmem'
    · intro hmem'
      exact ⟨records, hread, hmem'⟩
  rw [hreturns, hmem]
  simp [Shown, Ingest.HasEvent, readRequest, GetRecentMessagesQueryOptions.request]

/-- **When sealing does not hide an event from a read.**  An event that is held when
the read begins, that no step loses, and that is in the window and among the newest
`limit`, is returned exactly when the store shows it at the first visit or it is open
at the second one. -/
theorem read_shows (cfg : Settings β) (before toStore toOpen : List NodeAction)
    (channelLogin : String) (options : GetRecentMessagesQueryOptions) (maxBufferSize : ℕ)
    (e : String × EventKey)
    (h : Asked cfg (run cfg before) toStore toOpen channelLogin options maxBufferSize e) :
    Returns cfg (run cfg (before ++ toStore)) (run cfg (before ++ (toStore ++ toOpen)))
        channelLogin options maxBufferSize e ↔
      Shown cfg.codec (run cfg (before ++ toStore)) (run cfg (before ++ (toStore ++ toOpen)))
        (readRequest channelLogin options maxBufferSize) e := by
  obtain ⟨r, -, rfl⟩ := h.held
  have hranked := h.ranked
  rw [← run_append, ← run_append] at hranked
  exact returns_iff_shown (sound_run cfg _) h.channel hranked

/-- The event of the newest record of the accepted batch. -/
def newestEvent : String × EventKey := (Ingest.sampleRecord "irc" 2).event

/-- A checkpoint takes the open block and commits it. -/
def sealActions : List NodeAction := [.ingest (.checkpoint ["quiet"]), .ingest .advance]

theorem read_shows_sample : Returns .plain (run .plain (acceptedActions ++ sealActions))
      (run .plain (acceptedActions ++ (sealActions ++ []))) "Quiet" sampleOptions 800 newestEvent ↔
    Shown Settings.plain.codec (run .plain (acceptedActions ++ sealActions))
      (run .plain (acceptedActions ++ (sealActions ++ [])))
      (readRequest "Quiet" sampleOptions 800) newestEvent :=
  read_shows .plain acceptedActions sealActions [] "Quiet" sampleOptions 800 newestEvent
    (by decide +kernel)

/-- Whatever ingest does during a read, the read returns every event that no step
loses and that ranks among the newest `limit` of the window. -/
def SealingHidesNothing (cfg : Settings β) : Prop :=
  ∀ (before toStore toOpen : List NodeAction) (channelLogin : String)
    (options : GetRecentMessagesQueryOptions) (maxBufferSize : ℕ) (e : String × EventKey),
    Asked cfg (run cfg before) toStore toOpen channelLogin options maxBufferSize e →
      Returns cfg (run cfg (before ++ toStore)) (run cfg (before ++ (toStore ++ toOpen)))
        channelLogin options maxBufferSize e

/-- **Sealing hides a record**: a checkpoint that runs between the two visits takes the
record out of the open blocks before the second visit and commits it after the first. -/
theorem sealing_hides : ¬ SealingHidesNothing .plain := by
  intro h
  have hasked : Asked .plain (run .plain acceptedActions) [] sealActions "Quiet" sampleOptions 800
      newestEvent := by decide +kernel
  obtain ⟨records, hread, hmem⟩ :=
    h acceptedActions [] sealActions "Quiet" sampleOptions 800 newestEvent hasked
  have hnone : read .plain (run .plain (acceptedActions ++ []))
      (run .plain (acceptedActions ++ ([] ++ sealActions))) "Quiet" sampleOptions 800 = .ok [] := by
    decide +kernel
  cases hnone.symm.trans hread
  exact List.not_mem_nil hmem

end Node

end RecentMessages
