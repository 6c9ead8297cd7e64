/-
RecentMessages/Web/Backing.lean

Closed live coverage and the messages behind it.

Coverage says of an interval that every message of a channel in it was kept.  It is stored
the moment it ends, while the messages it vouches for may be in the queue before the
forwarder, in its batcher, or in the queue of the runtime (`Forwarder.InFlight`); from
there they can get lost.  Each step moves the messages on, but for those that it gives up
(`Forwarder.dropping`), and stores the intervals that it ends (`Forwarder.closing`).  A run
is right as long as no message that is given up lies in an interval that is stored, before
or after; a shutdown that finds unread messages breaks this.
-/
import RecentMessages.Control.IrcListener
import RecentMessages.Library.Runs
import RecentMessages.Web.ExternalQueue

namespace RecentMessages

variable {β : Type}

/-! ### Messages, records and intervals -/

namespace ServerMessage

/-- A message of one of the kinds that are kept. -/
def isChat (message : ServerMessage) : Bool :=
  match message.kind with
  | .privmsg _ => true
  | .userNotice _ => true
  | .clearChat _ => true
  | .clearMsg _ => true
  | _ => false

theorem channelLogin_of_isChat {message : ServerMessage} (h : message.isChat = true) :
    ∃ channelLogin, message.channelLogin = some channelLogin := by
  obtain ⟨kind, raw⟩ := message
  cases kind
  case notice => cases h
  case other => cases h
  all_goals exact ⟨_, rfl⟩

end ServerMessage

namespace Incoming

variable (irc : IrcCodec) (entry : Incoming)

/-- A PRIVMSG, USERNOTICE, CLEARCHAT or CLEARMSG of a channel, with a stable identity. -/
def Vouched (channel : String) : Prop :=
  entry.message.isChat = true ∧
    ∃ message, irc.parse (trimLine entry.message.raw) = .ok message ∧ message.Retained channel

instance decidableVouched (channel : String) : Decidable (entry.Vouched irc channel) :=
  match h : irc.parse (trimLine entry.message.raw) with
  | .ok message =>
    decidable_of_iff (entry.message.isChat = true ∧ message.Retained channel)
      (by simp [Vouched, h])
  | .error error => isFalse fun ⟨_, message, hparse, _⟩ => by simp [h] at hparse

/-- Such a message, put into the queue at a time that the interval covers. -/
def Within (row : CoverageRow) : Prop :=
  row.source = "direct-irc" ∧ entry.Vouched irc row.channelLogin ∧ row.interval.Covers entry.putAtMs

instance decidableWithin (row : CoverageRow) : Decidable (entry.Within irc row) :=
  inferInstanceAs (Decidable (_ ∧ _ ∧ _))

/-- The record is what canonicalization makes of the message. -/
def Forwards (r : CanonicalRecord) : Prop :=
  ∃ receivedAtMs sourceId,
    canonicalizeRawIrcFrom irc entry.message.raw receivedAtMs sourceId .directIrc = .ok r

end Incoming

namespace Forwarder

variable (env : ForwarderEnv β) (s : Forwarder β)

/-- The messages whose batch the runtime has not accepted yet. -/
def queued : List Incoming :=
  (s.sent.filter fun x => decide (x.2 ∈ s.runtime.pending)).map Prod.fst

/-- A message is on its way: unread, with the forwarder, or with a runtime that is up. -/
def InFlight (entry : Incoming) : Prop :=
  entry ∈ s.incoming ∨ entry ∈ s.held ∨ (¬s.runtime.Stopped ∧ entry ∈ s.queued)

instance (entry : Incoming) : Decidable (s.InFlight entry) :=
  inferInstanceAs (Decidable (_ ∨ _ ∨ _))

/-- A message is in a batch that ingest has accepted. -/
def Delivered (entry : Incoming) : Prop :=
  ∃ batch ∈ s.runtime.ingest.returned, (entry, batch) ∈ s.sent

instance (entry : Incoming) : Decidable (s.Delivered entry) :=
  inferInstanceAs (Decidable (∃ batch ∈ s.runtime.ingest.returned, _))

/-- The batcher and the queues have drained. -/
def Drained : Prop :=
  s.incoming = [] ∧ (∀ batcher ∈ s.directBatcher, batcher.records = []) ∧
    (∀ batch shutdown, s.phase ≠ .sending batch shutdown) ∧ s.runtime.pending = []

/-- The process has ended: the forwarder and the runtime have returned. -/
def Ended : Prop := s.phase = .ended ∧ s.runtime.Stopped

/-- **Closed coverage is backed by delivered messages.** -/
def Backed : Prop :=
  s.Drained ∨ s.Ended → ∀ entry ∈ s.put, ∀ row ∈ s.control.coverageInterval.rows,
    entry.Within env.irc row →
      ∃ batch ∈ s.runtime.ingest.returned, (entry, batch) ∈ s.sent ∧
        ∃ r ∈ batch.records, entry.Forwards env.irc r

/-! ### What a step gives up, and what it vouches for -/

/-- The messages that a step gives up. -/
def dropping : ForwarderAction → List Incoming
  | .receive _ _ =>
    match s.phase, s.incoming, s.directBatcher with
    | .selecting, entry :: _, none => [entry]
    | _, _, _ => []
  | .send =>
    match s.phase with
    | .sending _ _ => if s.runtime.Stopped then s.held else []
    | _ => []
  | .finalize _ =>
    match s.phase with
    | .finalizing _ => s.incoming ++ s.held
    | _ => []
  | .hangUp => if s.phase = .selecting ∧ s.incoming = [] then s.held else []
  | .runtime action => if (s.runtime.step env.toRuntimeEnv action).Stopped then s.queued else []
  | .restart _ => s.incoming ++ s.held ++ s.queued
  | _ => []

/-- The intervals that a step stores. -/
def closing : ForwarderAction → List CoverageRow
  | .receive nowMs joined =>
    match s.phase, s.incoming, s.directBatcher with
    | .selecting, entry :: _, some _ =>
      match entry.message.endsCoverage joined with
      | some channelLogin => s.control.endedCoverage channelLogin nowMs
      | none => []
    | _, _, _ => []
  | .finalize nowMs =>
    -- an interval that is there already keeps the others out as well
    if s.phase = .finalizing true ∧
        ∀ row ∈ s.control.closedCoverage nowMs, row ∉ s.control.coverageInterval.rows then
      s.control.closedCoverage nowMs
    else []
  | _ => []

/-- A message that was given up: it is neither on its way nor in an accepted batch. -/
def Missing (entry : Incoming) : Prop := ¬s.InFlight entry ∧ ¬s.Delivered entry

instance (entry : Incoming) : Decidable (s.Missing entry) :=
  inferInstanceAs (Decidable (_ ∧ _))

/-- **A step keeps faith**: it gives up no message that was put into the queue within a
stored interval, and stores no interval around one that it or an earlier step gives up. -/
def KeepsFaith (a : ForwarderAction) : Prop :=
  (∀ entry ∈ s.put, entry ∈ s.dropping env a → ¬s.Delivered entry →
    ∀ row ∈ s.control.coverageInterval.rows ++ s.closing a, ¬entry.Within env.irc row) ∧
  ∀ entry ∈ s.put, s.Missing entry → ∀ row ∈ s.closing a, ¬entry.Within env.irc row

instance (a : ForwarderAction) : Decidable (s.KeepsFaith env a) :=
  inferInstanceAs (Decidable (_ ∧ _))

variable {env s} {s' : Forwarder β}

theorem mem_queued {entry : Incoming} :
    entry ∈ s.queued ↔ ∃ batch ∈ s.runtime.pending, (entry, batch) ∈ s.sent := by
  simp only [queued, List.mem_map, List.mem_filter, decide_eq_true_eq]
  constructor
  · rintro ⟨⟨entry', batch⟩, ⟨hsent, hpending⟩, rfl⟩
    exact ⟨batch, hpending, hsent⟩
  · rintro ⟨batch, hpending, hsent⟩
    exact ⟨(entry, batch), ⟨hsent, hpending⟩, rfl⟩

/-- The records that the forwarder holds. -/
def records (s : Forwarder β) : List CanonicalRecord :=
  match s.phase with
  | .sending batch _ => batch.records
  | _ => (s.directBatcher.map DirectIrcBatcher.records).getD []

/-- What holds in every state: which message a record was made of, that a flush leaves nothing
in the batcher, and that nothing is left once the forwarder has returned. -/
structure Sound (env : ForwarderEnv β) (s : Forwarder β) : Prop where
  orderly : ∃ before, s.runtime.Orderly env.toRuntimeEnv before
  held : List.Forall₂ (Incoming.Forwards env.irc) s.held s.records
  flushed : ∀ batch shutdown, s.phase = .sending batch shutdown →
    ∀ batcher ∈ s.directBatcher, batcher.records = []
  sent : ∀ x ∈ s.sent, ∃ r ∈ x.2.records, x.1.Forwards env.irc r
  ended : s.phase = .ended → s.incoming = [] ∧ s.held = []

/-- **What a step does to the messages and to the stored intervals.** -/
structure Advances (env : ForwarderEnv β) (s s' : Forwarder β) (dropped : List Incoming)
    (closed : List CoverageRow) : Prop where
  sound : s'.Sound env
  put : ∀ entry ∈ s'.put, entry ∈ s.put ∨ s'.InFlight entry
  delivered : ∀ entry, s.Delivered entry → s'.Delivered entry
  moved : ∀ entry, s.InFlight entry → entry ∉ dropped → ∀ channel, entry.Vouched env.irc channel →
    s'.InFlight entry ∨ s'.Delivered entry
  rows : ∀ row ∈ s'.control.coverageInterval.rows,
    row ∈ s.control.coverageInterval.rows ∨ row ∈ closed

variable {dropped : List Incoming} {closed : List CoverageRow}

/-- A step of the forwarder alone. -/
theorem Advances.of_turn (hsound : s'.Sound env) (hruntime : s'.runtime = s.runtime)
    (hput : s'.put = s.put) (hsent : s'.sent = s.sent)
    (hmoved : ∀ entry, entry ∈ s.incoming ∨ entry ∈ s.held → entry ∉ dropped →
      ∀ channel, entry.Vouched env.irc channel → entry ∈ s'.incoming ∨ entry ∈ s'.held)
    (hrows : ∀ row ∈ s'.control.coverageInterval.rows,
      row ∈ s.control.coverageInterval.rows ∨ row ∈ closed) :
    Advances env s s' dropped closed where
  sound := hsound
  put := fun entry hentry => .inl (hput ▸ hentry)
  delivered := by
    rintro entry ⟨batch, hbatch, hmem⟩
    exact ⟨batch, hruntime ▸ hbatch, hsent ▸ hmem⟩
  moved := by
    intro entry hflight hkept channel hvouched
    left
    have hqueued : s'.queued = s.queued := by rw [queued, queued, hsent, hruntime]
    rcases hflight with hincoming | hheld | ⟨hup, hmem⟩
    · exact (hmoved entry (.inl hincoming) hkept channel hvouched).imp_right .inl
    · exact (hmoved entry (.inr hheld) hkept channel hvouched).imp_right .inl
    · exact .inr (.inr ⟨hruntime ▸ hup, hqueued ▸ hmem⟩)
  rows := hrows

theorem Advances.refl (hs : s.Sound env) : Advances env s s dropped closed :=
  .of_turn hs rfl rfl rfl (fun _ h _ _ _ => h) fun _ h => .inl h

theorem advances_tick (hs : s.Sound env) : Advances env s s.tick dropped closed := by
  unfold tick
  split
  · rename_i batcher hphase hbatcher
    split
    · rename_i batch batcher' hflush
      obtain ⟨hrecords, hempty⟩ := DirectIrcBatcher.flush_some hflush
      refine .of_turn ⟨hs.orderly, ?_, ?_, hs.sent, nofun⟩ rfl rfl rfl (fun _ h _ _ _ => h)
        fun _ h => .inl h
      · have hheld := hs.held
        simp only [records, hphase, hbatcher] at hheld
        show List.Forall₂ _ s.held batch.records
        rw [hrecords]
        exact hheld
      · intro _ _ _ more hmore
        cases hmore
        exact hempty
    · exact .refl hs
  · exact .refl hs

theorem advances_shutdown (hs : s.Sound env) : Advances env s s.shutdown dropped closed := by
  unfold shutdown
  split
  · rename_i hready
    split
    · rename_i batch batcher' hflush
      obtain ⟨batcher, hbatcher, hflush⟩ := Option.map_eq_some_iff.mp hflush
      obtain ⟨hrecords, hempty⟩ := DirectIrcBatcher.flush_some hflush
      refine .of_turn ⟨hs.orderly, ?_, ?_, hs.sent, nofun⟩ rfl rfl rfl (fun _ h _ _ _ => h)
        fun _ h => .inl h
      · have hheld := hs.held
        simp only [records, hready.1, hbatcher] at hheld
        show List.Forall₂ _ s.held batch.records
        rw [hrecords]
        exact hheld
      · intro _ _ _ more hmore
        cases hmore
        exact hempty
    · refine .of_turn ⟨hs.orderly, ?_, nofun, hs.sent, nofun⟩ rfl rfl rfl (fun _ h _ _ _ => h)
        fun _ h => .inl h
      have hheld := hs.held
      simp only [records, hready.1] at hheld
      exact hheld
  · exact .refl hs

/-- A call on the control store touches nothing else. -/
theorem Sound.call (hs : s.Sound env) (call : ControlCall) : (s.call call).Sound env :=
  ⟨hs.orderly, hs.held, hs.flushed, hs.sent, hs.ended⟩

/-- The forwarder returns, and gives up what it has. -/
theorem advances_ret (hs : s.Sound env)
    (hdropped : ∀ entry, entry ∈ s.incoming ∨ entry ∈ s.held → entry ∈ dropped) :
    Advances env s (s.ret env) dropped closed where
  sound := by
    obtain ⟨before, horderly⟩ := hs.orderly
    exact ⟨⟨before, horderly.step .dropExternal⟩, .nil, nofun, hs.sent, fun _ => ⟨rfl, rfl⟩⟩
  put := fun _ h => .inl h
  delivered := fun _ h => h
  moved := by
    intro entry hflight hkept channel hvouched
    rcases hflight with hincoming | hheld | hqueued
    · exact absurd (hdropped entry (.inl hincoming)) hkept
    · exact absurd (hdropped entry (.inr hheld)) hkept
    · exact .inl (.inr (.inr hqueued))
  rows := fun _ h => .inl h

theorem exists_forwards {irc : IrcCodec} {entries : List Incoming} {records : List CanonicalRecord}
    (h : List.Forall₂ (Incoming.Forwards irc) entries records) {entry : Incoming}
    (hentry : entry ∈ entries) : ∃ r ∈ records, entry.Forwards irc r := by
  induction h with
  | nil => cases hentry
  | cons hhead htail ih =>
    rcases List.mem_cons.mp hentry with rfl | hmore
    · exact ⟨_, List.mem_cons_self, hhead⟩
    · obtain ⟨r, hr, hforwards⟩ := ih hmore
      exact ⟨r, List.mem_cons_of_mem _ hr, hforwards⟩

/-- The forwarder holds nothing and keeps its queue. -/
theorem Sound.emptied (hs : s.Sound env) {batcher : Option DirectIrcBatcher}
    {phase : ForwarderPhase} (hbatcher : ∀ b ∈ batcher, b.records = [])
    (hphase : phase = .selecting ∨ ∃ b, phase = .finalizing b) :
    { s with held := [], directBatcher := batcher, phase }.Sound env := by
  refine ⟨hs.orderly, ?_, ?_, hs.sent, ?_⟩
  · have hrecords : records { s with held := [], directBatcher := batcher, phase } = [] := by
      obtain rfl | ⟨b, rfl⟩ := hphase <;> cases batcher with
        | none => rfl
        | some batcher => exact hbatcher batcher rfl
    rw [hrecords]
    exact .nil
  · obtain rfl | ⟨b, rfl⟩ := hphase <;> nofun
  · obtain rfl | ⟨b, rfl⟩ := hphase <;> nofun

theorem advances_send (hs : s.Sound env) :
    Advances env s (s.send env) (s.dropping env .send) closed := by
  unfold send
  split
  · rename_i batch shutdown hphase
    have hempty := hs.flushed batch shutdown hphase
    split
    · rename_i hstopped
      have hdropping : s.dropping env .send = s.held := by
        simp [dropping, hphase, hstopped]
      rw [hdropping]
      have hmoved : ∀ entry, entry ∈ s.incoming ∨ entry ∈ s.held → entry ∉ s.held →
          entry ∈ s.incoming ∨ entry ∈ ([] : List Incoming) := fun entry hentry hkept =>
        hentry.imp_right fun hheld => absurd hheld hkept
      split
      · exact .of_turn (hs.emptied hempty (.inr ⟨false, rfl⟩)) rfl rfl rfl
          (fun entry hentry hkept _ _ => hmoved entry hentry hkept) fun _ h => .inl h
      · have hnone : ∀ b ∈ (none : Option DirectIrcBatcher), b.records = [] := nofun
        exact .of_turn ((hs.emptied hnone (.inl rfl)).call .discardAllLiveCoverage) rfl rfl rfl
          (fun entry hentry hkept _ _ => hmoved entry hentry hkept) fun _ h => .inl h
    · rename_i hup
      split
      · rename_i hroom
        obtain ⟨hpending, hsame, hingest⟩ := RawIngestRuntime.pending_sendExternal batch hup hroom
        obtain ⟨before, horderly⟩ := hs.orderly
        have hsound : { s with
            held := []
            phase := if shutdown then .finalizing true else .selecting }.Sound env := by
          refine hs.emptied hempty ?_
          cases shutdown
          · exact .inl rfl
          · exact .inr ⟨true, rfl⟩
        refine ⟨⟨⟨before, horderly.step (.sendExternal batch)⟩, hsound.held, hsound.flushed, ?_,
          hsound.ended⟩, fun _ h => .inl h, ?_, ?_, fun _ h => .inl h⟩
        · intro x hx
          rcases List.mem_append.mp hx with hold | hnew
          · exact hs.sent x hold
          · obtain ⟨entry, hentry, rfl⟩ := List.mem_map.mp hnew
            have hheld := hs.held
            simp only [records, hphase] at hheld
            exact exists_forwards hheld hentry
        · rintro entry ⟨more, hmore, hmem⟩
          exact ⟨more, hingest ▸ hmore, List.mem_append_left _ hmem⟩
        · -- what was held is in the queue now
          have hup' : ¬(s.runtime.step env.toRuntimeEnv (.sendExternal batch)).Stopped := by
            rintro ⟨result, hresult⟩
            exact hup ⟨result, hsame ▸ hresult⟩
          rintro entry (hincoming | hheld | ⟨-, hqueued⟩) - channel -
          · exact .inl (.inl hincoming)
          · refine .inl (.inr (.inr ⟨hup', mem_queued.mpr ⟨batch, ?_, ?_⟩⟩))
            · rw [hpending]
              simp
            · exact List.mem_append_right _ (List.mem_map.mpr ⟨entry, hheld, rfl⟩)
          · obtain ⟨more, hmore, hmem⟩ := mem_queued.mp hqueued
            refine .inl (.inr (.inr ⟨hup', mem_queued.mpr ⟨more, ?_, ?_⟩⟩))
            · rw [hpending]
              exact List.mem_append_left _ hmore
            · exact List.mem_append_left _ hmem
      · exact .refl hs
  · exact .refl hs

theorem advances_finalize (hs : s.Sound env) (nowMs : ℤ) :
    Advances env s (s.finalize env nowMs) (s.dropping env (.finalize nowMs))
      (s.closing (.finalize nowMs)) := by
  have hdropped : ∀ {b}, s.phase = .finalizing b → ∀ entry, entry ∈ s.incoming ∨ entry ∈ s.held →
      entry ∈ s.dropping env (.finalize nowMs) := by
    intro b hphase entry hentry
    simp only [dropping, hphase]
    exact List.mem_append.mpr hentry
  unfold finalize
  split
  · rename_i hphase
    have hret : Advances env (s.call (.closeAllLiveCoverage nowMs)) _ _ [] :=
      advances_ret (hs.call (.closeAllLiveCoverage nowMs)) (hdropped hphase)
    refine ⟨hret.sound, hret.put, hret.delivered, hret.moved, fun row hrow => ?_⟩
    refine (ControlStore.mem_closeAllLiveCoverage hrow).imp_right fun ⟨hmem, hfresh⟩ => ?_
    simp only [closing, hphase, true_and]
    rw [if_pos hfresh]
    exact hmem
  · rename_i hphase
    have hret : Advances env (s.call .discardAllLiveCoverage) _ _ [] :=
      advances_ret (hs.call .discardAllLiveCoverage) (hdropped hphase)
    exact ⟨hret.sound, hret.put, hret.delivered, hret.moved, fun _ h => .inl h⟩
  · exact .refl hs

/-- A message changes the control store, and there at most one interval. -/
theorem updateCoverage_eq (s : Forwarder β) (message : ServerMessage) (receivedAtMs : ℤ)
    (joined : Bool) :
    ∃ control, s.updateCoverage message receivedAtMs joined = { s with control } ∧
      ∀ row ∈ control.coverageInterval.rows, row ∈ s.control.coverageInterval.rows ∨
        (s.directBatcher.isSome ∧ ∃ channelLogin, message.endsCoverage joined = some channelLogin ∧
          row ∈ s.control.endedCoverage channelLogin receivedAtMs) := by
  unfold updateCoverage
  split
  · rename_i hbatcher
    split
    · exact ⟨_, rfl, fun _ h => .inl h⟩
    · split
      · rename_i channelLogin hends
        refine ⟨_, rfl, fun row hrow => ?_⟩
        exact (ControlStore.mem_endLiveCoverage hrow).imp_right fun hended =>
          ⟨hbatcher, channelLogin, hends, hended⟩
      · exact ⟨s.control, rfl, fun _ h => .inl h⟩
  · exact ⟨s.control, rfl, fun _ h => .inl h⟩

theorem advances_receive (hs : s.Sound env) (nowMs : ℤ) (joined : Bool) :
    Advances env s (s.receive env nowMs joined) (s.dropping env (.receive nowMs joined))
      (s.closing (.receive nowMs joined)) := by
  unfold receive
  split
  · rename_i entry incoming hphase hincoming
    obtain ⟨control, hupdate, hrows⟩ :=
      updateCoverage_eq { s with incoming } entry.message nowMs joined
    rw [hupdate]
    have hrows : ∀ row ∈ control.coverageInterval.rows, row ∈ s.control.coverageInterval.rows ∨
        row ∈ s.closing (.receive nowMs joined) := by
      intro row hrow
      refine (hrows row hrow).imp_right ?_
      rintro ⟨hbatcher, channelLogin, hends, hended⟩
      obtain ⟨batcher, hbatcher⟩ := Option.isSome_iff_exists.mp hbatcher
      change s.directBatcher = some batcher at hbatcher
      simpa only [closing, hphase, hincoming, hbatcher, hends] using hended
    -- where the other messages are, and where the one that is read has to go
    have hmoved : ∀ {held : List Incoming} (more : Incoming),
        more ∈ s.incoming ∨ more ∈ s.held → (∀ x ∈ s.held, x ∈ held) →
          (more = entry → more ∈ held) → more ∈ incoming ∨ more ∈ held := by
      intro held more hmore hkeep hread
      rw [hincoming] at hmore
      rcases hmore with hmore | hmore
      · rcases List.mem_cons.mp hmore with heq | hmore
        · exact .inr (hread heq)
        · exact .inl hmore
      · exact .inr (hkeep more hmore)
    unfold forward
    split
    · rename_i channelLogin batcher hlogin hbatcher
      change s.directBatcher = some batcher at hbatcher
      have hheld := hs.held
      simp only [records, hphase, hbatcher] at hheld
      have hrejected : ∀ {error}, batcher.pushRaw env.irc entry.message.raw nowMs = .error error →
          ∀ more, more = entry → ∀ channel, more.Vouched env.irc channel → more ∈ s.held := by
        rintro error herror more rfl channel ⟨-, message, hparse, hretained⟩
        exact absurd herror (DirectIrcBatcher.pushRaw_ne_error hparse hretained error)
      split
      · rename_i batch batcher' hpush
        obtain ⟨record, hrecord, ⟨hnone, -⟩ | ⟨batch', hbatch, hrecords, hempty⟩⟩ :=
          DirectIrcBatcher.pushRaw_eq_ok hpush
        · cases hnone
        · cases hbatch
          refine .of_turn ⟨hs.orderly, ?_, ?_, hs.sent, nofun⟩ rfl rfl rfl ?_ hrows
          · show List.Forall₂ _ (s.held ++ [entry]) batch.records
            rw [hrecords]
            exact List.rel_append hheld (.cons ⟨nowMs, _, hrecord⟩ .nil)
          · intro _ _ _ more hmore
            cases hmore
            exact hempty
          · exact fun more hmore _ _ _ => hmoved more hmore
              (fun x hx => List.mem_append_left _ hx) fun heq => heq ▸ by simp
      · rename_i batcher' hpush
        obtain ⟨record, hrecord, ⟨-, hrecords⟩ | ⟨batch, hbatch, -⟩⟩ :=
          DirectIrcBatcher.pushRaw_eq_ok hpush
        · refine .of_turn ⟨hs.orderly, ?_, ?_, hs.sent, ?_⟩ rfl rfl rfl ?_ hrows
          · simp only [records, hphase]
            show List.Forall₂ _ (s.held ++ [entry]) batcher'.records
            rw [hrecords]
            exact List.rel_append hheld (.cons ⟨nowMs, _, hrecord⟩ .nil)
          · simp [hphase]
          · simp [hphase]
          · exact fun more hmore _ _ _ => hmoved more hmore
              (fun x hx => List.mem_append_left _ hx) fun heq => heq ▸ by simp
        · cases hbatch
      · rename_i hpush
        exact .of_turn ⟨hs.orderly, hs.held, hs.flushed, hs.sent, by simp [hphase]⟩ rfl rfl rfl
          (fun more hmore _ channel hvouched => hmoved more hmore (fun _ h => h)
            fun heq => hrejected hpush more heq channel hvouched) hrows
      · rename_i error _ hpush
        exact .of_turn ⟨hs.orderly, hs.held, hs.flushed, hs.sent, by simp [call, hphase]⟩
          rfl rfl rfl (fun more hmore _ channel hvouched => hmoved more hmore (fun _ h => h)
            fun heq => hrejected hpush more heq channel hvouched) hrows
    · rename_i hnot
      refine .of_turn ⟨hs.orderly, hs.held, hs.flushed, hs.sent, by simp [hphase]⟩ rfl rfl rfl
        (fun more hmore hkept channel hvouched => hmoved more hmore (fun _ h => h) ?_) hrows
      rintro rfl
      obtain ⟨channelLogin, hlogin⟩ := ServerMessage.channelLogin_of_isChat hvouched.1
      cases hbatcher : s.directBatcher with
      | none => exact absurd (by simp [dropping, hphase, hincoming, hbatcher]) hkept
      | some batcher => exact absurd hbatcher (hnot channelLogin batcher hlogin)
  · exact .refl hs

theorem advances_put (hs : s.Sound env) (message : ServerMessage) (nowMs : ℤ) :
    Advances env s (s.step env (.put message nowMs)) dropped closed := by
  show Advances env s (if _ then s else _) dropped closed
  split
  · exact .refl hs
  · rename_i hrunning
    refine ⟨⟨hs.orderly, hs.held, hs.flushed, hs.sent, fun h => absurd h hrunning⟩, ?_,
      fun _ h => h, ?_, fun _ h => .inl h⟩
    · intro entry hentry
      refine (List.mem_append.mp hentry).imp_right fun hnew => .inl ?_
      exact List.mem_append_right _ hnew
    · rintro entry (hincoming | hheld | hqueued) - channel -
      · exact .inl (.inl (List.mem_append_left _ hincoming))
      · exact .inl (.inr (.inl hheld))
      · exact .inl (.inr (.inr hqueued))

theorem advances_runtime (hs : s.Sound env) (action : RuntimeAction)
    (haction : ∀ batch, action ≠ .sendExternal batch) :
    Advances env s { s with runtime := s.runtime.step env.toRuntimeEnv action }
      (s.dropping env (.runtime action)) closed := by
  obtain ⟨before, horderly⟩ := hs.orderly
  have hhandles := RawIngestRuntime.handles_step env.toRuntimeEnv s.runtime action haction
  refine ⟨⟨⟨before, horderly.step action⟩, hs.held, hs.flushed, hs.sent, hs.ended⟩,
    fun _ h => .inl h, ?_, ?_, fun _ h => .inl h⟩
  · rintro entry ⟨batch, hbatch, hmem⟩
    exact ⟨batch, (hhandles.returned horderly).subset hbatch, hmem⟩
  · rintro entry (hincoming | hheld | ⟨hup, hqueued⟩) hkept channel -
    · exact .inl (.inl hincoming)
    · exact .inl (.inr (.inl hheld))
    · by_cases hup' : (s.runtime.step env.toRuntimeEnv action).Stopped
      · simp only [dropping, hup', if_true] at hkept
        exact absurd hqueued hkept
      · obtain ⟨batch, hbatch, hmem⟩ := mem_queued.mp hqueued
        rcases hhandles.pending hup' hbatch with hpending | hreturned
        · exact .inl (.inr (.inr ⟨hup', mem_queued.mpr ⟨batch, hpending, hmem⟩⟩))
        · exact .inr ⟨batch, hreturned, hmem⟩

theorem sound_start (env : ForwarderEnv β) {ingest : Ingest β}
    (hkept : ingest.db.Kept env.settings.codec) (hsettled : ingest.db.journal.Settled)
    (control : ControlStore) (enabled : Bool) (streamId : String) :
    (start env ingest control enabled streamId).Sound env := by
  refine ⟨⟨_, RawIngestRuntime.orderly_start hkept hsettled enabled⟩, ?_, nofun, nofun, nofun⟩
  have hrecords : (start env ingest control enabled streamId).records = [] := by
    simp only [records, start]
    split
    · unfold DirectIrcBatcher.new
      split <;> rfl
    · rfl
  rw [hrecords]
  exact .nil

theorem advances_restart (hs : s.Sound env) (streamId : String) :
    Advances env s (s.step env (.restart streamId)) (s.dropping env (.restart streamId))
      closed := by
  obtain ⟨before, horderly⟩ := hs.orderly
  have hsound := sound_start env horderly.ledgered.kept horderly.ledgered.settled s.control
    s.runtime.external.isSome streamId
  refine ⟨⟨hsound.orderly, hsound.held, hsound.flushed, hs.sent, hsound.ended⟩,
    fun _ h => .inl h, fun _ h => h, ?_, fun _ h => .inl h⟩
  intro entry hflight hkept
  simp only [dropping, List.mem_append, not_or] at hkept
  rcases hflight with hincoming | hheld | ⟨-, hqueued⟩
  · exact absurd hincoming hkept.1.1
  · exact absurd hheld hkept.1.2
  · exact absurd hqueued hkept.2

/-- **Every step** moves the messages on, but for those that it gives up. -/
theorem step_advances (hs : s.Sound env) (a : ForwarderAction) :
    Advances env s (s.step env a) (s.dropping env a) (s.closing a) := by
  cases a with
  | put message nowMs => exact advances_put hs message nowMs
  | tick => exact advances_tick hs
  | receive nowMs joined => exact advances_receive hs nowMs joined
  | send => exact advances_send hs
  | shutdown => exact advances_shutdown hs
  | finalize nowMs => exact advances_finalize hs nowMs
  | hangUp =>
    show Advances env s (if _ then _ else s) _ _
    split
    · rename_i hready
      refine advances_ret hs fun entry hentry => ?_
      simp only [dropping, hready, and_self, if_true]
      rcases hentry with hincoming | hheld
      · simp [hready.2] at hincoming
      · exact hheld
    · exact .refl hs
  | runtime action =>
    cases action with
    | sendExternal batch => exact .refl hs
    | dropExternal => exact .refl hs
    | _ => exact advances_runtime hs _ nofun
  | restart streamId => exact advances_restart hs streamId

/-- No message within a stored interval is given up. -/
def Covered (env : ForwarderEnv β) (s : Forwarder β) : Prop :=
  ∀ entry ∈ s.put, ∀ row ∈ s.control.coverageInterval.rows, entry.Within env.irc row →
    s.InFlight entry ∨ s.Delivered entry

/-- A step that keeps faith gives up no such message, and stores no interval around one. -/
theorem covered_step (hs : s.Sound env) (hcovered : s.Covered env) {a : ForwarderAction}
    (ha : s.KeepsFaith env a) : (s.step env a).Covered env := by
  have hstep := step_advances hs a
  intro entry hput row hrow hwithin
  rcases hstep.put entry hput with hput | hnew
  · by_cases hdelivered : s.Delivered entry
    · exact .inr (hstep.delivered entry hdelivered)
    · have hrow := hstep.rows row hrow
      have hflight : s.InFlight entry := by
        by_contra hmissing
        rcases hrow with hstored | hclosing
        · -- it would have been missing in an interval that is stored
          exact (hcovered entry hput row hstored hwithin).elim hmissing hdelivered
        · exact ha.2 entry hput ⟨hmissing, hdelivered⟩ row hclosing hwithin
      have hkept : entry ∉ s.dropping env a := fun hdropped =>
        ha.1 entry hput hdropped hdelivered row (List.mem_append.mpr hrow) hwithin
      exact hstep.moved entry hflight hkept _ hwithin.2.1
  · exact .inl hnew

/-- Once all has drained, or the process has ended, nothing is on its way. -/
theorem not_inFlight (hs : s.Sound env) (h : s.Drained ∨ s.Ended) (entry : Incoming) :
    ¬s.InFlight entry := by
  rintro (hincoming | hheld | ⟨hup, hqueued⟩)
  · rcases h with hdrained | hended
    · simp [hdrained.1] at hincoming
    · simp [(hs.ended hended.1).1] at hincoming
  · rcases h with ⟨-, hbatcher, hphase, -⟩ | hended
    · have hrecords : s.records = [] := by
        unfold records
        split
        · exact absurd ‹_› (hphase _ _)
        · cases hsome : s.directBatcher with
          | none => rfl
          | some batcher => exact hbatcher batcher hsome
      have hnone := hs.held
      rw [hrecords, List.forall₂_nil_right_iff] at hnone
      simp [hnone] at hheld
    · simp [(hs.ended hended.1).2] at hheld
  · rcases h with hdrained | hended
    · obtain ⟨batch, hpending, -⟩ := mem_queued.mp hqueued
      simp [hdrained.2.2.2] at hpending
    · exact hup hended.2

theorem backed_of_covered (hs : s.Sound env) (hcovered : s.Covered env) : s.Backed env := by
  intro h entry hput row hrow hwithin
  have hdelivered : s.Delivered entry :=
    (hcovered entry hput row hrow hwithin).resolve_left (not_inFlight hs h entry)
  obtain ⟨batch, hbatch, hmem⟩ := hdelivered
  exact ⟨batch, hbatch, hmem, hs.sent _ hmem⟩

/-- **Closed coverage is backed** throughout a run whose steps keep faith. -/
theorem closed_coverage_backed (env : ForwarderEnv β) (history : List NodeAction)
    (control : ControlStore) (enabled : Bool) (streamId : String) (actions : List ForwarderAction)
    (h : Along (step env) (KeepsFaith env)
      (start env (Node.run env.settings history).ingest control enabled streamId) actions) :
    Throughout (step env) (Backed env)
      (start env (Node.run env.settings history).ingest control enabled streamId) actions := by
  have hnode := Node.sound_run env.settings history
  have hsound := sound_start env hnode.kept hnode.settled control enabled streamId
  refine throughout_of_along (I := fun s => s.Sound env ∧ s.Covered env) (fun s a hs _ ha => ?_)
    ⟨hsound, nofun⟩ (backed_of_covered hsound nofun) h
  have hsound' := (step_advances hs.1 a).sound
  have hcovered' := covered_step hs.1 hs.2 ha
  exact ⟨⟨hsound', hcovered'⟩, backed_of_covered hsound' hcovered'⟩

/-! ### Two runs -/

def joinMessage : ServerMessage := ⟨.join "example", ":user!user@user.tmi.twitch.tv JOIN #example"⟩

def chatMessage : ServerMessage :=
  ⟨.privmsg "example",
    "@id=1;tmi-sent-ts=3 :user!user@user.tmi.twitch.tv PRIVMSG #example :hello"⟩

def partMessage : ServerMessage := ⟨.part "example", ":user!user@user.tmi.twitch.tv PART #example"⟩

/-- What the lines of the messages are parsed to. -/
def sampleParse (line : String) : Except String IRCMessage :=
  if line = joinMessage.raw then .ok ⟨[], "JOIN", ["#example"]⟩
  else if line = chatMessage.raw then
    .ok ⟨[("id", "1"), ("tmi-sent-ts", "3")], "PRIVMSG", ["#example", "hello"]⟩
  else if line = partMessage.raw then .ok ⟨[], "PART", ["#example"]⟩
  else .error "no line of the sample"

def sampleForwarder : ForwarderEnv Plain where
  settings := Settings.plain
  sources := 0
  queueBatches := 1
  externalBatches := 1
  irc := ⟨sampleParse, fun _ => 1⟩
  batchMessages := 2

def sampleStart : Forwarder Plain :=
  start sampleForwarder (Node.run sampleForwarder.settings []).ingest .empty true "owned-irc-1"

/-- A channel is joined, and a message of it arrives. -/
def sampleJoin : List ForwarderAction :=
  [.runtime (.recover 0), .runtime .work, .runtime .work, .runtime .work, .runtime .spawn,
    .put joinMessage 1, .receive 2 true, .put chatMessage 3]

/-- The message is accepted, and then the channel is left. -/
def orderlyPart : List ForwarderAction :=
  sampleJoin ++ [.receive 4 true, .tick, .send, .runtime (.receiveExternal 5), .runtime .work,
    .runtime .work, .runtime .work, .put partMessage 6, .receive 7 true, .runtime .cancel,
    .shutdown, .finalize 8]

theorem closed_coverage_backed_sample :
    Throughout (step sampleForwarder) (Backed sampleForwarder) sampleStart orderlyPart :=
  closed_coverage_backed sampleForwarder [] .empty true "owned-irc-1" orderlyPart
    (by decide +kernel)

/-- The shutdown comes while the message is unread. -/
def hastyShutdown : List ForwarderAction :=
  sampleJoin ++ [.runtime .cancel, .shutdown, .finalize 5]

/-- **A shutdown vouches for messages that it never read.** -/
theorem shutdown_forgets :
    ¬Throughout (step sampleForwarder) (Backed sampleForwarder) sampleStart hastyShutdown := by
  intro h
  have hended : (hastyShutdown.foldl (step sampleForwarder) sampleStart).phase = .ended := by
    decide +kernel
  have hdrained : (hastyShutdown.foldl (step sampleForwarder) sampleStart).Drained := by
    refine ⟨by decide +kernel, by decide +kernel, ?_, by decide +kernel⟩
    rw [hended]
    nofun
  obtain ⟨batch, hbatch, -⟩ := h.last (.inl hdrained) ⟨chatMessage, 3, 1⟩ (by decide +kernel)
    ⟨"example", "direct-irc", 2, 5⟩ (by decide +kernel) (by decide +kernel)
  have hnone : (hastyShutdown.foldl (step sampleForwarder) sampleStart).runtime.ingest.returned =
      [] := by decide +kernel
  rw [hnone] at hbatch
  cases hbatch

end Forwarder

end RecentMessages
