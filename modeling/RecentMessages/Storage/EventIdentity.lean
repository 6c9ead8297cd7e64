/-
RecentMessages/Storage/EventIdentity.lean

What canonicalization promises about an event that several sources report
(`storage/raw_irc.rs`).

The same line gives the same channel, event key and bytes to every source.  Its event time is
the server's time stamp, but `validate_identity` only asks that there is one: where it is not a
number, the event time is when the source received the line (`stable_iff`).

Different events should have different keys.  What goes into the hash are parts behind their
lengths, which tells the parts apart; but the optional tags of a message without an `id` are
followed by its parameters, and parameters may look like tags (`distinct_iff`).
-/
import RecentMessages.Library.Framing
import RecentMessages.Storage.RawIrc

namespace RecentMessages

/-! ### The same line from several sources -/

/-- Two sources agree: both reject, or both accept the same event. -/
def SameEvent : Except RawIrcError CanonicalRecord → Except RawIrcError CanonicalRecord → Prop
  | .ok r, .ok r' => r.channelKey = r'.channelKey ∧ r.eventKey = r'.eventKey ∧
      r.eventAtMs = r'.eventAtMs ∧ r.rawIrc = r'.rawIrc
  | .error _, .error _ => True
  | _, _ => False

/-- All sources agree on a line, whatever ends it. -/
def StableLine (irc : IrcCodec) (raw : String) : Prop :=
  ∀ (raw₁ raw₂ : String) (receivedAtMs₁ receivedAtMs₂ : ℤ) (sourceId₁ sourceId₂ : String)
    (fidelity₁ fidelity₂ : SourceFidelity), trimLine raw₁ = trimLine raw →
    trimLine raw₂ = trimLine raw →
    SameEvent (canonicalizeRawIrcFrom irc raw₁ receivedAtMs₁ sourceId₁ fidelity₁)
      (canonicalizeRawIrcFrom irc raw₂ receivedAtMs₂ sourceId₂ fidelity₂)

variable {irc : IrcCodec} {raw : String}

/-- What is not the line of a message that is kept is rejected by every source. -/
theorem canonicalize_of_not_retained {receivedAtMs : ℤ} {sourceId : String}
    {fidelity : SourceFidelity} (h : ∀ message channel, irc.parse (trimLine raw) = .ok message →
      ¬ message.Retained channel) :
    ∃ error, canonicalizeRawIrcFrom irc raw receivedAtMs sourceId fidelity = .error error := by
  rcases e : canonicalizeRawIrcFrom irc raw receivedAtMs sourceId fidelity with error | r
  · exact ⟨error, rfl⟩
  · obtain ⟨message, hparse, hretained⟩ := retained_of_canonicalize e
    exact absurd hretained (h message r.channelKey hparse)

/-- **When a line is stable across sources**: its message is rejected, or has a time stamp that
is a number. -/
theorem stable_iff (irc : IrcCodec) (raw : String) :
    StableLine irc raw ↔ ∀ message channel, irc.parse (trimLine raw) = .ok message →
      message.Retained channel → (message.getI64 "tmi-sent-ts").isSome = true := by
  constructor
  · intro h message channel hparse hretained
    -- two sources that receive the line at different times
    have hsame := h raw raw 0 1 "" "" .unknown .unknown rfl rfl
    rw [canonicalize_of_retained hparse hretained, canonicalize_of_retained hparse hretained]
      at hsame
    have htime := hsame.2.2.1
    rcases e : message.getI64 "tmi-sent-ts" with - | t
    · rw [e] at htime
      exact absurd (show (0 : ℤ) = 1 from htime) (by decide)
    · rfl
  · intro h raw₁ raw₂ receivedAtMs₁ receivedAtMs₂ sourceId₁ sourceId₂ fidelity₁ fidelity₂ h₁ h₂
    by_cases hkept : ∃ message channel, irc.parse (trimLine raw) = .ok message ∧
        message.Retained channel
    · obtain ⟨message, channel, hparse, hretained⟩ := hkept
      obtain ⟨t, ht⟩ := Option.isSome_iff_exists.mp (h message channel hparse hretained)
      rw [canonicalize_of_retained (h₁ ▸ hparse) hretained,
        canonicalize_of_retained (h₂ ▸ hparse) hretained, ht]
      exact ⟨rfl, rfl, rfl, by rw [h₁, h₂]⟩
    · push Not at hkept
      obtain ⟨error₁, he₁⟩ := @canonicalize_of_not_retained irc raw₁ receivedAtMs₁ sourceId₁
        fidelity₁ (h₁ ▸ hkept)
      obtain ⟨error₂, he₂⟩ := @canonicalize_of_not_retained irc raw₂ receivedAtMs₂ sourceId₂
        fidelity₂ (h₂ ▸ hkept)
      rw [he₁, he₂]
      exact trivial

/-- A message whose time stamp is not a number. -/
def untimedMessage : IRCMessage :=
  ⟨[("id", "abc"), ("tmi-sent-ts", "soon")], "PRIVMSG", ["#example", "hello"]⟩

/-- Its line. -/
def untimedText : String :=
  "@id=abc;tmi-sent-ts=soon :u!u@u.tmi.twitch.tv PRIVMSG #example :hello"

/-- A parser that knows the line. -/
def untimedLine : IrcCodec where
  parse raw := if raw = untimedText then .ok untimedMessage else .error "not this line"
  blake3 := fun _ => 0

/-- The event time of such a line is when it was received. -/
theorem untimed_line_unstable : ¬ ∀ (irc : IrcCodec) (raw : String), StableLine irc raw := by
  intro h
  have htrim : trimLine untimedText = untimedText := by decide +kernel
  have hparse : untimedLine.parse (trimLine untimedText) = .ok untimedMessage := by
    rw [htrim]
    simp [untimedLine]
  have hretained : untimedMessage.Retained "example" := by decide +kernel
  have hsame := h untimedLine untimedText untimedText untimedText 0 1 "" "" .unknown .unknown
    rfl rfl
  rw [canonicalize_of_retained hparse hretained, canonicalize_of_retained hparse hretained]
    at hsame
  exact absurd hsame.2.2.1 (by decide +kernel)

/-! ### Different events -/

theorem asBytes_injective : Function.Injective asBytes := by
  intro s t h
  refine String.toByteArray_inj.mp (ByteArray.ext (Array.toList_inj.mp ?_))
  simpa [asBytes] using h

theorem length_toLeBytes (n : ℕ) : (toLeBytes n).length = 8 := by
  simp [toLeBytes]

/-- A number is determined by its digits to the base 256. -/
theorem eq_of_digits {m n : ℕ} (k : ℕ) (hm : m < 256 ^ k) (hn : n < 256 ^ k)
    (h : ∀ i < k, m / 256 ^ i % 256 = n / 256 ^ i % 256) : m = n := by
  induction k generalizing m n with
  | zero => omega
  | succ k ih =>
    -- the last digit, and the number without it
    have hfirst := h 0 (Nat.succ_pos k)
    rw [pow_zero, Nat.div_one, Nat.div_one] at hfirst
    have hrest : m / 256 = n / 256 := by
      refine ih (Nat.div_lt_of_lt_mul (by rwa [pow_succ'] at hm))
        (Nat.div_lt_of_lt_mul (by rwa [pow_succ'] at hn)) fun i hi => ?_
      rw [Nat.div_div_eq_div_mul, Nat.div_div_eq_div_mul, ← pow_succ']
      exact h (i + 1) (Nat.succ_lt_succ hi)
    omega

theorem toLeBytes_injective (m n : ℕ) (hm : m < 2 ^ 64) (hn : n < 2 ^ 64)
    (h : toLeBytes m = toLeBytes n) : m = n := by
  refine eq_of_digits 8 hm hn fun i hi => ?_
  have hbyte := congrArg (fun l => l[i]?) h
  simp only [toLeBytes, List.getElem?_map, List.getElem?_range hi, Option.map_some,
    Option.some.injEq] at hbyte
  have hnat := congrArg UInt8.toNat hbyte
  simpa using hnat

/-- The parts that `event_key` hashes. -/
def eventParts (message : IRCMessage) (channel : String) : List String :=
  ["twitch-irc-event-v1", message.command, channel] ++
    match (message.get "id").filter (· ≠ "") with
    | some id => ["id", id]
    | none => fields identityTags message.get ++ message.params.drop 1

/-- Parts behind their lengths. -/
theorem foldl_addPart (parts : List String) (hasher : List UInt8) :
    parts.foldl addPart hasher = hasher ++ frame toLeBytes (parts.map asBytes) := by
  induction parts generalizing hasher with
  | nil => simp
  | cons part parts ih =>
    rw [List.foldl_cons, ih, addPart, List.map_cons, frame_cons]
    simp only [List.append_assoc]

/-- **What is hashed** are the parts, each behind its length. -/
theorem eventKeyInput_eq (message : IRCMessage) (channel : String) :
    eventKeyInput message channel = frame toLeBytes ((eventParts message channel).map asBytes) := by
  rw [← List.nil_append (frame _ _), ← foldl_addPart, eventParts, List.foldl_append,
    eventKeyInput]
  dsimp only [List.foldl_cons, List.foldl_nil]
  cases (message.get "id").filter (· ≠ "") with
  | some id => rfl
  | none =>
    dsimp only
    rw [List.foldl_append, fields, List.foldl_flatMap]
    congr 1
    refine congrFun (congrFun (congrArg List.foldl ?_) _) _
    funext hasher name
    cases message.get name <;> rfl

/-- A message that `canonicalize_raw_irc_from` accepts from some source, as one of a channel. -/
def Accepted (irc : IrcCodec) (message : IRCMessage) (channel : String) : Prop :=
  ∃ raw receivedAtMs sourceId fidelity r, irc.parse (trimLine raw) = .ok message ∧
    canonicalizeRawIrcFrom irc raw receivedAtMs sourceId fidelity = .ok r ∧ r.channelKey = channel

theorem Accepted.retained {message : IRCMessage} {channel : String}
    (h : Accepted irc message channel) : message.Retained channel := by
  obtain ⟨raw, receivedAtMs, sourceId, fidelity, r, hparse, haccept, rfl⟩ := h
  obtain ⟨message', hparse', hretained⟩ := retained_of_canonicalize haccept
  rw [hparse] at hparse'
  obtain rfl := Except.ok.inj hparse'
  exact hretained

/-- A message that is kept has a time stamp. -/
theorem IRCMessage.Retained.hasTag_time {message : IRCMessage} {channel : String}
    (h : message.Retained channel) : message.hasTag "tmi-sent-ts" = true := by
  have hidentity := h.2.2
  unfold requiredIdentity at hidentity
  split at hidentity
  · cases hidentity
  split at hidentity
  · cases hidentity
  split at hidentity
  · cases hidentity
  · rename_i htag
    simpa using htag

theorem IRCMessage.hasTag_eq_true {message : IRCMessage} {name : String} :
    message.hasTag name = true ↔ ∃ value, message.get name = some value ∧ value ≠ "" := by
  rw [hasTag, Option.any_eq_true]
  simp

theorem IRCMessage.hasTag_eq_false {message : IRCMessage} {name : String} :
    message.hasTag name = false ↔ (message.get name).filter (· ≠ "") = none := by
  rw [hasTag, Option.any_eq_false, Option.filter_eq_none_iff]
  simp

/-- Two messages are the same event: they share the command, the channel and the `id`, or
neither has an `id` and they share the identifying tags and the parameters after the channel. -/
def SameIdentity (m₁ m₂ : IRCMessage) (c₁ c₂ : String) : Prop :=
  m₁.command = m₂.command ∧ c₁ = c₂ ∧
    ((∃ id, id ≠ "" ∧ m₁.get "id" = some id ∧ m₂.get "id" = some id) ∨
      (m₁.hasTag "id" = false ∧ m₂.hasTag "id" = false ∧
        (∀ name ∈ identityTags, m₁.get name = m₂.get name) ∧
        m₁.params.drop 1 = m₂.params.drop 1))

/-- Two messages are hashed alike although they differ: the parameters of one begin with
identifying tags of the other. -/
def Confusable (m₁ m₂ : IRCMessage) (c₁ c₂ : String) : Prop :=
  m₁.command = m₂.command ∧ c₁ = c₂ ∧ m₁.hasTag "id" = false ∧ m₂.hasTag "id" = false ∧
    (AbsorbsFields identityTags m₁.get m₂.get (m₁.params.drop 1) (m₂.params.drop 1) ∨
      AbsorbsFields identityTags m₂.get m₁.get (m₂.params.drop 1) (m₁.params.drop 1))

section Distinct

variable {m₁ m₂ : IRCMessage} {c₁ c₂ : String}

/-- Every part is shorter than what fits into its header; in memory all of them are. -/
def PartsFit (message : IRCMessage) (channel : String) : Prop :=
  ∀ part ∈ eventParts message channel, (asBytes part).length < 2 ^ 64

/-- **The hash input tells the parts apart.** -/
theorem eventParts_eq_of_input (hfit₁ : PartsFit m₁ c₁) (hfit₂ : PartsFit m₂ c₂)
    (h : eventKeyInput m₁ c₁ = eventKeyInput m₂ c₂) : eventParts m₁ c₁ = eventParts m₂ c₂ := by
  rw [eventKeyInput_eq, eventKeyInput_eq] at h
  refine List.map_injective_iff.mpr asBytes_injective ?_
  exact frame_injective length_toLeBytes (by decide) toLeBytes_injective
    (List.forall_mem_map.mpr hfit₁) (List.forall_mem_map.mpr hfit₂) h

/-- The parts of a message with an `id`. -/
theorem eventParts_of_id {message : IRCMessage} {id : String} (channel : String)
    (hget : message.get "id" = some id) (hid : id ≠ "") : eventParts message channel =
      ["twitch-irc-event-v1", message.command, channel, "id", id] := by
  rw [eventParts, Option.filter_eq_some_iff.mpr ⟨hget, by simpa using hid⟩]
  rfl

/-- The parts of a message without one. -/
theorem eventParts_of_no_id {message : IRCMessage} (channel : String)
    (h : message.hasTag "id" = false) : eventParts message channel =
      "twitch-irc-event-v1" :: message.command :: channel ::
        (fields identityTags message.get ++ message.params.drop 1) := by
  rw [eventParts, IRCMessage.hasTag_eq_false.mp h]
  rfl

/-- A kept message without an `id` does not look like one with an `id`, since its time stamp
comes first. -/
theorem fields_ne_id (h : m₂.Retained c₂) {id : String} {rest : List String} :
    fields identityTags m₂.get ++ rest ≠ ["id", id] := by
  obtain ⟨time, htime, -⟩ := IRCMessage.hasTag_eq_true.mp h.hasTag_time
  rw [identityTags, fields_cons_some htime, List.cons_append]
  intro heq
  exact absurd (List.cons.inj heq).1 (by decide)

theorem sameIdentity_or_confusable (h₁ : m₁.Retained c₁) (h₂ : m₂.Retained c₂)
    (hparts : eventParts m₁ c₁ = eventParts m₂ c₂) :
    SameIdentity m₁ m₂ c₁ c₂ ∨ Confusable m₁ m₂ c₁ c₂ := by
  rcases hid₁ : m₁.hasTag "id" with - | - <;> rcases hid₂ : m₂.hasTag "id" with - | -
  · rw [eventParts_of_no_id c₁ hid₁, eventParts_of_no_id c₂ hid₂] at hparts
    simp only [List.cons.injEq, true_and] at hparts
    obtain ⟨hcommand, hchannel, hrest⟩ := hparts
    rcases (fields_append_eq_iff (by decide)).mp hrest with ⟨htags, hparams⟩ | habsorbs
    · exact .inl ⟨hcommand, hchannel, .inr ⟨hid₁, hid₂, htags, hparams⟩⟩
    · exact .inr ⟨hcommand, hchannel, hid₁, hid₂, habsorbs⟩
  · -- one message has an `id`, and the other would have to look like it
    obtain ⟨id, hget, hne⟩ := IRCMessage.hasTag_eq_true.mp hid₂
    rw [eventParts_of_no_id c₁ hid₁, eventParts_of_id c₂ hget hne] at hparts
    simp only [List.cons.injEq, true_and] at hparts
    exact absurd hparts.2.2 (fields_ne_id h₁)
  · obtain ⟨id, hget, hne⟩ := IRCMessage.hasTag_eq_true.mp hid₁
    rw [eventParts_of_id c₁ hget hne, eventParts_of_no_id c₂ hid₂] at hparts
    simp only [List.cons.injEq, true_and] at hparts
    exact absurd hparts.2.2.symm (fields_ne_id h₂)
  · obtain ⟨id₁, hget₁, hne₁⟩ := IRCMessage.hasTag_eq_true.mp hid₁
    obtain ⟨id₂, hget₂, hne₂⟩ := IRCMessage.hasTag_eq_true.mp hid₂
    rw [eventParts_of_id c₁ hget₁ hne₁, eventParts_of_id c₂ hget₂ hne₂] at hparts
    simp only [List.cons.injEq, true_and, and_true] at hparts
    obtain ⟨hcommand, hchannel, rfl⟩ := hparts
    exact .inl ⟨hcommand, hchannel, .inl ⟨id₁, hne₁, hget₁, hget₂⟩⟩

/-- Confusable messages are hashed alike. -/
theorem Confusable.input_eq (h : Confusable m₁ m₂ c₁ c₂) :
    eventKeyInput m₁ c₁ = eventKeyInput m₂ c₂ := by
  obtain ⟨hcommand, hchannel, hid₁, hid₂, habsorbs⟩ := h
  have hrest : fields identityTags m₁.get ++ m₁.params.drop 1 =
      fields identityTags m₂.get ++ m₂.params.drop 1 :=
    habsorbs.elim AbsorbsFields.append_eq fun h => h.append_eq.symm
  rw [eventKeyInput_eq, eventKeyInput_eq, eventParts_of_no_id c₁ hid₁,
    eventParts_of_no_id c₂ hid₂, hcommand, hchannel, hrest]

/-- They are different events. -/
theorem Confusable.not_same (h : Confusable m₁ m₂ c₁ c₂) : ¬ SameIdentity m₁ m₂ c₁ c₂ := by
  obtain ⟨-, -, hid₁, -, habsorbs⟩ := h
  rintro ⟨-, -, ⟨id, hne, hget, -⟩ | ⟨-, -, htags, -⟩⟩
  · rw [IRCMessage.hasTag_eq_true.mpr ⟨id, hget, hne⟩] at hid₁
    cases hid₁
  · rcases habsorbs with habsorbs | habsorbs
    · exact habsorbs.not_agree htags
    · exact habsorbs.not_agree fun name hname => (htags name hname).symm

/-- **Distinct events have distinct identities**, exactly unless the parameters of one message
begin with what the tags of the other go on with. -/
theorem distinct_iff (irc : IrcCodec) (h₁ : Accepted irc m₁ c₁) (h₂ : Accepted irc m₂ c₂)
    (hfit₁ : PartsFit m₁ c₁) (hfit₂ : PartsFit m₂ c₂) :
    (eventKeyInput m₁ c₁ = eventKeyInput m₂ c₂ → SameIdentity m₁ m₂ c₁ c₂) ↔
      ¬ Confusable m₁ m₂ c₁ c₂ := by
  constructor
  · exact fun h hconfusable => hconfusable.not_same (h hconfusable.input_eq)
  · intro hnot hinput
    have hparts := eventParts_eq_of_input hfit₁ hfit₂ hinput
    exact (sameIdentity_or_confusable h₁.retained h₂.retained hparts).resolve_right hnot

/-! #### A clear that looks like another -/

/-- A clear of a user in a shared chat, and one whose parameters name the other chat. -/
def sharedClear : IRCMessage × IRCMessage :=
  (⟨[("tmi-sent-ts", "1"), ("target-user-id", "2"), ("source-id", "5")], "CLEARCHAT", ["#c"]⟩,
    ⟨[("tmi-sent-ts", "1"), ("target-user-id", "2")], "CLEARCHAT", ["#c", "source-id", "5"]⟩)

/-- Their lines. -/
def sharedClearText : String × String :=
  ("@tmi-sent-ts=1;target-user-id=2;source-id=5 :tmi.twitch.tv CLEARCHAT #c",
    "@tmi-sent-ts=1;target-user-id=2 :tmi.twitch.tv CLEARCHAT #c source-id 5")

/-- A parser that knows the two lines. -/
def sharedClearLines : IrcCodec where
  parse raw :=
    if raw = sharedClearText.1 then .ok sharedClear.1
    else if raw = sharedClearText.2 then .ok sharedClear.2
    else .error "neither line"
  blake3 := fun _ => 0

theorem accepted_sharedClear : Accepted sharedClearLines sharedClear.1 "c" ∧
    Accepted sharedClearLines sharedClear.2 "c" := by
  have hparse₁ : sharedClearLines.parse (trimLine sharedClearText.1) = .ok sharedClear.1 := by
    rw [show trimLine sharedClearText.1 = sharedClearText.1 by decide +kernel]
    simp [sharedClearLines]
  have hparse₂ : sharedClearLines.parse (trimLine sharedClearText.2) = .ok sharedClear.2 := by
    rw [show trimLine sharedClearText.2 = sharedClearText.2 by decide +kernel]
    simp [sharedClearLines, sharedClearText]
  have hretained : sharedClear.1.Retained "c" ∧ sharedClear.2.Retained "c" := by decide +kernel
  exact ⟨⟨_, 0, "", .unknown, _, hparse₁, canonicalize_of_retained hparse₁ hretained.1, rfl⟩,
    ⟨_, 0, "", .unknown, _, hparse₂, canonicalize_of_retained hparse₂ hretained.2, rfl⟩⟩

theorem distinct_sample : (eventKeyInput sharedClear.1 "c" = eventKeyInput sharedClear.2 "c" →
    SameIdentity sharedClear.1 sharedClear.2 "c" "c") ↔
      ¬ Confusable sharedClear.1 sharedClear.2 "c" "c" :=
  distinct_iff sharedClearLines accepted_sharedClear.1 accepted_sharedClear.2
    (by unfold PartsFit; decide +kernel) (by unfold PartsFit; decide +kernel)

/-- The two clears are hashed alike. -/
theorem shared_clears_collide :
    ¬ ∀ (irc : IrcCodec) (m₁ m₂ : IRCMessage) (c₁ c₂ : String), Accepted irc m₁ c₁ →
      Accepted irc m₂ c₂ → PartsFit m₁ c₁ → PartsFit m₂ c₂ →
      eventKeyInput m₁ c₁ = eventKeyInput m₂ c₂ → SameIdentity m₁ m₂ c₁ c₂ := by
  intro h
  obtain ⟨-, -, ⟨id, -, hid, -⟩ | ⟨-, -, htags, -⟩⟩ := h sharedClearLines _ _ "c" "c"
    accepted_sharedClear.1 accepted_sharedClear.2 (by unfold PartsFit; decide +kernel)
    (by unfold PartsFit; decide +kernel) (by decide +kernel)
  · -- neither has an `id`
    exact absurd hid (by simp [sharedClear, IRCMessage.get, List.lookup_cons])
  · -- and `source-id` tells them apart
    exact absurd (htags "source-id" (by decide)) (by decide +kernel)

end Distinct

end RecentMessages
