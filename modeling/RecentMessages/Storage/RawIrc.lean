/-
RecentMessages/Storage/RawIrc.lean

From a line of IRC to a canonical record (`storage/raw_irc.rs`).

Four commands are kept, and only where the message has an identity that every source
agrees on: an `id`, or the tags that say what a moderator cleared, and always the time
the server stamped it with.  The parser and the hash are not part of the repository; they
are the two fields of `IrcCodec`.
-/
import RecentMessages.Storage.Placement
import Mathlib.Data.List.DropRight

namespace RecentMessages

/-- A parsed IRC message, without its prefix; a tag has one value. -/
structure IRCMessage where
  tags : List (String × String)
  command : String
  params : List String
  deriving DecidableEq, Repr

/-- What canonicalization rests on. -/
structure IrcCodec where
  /-- `IRCMessage::parse`. -/
  parse : String → Except String IRCMessage
  blake3 : List UInt8 → EventKey

/-- Errors of `canonicalize_raw_irc_from`. -/
inductive RawIrcError
  | parse (message : String)
  | unsupportedCommand (command : String)
  | missingChannel
  | missingIdentity (command required : String)
  deriving DecidableEq, Repr

/-- `RETAINED_COMMANDS`. -/
def retainedCommands : List String := ["PRIVMSG", "CLEARCHAT", "CLEARMSG", "USERNOTICE"]

/-! ### Numbers -/

/-- The value of one or more decimal digits. -/
def parseDigits (digits : List Char) : Option ℕ :=
  if digits = [] ∨ ¬digits.all Char.isDigit then none
  else some (digits.foldl (fun n digit => 10 * n + (digit.toNat - 48)) 0)

/-- `str::parse::<i64>`. -/
def parseI64 (s : String) : Option ℤ :=
  let value : Option ℤ :=
    match s.toList with
    | '-' :: digits => (parseDigits digits).map fun n => -(n : ℤ)
    | '+' :: digits => (parseDigits digits).map fun n => (n : ℤ)
    | digits => (parseDigits digits).map fun n => (n : ℤ)
  value.filter fun n => i64Min ≤ n ∧ n ≤ i64Max

namespace IRCMessage

/-- `tags.0.get`. -/
def get (message : IRCMessage) (name : String) : Option String := message.tags.lookup name

/-- `has_tag`. -/
def hasTag (message : IRCMessage) (name : String) : Bool :=
  (message.get name).any fun value => value ≠ ""

/-- A tag that holds a number. -/
def getI64 (message : IRCMessage) (name : String) : Option ℤ := (message.get name).bind parseI64

end IRCMessage

/-! ### Channel and identity -/

/-- `normalize_channel`. -/
def normalizeChannel (channel : String) : Option String :=
  let channel := toAsciiLowercase (String.ofList (channel.toList.dropWhile (· = '#')))
  if channel ≠ "" ∧ (asBytes channel).all fun byte => isAsciiAlphanumeric byte || byte = 95 then
    some channel
  else none

/-- What `validate_identity` misses first. -/
def requiredIdentity (message : IRCMessage) : Option String :=
  if (message.command = "PRIVMSG" ∨ message.command = "USERNOTICE") ∧ ¬message.hasTag "id" then
    some "id"
  else if message.command = "CLEARMSG" ∧ ¬message.hasTag "target-msg-id" then
    some "target-msg-id"
  else if ¬message.hasTag "tmi-sent-ts" then
    some "tmi-sent-ts"
  else if message.command = "CLEARCHAT" ∧ 1 < message.params.length ∧
      ¬message.hasTag "target-user-id" then
    some "target-user-id for a user-specific clear"
  else none

/-- `validate_identity`. -/
def validateIdentity (message : IRCMessage) : Except RawIrcError Unit :=
  match requiredIdentity message with
  | some required => .error (.missingIdentity message.command required)
  | none => .ok ()

/-! ### The event key -/

/-- `u64::to_le_bytes`. -/
def toLeBytes (n : ℕ) : List UInt8 :=
  (List.range 8).map fun i => UInt8.ofNat (n / 256 ^ i % 256)

/-- `add_part`; the hasher is what it was given so far. -/
def addPart (hasher : List UInt8) (value : String) : List UInt8 :=
  hasher ++ toLeBytes (asBytes value).length ++ asBytes value

/-- The tags that identify a message without an `id`. -/
def identityTags : List String :=
  ["tmi-sent-ts", "target-msg-id", "target-user-id", "ban-duration", "source-id"]

/-- What `event_key` gives to the hash. -/
def eventKeyInput (message : IRCMessage) (channel : String) : List UInt8 :=
  let hasher := addPart (addPart (addPart [] "twitch-irc-event-v1") message.command) channel
  match (message.get "id").filter (· ≠ "") with
  | some id => addPart (addPart hasher "id") id
  | none =>
    let hasher := identityTags.foldl (fun hasher name =>
      match message.get name with
      | some value => addPart (addPart hasher name) value
      | none => hasher) hasher
    (message.params.drop 1).foldl addPart hasher

/-- `event_key`. -/
def IRCMessage.eventKey (irc : IrcCodec) (message : IRCMessage) (channel : String) : EventKey :=
  irc.blake3 (eventKeyInput message channel)

/-! ### Canonicalization -/

/-- `trim_end_matches(['\r', '\n'])`. -/
def trimLine (raw : String) : String :=
  String.ofList (raw.toList.rdropWhile fun c => c = '\r' ∨ c = '\n')

/-- `canonicalize_raw_irc_from`. -/
def canonicalizeRawIrcFrom (irc : IrcCodec) (raw : String) (receivedAtMs : ℤ) (sourceId : String)
    (fidelity : SourceFidelity) : Except RawIrcError CanonicalRecord :=
  let raw := trimLine raw
  match irc.parse raw with
  | .error error => .error (.parse error)
  | .ok message =>
    if message.command ∉ retainedCommands then .error (.unsupportedCommand message.command)
    else
      match message.params.head?.bind normalizeChannel with
      | none => .error .missingChannel
      | some channelKey => do
        validateIdentity message
        return {
          channelKey
          eventAtMs := (message.getI64 "tmi-sent-ts").getD receivedAtMs
          receivedAtMs := (message.getI64 "rm-received-ts").getD receivedAtMs
          eventKey := message.eventKey irc channelKey
          sourceId
          fidelity
          rawIrc := asBytes raw }

/-- A message that is kept: of which channel it is. -/
def IRCMessage.Retained (message : IRCMessage) (channel : String) : Prop :=
  message.command ∈ retainedCommands ∧ message.params.head?.bind normalizeChannel = some channel ∧
    requiredIdentity message = none

instance (message : IRCMessage) (channel : String) : Decidable (message.Retained channel) :=
  inferInstanceAs (Decidable (_ ∧ _ ∧ _))

variable {irc : IrcCodec} {raw sourceId channel : String} {receivedAtMs : ℤ}
variable {fidelity : SourceFidelity} {message : IRCMessage}

/-- **What is accepted**: the line of a message that is kept, as a record of its channel. -/
theorem canonicalize_of_retained (hparse : irc.parse (trimLine raw) = .ok message)
    (h : message.Retained channel) :
    canonicalizeRawIrcFrom irc raw receivedAtMs sourceId fidelity = .ok {
      channelKey := channel
      eventAtMs := (message.getI64 "tmi-sent-ts").getD receivedAtMs
      receivedAtMs := (message.getI64 "rm-received-ts").getD receivedAtMs
      eventKey := message.eventKey irc channel
      sourceId
      fidelity
      rawIrc := asBytes (trimLine raw) } := by
  obtain ⟨hcommand, hchannel, hidentity⟩ := h
  simp only [canonicalizeRawIrcFrom, hparse, hcommand, hchannel, not_true_eq_false, if_false,
    validateIdentity, hidentity]
  rfl

/-- Nothing else is accepted. -/
theorem retained_of_canonicalize {r : CanonicalRecord}
    (h : canonicalizeRawIrcFrom irc raw receivedAtMs sourceId fidelity = .ok r) :
    ∃ message, irc.parse (trimLine raw) = .ok message ∧ message.Retained r.channelKey := by
  unfold canonicalizeRawIrcFrom at h
  dsimp only at h
  split at h
  · cases h
  · rename_i message hparse
    split at h
    · cases h
    · rename_i hcommand
      split at h
      · cases h
      · rename_i channel hchannel
        obtain ⟨_, hvalid, h⟩ := Except.bind_eq_ok.mp h
        cases h
        refine ⟨message, hparse, not_not.mp hcommand, hchannel, ?_⟩
        unfold validateIdentity at hvalid
        split at hvalid
        · cases hvalid
        · assumption

end RecentMessages
