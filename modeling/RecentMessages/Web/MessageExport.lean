/-
RecentMessages/Web/MessageExport.lean

From stored messages to the lines of a response (`message_export.rs`).

`appendStoredMsg` goes through the messages once.  A message that parses, is of an exported
kind and is no ignored NOTICE becomes a frame, and if it is a moderation it first marks
frames that are there already.  `ContainerFrame.render` makes a line of a frame, and the two
hide options leave frames out.

* `containerOf_eq` — the marks are those of `marked`: a frame is marked if and only if a later
  one moderates it;
* `exportStoredMessages_eq` — the hide options leave frames out, and change no line;
* `deleted_lines_iff` — the lines say what the marks say unless a message came with
  `rm-deleted=1`, which is exported as it is (`own_mark_exported`);
* `stableRawIrc_perm` — a line does not depend on the order in which a hash map is iterated.

The parser, `as_raw_irc` and `format_duration` are third-party code (`TwitchIrc`).
-/
import RecentMessages.Library.KeyTable
import RecentMessages.Library.Lists
import RecentMessages.Library.Ranking
import RecentMessages.Library.Escaping
import RecentMessages.Library.Marking
import Mathlib.Data.String.Basic

namespace RecentMessages

/-! ### Messages -/

/-- `IRCTags`: a hash map, with its rows in the order of its iteration. -/
abbrev IRCTags := KeyTable (Prod.fst : String × String → String)

inductive IRCPrefix
  | hostOnly (host : String)
  | full (nick : String) (user host : Option String)
  deriving DecidableEq, Repr

/-- `IRCMessage`, with its prefix and its tags as a map. -/
structure FullIRCMessage where
  tags : IRCTags
  origin : Option IRCPrefix
  command : String
  params : List String

/-- `ClearChatAction`; a duration is in milliseconds. -/
inductive ClearChatAction
  | chatCleared
  | userTimedOut (userLogin userId : String) (timeoutLength : ℕ)
  | userBanned (userLogin userId : String)
  deriving DecidableEq, Repr

/-- `ServerMessage`, with what the export reads of every kind. -/
inductive StoredServerMessage
  | privmsg (source : FullIRCMessage) (senderId messageId : String)
  | clearChat (source : FullIRCMessage) (channelLogin : String) (action : ClearChatAction)
  | clearMsg (source : FullIRCMessage) (messageId : String)
  | userNotice (source : FullIRCMessage) (senderId messageId : String)
  | notice (source : FullIRCMessage) (messageId : Option String)
  | roomState (source : FullIRCMessage)
  /-- A kind that is not exported. -/
  | other (source : FullIRCMessage)

/-- What the export uses of `twitch_irc` and `humantime`. -/
structure TwitchIrc where
  /-- `IRCMessage::parse`. -/
  parse : String → Except String FullIRCMessage
  /-- `ServerMessage::try_from`. -/
  serverMessage : FullIRCMessage → Except String StoredServerMessage
  asRawIrc : FullIRCMessage → String
  formatDuration : ℕ → String

/-- `IRCMessage::from`. -/
def StoredServerMessage.toIRCMessage : StoredServerMessage → FullIRCMessage
  | privmsg source _ _ => source
  | clearChat source _ _ => source
  | clearMsg source _ => source
  | userNotice source _ _ => source
  | notice source _ => source
  | roomState source => source
  | other source => source

/-- The three options of `GetRecentMessagesQueryOptions` that the export reads. -/
structure ExportOptions where
  hideModerationMessages : Bool
  hideModeratedMessages : Bool
  clearchatToNotice : Bool
  deriving DecidableEq, Repr

/-! ### Lines -/

/-- What `encode_tag_value` pushes for a character. -/
def encodeTagChar (character : Char) : List Char :=
  match character with
  | ';' => ['\\', ':']
  | ' ' => ['\\', 's']
  | '\\' => ['\\', '\\']
  | '\r' => ['\\', 'r']
  | '\n' => ['\\', 'n']
  | other => [other]

/-- `encode_tag_value`. -/
def encodeTagValue (value : String) : String := String.ofList (value.toList.flatMap encodeTagChar)

/-- A tag of a line; an empty value is left out. -/
def encodeTag (tag : String × String) : String :=
  if tag.2 = "" then tag.1 else tag.1 ++ "=" ++ encodeTagValue tag.2

/-- `std::mem::take` of the tags. -/
def FullIRCMessage.withoutTags (message : FullIRCMessage) : FullIRCMessage :=
  { message with tags := KeyTable.empty }

/-- `tags.0.insert`. -/
def FullIRCMessage.insertTag (message : FullIRCMessage) (key value : String) : FullIRCMessage :=
  { message with tags := message.tags.put (key, value) }

/-- `stable_raw_irc`. -/
def stableRawIrc (irc : TwitchIrc) (message : FullIRCMessage) : String :=
  let tags := sortByKey Prod.fst message.tags.rows
  let rest := irc.asRawIrc message.withoutTags
  if tags = [] then rest
  else "@" ++ ";".intercalate (tags.map encodeTag) ++ " " ++ rest

/-- The escapes of `encode_tag_value`. -/
def tagEscaping : Escaping Char where
  esc := '\\'
  letter
    | ';' => some ':'
    | ' ' => some 's'
    | '\\' => some '\\'
    | '\r' => some 'r'
    | '\n' => some 'n'
    | _ => none
  special
    | ':' => some ';'
    | 's' => some ' '
    | '\\' => some '\\'
    | 'r' => some '\r'
    | 'n' => some '\n'
    | _ => none
  special_letter := by
    intro a b h
    split at h <;> cases h <;> rfl
  letter_esc := by decide

theorem encodeTagChar_eq (character : Char) :
    encodeTagChar character = tagEscaping.escapeChar character := by
  unfold encodeTagChar
  split <;> try rfl
  -- a character that is none of the five has no letter
  apply (Escaping.escapeChar_of_none _).symm
  simp_all [tagEscaping]

theorem toList_encodeTagValue (value : String) :
    (encodeTagValue value).toList = tagEscaping.escape value.toList := by
  rw [encodeTagValue, String.toList_ofList, Escaping.escape]
  congr 1
  funext character
  exact encodeTagChar_eq character

/-- **The characters that end a value, a tag list or a line** are not written. -/
theorem not_mem_encodeTagValue {value : String} {c : Char} (h : c ∈ [';', ' ', '\r', '\n']) :
    c ∉ (encodeTagValue value).toList := by
  rw [toList_encodeTagValue]
  have hspecial : tagEscaping.letter c ≠ none ∧ c ≠ tagEscaping.esc := by
    simp at h
    rcases h with rfl | rfl | rfl | rfl <;> decide
  apply Escaping.not_mem_escape hspecial.1 hspecial.2
  intro b hb
  -- the letters are `:`, `s`, `r`, `n` and the backslash
  simp at h
  rcases h with rfl | rfl | rfl | rfl <;> simp only [tagEscaping] at hb <;> split at hb <;>
    cases hb

/-- **A line does not depend on the order of the hash map.** -/
theorem stableRawIrc_perm (irc : TwitchIrc) (message : FullIRCMessage) {tags : IRCTags}
    (h : tags.rows.Perm message.tags.rows) :
    stableRawIrc irc { message with tags } = stableRawIrc irc message := by
  have hsorted : sortByKey Prod.fst tags.rows = sortByKey Prod.fst message.tags.rows :=
    sortByKey_eq_of_perm h fun p hp q hq heq => tags.eq_of_key hp hq heq
  unfold stableRawIrc
  rw [hsorted]
  rfl

/-! ### Frames -/

structure ContainerFrame where
  /-- The original message that was received from IRC. -/
  originalMessage : StoredServerMessage
  timeReceived : ℤ
  deletedByModeration : Bool

structure StoredMessage where
  timeReceived : ℤ
  messageSource : String
  deriving DecidableEq, Repr

/-- The text and the `msg-id` of the NOTICE for a CLEARCHAT. -/
def ClearChatAction.notice (irc : TwitchIrc) : ClearChatAction → String × String
  | chatCleared => ("Chat has been cleared by a moderator.", "rm-clearchat")
  | userTimedOut userLogin _ timeoutLength =>
    (userLogin ++ " has been timed out for " ++ irc.formatDuration timeoutLength ++ ".",
      "rm-timeout")
  | userBanned userLogin _ => (userLogin ++ " has been permanently banned.", "rm-permaban")

/-- The message that is exported, before tags are added. -/
def messageToExport (irc : TwitchIrc) (clearchatToNotice : Bool) :
    StoredServerMessage → FullIRCMessage
  | .clearChat source channelLogin action =>
    if clearchatToNotice then
      let (message, extraTag) := action.notice irc
      { tags := KeyTable.empty.put ("msg-id", extraTag)
        origin := some (.hostOnly "tmi.twitch.tv")
        command := "NOTICE"
        params := ["#" ++ channelLogin, message] }
    else source
  | message => message.toIRCMessage

namespace ContainerFrame

/-- The exported message with its tags. -/
def taggedMessage (irc : TwitchIrc) (clearchatToNotice : Bool) (frame : ContainerFrame) :
    FullIRCMessage :=
  let message := ((messageToExport irc clearchatToNotice frame.originalMessage).insertTag
    "historical" "1").insertTag "rm-received-ts" (toString frame.timeReceived)
  if frame.deletedByModeration then message.insertTag "rm-deleted" "1" else message

/-- The line of a frame. -/
def render (irc : TwitchIrc) (clearchatToNotice : Bool) (frame : ContainerFrame) : String :=
  stableRawIrc irc (frame.taggedMessage irc clearchatToNotice)

/-- `matches!(…, ClearChat(_) | ClearMsg(_))`. -/
def moderates (frame : ContainerFrame) : Bool :=
  match frame.originalMessage with
  | .clearChat .. => true
  | .clearMsg .. => true
  | _ => false

/-- `ContainerFrame::export`. -/
def export_ (irc : TwitchIrc) (options : ExportOptions) (frame : ContainerFrame) : Option String :=
  if options.hideModeratedMessages && frame.deletedByModeration then none
  else if options.hideModerationMessages && frame.moderates then none
  else some (frame.render irc options.clearchatToNotice)

/-- `frame.deleted_by_moderation = true`. -/
def delete (frame : ContainerFrame) : ContainerFrame := { frame with deletedByModeration := true }

end ContainerFrame

/-! ### The container -/

structure MessageContainer where
  options : ExportOptions
  frames : List ContainerFrame

/-- `IGNORED_NOTICE_IDS`. -/
def ignoredNoticeIds : List String :=
  ["no_permission", "host_on", "host_off", "host_target_went_offline", "msg_channel_suspended"]

/-- We export PRIVMSG, CLEARCHAT, CLEARMSG, USERNOTICE, NOTICE and ROOMSTATE. -/
def StoredServerMessage.exported : StoredServerMessage → Bool
  | privmsg .. => true
  | clearChat .. => true
  | clearMsg .. => true
  | userNotice .. => true
  | notice .. => true
  | roomState .. => true
  | other .. => false

/-- A NOTICE that is not exported. -/
def StoredServerMessage.ignored : StoredServerMessage → Bool
  | notice _ (some messageId) => messageId ∈ ignoredNoticeIds
  | _ => false

/-- A PRIVMSG or USERNOTICE of a user. -/
def StoredServerMessage.isFrom (userId : String) : StoredServerMessage → Bool
  | privmsg _ senderId _ => senderId = userId
  | userNotice _ senderId _ => senderId = userId
  | _ => false

/-- The PRIVMSG or USERNOTICE of an id. -/
def StoredServerMessage.hasId (messageId : String) : StoredServerMessage → Bool
  | privmsg _ _ id => id = messageId
  | userNotice _ _ id => id = messageId
  | _ => false

namespace MessageContainer

/-- `iter_mut().filter(…).for_each(…)`: mark the frames of some messages. -/
def deleteWhere (p : StoredServerMessage → Bool) (frames : List ContainerFrame) :
    List ContainerFrame :=
  frames.map fun frame => if p frame.originalMessage then frame.delete else frame

/-- Apply the `deleted_by_moderation` flag. -/
def applyModeration (message : StoredServerMessage) (frames : List ContainerFrame) :
    List ContainerFrame :=
  match message with
  | .clearChat _ _ .chatCleared => frames.map ContainerFrame.delete
  | .clearChat _ _ (.userTimedOut _ userId _) =>
    deleteWhere (StoredServerMessage.isFrom userId) frames
  | .clearChat _ _ (.userBanned _ userId) => deleteWhere (StoredServerMessage.isFrom userId) frames
  | .clearMsg _ messageId => deleteWhere (StoredServerMessage.hasId messageId) frames
  | _ => frames

/-- `append_stored_msg`. -/
def appendStoredMsg (irc : TwitchIrc) (container : MessageContainer) (message : StoredMessage) :
    MessageContainer :=
  match irc.parse message.messageSource with
  | .error _ => container
  | .ok parsedMessage =>
    match irc.serverMessage parsedMessage with
    | .error _ => container
    | .ok serverMessage =>
      if serverMessage.exported = false ∨ serverMessage.ignored then container
      else
        { container with
          frames := applyModeration serverMessage container.frames ++
            [⟨serverMessage, message.timeReceived, false⟩] }

/-- `MessageContainer::export`. -/
def export_ (irc : TwitchIrc) (container : MessageContainer) : List String :=
  container.frames.filterMap (ContainerFrame.export_ irc container.options)

end MessageContainer

/-- The container after a list of messages. -/
def containerOf (irc : TwitchIrc) (messages : List StoredMessage) (options : ExportOptions) :
    MessageContainer :=
  messages.foldl (MessageContainer.appendStoredMsg irc) ⟨options, []⟩

/-- `export_stored_messages`. -/
def exportStoredMessages (irc : TwitchIrc) (messages : List StoredMessage)
    (options : ExportOptions) : List String :=
  (containerOf irc messages options).export_ irc

/-! ### Marks -/

/-- The sender of a PRIVMSG or USERNOTICE. -/
def StoredServerMessage.senderId : StoredServerMessage → Option String
  | privmsg _ senderId _ => some senderId
  | userNotice _ senderId _ => some senderId
  | _ => none

/-- The id of a PRIVMSG or USERNOTICE. -/
def StoredServerMessage.messageId : StoredServerMessage → Option String
  | privmsg _ _ messageId => some messageId
  | userNotice _ _ messageId => some messageId
  | _ => none

/-- What it means that a message moderates an earlier one. -/
inductive Moderates (earlier : StoredServerMessage) : StoredServerMessage → Prop
  | chatCleared {source channelLogin} :
      Moderates earlier (.clearChat source channelLogin .chatCleared)
  | userTimedOut {source channelLogin userLogin userId timeoutLength}
      (target : earlier.senderId = some userId) :
      Moderates earlier (.clearChat source channelLogin
        (.userTimedOut userLogin userId timeoutLength))
  | userBanned {source channelLogin userLogin userId} (target : earlier.senderId = some userId) :
      Moderates earlier (.clearChat source channelLogin (.userBanned userLogin userId))
  | clearMsg {source messageId} (target : earlier.messageId = some messageId) :
      Moderates earlier (.clearMsg source messageId)

/-- The messages that `applyModeration` marks for a later one. -/
def StoredServerMessage.marks (later earlier : StoredServerMessage) : Bool :=
  match later with
  | clearChat _ _ .chatCleared => true
  | clearChat _ _ (.userTimedOut _ userId _) => earlier.isFrom userId
  | clearChat _ _ (.userBanned _ userId) => earlier.isFrom userId
  | clearMsg _ messageId => earlier.hasId messageId
  | _ => false

/-- The server message of an exportable message: it parses, is of an exported kind and is
no ignored NOTICE. -/
def exportable (irc : TwitchIrc) (message : StoredMessage) : Option (StoredServerMessage × ℤ) :=
  match irc.parse message.messageSource with
  | .error _ => none
  | .ok parsedMessage =>
    match irc.serverMessage parsedMessage with
    | .error _ => none
    | .ok serverMessage =>
      if serverMessage.exported = false ∨ serverMessage.ignored then none
      else some (serverMessage, message.timeReceived)

namespace StoredServerMessage

variable {earlier later : StoredServerMessage} {userId messageId : String}

theorem isFrom_iff : earlier.isFrom userId = true ↔ earlier.senderId = some userId := by
  cases earlier <;> simp [isFrom, senderId]

theorem hasId_iff : earlier.hasId messageId = true ↔ earlier.messageId = some messageId := by
  cases earlier <;> simp [hasId, StoredServerMessage.messageId]

theorem marks_iff : later.marks earlier = true ↔ Moderates earlier later := by
  constructor
  · intro h
    match later with
    | clearChat _ _ .chatCleared => exact .chatCleared
    | clearChat _ _ (.userTimedOut _ _ _) => exact .userTimedOut (isFrom_iff.mp h)
    | clearChat _ _ (.userBanned _ _) => exact .userBanned (isFrom_iff.mp h)
    | clearMsg _ _ => exact .clearMsg (hasId_iff.mp h)
  · intro h
    cases h with
    | chatCleared => rfl
    | userTimedOut target => exact isFrom_iff.mpr target
    | userBanned target => exact isFrom_iff.mpr target
    | clearMsg target => exact hasId_iff.mpr target

end StoredServerMessage

/-- A message with its mark, as a frame. -/
def ContainerFrame.ofMarked (p : (StoredServerMessage × ℤ) × Bool) : ContainerFrame :=
  ⟨p.1.1, p.1.2, p.2⟩

/-- Messages with their marks. -/
def markedMessages (messages : List (StoredServerMessage × ℤ)) :
    List ((StoredServerMessage × ℤ) × Bool) :=
  marked (fun later earlier => later.1.marks earlier.1) messages

section

variable (irc : TwitchIrc) {options : ExportOptions} {messages : List StoredMessage}
  {frames : List ContainerFrame} {message : StoredServerMessage}

/-- A moderation marks the frames it moderates, and no other one. -/
theorem applyModeration_eq_map : MessageContainer.applyModeration message frames =
    frames.map fun frame =>
      ⟨frame.originalMessage, frame.timeReceived,
        message.marks frame.originalMessage || frame.deletedByModeration⟩ := by
  have hwhere : ∀ p : StoredServerMessage → Bool, MessageContainer.deleteWhere p frames =
      frames.map fun frame =>
        ⟨frame.originalMessage, frame.timeReceived,
          p frame.originalMessage || frame.deletedByModeration⟩ := by
    intro p
    apply List.map_congr_left
    intro frame _
    cases p frame.originalMessage <;> rfl
  match message with
  | .clearChat _ _ .chatCleared => rfl
  | .clearChat _ _ (.userTimedOut _ _ _) => exact hwhere _
  | .clearChat _ _ (.userBanned _ _) => exact hwhere _
  | .clearMsg _ _ => exact hwhere _
  | .privmsg .. => exact (List.map_id _).symm
  | .userNotice .. => exact (List.map_id _).symm
  | .notice .. => exact (List.map_id _).symm
  | .roomState .. => exact (List.map_id _).symm
  | .other .. => exact (List.map_id _).symm

/-- One message: nothing happens, or it moderates and comes last. -/
theorem appendStoredMsg_eq (container : MessageContainer) (stored : StoredMessage) :
    container.appendStoredMsg irc stored =
      match exportable irc stored with
      | none => container
      | some p => { container with
          frames := MessageContainer.applyModeration p.1 container.frames ++
            [⟨p.1, p.2, false⟩] } := by
  unfold MessageContainer.appendStoredMsg exportable
  split
  · rfl
  · split
    · rfl
    · split <;> rfl

/-- **The frames are the exportable messages, marked by what comes later.** -/
theorem containerOf_eq (messages : List StoredMessage) (options : ExportOptions) :
    containerOf irc messages options = ⟨options,
      (markedMessages (messages.filterMap (exportable irc))).map ContainerFrame.ofMarked⟩ := by
  induction messages using List.reverseRecOn with
  | nil => rfl
  | append_singleton messages stored ih =>
    rw [containerOf, List.foldl_concat, ← containerOf, ih, appendStoredMsg_eq,
      List.filterMap_append]
    rcases h : exportable irc stored with - | p
    · simp [h]
    · simp only [List.filterMap_cons, List.filterMap_nil, h]
      rw [applyModeration_eq_map, markedMessages, markedMessages, marked_append]
      simp [ContainerFrame.ofMarked]

/-! ### Options -/

/-- Selecting what stands beside the items that satisfy `p`. -/
theorem map_snd_filter_zip {α β : Type*} (f : α → β) (p : α → Bool) (l : List α) :
    ((l.zip (l.map f)).filter fun q => p q.1).map Prod.snd = (l.filter p).map f := by
  induction l with
  | nil => rfl
  | cons a l ih =>
    rw [List.map_cons, List.zip_cons_cons, List.filter_cons, List.filter_cons]
    split
    · rw [List.map_cons, ih, List.map_cons]
    · exact ih

/-- Whether a frame is exported. -/
def ContainerFrame.kept (options : ExportOptions) (frame : ContainerFrame) : Bool :=
  !(options.hideModeratedMessages && frame.deletedByModeration) &&
    !(options.hideModerationMessages && frame.moderates)

theorem ContainerFrame.export_eq (options : ExportOptions) (frame : ContainerFrame) :
    frame.export_ irc options =
      if frame.kept options then some (frame.render irc options.clearchatToNotice) else none := by
  rw [export_, kept]
  cases options.hideModeratedMessages && frame.deletedByModeration <;>
    cases options.hideModerationMessages && frame.moderates <;> rfl

/-- The lines are those of the frames that are kept. -/
theorem exportStoredMessages_eq (messages : List StoredMessage) (options : ExportOptions) :
    exportStoredMessages irc messages options =
      ((containerOf irc messages options).frames.filter (ContainerFrame.kept options)).map
        (ContainerFrame.render irc options.clearchatToNotice) := by
  have hoptions : (containerOf irc messages options).options = options := by
    rw [containerOf_eq]
  rw [exportStoredMessages, MessageContainer.export_, hoptions, ← List.filterMap_eq_map,
    List.filterMap_filter]
  apply List.filterMap_congr
  intro frame _
  exact ContainerFrame.export_eq irc options frame

/-- The tag `rm-deleted` of a line shows the mark. -/
theorem lookup_deleted (clearchatToNotice : Bool) (frame : ContainerFrame) :
    (frame.taggedMessage irc clearchatToNotice).tags.lookup "rm-deleted" =
      if frame.deletedByModeration then some ("rm-deleted", "1")
      else (messageToExport irc clearchatToNotice frame.originalMessage).tags.lookup
        "rm-deleted" := by
  unfold ContainerFrame.taggedMessage
  split
  · exact KeyTable.lookup_put_self _ _
  · simp only [FullIRCMessage.insertTag]
    have hreceived : "rm-received-ts" ≠ "rm-deleted" := by decide
    have hhistorical : "historical" ≠ "rm-deleted" := by decide
    rw [KeyTable.lookup_put_ne _ hreceived, KeyTable.lookup_put_ne _ hhistorical]

end

/-- **Moderation marks are declarative and the hide options are filters.**  For every list
of messages: the frames are the exportable messages in their order, and a frame is marked if and
only if a later exportable message moderates it.  A marked frame is exported with `rm-deleted=1`;
of any other one the line has this tag only if the message came with it.  The output with hide
options is selected from the output without them, line by line, by mark and by kind. -/
theorem moderation_marks_declarative (irc : TwitchIrc) (messages : List StoredMessage)
    (options : ExportOptions) :
    ((containerOf irc messages options).frames.map fun frame =>
        (frame.originalMessage, frame.timeReceived)) = messages.filterMap (exportable irc) ∧
    (∀ (i : ℕ) (frame : ContainerFrame),
      (containerOf irc messages options).frames[i]? = some frame →
      (frame.deletedByModeration = true ↔
        ∃ (j : ℕ) (later : StoredServerMessage × ℤ), i < j ∧
          (messages.filterMap (exportable irc))[j]? = some later ∧
          Moderates frame.originalMessage later.1)) ∧
    (∀ clearchatToNotice, ∀ frame : ContainerFrame,
      (frame.taggedMessage irc clearchatToNotice).tags.lookup "rm-deleted" =
        if frame.deletedByModeration then some ("rm-deleted", "1")
        else (messageToExport irc clearchatToNotice frame.originalMessage).tags.lookup
          "rm-deleted") ∧
    exportStoredMessages irc messages ⟨false, false, options.clearchatToNotice⟩ =
      (containerOf irc messages options).frames.map
        (ContainerFrame.render irc options.clearchatToNotice) ∧
    exportStoredMessages irc messages options =
      (((containerOf irc messages options).frames.zip
          (exportStoredMessages irc messages ⟨false, false, options.clearchatToNotice⟩)).filter
        fun p => !(options.hideModeratedMessages && p.1.deletedByModeration) &&
          !(options.hideModerationMessages && p.1.moderates)).map Prod.snd := by
  -- without hide options every frame is kept
  have hall : exportStoredMessages irc messages ⟨false, false, options.clearchatToNotice⟩ =
      (containerOf irc messages options).frames.map
        (ContainerFrame.render irc options.clearchatToNotice) := by
    rw [exportStoredMessages_eq, containerOf_eq, containerOf_eq]
    congr 1
    exact List.filter_eq_self.mpr fun frame _ => rfl
  refine ⟨?_, fun i frame hframe => ?_, lookup_deleted irc, hall, ?_⟩
  -- the frames are the exportable messages
  · rw [containerOf_eq, List.map_map]
    exact map_fst_marked _
  -- the mark of a frame is that of its message
  · rw [containerOf_eq] at hframe
    dsimp only at hframe
    rw [List.getElem?_map, Option.map_eq_some_iff] at hframe
    obtain ⟨⟨p, d⟩, hp, rfl⟩ := hframe
    obtain ⟨-, hd⟩ := getElem?_marked.mp hp
    simp only [StoredServerMessage.marks_iff] at hd
    exact hd
  -- the options select frames, and do not change their lines
  · rw [hall, exportStoredMessages_eq]
    exact (map_snd_filter_zip _ (ContainerFrame.kept options) _).symm

/-! ### Deleted lines -/

/-- The tags say `rm-deleted=1`. -/
def FullIRCMessage.isDeleted (message : FullIRCMessage) : Bool :=
  message.tags.lookup "rm-deleted" = some ("rm-deleted", "1")

/-- A CLEARCHAT or a CLEARMSG. -/
def StoredServerMessage.isModeration : StoredServerMessage → Bool
  | clearChat .. => true
  | clearMsg .. => true
  | _ => false

/-- The source of the message says `rm-deleted=1`, and its tags are exported: those of a CLEARCHAT
that becomes a NOTICE are not. -/
def StoredServerMessage.bringsDeleted (clearchatToNotice : Bool) : StoredServerMessage → Bool
  | clearChat source _ _ => !clearchatToNotice && source.isDeleted
  | message => message.toIRCMessage.isDeleted

/-- A later exportable message moderates the one at `i`. -/
def ModeratedLater (irc : TwitchIrc) (messages : List StoredMessage) (i : ℕ)
    (message : StoredServerMessage) : Prop :=
  ∃ (j : ℕ) (later : StoredServerMessage × ℤ), i < j ∧
    (messages.filterMap (exportable irc))[j]? = some later ∧ Moderates message later.1

/-- What is exported for each exportable message when nothing is hidden. -/
def exportedMessages (irc : TwitchIrc) (messages : List StoredMessage) (clearchatToNotice : Bool) :
    List FullIRCMessage :=
  (containerOf irc messages ⟨false, false, clearchatToNotice⟩).frames.map
    (ContainerFrame.taggedMessage irc clearchatToNotice)

/-- **The law of deleted lines.** -/
structure DeletedLines (irc : TwitchIrc) (messages : List StoredMessage)
    (clearchatToNotice : Bool) : Prop where
  /-- Every exportable message has its line. -/
  length : (exportedMessages irc messages clearchatToNotice).length =
    (messages.filterMap (exportable irc)).length
  lines : exportStoredMessages irc messages ⟨false, false, clearchatToNotice⟩ =
    (exportedMessages irc messages clearchatToNotice).map (stableRawIrc irc)
  /-- A message is exported as deleted if and only if a later one moderates it. -/
  deleted : ∀ (i : ℕ) (p : StoredServerMessage × ℤ) (message : FullIRCMessage),
    (messages.filterMap (exportable irc))[i]? = some p →
    (exportedMessages irc messages clearchatToNotice)[i]? = some message →
    (message.isDeleted = true ↔ ModeratedLater irc messages i p.1)
  /-- The hide options leave out what is exported as deleted, and moderations. -/
  hidden : ∀ hideModerationMessages hideModeratedMessages,
    exportStoredMessages irc messages
        ⟨hideModerationMessages, hideModeratedMessages, clearchatToNotice⟩ =
      (((messages.filterMap (exportable irc)).zip
        (exportedMessages irc messages clearchatToNotice)).filter fun q =>
          !(hideModeratedMessages && q.2.isDeleted) &&
            !(hideModerationMessages && q.1.1.isModeration)).map fun q => stableRawIrc irc q.2

section

variable (irc : TwitchIrc)

theorem isDeleted_messageToExport (clearchatToNotice : Bool) (message : StoredServerMessage) :
    (messageToExport irc clearchatToNotice message).isDeleted =
      message.bringsDeleted clearchatToNotice := by
  cases message with
  | clearChat source channelLogin action =>
    cases clearchatToNotice with
    | false => rfl
    | true =>
      -- the NOTICE has one tag, which is another one
      have hother : "msg-id" ≠ "rm-deleted" := by decide
      have hlookup : ((KeyTable.empty : IRCTags).put ("msg-id", (action.notice irc).2)).lookup
          "rm-deleted" = none := KeyTable.lookup_put_ne _ hother
      show decide (((KeyTable.empty : IRCTags).put ("msg-id", (action.notice irc).2)).lookup
        "rm-deleted" = some ("rm-deleted", "1")) = false
      rw [hlookup]
      rfl
  | _ => rfl

/-- A line says `rm-deleted=1` by the mark, or because the message came with it. -/
theorem isDeleted_taggedMessage (clearchatToNotice : Bool) (frame : ContainerFrame) :
    (frame.taggedMessage irc clearchatToNotice).isDeleted =
      (frame.deletedByModeration || frame.originalMessage.bringsDeleted clearchatToNotice) := by
  rw [FullIRCMessage.isDeleted, lookup_deleted]
  cases hmark : frame.deletedByModeration with
  | true => exact decide_eq_true rfl
  | false => exact isDeleted_messageToExport irc clearchatToNotice frame.originalMessage

theorem frames_eq (messages : List StoredMessage) (options options' : ExportOptions) :
    (containerOf irc messages options).frames = (containerOf irc messages options').frames := by
  rw [containerOf_eq, containerOf_eq]

variable {irc} {messages : List StoredMessage}

theorem exportables_eq (options : ExportOptions) : messages.filterMap (exportable irc) =
    (containerOf irc messages options).frames.map fun frame =>
      (frame.originalMessage, frame.timeReceived) :=
  (moderation_marks_declarative irc messages options).1.symm

/-- The frame of an exportable message. -/
theorem exists_frame (clearchatToNotice : Bool) {i : ℕ} {p : StoredServerMessage × ℤ}
    (h : (messages.filterMap (exportable irc))[i]? = some p) :
    ∃ frame : ContainerFrame, frame.originalMessage = p.1 ∧
      (containerOf irc messages ⟨false, false, clearchatToNotice⟩).frames[i]? = some frame ∧
      (exportedMessages irc messages clearchatToNotice)[i]? =
        some (frame.taggedMessage irc clearchatToNotice) ∧
      (frame.deletedByModeration = true ↔ ModeratedLater irc messages i p.1) := by
  have hmarks := (moderation_marks_declarative irc messages ⟨false, false, clearchatToNotice⟩).2.1 i
  rw [exportables_eq ⟨false, false, clearchatToNotice⟩, List.getElem?_map,
    Option.map_eq_some_iff] at h
  obtain ⟨frame, hframe, rfl⟩ := h
  refine ⟨frame, rfl, hframe, ?_, hmarks frame hframe⟩
  rw [exportedMessages, List.getElem?_map, hframe]
  rfl

theorem exportStoredMessages_of_not_hidden (clearchatToNotice : Bool) :
    exportStoredMessages irc messages ⟨false, false, clearchatToNotice⟩ =
      (exportedMessages irc messages clearchatToNotice).map (stableRawIrc irc) := by
  rw [(moderation_marks_declarative irc messages ⟨false, false, clearchatToNotice⟩).2.2.2.1,
    exportedMessages, List.map_map]
  rfl

/-- The hide options select lines, if these say what the marks say. -/
theorem exportStoredMessages_hidden {clearchatToNotice : Bool}
    (hideModerationMessages hideModeratedMessages : Bool)
    (h : ∀ frame ∈ (containerOf irc messages ⟨false, false, clearchatToNotice⟩).frames,
      (frame.taggedMessage irc clearchatToNotice).isDeleted = frame.deletedByModeration) :
    exportStoredMessages irc messages
        ⟨hideModerationMessages, hideModeratedMessages, clearchatToNotice⟩ =
      (((messages.filterMap (exportable irc)).zip
        (exportedMessages irc messages clearchatToNotice)).filter fun q =>
          !(hideModeratedMessages && q.2.isDeleted) &&
            !(hideModerationMessages && q.1.1.isModeration)).map fun q => stableRawIrc irc q.2 := by
  rw [exportStoredMessages_eq, frames_eq irc messages _ ⟨false, false, clearchatToNotice⟩,
    exportables_eq ⟨false, false, clearchatToNotice⟩, exportedMessages, List.zip_map',
    List.filter_map, List.map_map]
  have hkept : (containerOf irc messages ⟨false, false, clearchatToNotice⟩).frames.filter
      (ContainerFrame.kept ⟨hideModerationMessages, hideModeratedMessages, clearchatToNotice⟩) =
      (containerOf irc messages ⟨false, false, clearchatToNotice⟩).frames.filter fun frame =>
        !(hideModeratedMessages && (frame.taggedMessage irc clearchatToNotice).isDeleted) &&
          !(hideModerationMessages && frame.originalMessage.isModeration) := by
    apply List.filter_congr
    intro frame hframe
    rw [h frame hframe]
    rfl
  rw [hkept]
  rfl

end

/-- **When deleted lines are the moderated ones**: no message that stays unmoderated brings
`rm-deleted=1` with it.  Then the hide options select lines by what these say. -/
theorem deleted_lines_iff (irc : TwitchIrc) (messages : List StoredMessage)
    (clearchatToNotice : Bool) :
    DeletedLines irc messages clearchatToNotice ↔
      ∀ (i : ℕ) (p : StoredServerMessage × ℤ),
        (messages.filterMap (exportable irc))[i]? = some p →
        p.1.bringsDeleted clearchatToNotice = true → ModeratedLater irc messages i p.1 := by
  constructor
  · intro h i p hp hbrings
    obtain ⟨frame, horiginal, -, hmessage, -⟩ := exists_frame clearchatToNotice hp
    refine (h.deleted i p _ hp hmessage).mp ?_
    rw [isDeleted_taggedMessage, horiginal, hbrings, Bool.or_true]
  · intro h
    have hdeleted : ∀ (i : ℕ) (frame : ContainerFrame),
        (containerOf irc messages ⟨false, false, clearchatToNotice⟩).frames[i]? = some frame →
        (frame.taggedMessage irc clearchatToNotice).isDeleted = frame.deletedByModeration := by
      intro i frame hframe
      have hp : (messages.filterMap (exportable irc))[i]? =
          some (frame.originalMessage, frame.timeReceived) := by
        rw [exportables_eq ⟨false, false, clearchatToNotice⟩, List.getElem?_map, hframe]
        rfl
      obtain ⟨frame', -, hframe', -, hmark⟩ := exists_frame clearchatToNotice hp
      rw [hframe] at hframe'
      cases hframe'
      -- what the message brings with it, a later one has marked
      rw [isDeleted_taggedMessage, Bool.or_eq_left_iff_imp]
      exact fun hbrings => hmark.mpr (h i _ hp hbrings)
    refine ⟨?_, exportStoredMessages_of_not_hidden clearchatToNotice, fun i p message hp hmessage => ?_,
      fun hideModerationMessages hideModeratedMessages => ?_⟩
    · rw [exportedMessages, List.length_map, exportables_eq ⟨false, false, clearchatToNotice⟩,
        List.length_map]
    · obtain ⟨frame, -, hframe, hmessage', hmark⟩ := exists_frame clearchatToNotice hp
      rw [hmessage'] at hmessage
      cases hmessage
      rw [hdeleted i frame hframe]
      exact hmark
    · refine exportStoredMessages_hidden _ _ fun frame hframe => ?_
      obtain ⟨i, hi⟩ := List.mem_iff_getElem?.mp hframe
      exact hdeleted i frame hi

/-- A PRIVMSG that another service has marked; its own moderation is not stored here. -/
def markedPrivmsg : StoredMessage :=
  ⟨1700000000123,
    "@badge-info=;badges=;color=#123456;display-name=TestUser;emotes=;first-msg=0;flags=;id=1;" ++
      "mod=0;rm-deleted=1;room-id=123;subscriber=0;tmi-sent-ts=1699999999000;turbo=0;user-id=456;" ++
      "user-type= :testuser!testuser@testuser.tmi.twitch.tv PRIVMSG #testchannel :hello world"⟩

/-- What the parser makes of this line. -/
def markedSource : FullIRCMessage where
  tags := [("badge-info", ""), ("badges", ""), ("color", "#123456"), ("display-name", "TestUser"),
    ("emotes", ""), ("first-msg", "0"), ("flags", ""), ("id", "1"), ("mod", "0"),
    ("rm-deleted", "1"), ("room-id", "123"), ("subscriber", "0"), ("tmi-sent-ts", "1699999999000"),
    ("turbo", "0"), ("user-id", "456"), ("user-type", "")].foldl KeyTable.put KeyTable.empty
  origin := some (.full "testuser" (some "testuser") (some "testuser.tmi.twitch.tv"))
  command := "PRIVMSG"
  params := ["#testchannel", "hello world"]

/-- The parser for this one line. -/
def markedIrc : TwitchIrc where
  parse line := if line = markedPrivmsg.messageSource then .ok markedSource else .error "format"
  serverMessage message := .ok (.privmsg message "456" "1")
  asRawIrc _ :=
    ":testuser!testuser@testuser.tmi.twitch.tv PRIVMSG #testchannel :hello world"
  formatDuration _ := ""

/-- **A message that no moderation follows** is exported with the `rm-deleted=1` that it came with,
and is not hidden. -/
theorem own_mark_exported :
    exportStoredMessages markedIrc [markedPrivmsg] ⟨false, true, false⟩ =
      ["@badge-info;badges;color=#123456;display-name=TestUser;emotes;first-msg=0;flags;" ++
        "historical=1;id=1;mod=0;rm-deleted=1;rm-received-ts=1700000000123;room-id=123;" ++
        "subscriber=0;tmi-sent-ts=1699999999000;turbo=0;user-id=456;user-type " ++
        ":testuser!testuser@testuser.tmi.twitch.tv PRIVMSG #testchannel :hello world"] ∧
    ¬DeletedLines markedIrc [markedPrivmsg] false := by
  have hparse : markedIrc.parse markedPrivmsg.messageSource = .ok markedSource := by
    simp only [markedIrc, ↓reduceIte]
  have hexportable : [markedPrivmsg].filterMap (exportable markedIrc) =
      [(.privmsg markedSource "456" "1", 1700000000123)] := by
    rw [List.filterMap_cons, exportable, hparse]
    rfl
  have hp : ([markedPrivmsg].filterMap (exportable markedIrc))[0]? =
      some (.privmsg markedSource "456" "1", 1700000000123) := by
    rw [hexportable]
    rfl
  refine ⟨by decide +kernel, fun h => ?_⟩
  obtain ⟨frame, horiginal, -, hmessage, -⟩ := exists_frame false hp
  have hbrings : (frame.taggedMessage markedIrc false).isDeleted = true := by
    rw [isDeleted_taggedMessage, horiginal, Bool.or_eq_true]
    exact .inr (by decide +kernel)
  obtain ⟨j, later, hlater, hj, -⟩ := (h.deleted 0 _ _ hp hmessage).mp hbrings
  -- there is no second message
  rw [hexportable] at hj
  exact absurd (List.getElem?_eq_some_iff.mp hj).1 (Nat.not_lt.mpr hlater)

end RecentMessages
