/-
RecentMessages/Web/Viewer.lean

How the page reads a line again (`web/src/viewer.tsx`).

A JavaScript string is a list of 16-bit units, a text of the server arrives as its
UTF-16 units.  `parseMessage` cuts tags, prefix, command, parameters and text out of a
line; what the page shows is computed from these.

`decodeTag` is one regular expression, replaced from left to right, so it is the
`unescape` of an `Escaping` of units, which `encode_tag_value` respects
(`respects_units`).  A tag list is split where it was joined, as no tag contains a `;`.
-/
import RecentMessages.Library.Utf16
import RecentMessages.Web.MessageExport

namespace RecentMessages

/-- A JavaScript string. -/
abbrev JsString := List UInt16

/-- A JavaScript object that maps strings to strings, as a finite map. -/
abbrev Tags := JsString → Option JsString

/-- What `parseMessage` reads from a line. -/
structure ChatMessage where
  tags : Tags
  origin : JsString
  command : JsString
  parameters : List JsString
  text : JsString

/-! ### Strings -/

/-- The unit of an ASCII character. -/
def unit (c : Char) : UInt16 := UInt16.ofNat c.toNat

/-- `String.prototype.indexOf`; `none` for a negative result. -/
def indexOf (needle : JsString) : JsString → Option ℕ
  | [] => if needle = [] then some 0 else none
  | u :: l => if needle.isPrefixOf (u :: l) then some 0 else (indexOf needle l).map (· + 1)

/-! ### Tags -/

/-- The `escapes` of `decodeTag`, with the letters of its regular expression. -/
def jsEscaping : Escaping UInt16 where
  esc := unit '\\'
  letter u :=
    if u = unit ';' then some (unit ':')
    else if u = unit ' ' then some (unit 's')
    else if u = unit '\\' then some (unit '\\')
    else if u = unit '\r' then some (unit 'r')
    else if u = unit '\n' then some (unit 'n')
    else none
  special u :=
    if u = unit 's' then some (unit ' ')
    else if u = unit 'n' then some (unit '\n')
    else if u = unit 'r' then some (unit '\r')
    else if u = unit ':' then some (unit ';')
    else if u = unit '\\' then some (unit '\\')
    else none
  special_letter := by
    intro a b h
    repeat' split at h
    all_goals first | cases h; subst_vars; decide | cases h
  letter_esc := by decide

/-- `decodeTag`. -/
def decodeTag (value : JsString) : JsString := jsEscaping.unescape value

/-- One tag of the loop of `parseMessage`. -/
def readTag (tags : Tags) (tag : JsString) : Tags :=
  match indexOf [unit '='] tag with
  | none => Function.update tags tag (some (decodeTag []))
  | some separator =>
    Function.update tags (tag.take separator) (some (decodeTag (tag.drop (separator + 1))))

/-- The tags of a tag list. -/
def readTags (list : JsString) : Tags := (list.splitOn (unit ';')).foldl readTag fun _ => none

/-! ### Lines -/

/-- The commands whose text may be a parameter. -/
def textCommands : List String := ["PRIVMSG", "USERNOTICE", "CLEARMSG"]

/-- Command, parameters and text. -/
def parseCommand (tags : Tags) (origin rest : JsString) : ChatMessage :=
  let commandEnd := indexOf [unit ' '] rest
  let command := (commandEnd.map rest.take).getD rest
  let rest := (commandEnd.map fun i => rest.drop (i + 1)).getD []
  let trailing := indexOf [unit ' ', unit ':'] rest
  let parameters := (((trailing.map rest.take).getD rest).splitOn (unit ' ')).filter (· ≠ [])
  let text := (trailing.map fun i => rest.drop (i + 2)).getD []
  let text :=
    if text = [] ∧ command ∈ textCommands.map utf16 then
      [unit ' '].intercalate (parameters.drop 1)
    else text
  { tags, origin, command, parameters, text }

/-- What `parseMessage` does behind the tags; a prefix without an end is refused. -/
def parseRest (tags : Tags) (rest : JsString) : Option ChatMessage :=
  if [unit ':'].isPrefixOf rest then
    match indexOf [unit ' '] rest with
    | none => none
    | some i => some (parseCommand tags ((rest.take i).drop 1) (rest.drop (i + 1)))
  else some (parseCommand tags [] rest)

/-- `parseMessage`. -/
def parseMessage (raw : JsString) : Option ChatMessage :=
  if [unit '@'].isPrefixOf raw then
    match indexOf [unit ' '] raw with
    | none => none
    | some i => parseRest (readTags ((raw.take i).drop 1)) (raw.drop (i + 1))
  else parseRest (fun _ => none) raw

/-! ### Finding a unit -/

section

variable {u : UInt16} {a b : JsString}

theorem indexOf_append (h : u ∉ a) : indexOf [u] (a ++ u :: b) = some a.length := by
  induction a with
  | nil => simp [indexOf]
  | cons c a ih =>
    rw [List.mem_cons, not_or] at h
    rw [List.cons_append, indexOf, if_neg, ih h.2]
    · rfl
    · simp [h.1]

theorem indexOf_of_not_mem (h : u ∉ a) : indexOf [u] a = none := by
  induction a with
  | nil => rfl
  | cons c a ih =>
    rw [List.mem_cons, not_or] at h
    rw [indexOf, if_neg, ih h.2]
    · rfl
    · simp [h.1]

end

/-! ### Reading a tag -/

theorem unit_mem_utf16 {c : Char} (hlow : c.toNat < 0xD800) {s : String} :
    unit c ∈ utf16 s ↔ c ∈ s.toList := unit_mem_units hlow

@[simp] theorem utf16_append (s s' : String) : utf16 (s ++ s') = utf16 s ++ utf16 s' := by
  rw [utf16, String.toList_append, units_append, utf16, utf16]

/-- A letter of a unit is that of the character. -/
theorem jsLetter_eq_none {c : Char} (h : tagEscaping.letter c = none) :
    ∀ u ∈ c.units, jsEscaping.letter u = none := by
  intro u hu
  have hne : ∀ d : Char, d.toNat < 0xD800 → u = unit d → c = d := by
    rintro d hd rfl
    have hunit : (unit d).toNat = d.toNat := Char.toNat_unit (Nat.lt_trans hd (by decide))
    exact Char.toNat_inj.mp ((Char.mem_units hu (hunit ▸ hd)).trans hunit)
  have hfree : ∀ d : Char, d.toNat < 0xD800 → tagEscaping.letter d ≠ none → u ≠ unit d := by
    rintro d hd hletter heq
    exact hletter (hne d hd heq ▸ h)
  simp only [jsEscaping]
  rw [if_neg (hfree ';' (by decide) (by decide)), if_neg (hfree ' ' (by decide) (by decide)),
    if_neg (hfree '\\' (by decide) (by decide)), if_neg (hfree '\r' (by decide) (by decide)),
    if_neg (hfree '\n' (by decide) (by decide))]

/-- **Server and page escape alike.** -/
theorem respects_units : Escaping.Respects tagEscaping jsEscaping Char.units where
  esc := by decide
  letter := by
    intro a b h
    have hunits : ∀ {c : Char}, c.toNat < 0x10000 → c.units = [unit c] := Char.units_of_lt
    simp only [tagEscaping] at h
    split at h <;> cases h
    all_goals exact ⟨_, _, hunits (by decide), hunits (by decide), by decide⟩
  free := jsLetter_eq_none

theorem utf16_encodeTagValue (value : String) :
    utf16 (encodeTagValue value) = jsEscaping.escape (utf16 value) := by
  rw [utf16, toList_encodeTagValue]
  exact Escaping.flatMap_escape respects_units value.toList

/-- **A value is read as it was.** -/
@[simp] theorem decodeTag_encodeTagValue (value : String) :
    decodeTag (utf16 (encodeTagValue value)) = utf16 value := by
  rw [utf16_encodeTagValue]
  exact Escaping.unescape_escape _

/-- **A tag is read as it was**, if its key has no `=`. -/
theorem readTag_encodeTag (tags : Tags) {tag : String × String} (h : '=' ∉ tag.1.toList) :
    readTag tags (utf16 (encodeTag tag)) =
      Function.update tags (utf16 tag.1) (some (utf16 tag.2)) := by
  have hkey : unit '=' ∉ utf16 tag.1 := (unit_mem_utf16 (by decide)).not.mpr h
  unfold encodeTag
  split
  · rename_i hempty
    rw [readTag, indexOf_of_not_mem hkey, hempty]
    rfl
  · have heq : utf16 (tag.1 ++ "=" ++ encodeTagValue tag.2) =
        utf16 tag.1 ++ unit '=' :: utf16 (encodeTagValue tag.2) := by
      rw [utf16_append, utf16_append, List.append_assoc]
      rfl
    rw [readTag, heq, indexOf_append hkey]
    simp

/-! ### Reading a tag list -/

theorem units_intercalate (c : Char) (ls : List (List Char)) :
    units ([c].intercalate ls) = (units [c]).intercalate (ls.map units) := by
  induction ls with
  | nil => rfl
  | cons l ls ih =>
    cases ls with
    | nil => simp
    | cons l' ls =>
      rw [List.intercalate_cons_cons, units_append, units_append, ih]
      simp

theorem utf16_intercalate (l : List String) :
    utf16 (";".intercalate l) = [unit ';'].intercalate (l.map utf16) := by
  have hchars : utf16 (";".intercalate l) = units ([';'].intercalate (l.map String.toList)) := by
    rw [utf16, String.toList_intercalate]
    rfl
  rw [hchars, units_intercalate, List.map_map]
  rfl

theorem not_mem_intercalate {c d : Char} (hne : c ≠ d) {ls : List (List Char)}
    (h : ∀ l ∈ ls, c ∉ l) : c ∉ [d].intercalate ls := by
  induction ls with
  | nil => simp
  | cons l ls ih =>
    rw [List.forall_mem_cons] at h
    cases ls with
    | nil => simpa using h.1
    | cons l' ls =>
      rw [List.intercalate_cons_cons, List.mem_append, List.mem_append]
      exact not_or.mpr ⟨not_or.mpr ⟨h.1, by simpa using hne⟩, ih h.2⟩

/-- Set a tag that was read as it is. -/
def setTag (tags : Tags) (tag : String × String) : Tags :=
  Function.update tags (utf16 tag.1) (some (utf16 tag.2))

/-- What the keys of a tag list may not contain. -/
def KeyOk (key : String) : Prop := ';' ∉ key.toList ∧ '=' ∉ key.toList ∧ ' ' ∉ key.toList

theorem not_mem_encodeTag {tag : String × String} (h : KeyOk tag.1) {c : Char}
    (hc : c = ';' ∨ c = ' ') : c ∉ (encodeTag tag).toList := by
  have hkey : c ∉ tag.1.toList := by
    rcases hc with rfl | rfl
    · exact h.1
    · exact h.2.2
  have hvalue : c ∉ (encodeTagValue tag.2).toList :=
    not_mem_encodeTagValue (by rcases hc with rfl | rfl <;> simp)
  have hequals : c ∉ "=".toList := by rcases hc with rfl | rfl <;> decide
  unfold encodeTag
  split
  · exact hkey
  · rw [String.toList_append, String.toList_append, List.mem_append, List.mem_append]
    exact not_or.mpr ⟨not_or.mpr ⟨hkey, hequals⟩, hvalue⟩

/-- **A tag list is read tag by tag.** -/
theorem readTags_encode {tags : List (String × String)} (hne : tags ≠ [])
    (hkeys : ∀ t ∈ tags, KeyOk t.1) :
    readTags (utf16 (";".intercalate (tags.map encodeTag))) =
      tags.foldl setTag fun _ => none := by
  rw [utf16_intercalate, List.map_map, readTags, List.splitOn_intercalate]
  · -- every piece is a tag
    rw [List.foldl_map]
    apply List.foldl_ext
    intro read t ht
    exact readTag_encodeTag read (hkeys t ht).2.1
  · intro piece hpiece
    obtain ⟨t, ht, rfl⟩ := List.mem_map.mp hpiece
    exact (unit_mem_utf16 (by decide)).not.mpr (not_mem_encodeTag (hkeys t ht) (.inl rfl))
  · simpa using hne

theorem foldl_setTag_of_not_mem {tags : List (String × String)} {key : JsString}
    (h : ∀ t ∈ tags, utf16 t.1 ≠ key) (read : Tags) : tags.foldl setTag read key = read key := by
  induction tags generalizing read with
  | nil => rfl
  | cons t tags ih =>
    rw [List.forall_mem_cons] at h
    rw [List.foldl_cons, ih h.2]
    exact Function.update_of_ne h.1.symm _ _

theorem foldl_setTag_of_mem {tags : List (String × String)} (hnodup : (tags.map Prod.fst).Nodup)
    {t : String × String} (h : t ∈ tags) (read : Tags) :
    tags.foldl setTag read (utf16 t.1) = some (utf16 t.2) := by
  induction tags generalizing read with
  | nil => exact absurd h List.not_mem_nil
  | cons first tags ih =>
    rw [List.map_cons, List.nodup_cons] at hnodup
    rw [List.foldl_cons]
    rcases List.mem_cons.mp h with rfl | hmem
    · rw [foldl_setTag_of_not_mem]
      · exact Function.update_self _ _ _
      · intro q hq heq
        apply hnodup.1
        rw [← utf16_injective heq]
        exact List.mem_map_of_mem hq
    · exact ih hnodup.2 hmem _

/-- **A tag map is read as it was.** -/
theorem foldl_setTag_eq_some {tags : IRCTags} {l : List (String × String)}
    (hperm : l.Perm tags.rows) {key value : JsString} :
    l.foldl setTag (fun _ => none) key = some value ↔
      ∃ t ∈ tags.rows, utf16 t.1 = key ∧ utf16 t.2 = value := by
  have hnodup : (l.map Prod.fst).Nodup := (hperm.map Prod.fst).nodup_iff.mpr tags.nodup
  constructor
  · intro h
    by_cases hkey : ∃ t ∈ l, utf16 t.1 = key
    · obtain ⟨t, ht, rfl⟩ := hkey
      rw [foldl_setTag_of_mem hnodup ht] at h
      exact ⟨t, hperm.mem_iff.mp ht, rfl, Option.some.inj h⟩
    · push Not at hkey
      rw [foldl_setTag_of_not_mem hkey] at h
      cases h
  · rintro ⟨t, ht, rfl, rfl⟩
    exact foldl_setTag_of_mem hnodup (hperm.mem_iff.mpr ht) _

theorem exists_indexOf {u : UInt16} {rest : JsString} (h : u ∈ rest) :
    ∃ i, indexOf [u] rest = some i := by
  obtain ⟨a, b, rfl, hnot⟩ := List.eq_append_cons_of_mem h
  exact ⟨_, indexOf_append hnot⟩

/-- What may follow the tags of a line: a prefix has an end. -/
def RestOfLine (rest : JsString) : Prop := [unit ':'].isPrefixOf rest → unit ' ' ∈ rest

theorem exists_parseRest (tags : Tags) {rest : JsString} (h : RestOfLine rest) :
    ∃ read, parseRest tags rest = some read ∧ read.tags = tags := by
  unfold parseRest
  split
  · rename_i horigin
    obtain ⟨i, hi⟩ := exists_indexOf (h horigin)
    rw [hi]
    exact ⟨_, rfl, rfl⟩
  · exact ⟨_, rfl, rfl⟩

/-- A line with tags: the page reads them, and then the rest of the line. -/
theorem parseMessage_stableRawIrc (irc : TwitchIrc) {message : FullIRCMessage}
    (hne : message.tags.rows ≠ []) (hkeys : ∀ t ∈ message.tags.rows, KeyOk t.1) :
    parseMessage (utf16 (stableRawIrc irc message)) =
      parseRest ((sortByKey Prod.fst message.tags.rows).foldl setTag fun _ => none)
        (utf16 (irc.asRawIrc message.withoutTags)) := by
  have hperm : (sortByKey Prod.fst message.tags.rows).Perm message.tags.rows := sortByKey_perm _
  have hsorted : sortByKey Prod.fst message.tags.rows ≠ [] := by
    intro hnil
    rw [hnil] at hperm
    exact hne hperm.symm.eq_nil
  have hkeys' : ∀ t ∈ sortByKey Prod.fst message.tags.rows, KeyOk t.1 :=
    fun t ht => hkeys t (mem_sortByKey.mp ht)
  obtain ⟨list, hlist⟩ :
      ∃ list, ";".intercalate ((sortByKey Prod.fst message.tags.rows).map encodeTag) = list :=
    ⟨_, rfl⟩
  -- the first space of the line ends the tag list
  have hspace : unit ' ' ∉ unit '@' :: utf16 list := by
    rw [List.mem_cons, not_or]
    refine ⟨by decide, (unit_mem_utf16 (by decide)).not.mpr ?_⟩
    rw [← hlist, String.toList_intercalate]
    apply not_mem_intercalate (by decide)
    intro piece hpiece
    simp only [List.mem_map] at hpiece
    obtain ⟨-, ⟨t, ht, rfl⟩, rfl⟩ := hpiece
    exact not_mem_encodeTag (hkeys' t ht) (.inr rfl)
  have hline : utf16 (stableRawIrc irc message) =
      (unit '@' :: utf16 list) ++ unit ' ' :: utf16 (irc.asRawIrc message.withoutTags) := by
    rw [stableRawIrc, if_neg hsorted, hlist, utf16_append, utf16_append, utf16_append,
      List.append_assoc]
    rfl
  rw [parseMessage, hline, indexOf_append hspace, ← readTags_encode hsorted hkeys', hlist]
  simp

/-- **The page reads back exactly the tags that the server wrote.**  Every value is decoded to
what was encoded, and nothing in it ends the value, the list or the line.  A line with
tags is read as the rest of the line, with the tag map that was written, whatever
order the map is iterated in. -/
theorem viewer_reads_tags (irc : TwitchIrc) :
    (∀ value, decodeTag (utf16 (encodeTagValue value)) = utf16 value) ∧
    (∀ value, ∀ c ∈ [';', ' ', '\r', '\n'], c ∉ (encodeTagValue value).toList) ∧
    (∀ message : FullIRCMessage, message.tags.rows ≠ [] →
      (∀ t ∈ message.tags.rows, ';' ∉ t.1.toList ∧ '=' ∉ t.1.toList ∧ ' ' ∉ t.1.toList) →
      ∃ tags : Tags,
        (∀ key value, tags key = some value ↔
          ∃ t ∈ message.tags.rows, utf16 t.1 = key ∧ utf16 t.2 = value) ∧
        parseMessage (utf16 (stableRawIrc irc message)) =
          parseRest tags (utf16 (irc.asRawIrc message.withoutTags)) ∧
        (RestOfLine (utf16 (irc.asRawIrc message.withoutTags)) →
          ∃ read, parseMessage (utf16 (stableRawIrc irc message)) = some read ∧
            read.tags = tags)) ∧
    (∀ (message : FullIRCMessage) (tags : IRCTags), tags.rows.Perm message.tags.rows →
      stableRawIrc irc { message with tags } = stableRawIrc irc message) := by
  refine ⟨decodeTag_encodeTagValue, fun value c hc => not_mem_encodeTagValue hc,
    fun message hne hkeys => ?_, fun message tags hperm => stableRawIrc_perm irc message hperm⟩
  have hparse := parseMessage_stableRawIrc irc hne hkeys
  refine ⟨_, fun key value => foldl_setTag_eq_some (sortByKey_perm _), hparse, fun hrest => ?_⟩
  obtain ⟨read, hread, htags⟩ := exists_parseRest _ hrest
  exact ⟨read, hparse.trans hread, htags⟩

end RecentMessages
