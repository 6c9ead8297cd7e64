/-
RecentMessages/Storage/Block.lean

Message blocks (`storage/block.rs`).

A block is a run of records of one channel, packed, compressed and stamped with
its metadata.  Packing, compression and hashing are third-party code, so they
are the parameter `Codec`: byte strings are opaque values of a type `β`, of
which the service uses the length and the hash only, and the fields of the
structure say that unpacking inverts packing and that decompression inverts
compression.

* `Plain.codec` — a codec that can be evaluated;
* `EncodedBlock.encode`, `EncodedBlock.decode` — as in the source;
* `EncodedBlock.Describes` — what the metadata of a block says about a list of
  records, and `decode_eq_ok`, `describes_of_encode` that both functions
  establish it;
* `decode_of_encode` — a block decodes to the records it was made of;
* `eq_of_decode` — a payload has one block.
-/
import RecentMessages.Storage.Record
import Mathlib.Order.Lattice

namespace RecentMessages

/-- The third-party encoders.  `packRecords` and `packJournal` are MessagePack
on the two payload types, `compress` is zstandard at a given level; both
directions report their errors as text. -/
structure Codec (β : Type) where
  len : β → ℕ
  blake3 : β → Digest
  packRecords : List CanonicalRecord → Except String β
  unpackRecords : β → Except String (List CanonicalRecord)
  packJournal : ℕ × List CanonicalRecord → Except String β
  unpackJournal : β → Except String (ℕ × List CanonicalRecord)
  compress : ℤ → β → Except String β
  decompress : β → Except String β
  unpack_packRecords : ∀ {records b}, packRecords records = .ok b →
    unpackRecords b = .ok records
  unpack_packJournal : ∀ {envelope b}, packJournal envelope = .ok b →
    unpackJournal b = .ok envelope
  decompress_compress : ∀ {level b c}, compress level b = .ok c → decompress c = .ok b

/-- Byte strings that show what they encode. -/
inductive Plain
  | records (records : List CanonicalRecord)
  | journal (formatVersion : ℕ) (records : List CanonicalRecord)
  | compressed (level : ℤ) (content : Plain)
  deriving DecidableEq, Repr

namespace Plain

/-- One byte for every record and every layer. -/
def length : Plain → ℕ
  | records l => l.length
  | journal _ l => l.length + 1
  | compressed _ b => b.length + 1

/-- A polynomial in the event keys. -/
def digest : Plain → Digest
  | records l => l.foldl (fun sum r => 31 * sum + r.eventKey + 1) 0
  | journal v l => l.foldl (fun sum r => 37 * sum + r.eventKey + 1) v
  | compressed _ b => 41 * b.digest + 1

/-- The codec that encodes nothing away; with it every definition of the store can
be evaluated. -/
def codec : Codec Plain where
  len := length
  blake3 := digest
  packRecords l := .ok (records l)
  unpackRecords
    | records l => .ok l
    | _ => .error "not a block"
  packJournal envelope := .ok (journal envelope.1 envelope.2)
  unpackJournal
    | journal v l => .ok (v, l)
    | _ => .error "not a journal batch"
  compress level b := .ok (compressed level b)
  decompress
    | compressed _ b => .ok b
    | _ => .error "not compressed"
  unpack_packRecords := by rintro l b ⟨⟩; rfl
  unpack_packJournal := by rintro l b ⟨⟩; rfl
  decompress_compress := by rintro level b c ⟨⟩; rfl

end Plain

/-- The version every block is written with. -/
def blockFormatVersion : ℕ := 1

/-- A block as it is stored. -/
structure EncodedBlock (β : Type) where
  formatVersion : ℕ
  channelKey : String
  firstEventAtMs : ℤ
  lastEventAtMs : ℤ
  messageCount : ℕ
  uncompressedBytes : ℕ
  checksum : Digest
  payload : β
  deriving DecidableEq, Repr

/-- `u32::try_from`, with the error of the block codec. -/
def tryU32 (n : ℕ) : Except BlockError ℕ :=
  if n < 2 ^ 32 then .ok n else .error .tooLarge

theorem tryU32_eq_ok {n m : ℕ} : tryU32 n = .ok m ↔ m = n ∧ n < 2 ^ 32 := by
  unfold tryU32
  split <;> rename_i h
  · exact ⟨fun hm => ⟨(Except.ok.inj hm).symm, h⟩, fun ⟨hm, _⟩ => hm ▸ rfl⟩
  · exact ⟨nofun, fun hm => absurd hm.2 h⟩

/-- The earliest event time of a list of records. -/
def minEventAtMs (records : List CanonicalRecord) : Option ℤ :=
  (records.map (·.eventAtMs)).min?

/-- The latest event time of a list of records. -/
def maxEventAtMs (records : List CanonicalRecord) : Option ℤ :=
  (records.map (·.eventAtMs)).max?

theorem exists_minEventAtMs {records : List CanonicalRecord} (h : records ≠ []) :
    ∃ m, minEventAtMs records = some m :=
  Option.ne_none_iff_exists'.mp fun hnone =>
    h (List.map_eq_nil_iff.mp (List.min?_eq_none_iff.mp hnone))

theorem exists_maxEventAtMs {records : List CanonicalRecord} (h : records ≠ []) :
    ∃ m, maxEventAtMs records = some m :=
  Option.ne_none_iff_exists'.mp fun hnone =>
    h (List.map_eq_nil_iff.mp (List.max?_eq_none_iff.mp hnone))

theorem minEventAtMs_le {records : List CanonicalRecord} {m : ℤ}
    (h : minEventAtMs records = some m) {r : CanonicalRecord} (hr : r ∈ records) :
    m ≤ r.eventAtMs :=
  (List.min?_eq_some_iff.mp h).2 _ (List.mem_map_of_mem hr)

theorem le_maxEventAtMs {records : List CanonicalRecord} {m : ℤ}
    (h : maxEventAtMs records = some m) {r : CanonicalRecord} (hr : r ∈ records) :
    r.eventAtMs ≤ m :=
  (List.max?_eq_some_iff.mp h).2 _ (List.mem_map_of_mem hr)

namespace EncodedBlock

variable {β : Type} (codec : Codec β)

/-- Encode a list of records; only a nonempty list of one channel has a block. -/
def encode (records : List CanonicalRecord) (compressionLevel : ℤ) :
    Except BlockError (EncodedBlock β) :=
  match records with
  | [] => .error .empty
  | first :: _ =>
    if records.any fun r => r.channelKey ≠ first.channelKey then
      .error .mixedChannels
    else do
      let uncompressed ← (codec.packRecords records).mapError .encode
      let payload ← (codec.compress compressionLevel uncompressed).mapError .compression
      let messageCount ← tryU32 records.length
      let uncompressedBytes ← tryU32 (codec.len uncompressed)
      return {
        formatVersion := blockFormatVersion
        channelKey := first.channelKey
        -- both `unwrap`s are on a nonempty list
        firstEventAtMs := (minEventAtMs records).getD 0
        lastEventAtMs := (maxEventAtMs records).getD 0
        messageCount
        uncompressedBytes
        checksum := codec.blake3 payload
        payload }

/-- The metadata of a block agrees with a list of records. -/
structure Describes (b : EncodedBlock β) (records : List CanonicalRecord) : Prop where
  nonempty : records ≠ []
  channel : ∀ r ∈ records, r.channelKey = b.channelKey
  count : records.length = b.messageCount
  first : minEventAtMs records = some b.firstEventAtMs
  last : maxEventAtMs records = some b.lastEventAtMs

instance (b : EncodedBlock β) (records : List CanonicalRecord) :
    Decidable (b.Describes records) :=
  decidable_of_iff
    (records ≠ [] ∧ (∀ r ∈ records, r.channelKey = b.channelKey) ∧
      records.length = b.messageCount ∧ minEventAtMs records = some b.firstEventAtMs ∧
      maxEventAtMs records = some b.lastEventAtMs)
    ⟨fun ⟨h₁, h₂, h₃, h₄, h₅⟩ => ⟨h₁, h₂, h₃, h₄, h₅⟩,
      fun h => ⟨h.nonempty, h.channel, h.count, h.first, h.last⟩⟩

/-- Decode a block, checking its version, its checksum and its metadata. -/
def decode (b : EncodedBlock β) : Except BlockError (List CanonicalRecord) :=
  if b.formatVersion ≠ blockFormatVersion then
    .error (.unsupportedVersion b.formatVersion)
  else if codec.blake3 b.payload ≠ b.checksum then
    .error .checksumMismatch
  else do
    let uncompressed ← (codec.decompress b.payload).mapError .compression
    let records ← (codec.unpackRecords uncompressed).mapError .decode
    if b.Describes records ∧ codec.len uncompressed = b.uncompressedBytes then
      return records
    else
      .error .metadataMismatch

/-- The number of bytes a block takes. -/
def compressedBytes (b : EncodedBlock β) : ℕ := codec.len b.payload

variable {codec} {b : EncodedBlock β} {records : List CanonicalRecord}

theorem Describes.first_le (h : b.Describes records) {r : CanonicalRecord}
    (hr : r ∈ records) : b.firstEventAtMs ≤ r.eventAtMs :=
  minEventAtMs_le h.first hr

theorem Describes.le_last (h : b.Describes records) {r : CanonicalRecord}
    (hr : r ∈ records) : r.eventAtMs ≤ b.lastEventAtMs :=
  le_maxEventAtMs h.last hr

/-- The steps of a successful decoding. -/
theorem decode_steps (h : b.decode codec = .ok records) :
    ∃ uncompressed, codec.decompress b.payload = .ok uncompressed ∧
      codec.unpackRecords uncompressed = .ok records ∧
      codec.len uncompressed = b.uncompressedBytes ∧
      b.formatVersion = blockFormatVersion ∧ codec.blake3 b.payload = b.checksum ∧
      b.Describes records := by
  unfold decode at h
  split at h
  · cases h
  rename_i hversion
  split at h
  · cases h
  rename_i hchecksum
  obtain ⟨uncompressed, hdecompress, h⟩ := Except.bind_eq_ok.mp h
  obtain ⟨decoded, hunpack, h⟩ := Except.bind_eq_ok.mp h
  split at h
  · rename_i hmeta
    obtain rfl : decoded = records := Except.ok.inj h
    exact ⟨uncompressed, Except.mapError_eq_ok.mp hdecompress, Except.mapError_eq_ok.mp hunpack,
      hmeta.2, not_not.mp hversion, not_not.mp hchecksum, hmeta.1⟩
  · cases h

/-- **What a successful decoding means**: the block is of the known version, it
is undamaged, and its metadata describes the records it yields. -/
theorem decode_eq_ok (h : b.decode codec = .ok records) :
    b.formatVersion = blockFormatVersion ∧ codec.blake3 b.payload = b.checksum ∧
      b.Describes records := by
  obtain ⟨-, -, -, -, hversion, hchecksum, hdesc⟩ := decode_steps h
  exact ⟨hversion, hchecksum, hdesc⟩

/-- The steps of a successful encoding. -/
theorem encode_eq_ok {level : ℤ} (h : encode codec records level = .ok b) :
    ∃ uncompressed, codec.packRecords records = .ok uncompressed ∧
      codec.compress level uncompressed = .ok b.payload ∧
      codec.len uncompressed = b.uncompressedBytes ∧
      b.formatVersion = blockFormatVersion ∧ b.checksum = codec.blake3 b.payload ∧
      b.Describes records := by
  cases records with
  | nil => cases h
  | cons first rest =>
    simp only [encode] at h
    split at h
    · cases h
    rename_i hchannel
    obtain ⟨uncompressed, hpack, h⟩ := Except.bind_eq_ok.mp h
    obtain ⟨payload, hcompress, h⟩ := Except.bind_eq_ok.mp h
    obtain ⟨count, hcount, h⟩ := Except.bind_eq_ok.mp h
    obtain ⟨bytes, hbytes, h⟩ := Except.bind_eq_ok.mp h
    obtain ⟨rfl, -⟩ := tryU32_eq_ok.mp hcount
    obtain ⟨rfl, -⟩ := tryU32_eq_ok.mp hbytes
    cases h
    refine ⟨uncompressed, Except.mapError_eq_ok.mp hpack, Except.mapError_eq_ok.mp hcompress,
      rfl, rfl, rfl,
      ⟨List.cons_ne_nil _ _, ?_, rfl, ?_, ?_⟩⟩
    · simpa using hchannel
    · simp [minEventAtMs, List.min?_cons]
    · simp [maxEventAtMs, List.max?_cons]

theorem describes_of_encode {level : ℤ} (h : encode codec records level = .ok b) :
    b.Describes records := by
  obtain ⟨-, -, -, -, -, -, hdesc⟩ := encode_eq_ok h
  exact hdesc

/-- Both counts of a block fit its columns. -/
theorem counts_lt_of_encode {level : ℤ} (h : encode codec records level = .ok b) :
    b.messageCount < 2 ^ 32 ∧ b.uncompressedBytes < 2 ^ 32 := by
  cases records with
  | nil => cases h
  | cons first rest =>
    simp only [encode] at h
    split at h
    · cases h
    obtain ⟨uncompressed, -, h⟩ := Except.bind_eq_ok.mp h
    obtain ⟨payload, -, h⟩ := Except.bind_eq_ok.mp h
    obtain ⟨count, hcount, h⟩ := Except.bind_eq_ok.mp h
    obtain ⟨bytes, hbytes, h⟩ := Except.bind_eq_ok.mp h
    obtain ⟨rfl, hlt⟩ := tryU32_eq_ok.mp hcount
    obtain ⟨rfl, hlt'⟩ := tryU32_eq_ok.mp hbytes
    cases h
    exact ⟨hlt, hlt'⟩

theorem messageCount_lt_of_encode {level : ℤ} (h : encode codec records level = .ok b) :
    b.messageCount < 2 ^ 32 :=
  (counts_lt_of_encode h).1

/-- **A block decodes to the records it was made of.** -/
theorem decode_of_encode {level : ℤ} (h : encode codec records level = .ok b) :
    b.decode codec = .ok records := by
  obtain ⟨uncompressed, hpack, hcompress, hlen, hversion, hchecksum, hdesc⟩ := encode_eq_ok h
  have hdecompress := codec.decompress_compress hcompress
  have hunpack := codec.unpack_packRecords hpack
  simp [decode, hversion, hchecksum, hdecompress, hunpack, hdesc, hlen, Except.mapError,
    bind, Except.bind, pure, Except.pure]

/-! ### Blocks and their payloads -/

/-- A list that can be packed has a block. -/
theorem exists_encode {level : ℤ} {uncompressed payload : β} (hne : records ≠ [])
    (hchannel : ∀ r ∈ records, ∀ r' ∈ records, r.channelKey = r'.channelKey)
    (hpack : codec.packRecords records = .ok uncompressed)
    (hcompress : codec.compress level uncompressed = .ok payload)
    (hcount : records.length < 2 ^ 32) (hbytes : codec.len uncompressed < 2 ^ 32) :
    ∃ b, encode codec records level = .ok b := by
  obtain ⟨first, rest, rfl⟩ := List.exists_cons_of_ne_nil hne
  have hone : ((first :: rest).any fun r => r.channelKey ≠ first.channelKey) = false := by
    apply List.any_eq_false.mpr
    intro r hr
    simp [hchannel r hr first List.mem_cons_self]
  have hlength : tryU32 (first :: rest).length = .ok (first :: rest).length :=
    tryU32_eq_ok.mpr ⟨rfl, hcount⟩
  have hsize : tryU32 (codec.len uncompressed) = .ok (codec.len uncompressed) :=
    tryU32_eq_ok.mpr ⟨rfl, hbytes⟩
  simp only [encode, hone, hpack, hcompress, hlength, hsize, Except.mapError, bind, Except.bind,
    pure, Except.pure, Bool.false_eq_true, if_false]
  exact ⟨_, rfl⟩

/-- **A payload has one block**: no field can be another one. -/
theorem eq_of_decode {b' : EncodedBlock β} {records' : List CanonicalRecord}
    (h : b.decode codec = .ok records) (h' : b'.decode codec = .ok records')
    (hpayload : b'.payload = b.payload) : b' = b := by
  obtain ⟨u, hdecompress, hunpack, hbytes, hversion, hchecksum, hdesc⟩ := decode_steps h
  obtain ⟨u', hdecompress', hunpack', hbytes', hversion', hchecksum', hdesc'⟩ := decode_steps h'
  -- both payloads decode to the same records
  rw [hpayload] at hdecompress' hchecksum'
  obtain rfl := Except.ok.inj (hdecompress.symm.trans hdecompress')
  obtain rfl := Except.ok.inj (hunpack.symm.trans hunpack')
  obtain ⟨r, hr⟩ := List.exists_mem_of_ne_nil _ hdesc.nonempty
  have hchannel : b'.channelKey = b.channelKey :=
    (hdesc'.channel r hr).symm.trans (hdesc.channel r hr)
  have hfirst : b'.firstEventAtMs = b.firstEventAtMs :=
    Option.some.inj (hdesc'.first.symm.trans hdesc.first)
  have hlast : b'.lastEventAtMs = b.lastEventAtMs :=
    Option.some.inj (hdesc'.last.symm.trans hdesc.last)
  have hcount : b'.messageCount = b.messageCount := hdesc'.count.symm.trans hdesc.count
  obtain ⟨version, channel, first, last, count, bytes, checksum, payload⟩ := b
  obtain ⟨version', channel', first', last', count', bytes', checksum', payload'⟩ := b'
  simp only at *
  subst hversion hversion' hchannel hfirst hlast hcount hbytes hbytes' hchecksum hchecksum' hpayload
  rfl

/-- **The block codec is lossless and its metadata cannot be forged.**  A nonempty list of one
channel that can be packed, and whose sizes fit, has a block, which decodes to the list.  A block
that decodes says of its records what is true.  And no other block with the same payload
decodes. -/
theorem block_codec_faithful (codec : Codec β) :
    (∀ (records : List CanonicalRecord) (level : ℤ) (uncompressed payload : β), records ≠ [] →
      (∀ r ∈ records, ∀ r' ∈ records, r.channelKey = r'.channelKey) →
      codec.packRecords records = .ok uncompressed →
      codec.compress level uncompressed = .ok payload →
      records.length < 2 ^ 32 → codec.len uncompressed < 2 ^ 32 →
      ∃ b, encode codec records level = .ok b ∧ b.decode codec = .ok records) ∧
    (∀ (b : EncodedBlock β) (records : List CanonicalRecord), b.decode codec = .ok records →
      b.Describes records ∧
        ∃ uncompressed, codec.decompress b.payload = .ok uncompressed ∧
          codec.unpackRecords uncompressed = .ok records ∧
          codec.len uncompressed = b.uncompressedBytes) ∧
    (∀ (b b' : EncodedBlock β) (records : List CanonicalRecord), b.decode codec = .ok records →
      b'.payload = b.payload → b' ≠ b → ∃ e, b'.decode codec = .error e) := by
  refine ⟨?_, ?_, ?_⟩
  · intro records level uncompressed payload hne hchannel hpack hcompress hcount hbytes
    obtain ⟨b, hb⟩ := exists_encode hne hchannel hpack hcompress hcount hbytes
    exact ⟨b, hb, decode_of_encode hb⟩
  · intro b records h
    obtain ⟨u, hdecompress, hunpack, hbytes, -, -, hdesc⟩ := decode_steps h
    exact ⟨hdesc, u, hdecompress, hunpack, hbytes⟩
  · intro b b' records h hpayload hne
    rcases hdecode : b'.decode codec with e | records'
    · exact ⟨e, rfl⟩
    · exact absurd (eq_of_decode h hdecode hpayload) hne

end EncodedBlock

end RecentMessages
