/-
RecentMessages/Storage/Record.lean

The data every part of the service passes around (`storage/mod.rs`): canonical
records, query requests and the store's errors.

A record is one IRC message.  Its identity is its channel together with its
`event_key`, a 256-bit hash (`CanonicalRecord.event`); the same event may
arrive several times, from several sources, with different receive times and
different fidelities.  A copy replaces another one only when it is the same
event at a strictly higher fidelity (`CanonicalRecord.shouldReplace`).
-/
import RecentMessages.Library.Fallible
import RecentMessages.Library.Lists
import Mathlib.Data.Prod.Lex

namespace RecentMessages

/-- A BLAKE3 digest, `[u8; 32]`. -/
abbrev Digest := BitVec 256

/-- The source-stable identity of an event, `[u8; 32]`. -/
abbrev EventKey := BitVec 256

/-- `str::to_ascii_lowercase`. -/
def toAsciiLowercase (s : String) : String := String.ofList (s.toList.map Char.toLower)

theorem toLower_toLower (c : Char) : c.toLower.toLower = c.toLower := by
  delta Char.toLower
  split
  · rename_i hupper
    -- a letter in lower case is past `Z`
    rw [dif_neg]
    rintro ⟨-, hle⟩
    simp [UInt32.le_iff_toNat_le] at hupper hle
    omega
  · rfl

theorem toAsciiLowercase_toAsciiLowercase (s : String) :
    toAsciiLowercase (toAsciiLowercase s) = toAsciiLowercase s := by
  rw [toAsciiLowercase, toAsciiLowercase, String.toList_ofList, List.map_map]
  congr 2
  funext c
  exact toLower_toLower c

/-- How faithfully a source reproduces the original message. -/
inductive SourceFidelity
  | unknown
  | reconstructed
  | directIrc
  deriving DecidableEq, Repr

instance : Inhabited SourceFidelity := ⟨.unknown⟩

/-- The derived order of the enumeration. -/
def SourceFidelity.rank : SourceFidelity → ℕ
  | .unknown => 0
  | .reconstructed => 1
  | .directIrc => 2

/-- One canonicalized IRC message. -/
structure CanonicalRecord where
  channelKey : String
  eventAtMs : ℤ
  receivedAtMs : ℤ
  eventKey : EventKey
  sourceId : String
  fidelity : SourceFidelity
  rawIrc : List UInt8
  deriving DecidableEq, Repr

namespace CanonicalRecord

/-- The identity of the event a record is a copy of. -/
def event (r : CanonicalRecord) : String × EventKey := (r.channelKey, r.eventKey)

/-- `r` is the same event as `retained`, at a higher fidelity. -/
def shouldReplace (r retained : CanonicalRecord) : Bool :=
  r.eventKey = retained.eventKey && retained.fidelity.rank < r.fidelity.rank

/-- The order in which queries return records. -/
def receiptOrder (r : CanonicalRecord) : ℤ ×ₗ ℤ ×ₗ ℕ :=
  toLex (r.receivedAtMs, toLex (r.eventAtMs, r.eventKey.toNat))

/-- The order in which new records are laid out in blocks. -/
def eventOrder (r : CanonicalRecord) : ℤ ×ₗ ℤ ×ₗ ℕ :=
  toLex (r.eventAtMs, toLex (r.receivedAtMs, r.eventKey.toNat))

theorem eventKey_of_shouldReplace {r q : CanonicalRecord} (h : r.shouldReplace q) :
    r.eventKey = q.eventKey := by
  simp only [shouldReplace, Bool.and_eq_true, decide_eq_true_eq] at h
  exact h.1

theorem event_eq_iff {r q : CanonicalRecord} :
    r.event = q.event ↔ r.channelKey = q.channelKey ∧ r.eventKey = q.eventKey := by
  simp [event]

/-- What the stores check of a batch: all its records are of one channel. -/
theorem mixed_eq_false {batch : List CanonicalRecord} {c : String} :
    (batch.any fun r => r.channelKey ≠ c) = false ↔ ∀ r ∈ batch, r.channelKey = c := by
  simp

theorem mixed_eq_true {batch : List CanonicalRecord} {c : String} :
    (batch.any fun r => r.channelKey ≠ c) = true ↔ ¬∀ r ∈ batch, r.channelKey = c := by
  simp

theorem eventKey_of_receiptOrder {r q : CanonicalRecord}
    (h : r.receiptOrder = q.receiptOrder) : r.eventKey = q.eventKey := by
  simp only [receiptOrder, EmbeddingLike.apply_eq_iff_eq, Prod.mk.injEq] at h
  exact BitVec.eq_of_toNat_eq h.2.2

end CanonicalRecord

/-- A read of one channel: the newest `limit` records received strictly
between `afterMs` and `beforeMs`. -/
structure QueryRequest where
  channelKey : String
  afterMs : Option ℤ
  beforeMs : Option ℤ
  limit : ℕ
  deriving DecidableEq, Repr

/-- The window of a request, open at both ends. -/
def QueryRequest.admits (request : QueryRequest) (r : CanonicalRecord) : Bool :=
  (request.afterMs.all fun after => after < r.receivedAtMs) &&
    request.beforeMs.all fun before => r.receivedAtMs < before

/-- What a store answers to a query. -/
structure LocalResult where
  records : List CanonicalRecord
  oldestRetainedAtMs : Option ℤ
  newestRetainedAtMs : Option ℤ
  deriving DecidableEq, Repr

/-- Errors of the block codec. -/
inductive BlockError
  | empty
  | mixedChannels
  | unsupportedVersion (version : ℕ)
  | checksumMismatch
  | metadataMismatch
  | tooLarge
  | encode (message : String)
  | decode (message : String)
  | compression (message : String)
  deriving DecidableEq, Repr

/-- Errors of the store. -/
inductive StoreError
  | block (error : BlockError)
  | lockPoisoned
  | mixedChannelBatch
  | invalidLimit
  | backend (message : String)
  deriving DecidableEq, Repr

/-- `i64::try_from` on an unsigned value, as the store reports its failure. -/
def tryFromU64 (n : ℕ) : Except StoreError ℤ :=
  if (n : ℤ) ≤ i64Max then .ok n
  else .error (.backend "out of range integral type conversion attempted")

/-- `u64::try_from` on a signed value, as the store reports its failure. -/
def tryToU64 (x : ℤ) : Except StoreError ℕ :=
  if 0 ≤ x then .ok x.toNat
  else .error (.backend "out of range integral type conversion attempted")

theorem tryFromU64_eq_ok {n : ℕ} {x : ℤ} :
    tryFromU64 n = .ok x ↔ x = n ∧ (n : ℤ) ≤ i64Max := by
  unfold tryFromU64
  split
  · rename_i h; simp [h, eq_comm]
  · rename_i h; simp [h]

theorem tryToU64_of_nonneg {x : ℤ} (h : 0 ≤ x) : tryToU64 x = .ok x.toNat := by
  simp [tryToU64, h]

end RecentMessages
