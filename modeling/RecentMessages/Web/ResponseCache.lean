/-
RecentMessages/Web/ResponseCache.lean

The cache of responses (`web/response_cache.rs`).

It answers requests while the node is under pressure.  An entry lives for `max_age` and
is found under the key of its request: the URI, whether peers may be asked, and the purge
cutoff of the channel's policy.  Beside the bounds on entries and bytes there is nothing
that removes an entry, so a purge has no other way to shut one out than a key that no
later request has (`cacheKey_injective`).
-/
import RecentMessages.Library.KeyTable
import RecentMessages.Library.Lists

namespace RecentMessages

/-- `CacheConfig`, with durations in milliseconds. -/
structure CacheConfig where
  maxAge : ℕ
  pressureHold : ℕ
  enterInflight : ℕ
  maxEntries : ℕ
  maxBytes : ℕ
  maxEntryBytes : ℕ
  deriving DecidableEq, Repr

/-- `AdaptiveResponseCache::from_config`, for a cache that is enabled. -/
def CacheConfig.Valid (config : CacheConfig) : Prop :=
  config.maxAge ≠ 0 ∧ config.pressureHold ≠ 0 ∧ config.enterInflight ≠ 0 ∧
    config.maxEntries ≠ 0 ∧ config.maxBytes ≠ 0 ∧ config.maxEntryBytes ≠ 0 ∧
      config.maxEntryBytes ≤ config.maxBytes

instance CacheConfig.decidableValid (config : CacheConfig) : Decidable config.Valid :=
  inferInstanceAs (Decidable (_ ∧ _))

/-- A response that is kept, with its key.  The body is that of a type `B`, and has a
length. -/
structure CachedResponse (B : Type) where
  key : String
  insertedAt : ℕ
  contentType : Option String
  coverage : Option String
  body : B
  bodyLen : ℕ

/-- `CacheState`. -/
structure CacheState (B : Type) where
  entries : KeyTable (CachedResponse.key (B := B))
  insertionOrder : List String
  bytes : ℕ

/-- `PressureState`. -/
structure PressureState where
  until_ : Option ℕ
  deriving DecidableEq, Repr

/-- `cache_key`. -/
def cacheKey (uri : String) (peerMode : Bool) (purgeMs : ℤ) : String :=
  uri ++ "|peer=" ++ toString peerMode ++ "|purge=" ++ toString purgeMs

/-- `pressure_active`. -/
def PressureState.pressureActive (config : CacheConfig) (state : PressureState)
    (activeRequests now : ℕ) : Bool × PressureState :=
  let entered := if config.enterInflight ≤ activeRequests then some (now + config.pressureHold)
    else state.until_
  if entered.any (now < ·) then (true, ⟨entered⟩) else (false, ⟨none⟩)

namespace CacheState

variable {B : Type} (config : CacheConfig)

def empty : CacheState B := ⟨KeyTable.empty, [], 0⟩

/-- The bytes without those of an entry, if there is one. -/
def bytesWithout (state : CacheState B) (key : String) : ℕ :=
  state.bytes - ((state.entries.lookup key).map (·.bodyLen)).getD 0

/-- `remove_entry`. -/
def removeEntry (state : CacheState B) (key : String) : CacheState B :=
  ⟨state.entries.erase key, state.insertionOrder.filter (· ≠ key), state.bytesWithout key⟩

/-- `get`. -/
def get (state : CacheState B) (key : String) (now : ℕ) :
    Option (CachedResponse B) × CacheState B :=
  match state.entries.lookup key with
  | none => (none, state)
  | some entry =>
    if config.maxAge < now - entry.insertedAt then (none, state.removeEntry key)
    else (some entry, state)

/-- The loop of `insert` over the insertion order. -/
def evictOldest (state : CacheState B) : List String → CacheState B
  | [] => { state with insertionOrder := [] }
  | oldest :: rest =>
    if config.maxEntries < state.entries.rows.length ∨ config.maxBytes < state.bytes then
      evictOldest ⟨state.entries.erase oldest, rest, state.bytesWithout oldest⟩ rest
    else { state with insertionOrder := oldest :: rest }

/-- `insert`.  The bodies are all in memory, so `saturating_add` adds their lengths exactly. -/
def insert (state : CacheState B) (response : CachedResponse B) : CacheState B :=
  let state := state.removeEntry response.key
  evictOldest config
    { state with entries := state.entries.put response, bytes := state.bytes + response.bodyLen }
    (state.insertionOrder ++ [response.key])

/-! ### What is in the cache -/

variable {config} {state : CacheState B} {entry response : CachedResponse B} {key : String}
  {now : ℕ}

theorem mem_removeEntry (h : entry ∈ (state.removeEntry key).entries.rows) :
    entry ∈ state.entries.rows :=
  (KeyTable.mem_erase.mp h).1

theorem mem_evictOldest {order : List String}
    (h : entry ∈ (evictOldest config state order).entries.rows) : entry ∈ state.entries.rows := by
  induction order generalizing state with
  | nil => exact h
  | cons oldest rest ih =>
    rw [evictOldest] at h
    split at h
    · exact (KeyTable.mem_erase.mp (ih h)).1
    · exact h

/-- **An entry** was there, or is the one that is inserted. -/
theorem mem_insert (h : entry ∈ (state.insert config response).entries.rows) :
    entry ∈ state.entries.rows ∨ entry = response := by
  rcases KeyTable.mem_put.mp (mem_evictOldest h) with ⟨hmem, -⟩ | heq
  · exact .inl (mem_removeEntry hmem)
  · exact .inr heq

/-- A lookup adds nothing. -/
theorem mem_get (h : entry ∈ (state.get config key now).2.entries.rows) :
    entry ∈ state.entries.rows := by
  rw [get] at h
  split at h
  · exact h
  · split at h
    · exact mem_removeEntry h
    · exact h

/-- **What is found** is in the cache, under the key. -/
theorem get_eq_some (h : (state.get config key now).1 = some entry) :
    entry ∈ state.entries.rows ∧ entry.key = key := by
  rw [get] at h
  split at h
  · cases h
  · rename_i found hfound
    split at h
    · cases h
    · cases h
      exact KeyTable.lookup_eq_some.mp hfound

end CacheState

/-! ### Keys -/

theorem isDigit_or_eq_of_mem_toString {x : ℤ} {c : Char} (h : c ∈ (toString x).toList) :
    c.isDigit ∨ c = '-' := by
  rw [Int.toString_eq_repr, Int.repr_eq_if] at h
  split at h
  · simp at h
    exact .inl (Nat.isDigit_of_mem_toDigits (by decide) (by decide) h)
  · simp at h
    rcases h with rfl | h
    · exact .inr rfl
    · exact .inl (Nat.isDigit_of_mem_toDigits (by decide) (by decide) h)

theorem toString_injective : Function.Injective (toString : ℤ → String) := by
  intro x y h
  have hnat : ∀ m n : ℕ, m.repr = n.repr → m = n := by
    intro m n hrepr
    have hdigits := congrArg (fun s : String => Nat.ofDigitChars 10 s.toList 0) hrepr
    simpa using hdigits
  -- a number that starts with a minus sign is not one that does not
  have hsign : ∀ m n : ℕ, m.repr ≠ "-" ++ n.repr := by
    intro m n hrepr
    have hmem : '-' ∈ m.repr.toList := by
      rw [hrepr]
      simp
    rw [Nat.toList_repr] at hmem
    have hdigit := Nat.isDigit_of_mem_toDigits (by decide) (by decide) hmem
    exact absurd hdigit (by decide)
  rw [Int.toString_eq_repr, Int.toString_eq_repr, Int.repr_eq_if, Int.repr_eq_if] at h
  split at h <;> split at h
  · have hsame := hnat _ _ h
    omega
  · exact absurd h (hsign _ _)
  · exact absurd h.symm (hsign _ _)
  · have htail : (-x).toNat.repr = (-y).toNat.repr := by simpa using h
    have hsame := hnat _ _ htail
    omega

/-- **Different requests have different keys**, and so have those with different cutoffs. -/
theorem cacheKey_injective {uri uri' : String} {peerMode peerMode' : Bool} {purgeMs purgeMs' : ℤ}
    (h : cacheKey uri peerMode purgeMs = cacheKey uri' peerMode' purgeMs') :
    uri = uri' ∧ peerMode = peerMode' ∧ purgeMs = purgeMs' := by
  have hsign : ∀ x : ℤ, '=' ∉ (toString x).toList := by
    intro x hmem
    rcases isDigit_or_eq_of_mem_toString hmem with hdigit | heq
    · exact absurd hdigit (by decide)
    · exact absurd heq (by decide)
  have hmode : ∀ b : Bool, '=' ∉ (toString b ++ "|purge").toList := by decide
  have hsame : ∀ b b' : Bool, (toString b ++ "|purge").toList = (toString b' ++ "|purge").toList →
      b = b' := by decide
  have hsplit : ∀ (uri : String) (peerMode : Bool) (x : ℤ), (cacheKey uri peerMode x).toList =
      ((uri ++ "|peer").toList ++ '=' :: (toString peerMode ++ "|purge").toList) ++
        '=' :: (toString x).toList := by
    intro uri peerMode x
    simp [cacheKey]
  have hlist := congrArg String.toList h
  rw [hsplit, hsplit] at hlist
  have hpurge := eq_of_append_cons (hsign purgeMs) (hsign purgeMs') hlist
  rw [hpurge] at hlist
  have hprefix := List.append_cancel_right hlist
  have hpeer := eq_of_append_cons (hmode peerMode) (hmode peerMode') hprefix
  rw [hpeer] at hprefix
  have huri := String.toList_inj.mp (List.append_cancel_right hprefix)
  exact ⟨by simpa using huri, hsame _ _ hpeer, toString_injective (String.toList_inj.mp hpurge)⟩

end RecentMessages
