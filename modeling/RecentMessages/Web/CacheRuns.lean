/-
RecentMessages/Web/CacheRuns.lean

Runs of the cache of responses (`web/response_cache.rs`).

The cache is a map, a queue of its keys and a count of its bytes.  All three stand for one
list, the entries in the order of their last insertion (`Represents`), and on that list the
operations are simple: an insertion pushes the response to the back and drops entries from the
front while there are too many entries or bytes, and a lookup that finds an expired entry drops
it (`represents_insert`, `represents_get`).

* `represents_run` — the cache after a run stands for the list after the run;
* `cache_consistent` — so its parts agree, its bounds hold, and it returns what was inserted
  last, unless that has expired.
-/
import RecentMessages.Library.Fallible
import RecentMessages.Library.Fifo
import RecentMessages.Web.ResponseCache

namespace RecentMessages

/-- What is done to the cache, at a time of any clock. -/
inductive CacheOp (B : Type)
  | get (key : String) (now : ℕ)
  | insert (response : CachedResponse B)

namespace CacheState

variable {B : Type} (config : CacheConfig)

/-- One operation. -/
def step (state : CacheState B) : CacheOp B → CacheState B
  | .get key now => (state.get config key now).2
  | .insert response => state.insert config response

/-- A new cache after a run. -/
def run (ops : List (CacheOp B)) : CacheState B := ops.foldl (step config) empty

/-! ### The list that a cache stands for -/

/-- There are too many entries, or too many bytes. -/
def Over (l : List (CachedResponse B)) : Prop :=
  config.maxEntries < l.length ∨ config.maxBytes < (l.map (·.bodyLen)).sum

instance decidableOver : DecidablePred (Over (B := B) config) :=
  fun _ => inferInstanceAs (Decidable (_ ∨ _))

/-- The entries are those of a list, and so are their bytes. -/
structure Holds (state : CacheState B) (l : List (CachedResponse B)) : Prop where
  entries : state.entries.rows.Perm l
  bytes : state.bytes = (l.map (·.bodyLen)).sum

/-- The cache stands for a list. -/
structure Represents (state : CacheState B) (l : List (CachedResponse B)) : Prop
    extends state.Holds l where
  order : state.insertionOrder = l.map (·.key)

variable {config} {state : CacheState B} {l : List (CachedResponse B)} {key : String}
  {entry response : CachedResponse B} {now : ℕ}

theorem represents_empty : (empty : CacheState B).Represents [] := ⟨⟨List.Perm.refl [], rfl⟩, rfl⟩

theorem Holds.nodup (h : state.Holds l) : (l.map (·.key)).Nodup :=
  (h.entries.map _).nodup_iff.mp state.entries.nodup

/-- A lookup in the map is a search of the list. -/
theorem Holds.lookup (h : state.Holds l) (key : String) :
    state.entries.lookup key = l.find? (·.key = key) := by
  show _ = (⟨l, h.nodup⟩ : KeyTable CachedResponse.key).lookup key
  ext entry
  rw [KeyTable.lookup_eq_some, KeyTable.lookup_eq_some, h.entries.mem_iff]

/-- Without the entry of a key, so are the others. -/
theorem Holds.erase (h : state.Holds l) (key : String) (order : List String) :
    (⟨state.entries.erase key, order, state.bytesWithout key⟩ : CacheState B).Holds
      (l.filter (·.key ≠ key)) := by
  have hentries : (state.entries.erase key).rows.Perm (l.filter (·.key ≠ key)) := by
    rw [KeyTable.erase, KeyTable.rows_deleteWhere]
    simpa using h.entries.filter fun entry => !decide (entry.key = key)
  refine ⟨hentries, ?_⟩
  show state.bytesWithout key = _
  rw [bytesWithout, h.bytes, ← (h.entries.map _).sum_eq, ← (hentries.map _).sum_eq]
  rcases hlookup : state.entries.lookup key with - | entry
  · have hnone := KeyTable.lookup_eq_none.mp hlookup
    have hsame : (state.entries.erase key).rows = state.entries.rows := by
      rw [KeyTable.erase, KeyTable.rows_deleteWhere]
      exact List.filter_eq_self.mpr fun entry hentry => by simp [hnone entry hentry]
    rw [hsame]
    rfl
  · have hperm := ((KeyTable.perm_cons_erase hlookup).map (·.bodyLen)).sum_eq
    rw [List.map_cons, List.sum_cons] at hperm
    rw [hperm, Option.map_some, Option.getD_some, Nat.add_sub_cancel_left]

/-! ### The operations on the list -/

theorem represents_removeEntry (h : state.Represents l) (key : String) :
    (state.removeEntry key).Represents (l.filter (·.key ≠ key)) := by
  refine ⟨h.toHolds.erase key _, ?_⟩
  show state.insertionOrder.filter (· ≠ key) = _
  rw [h.order, List.filter_map]
  rfl

/-- **A lookup** searches the list, and drops the entry if it has expired. -/
theorem represents_get (h : state.Represents l) (key : String) (now : ℕ) :
    (state.get config key now).1 =
        (l.find? (·.key = key)).filter (fun entry => now - entry.insertedAt ≤ config.maxAge) ∧
      ((state.get config key now).2.Represents l ∨
        (state.get config key now).2.Represents (l.filter (·.key ≠ key))) := by
  rw [← h.lookup, get]
  rcases state.entries.lookup key with - | entry
  · exact ⟨rfl, .inl h⟩
  · by_cases hexpired : config.maxAge < now - entry.insertedAt
    · have hnot : ¬ decide (now - entry.insertedAt ≤ config.maxAge) = true := by
        rw [decide_eq_true_eq]
        exact Nat.not_le.mpr hexpired
      simp only [hexpired, ↓reduceIte]
      exact ⟨(if_neg hnot).symm, .inr (represents_removeEntry h key)⟩
    · have hlive : decide (now - entry.insertedAt ≤ config.maxAge) = true :=
        decide_eq_true (Nat.not_lt.mp hexpired)
      simp only [hexpired, ↓reduceIte]
      exact ⟨(if_pos hlive).symm, .inl h⟩

/-- **The loop** drops entries from the front of the list. -/
theorem represents_evictOldest (h : state.Holds l) :
    (evictOldest config state (l.map (·.key))).Represents (evictFront (Over config) l) := by
  induction l generalizing state with
  | nil => exact ⟨⟨h.entries, h.bytes⟩, rfl⟩
  | cons entry l ih =>
    have hover : (config.maxEntries < state.entries.rows.length ∨ config.maxBytes < state.bytes) ↔
        Over config (entry :: l) := by
      rw [h.entries.length_eq, h.bytes]
      rfl
    rw [List.map_cons, evictOldest, evictFront, if_congr hover rfl rfl]
    split
    · -- the oldest entry goes, and the others are those of the rest
      apply ih
      have hrest := h.erase entry.key (l.map (·.key))
      have hnodup := h.nodup
      rw [List.map_cons, List.nodup_cons] at hnodup
      rw [List.filter_cons_of_neg (by simp), List.filter_eq_self.mpr] at hrest
      · exact hrest
      · intro other hother
        refine decide_eq_true fun heq => hnodup.1 ?_
        rw [← heq]
        exact List.mem_map_of_mem hother
    · exact ⟨⟨h.entries, h.bytes⟩, rfl⟩

/-- Before it drops any, an insertion has pushed to the back. -/
theorem holds_pushBack (h : state.Represents l) (response : CachedResponse B)
    (order : List String) :
    (⟨(state.removeEntry response.key).entries.put response, order,
      (state.removeEntry response.key).bytes + response.bodyLen⟩ : CacheState B).Holds
        (pushBack CachedResponse.key response l) := by
  have hremoved := represents_removeEntry h response.key
  constructor
  · show ((state.removeEntry response.key).entries.put response).rows.Perm _
    rw [KeyTable.rows_put]
    apply List.Perm.append_right
    rw [List.filter_eq_self.mpr]
    · exact hremoved.entries
    · exact fun entry hentry => decide_eq_true (KeyTable.mem_erase.mp hentry).2
  · show (state.removeEntry response.key).bytes + response.bodyLen = _
    rw [hremoved.bytes, pushBack, List.map_append, List.sum_append]
    rfl

theorem order_pushBack (h : state.Represents l) (response : CachedResponse B) :
    state.insertionOrder.filter (· ≠ response.key) ++ [response.key] =
      (pushBack CachedResponse.key response l).map (·.key) := by
  have horder := (represents_removeEntry h response.key).order
  rw [pushBack, List.map_append, ← horder]
  rfl

/-- **An insertion** pushes to the back and drops from the front. -/
theorem represents_insert (h : state.Represents l) (response : CachedResponse B) :
    (state.insert config response).Represents
      (evictFront (Over config) (pushBack CachedResponse.key response l)) := by
  show (evictOldest config _
    (state.insertionOrder.filter (· ≠ response.key) ++ [response.key])).Represents _
  rw [order_pushBack h]
  exact represents_evictOldest (holds_pushBack h response _)

/-! ### Runs -/

/-- The responses that a run inserts, in order. -/
def inserted (ops : List (CacheOp B)) : List (CachedResponse B) :=
  ops.filterMap fun
    | .get _ _ => none
    | .insert response => some response

theorem not_over_nil : ¬ Over config ([] : List (CachedResponse B)) := by
  simp [Over]

theorem not_over_sublist {l' : List (CachedResponse B)} (h : ¬ Over config l)
    (hsub : l'.Sublist l) : ¬ Over config l' := by
  have hlength := hsub.length_le
  have hsum := (hsub.map (·.bodyLen)).sum_le_sum fun _ _ => Nat.zero_le _
  unfold Over at h ⊢
  omega

theorem not_over_singleton (hconfig : config.Valid)
    (hbody : response.bodyLen ≤ config.maxEntryBytes) : ¬ Over config [response] := by
  obtain ⟨-, -, -, hentries, -, -, hle⟩ := hconfig
  simp only [Over, List.length_singleton, List.map_singleton, List.sum_singleton]
  omega

/-- **The cache after a run stands for a list** of responses that were inserted last under
their keys, in the order of the insertions, and within the bounds. -/
theorem represents_run (config : CacheConfig) (ops : List (CacheOp B)) :
    ∃ l, (run config ops).Represents l ∧
      l.Sublist (latest CachedResponse.key (inserted ops)) ∧ ¬ Over config l := by
  induction ops using List.reverseRecOn with
  | nil => exact ⟨[], represents_empty, List.Sublist.refl [], not_over_nil⟩
  | append_singleton ops op ih =>
    obtain ⟨l, hrun, hsub, hover⟩ := ih
    have hstep : run config (ops ++ [op]) = (run config ops).step config op := by
      rw [run, List.foldl_append]
      rfl
    have hinserted : inserted (ops ++ [op]) = inserted ops ++ inserted [op] :=
      List.filterMap_append
    rw [hstep, hinserted]
    cases op with
    | get key now =>
      have hnone : inserted [CacheOp.get (B := B) key now] = [] := rfl
      rw [hnone, List.append_nil]
      rcases (represents_get hrun key now).2 with hget | hget
      · exact ⟨l, hget, hsub, hover⟩
      · have hfilter : (l.filter (·.key ≠ key)).Sublist l := List.filter_sublist
        exact ⟨_, hget, hfilter.trans hsub, not_over_sublist hover hfilter⟩
    | insert response =>
      have hone : inserted [CacheOp.insert response] = [response] := rfl
      rw [hone, latest_concat]
      refine ⟨_, represents_insert hrun response, ?_, not_tooLong_evictFront not_over_nil _⟩
      exact (evictFront_suffix _ _).sublist.trans (pushBack_sublist response hsub)

/-- **`saturating_add` does not saturate**, if the bounds of the cache add up to at most
`usize::MAX`.  Larger bounds cannot be reached, as the bodies are in memory. -/
theorem satAddU_bytes (hfits : config.maxBytes + config.maxEntryBytes ≤ usizeMax)
    (ops : List (CacheOp B)) (hbody : response.bodyLen ≤ config.maxEntryBytes) :
    satAddU ((run config ops).removeEntry response.key).bytes response.bodyLen =
      ((run config ops).removeEntry response.key).bytes + response.bodyLen := by
  obtain ⟨l, hrun, -, hover⟩ := represents_run config ops
  have hbytes : (run config ops).bytes ≤ config.maxBytes := by
    rw [hrun.bytes]
    exact Nat.not_lt.mp (not_or.mp hover).2
  have hless : ((run config ops).removeEntry response.key).bytes ≤ (run config ops).bytes :=
    Nat.sub_le _ _
  exact satAddU_eq (by omega)

/-- **What is inserted is kept.** -/
theorem lookup_insert (h : state.Represents l) (hone : ¬ Over config [response]) :
    (state.insert config response).entries.lookup response.key = some response := by
  have hinsert : (state.insert config response).Represents _ := represents_insert h response
  obtain ⟨l', hl'⟩ := evictFront_concat hone (l.filter fun entry => entry.key ≠ response.key)
  have hmem : response ∈ evictFront (Over config) (pushBack CachedResponse.key response l) := by
    rw [pushBack, hl']
    simp
  exact KeyTable.lookup_of_mem (hinsert.entries.mem_iff.mpr hmem)

/-- **What is evicted is older** than all that is kept. -/
theorem insert_evicts (h : state.Represents l) (response : CachedResponse B) :
    ∃ evicted, state.insertionOrder.filter (· ≠ response.key) ++ [response.key] =
        evicted ++ (state.insert config response).insertionOrder ∧
      ∀ key, key ≠ response.key → (state.insert config response).entries.lookup key =
        if key ∈ evicted then none else state.entries.lookup key := by
  have hinsert : (state.insert config response).Represents _ := represents_insert h response
  obtain ⟨dropped, hdropped⟩ :=
    evictFront_suffix (Over config) (pushBack CachedResponse.key response l)
  refine ⟨dropped.map (·.key), ?_, fun key hkey => ?_⟩
  · rw [order_pushBack h, hinsert.order, ← List.map_append, hdropped]
  · have hnodup := (holds_pushBack h response []).nodup
    rw [← hdropped] at hnodup
    have hfind := find?_of_append (k := key) hnodup
    rw [hdropped, find?_pushBack (Ne.symm hkey), ← hinsert.lookup, ← h.lookup] at hfind
    exact hfind

/-- What holds of the cache after a run. -/
structure Consistent (config : CacheConfig) (ops : List (CacheOp B)) : Prop where
  /-- The bytes are those of the bodies. -/
  bytes : (run config ops).bytes = ((run config ops).entries.rows.map (·.bodyLen)).sum
  /-- The queue lists the keys of the entries, each once, in the order of their last insertion. -/
  nodup : (run config ops).insertionOrder.Nodup
  keys : ∀ key, key ∈ (run config ops).insertionOrder ↔
    ∃ entry ∈ (run config ops).entries.rows, entry.key = key
  order : (run config ops).insertionOrder.Sublist
    ((latest CachedResponse.key (inserted ops)).map (·.key))
  /-- The cache is within both bounds. -/
  entries_le : (run config ops).entries.rows.length ≤ config.maxEntries
  bytes_le : (run config ops).bytes ≤ config.maxBytes
  /-- What is inserted is kept, and what is evicted for it are the oldest entries. -/
  kept : ∀ response : CachedResponse B, response.bodyLen ≤ config.maxEntryBytes →
    ((run config ops).insert config response).entries.lookup response.key = some response
  evicts : ∀ response : CachedResponse B, ∃ evicted,
    (run config ops).insertionOrder.filter (· ≠ response.key) ++ [response.key] =
        evicted ++ ((run config ops).insert config response).insertionOrder ∧
      ∀ key, key ≠ response.key →
        ((run config ops).insert config response).entries.lookup key =
          if key ∈ evicted then none else (run config ops).entries.lookup key
  /-- What is found was inserted last under its key, and has not expired. -/
  found : ∀ key now entry, ((run config ops).get config key now).1 = some entry →
    entry.key = key ∧ now ≤ entry.insertedAt + config.maxAge ∧
      ∃ before after, inserted ops = before ++ entry :: after ∧
        ∀ later ∈ after, later.key ≠ key

/-- **The cache stays consistent and within its bounds**, whatever is inserted and looked up,
and whatever the clock does. -/
theorem cache_consistent (hconfig : config.Valid) (ops : List (CacheOp B)) :
    Consistent config ops := by
  obtain ⟨l, hrun, hsub, hover⟩ := represents_run config ops
  obtain ⟨hentries, hbytes⟩ := not_or.mp hover
  have hnodup := hrun.nodup
  rw [← hrun.order] at hnodup
  refine ⟨?_, hnodup, fun key => ?_, ?_, ?_, ?_, fun response hbody => ?_, ?_, ?_⟩
  · rw [hrun.bytes]
    exact ((hrun.entries.map _).sum_eq).symm
  · rw [hrun.order, List.mem_map]
    exact exists_congr fun entry => and_congr_left' hrun.entries.mem_iff.symm
  · rw [hrun.order]
    exact hsub.map _
  · rw [hrun.entries.length_eq]
    exact Nat.not_lt.mp hentries
  · rw [hrun.bytes]
    exact Nat.not_lt.mp hbytes
  · exact lookup_insert hrun (not_over_singleton hconfig hbody)
  · exact insert_evicts hrun
  · intro key now entry hget
    rw [(represents_get hrun key now).1, Option.filter_eq_some_iff] at hget
    obtain ⟨hfind, hlive⟩ := hget
    obtain rfl : entry.key = key := by simpa using List.find?_some hfind
    have hlast := mem_latest (hsub.subset (List.mem_of_find?_eq_some hfind))
    exact ⟨rfl, by simpa [Nat.add_comm] using hlive, hlast⟩

/-- The bounds of the repository's test: two entries, eight bytes, four for an entry. -/
def smallCache : CacheConfig := ⟨1000, 2000, 24, 2, 8, 4⟩

theorem cache_consistent_sample :
    smallCache.Valid ∧ Consistent smallCache
      [.insert ⟨"one", 0, none, none, "1111", 4⟩, .insert ⟨"two", 0, none, none, "2222", 4⟩,
        .get "one" 0, .insert ⟨"three", 0, none, none, "3333", 4⟩, .get "two" 1001] := by
  have hvalid : smallCache.Valid := by decide
  exact ⟨hvalid, cache_consistent hvalid _⟩

end CacheState

end RecentMessages
