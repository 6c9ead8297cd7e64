/-
RecentMessages/Library/KeyTable.lean

Finite tables with a primary key.  A `KeyTable key` is a list of rows whose
keys are pairwise distinct, so a `PRIMARY KEY` constraint is part of the type
and no operation can build a table that breaks it.  The operations are the
ones a relational store needs:

* `lookup`        — `SELECT … WHERE key = k`;
* `insertIgnore`  — `INSERT OR IGNORE`;
* `insert?`       — `INSERT`, failing on a duplicate key;
* `modify`        — `UPDATE … WHERE key = k` with an update that keeps the key;
* `updateWhere`   — `UPDATE … WHERE p`, likewise;
* `upsert`        — `INSERT … ON CONFLICT DO UPDATE`, likewise;
* `deleteWhere`   — `DELETE … WHERE p`;
* `erase`         — `DELETE … WHERE key = k`;
* `put`           — `INSERT OR REPLACE`, or the insertion of a hash map.

`total g` sums an integer column, and the `total_*` lemmas say by how much
each operation changes such a sum.  `keysWhere p` is the set of the keys of the
rows that satisfy `p`.
-/
import RecentMessages.Library.Lists
import Mathlib.Algebra.BigOperators.Group.List.Basic
import Mathlib.Algebra.Order.BigOperators.Group.List
import Mathlib.Data.Finset.Sort
import Mathlib.Data.List.Nodup
import Mathlib.Tactic.Ring

variable {ρ κ : Type*}

/-- A list of rows with pairwise distinct keys. -/
@[ext] structure KeyTable (key : ρ → κ) where
  rows : List ρ
  nodup : (rows.map key).Nodup

namespace KeyTable

variable {key : ρ → κ}

/-- The empty table. -/
def empty : KeyTable key := ⟨[], List.nodup_nil⟩

instance : Inhabited (KeyTable key) := ⟨empty⟩

@[simp] theorem rows_empty : (empty : KeyTable key).rows = [] := rfl

/-- A row is determined by its key. -/
theorem eq_of_key (t : KeyTable key) {r r' : ρ} (hr : r ∈ t.rows)
    (hr' : r' ∈ t.rows) (h : key r = key r') : r = r' :=
  List.inj_on_of_nodup_map t.nodup hr hr' h

/-! ### Lookup -/

section Lookup

variable [DecidableEq κ]

/-- The row with key `k`, if there is one. -/
def lookup (t : KeyTable key) (k : κ) : Option ρ :=
  t.rows.find? fun r => key r = k

theorem lookup_eq_some {t : KeyTable key} {k : κ} {r : ρ} :
    t.lookup k = some r ↔ r ∈ t.rows ∧ key r = k := by
  constructor
  · intro h
    exact ⟨List.mem_of_find?_eq_some h, by simpa using List.find?_some h⟩
  · rintro ⟨hr, hk⟩
    rcases e : t.lookup k with - | r'
    · exact absurd hk (by simpa using List.find?_eq_none.mp e r hr)
    · have hr' := List.mem_of_find?_eq_some e
      have hk' : key r' = k := by simpa using List.find?_some e
      rw [t.eq_of_key hr hr' (hk.trans hk'.symm)]

theorem lookup_eq_none {t : KeyTable key} {k : κ} :
    t.lookup k = none ↔ ∀ r ∈ t.rows, key r ≠ k := by
  simp [lookup, List.find?_eq_none]

@[simp] theorem lookup_empty (k : κ) : (empty : KeyTable key).lookup k = none := rfl

theorem mem_of_lookup {t : KeyTable key} {k : κ} {r : ρ} (h : t.lookup k = some r) :
    r ∈ t.rows := (lookup_eq_some.mp h).1

theorem key_of_lookup {t : KeyTable key} {k : κ} {r : ρ} (h : t.lookup k = some r) :
    key r = k := (lookup_eq_some.mp h).2

theorem lookup_of_mem {t : KeyTable key} {r : ρ} (h : r ∈ t.rows) :
    t.lookup (key r) = some r := lookup_eq_some.mpr ⟨h, rfl⟩

end Lookup

/-! ### Deletion -/

/-- Remove the rows that satisfy `p`. -/
def deleteWhere (t : KeyTable key) (p : ρ → Bool) : KeyTable key :=
  ⟨t.rows.filter fun r => !p r, t.nodup.sublist (List.filter_sublist.map key)⟩

@[simp] theorem rows_deleteWhere (t : KeyTable key) (p : ρ → Bool) :
    (t.deleteWhere p).rows = t.rows.filter fun r => !p r := rfl

@[simp] theorem mem_deleteWhere {t : KeyTable key} {p : ρ → Bool} {r : ρ} :
    r ∈ (t.deleteWhere p).rows ↔ r ∈ t.rows ∧ p r = false := by
  simp [deleteWhere]

section

variable [DecidableEq κ]

/-- Remove the row with key `k`. -/
def erase (t : KeyTable key) (k : κ) : KeyTable key :=
  t.deleteWhere fun r => key r = k

@[simp] theorem mem_erase {t : KeyTable key} {k : κ} {r : ρ} :
    r ∈ (t.erase k).rows ↔ r ∈ t.rows ∧ key r ≠ k := by
  simp [erase]

theorem erase_eq_self {t : KeyTable key} {k : κ} (h : t.lookup k = none) : t.erase k = t := by
  ext1
  rw [erase, rows_deleteWhere, List.filter_eq_self]
  exact fun r hr => by simpa using lookup_eq_none.mp h r hr

/-- A row and the others are all rows. -/
theorem perm_cons_erase {t : KeyTable key} {k : κ} {r : ρ} (h : t.lookup k = some r) :
    t.rows.Perm (r :: (t.erase k).rows) := by
  obtain ⟨hr, rfl⟩ := lookup_eq_some.mp h
  obtain ⟨l₁, l₂, hl⟩ := List.append_of_mem hr
  have hne : ∀ q ∈ l₁ ++ l₂, key q ≠ key r := by
    have hnodup := t.nodup
    rw [hl, (List.perm_middle.map key).nodup_iff, List.map_cons, List.nodup_cons] at hnodup
    exact fun q hq heq => hnodup.1 (heq ▸ List.mem_map_of_mem hq)
  have hrest : (t.erase (key r)).rows = l₁ ++ l₂ := by
    have hkeep : (l₁ ++ l₂).filter (fun q => !decide (key q = key r)) = l₁ ++ l₂ :=
      List.filter_eq_self.mpr fun q hq => by simp [hne q hq]
    rw [List.filter_append] at hkeep
    rw [erase, rows_deleteWhere, hl, List.filter_append, List.filter_cons_of_neg (by simp), hkeep]
  rw [hrest, hl]
  exact List.perm_middle

theorem lookup_erase_self (t : KeyTable key) (k : κ) : (t.erase k).lookup k = none := by
  simp [lookup_eq_none]

theorem lookup_erase_ne (t : KeyTable key) {k k' : κ} (h : k' ≠ k) :
    (t.erase k).lookup k' = t.lookup k' := by
  rcases e : t.lookup k' with - | r
  · rw [lookup_eq_none] at e ⊢
    exact fun r hr => e r (mem_erase.mp hr).1
  · obtain ⟨hr, hk⟩ := lookup_eq_some.mp e
    exact lookup_eq_some.mpr ⟨mem_erase.mpr ⟨hr, hk ▸ h⟩, hk⟩

/-! ### Insertion -/

/-- Append a row whose key is fresh. -/
def insertNew (t : KeyTable key) (r : ρ) (h : t.lookup (key r) = none) : KeyTable key :=
  ⟨t.rows ++ [r], by
    rw [List.map_append, List.nodup_append]
    refine ⟨t.nodup, by simp, ?_⟩
    rintro k hk k' hk' rfl
    obtain ⟨q, hq, rfl⟩ := List.mem_map.mp hk
    exact lookup_eq_none.mp h q hq (by simpa using hk')⟩

/-- `INSERT OR IGNORE`: append the row unless its key is taken. -/
def insertIgnore (t : KeyTable key) (r : ρ) : KeyTable key :=
  if h : t.lookup (key r) = none then t.insertNew r h else t

/-- `INSERT`: append the row, or fail when its key is taken. -/
def insert? (t : KeyTable key) (r : ρ) : Option (KeyTable key) :=
  if h : t.lookup (key r) = none then some (t.insertNew r h) else none

theorem insertIgnore_of_none {t : KeyTable key} {r : ρ} (h : t.lookup (key r) = none) :
    (t.insertIgnore r).rows = t.rows ++ [r] := by
  simp [insertIgnore, h, insertNew]

theorem insertIgnore_of_some {t : KeyTable key} {r q : ρ} (h : t.lookup (key r) = some q) :
    t.insertIgnore r = t := by
  simp [insertIgnore, h]

theorem insertIgnore_of_new {t : KeyTable key} {r : ρ} (h : t.lookup (key r) = none) :
    t.insertIgnore r = t.insertNew r h :=
  dif_pos h

theorem mem_insertIgnore {t : KeyTable key} {r q : ρ} :
    q ∈ (t.insertIgnore r).rows ↔ q ∈ t.rows ∨ (q = r ∧ t.lookup (key r) = none) := by
  rcases e : t.lookup (key r) with - | r'
  · simp [insertIgnore_of_none e]
  · simp [insertIgnore_of_some e]

theorem lookup_insertIgnore_self (t : KeyTable key) {r : ρ} {k : κ} (hk : key r = k) :
    (t.insertIgnore r).lookup k = some ((t.lookup k).getD r) := by
  subst hk
  rcases e : t.lookup (key r) with - | q
  · exact lookup_eq_some.mpr ⟨mem_insertIgnore.mpr (.inr ⟨rfl, e⟩), rfl⟩
  · rw [insertIgnore_of_some e, e]; rfl

theorem lookup_insertIgnore_ne (t : KeyTable key) {r : ρ} {k : κ} (h : key r ≠ k) :
    (t.insertIgnore r).lookup k = t.lookup k := by
  rcases e : t.lookup (key r) with - | q
  · simp [lookup, insertIgnore_of_none e, List.find?_append, h]
  · rw [insertIgnore_of_some e]

theorem insert?_eq_some {t t' : KeyTable key} {r : ρ} :
    t.insert? r = some t' ↔ t.lookup (key r) = none ∧ t'.rows = t.rows ++ [r] := by
  unfold insert?
  split
  · rename_i h
    constructor
    · rintro ⟨⟩; exact ⟨h, rfl⟩
    · rintro ⟨-, hr⟩; exact congrArg some (KeyTable.ext hr.symm)
  · rename_i h
    exact ⟨nofun, fun h' => absurd h'.1 h⟩

theorem mem_insert? {t t' : KeyTable key} {r q : ρ} (h : t.insert? r = some t') :
    q ∈ t'.rows ↔ q ∈ t.rows ∨ q = r := by
  rw [(insert?_eq_some.mp h).2]; simp

theorem lookup_insert?_ne {t t' : KeyTable key} {r : ρ} {k : κ} (h : t.insert? r = some t')
    (hk : key r ≠ k) : t'.lookup k = t.lookup k := by
  simp [lookup, (insert?_eq_some.mp h).2, List.find?_append, hk]

theorem lookup_insert?_self {t t' : KeyTable key} {r : ρ} (h : t.insert? r = some t') :
    t'.lookup (key r) = some r :=
  lookup_eq_some.mpr ⟨(mem_insert? h).mpr (.inr rfl), rfl⟩

/-- Put a row in the place of the one with its key, if there is one. -/
def put (t : KeyTable key) (r : ρ) : KeyTable key := (t.erase (key r)).insertIgnore r

theorem mem_put {t : KeyTable key} {r q : ρ} :
    q ∈ (t.put r).rows ↔ (q ∈ t.rows ∧ key q ≠ key r) ∨ q = r := by
  rw [put, mem_insertIgnore, mem_erase, lookup_erase_self]
  simp

theorem lookup_put_self (t : KeyTable key) (r : ρ) : (t.put r).lookup (key r) = some r :=
  lookup_of_mem (mem_put.mpr (.inr rfl))

theorem lookup_put_ne (t : KeyTable key) {r : ρ} {k : κ} (h : key r ≠ k) :
    (t.put r).lookup k = t.lookup k := by
  rw [put, lookup_insertIgnore_ne _ h, lookup_erase_ne t h.symm]

theorem rows_put (t : KeyTable key) (r : ρ) :
    (t.put r).rows = (t.rows.filter fun q => key q ≠ key r) ++ [r] := by
  rw [put, insertIgnore_of_none (lookup_erase_self t (key r)), erase, rows_deleteWhere]
  simp

/-! ### Update in place -/

/-- Apply a key-preserving update to the row with key `k`. -/
def modify (t : KeyTable key) (k : κ) (f : ρ → ρ) (hf : ∀ r, key (f r) = key r) :
    KeyTable key :=
  ⟨t.rows.map fun r => if key r = k then f r else r, by
    have : (key ∘ fun r => if key r = k then f r else r) = key := by
      funext r; by_cases h : key r = k <;> simp [h, hf]
    rw [List.map_map, this]
    exact t.nodup⟩

variable {f : ρ → ρ} {hf : ∀ r, key (f r) = key r}

@[simp] theorem rows_modify (t : KeyTable key) (k : κ) :
    (t.modify k f hf).rows = t.rows.map fun r => if key r = k then f r else r := rfl

theorem mem_modify {t : KeyTable key} {k : κ} {q : ρ} :
    q ∈ (t.modify k f hf).rows ↔
      (q ∈ t.rows ∧ key q ≠ k) ∨ ∃ r ∈ t.rows, key r = k ∧ q = f r := by
  simp only [modify, List.mem_map]
  constructor
  · rintro ⟨r, hr, rfl⟩
    by_cases h : key r = k
    · exact .inr ⟨r, hr, h, by simp [h]⟩
    · exact .inl (by simpa [h] using hr)
  · rintro (⟨hq, hk⟩ | ⟨r, hr, hk, rfl⟩)
    · exact ⟨q, hq, by simp [hk]⟩
    · exact ⟨r, hr, by simp [hk]⟩

theorem lookup_modify_self (t : KeyTable key) (k : κ) :
    (t.modify k f hf).lookup k = (t.lookup k).map f := by
  rcases e : t.lookup k with - | r
  · rw [lookup_eq_none] at e
    refine lookup_eq_none.mpr fun q hq => ?_
    rcases mem_modify.mp hq with ⟨hq, -⟩ | ⟨r, hr, hk, rfl⟩
    · exact e q hq
    · exact absurd hk (e r hr)
  · obtain ⟨hr, hk⟩ := lookup_eq_some.mp e
    exact lookup_eq_some.mpr ⟨mem_modify.mpr (.inr ⟨r, hr, hk, rfl⟩), (hf r).trans hk⟩

theorem lookup_modify_ne (t : KeyTable key) {k k' : κ} (h : k' ≠ k) :
    (t.modify k f hf).lookup k' = t.lookup k' := by
  rcases e : t.lookup k' with - | r
  · rw [lookup_eq_none] at e
    refine lookup_eq_none.mpr fun q hq => ?_
    rcases mem_modify.mp hq with ⟨hq, -⟩ | ⟨r, hr, hk, rfl⟩
    · exact e q hq
    · rw [hf]; exact e r hr
  · obtain ⟨hr, hk⟩ := lookup_eq_some.mp e
    exact lookup_eq_some.mpr ⟨mem_modify.mpr (.inl ⟨hr, hk ▸ h⟩), hk⟩

/-- An update that leaves the row with key `k` as it is changes nothing. -/
theorem modify_eq_self {t : KeyTable key} {k : κ} {r : ρ} (h : t.lookup k = some r)
    (hr : f r = r) : t.modify k f hf = t := by
  obtain ⟨hmem, hk⟩ := lookup_eq_some.mp h
  apply KeyTable.ext
  show (t.rows.map fun q => if key q = k then f q else q) = t.rows
  calc (t.rows.map fun q => if key q = k then f q else q)
      = t.rows.map id := List.map_congr_left fun q hq => by
        by_cases hq' : key q = k
        · rw [if_pos hq', t.eq_of_key hq hmem (hq'.trans hk.symm), hr]
          rfl
        · exact if_neg hq'
    _ = t.rows := List.map_id _

section Foldl

variable {α : Type*} {l : List α} {g : α → κ} {f : α → ρ → ρ} {hf : ∀ a r, key (f a r) = key r}

theorem lookup_foldl_modify_ne (t : KeyTable key) {k : κ} (h : ∀ a ∈ l, g a ≠ k) :
    (l.foldl (fun t a => t.modify (g a) (f a) (hf a)) t).lookup k = t.lookup k := by
  induction l generalizing t with
  | nil => rfl
  | cons a l ih =>
    rw [List.forall_mem_cons] at h
    rw [List.foldl_cons, ih _ h.2, lookup_modify_ne t (Ne.symm h.1)]

/-- Updates of rows with different keys do not interfere. -/
theorem lookup_foldl_modify (t : KeyTable key) (hnodup : (l.map g).Nodup) {a : α} (ha : a ∈ l) :
    (l.foldl (fun t a => t.modify (g a) (f a) (hf a)) t).lookup (g a) =
      (t.lookup (g a)).map (f a) := by
  induction l generalizing t with
  | nil => exact absurd ha List.not_mem_nil
  | cons b l ih =>
    rw [List.map_cons, List.nodup_cons] at hnodup
    rw [List.foldl_cons]
    rcases List.mem_cons.mp ha with rfl | ha
    · rw [lookup_foldl_modify_ne, lookup_modify_self]
      rintro b hb heq
      exact hnodup.1 (heq ▸ List.mem_map_of_mem hb)
    · rw [ih _ hnodup.2 ha, lookup_modify_ne]
      intro heq
      exact hnodup.1 (heq ▸ List.mem_map_of_mem ha)

end Foldl

/-! ### Insertion or update -/

/-- Append the row, or update the one that has its key. -/
def upsert (t : KeyTable key) (r : ρ) (f : ρ → ρ) (hf : ∀ r, key (f r) = key r) :
    KeyTable key :=
  if h : t.lookup (key r) = none then t.insertNew r h else t.modify (key r) f hf

theorem mem_upsert {t : KeyTable key} {r q : ρ} (h : q ∈ (t.upsert r f hf).rows) :
    q ∈ t.rows ∨ q = r ∨ ∃ p ∈ t.rows, key p = key r ∧ q = f p := by
  unfold upsert at h
  split at h
  · rcases List.mem_append.mp h with h | h
    · exact .inl h
    · exact .inr (.inl (List.mem_singleton.mp h))
  · rcases mem_modify.mp h with ⟨h, -⟩ | h
    · exact .inl h
    · exact .inr (.inr h)

theorem lookup_upsert_self (t : KeyTable key) (r : ρ) :
    (t.upsert r f hf).lookup (key r) = some (((t.lookup (key r)).map f).getD r) := by
  unfold upsert
  split
  · rename_i h
    rw [h]
    exact lookup_eq_some.mpr ⟨List.mem_append_right _ List.mem_cons_self, rfl⟩
  · rename_i h
    obtain ⟨q, hq⟩ := Option.ne_none_iff_exists'.mp h
    rw [lookup_modify_self, hq]
    rfl

theorem lookup_upsert_ne (t : KeyTable key) {r : ρ} {k : κ} (hk : key r ≠ k) :
    (t.upsert r f hf).lookup k = t.lookup k := by
  unfold upsert
  split
  · rename_i h
    rw [← insertIgnore_of_new h, lookup_insertIgnore_ne t hk]
  · exact lookup_modify_ne t (Ne.symm hk)

end

/-- Apply a key-preserving update to the rows that satisfy `p`. -/
def updateWhere (t : KeyTable key) (p : ρ → Bool) (f : ρ → ρ) (hf : ∀ r, key (f r) = key r) :
    KeyTable key :=
  ⟨t.rows.map fun r => if p r then f r else r, by
    have : (key ∘ fun r => if p r then f r else r) = key := by
      funext r; by_cases h : p r <;> simp [h, hf]
    rw [List.map_map, this]
    exact t.nodup⟩

section

variable {p : ρ → Bool} {f : ρ → ρ} {hf : ∀ r, key (f r) = key r}

theorem mem_updateWhere {t : KeyTable key} {q : ρ} :
    q ∈ (t.updateWhere p f hf).rows ↔ ∃ r ∈ t.rows, q = if p r then f r else r := by
  rw [updateWhere, List.mem_map]
  exact exists_congr fun r => and_congr_right fun _ => eq_comm

theorem lookup_updateWhere [DecidableEq κ] (t : KeyTable key) (k : κ) :
    (t.updateWhere p f hf).lookup k = (t.lookup k).map fun r => if p r then f r else r := by
  have hkey : ∀ r, key (if p r then f r else r) = key r := fun r => by
    split
    · exact hf r
    · rfl
  rcases e : t.lookup k with - | r
  · rw [lookup_eq_none] at e
    refine lookup_eq_none.mpr fun q hq => ?_
    obtain ⟨r, hr, rfl⟩ := mem_updateWhere.mp hq
    rw [hkey]
    exact e r hr
  · obtain ⟨hr, hk⟩ := lookup_eq_some.mp e
    exact lookup_eq_some.mpr ⟨mem_updateWhere.mpr ⟨r, hr, rfl⟩, (hkey r).trans hk⟩

end

/-! ### Ascending keys -/

section NextKey

variable {key : ρ → ℤ}

/-- One more than the largest key: the rowid of the next insertion. -/
def nextKey (t : KeyTable key) : ℤ := (t.rows.map key).foldr max 0 + 1

theorem lt_nextKey {t : KeyTable key} {r : ρ} (h : r ∈ t.rows) : key r < t.nextKey := by
  have hle : ∀ l : List ℤ, ∀ x ∈ l, x ≤ l.foldr max 0 := by
    intro l
    induction l with
    | nil => rintro x ⟨⟩
    | cons y l ih =>
      intro x hx
      rcases List.mem_cons.mp hx with rfl | hx
      · exact le_max_left _ _
      · exact (ih x hx).trans (le_max_right _ _)
  exact Int.lt_add_one_of_le (hle _ _ (List.mem_map_of_mem h))

/-- The next key is free. -/
theorem lookup_nextKey (t : KeyTable key) : t.lookup t.nextKey = none :=
  lookup_eq_none.mpr fun _ hr => (lt_nextKey hr).ne

end NextKey

/-! ### Column sums -/

/-- The sum of an integer column. -/
def total (t : KeyTable key) (g : ρ → ℤ) : ℤ := (t.rows.map g).sum

variable {g : ρ → ℤ}

@[simp] theorem total_empty : (empty : KeyTable key).total g = 0 := rfl

theorem total_deleteWhere (t : KeyTable key) (p : ρ → Bool) :
    (t.deleteWhere p).total g = t.total g - t.total fun r => if p r then g r else 0 := by
  simp only [total, rows_deleteWhere]
  induction t.rows with
  | nil => rfl
  | cons r rs ih =>
    rw [List.map_cons, List.sum_cons, List.map_cons, List.sum_cons, List.filter_cons]
    cases hp : p r <;> simp only [Bool.not_false, Bool.not_true, ↓reduceIte, List.map_cons,
      List.sum_cons, Bool.false_eq_true, ih] <;> ring

/-- A column sum that is positive only at one key picks out that row. -/
theorem total_single [DecidableEq κ] {t : KeyTable key} {r : ρ} (h : r ∈ t.rows) :
    (t.total fun q => if key q = key r then g q else 0) = g r := by
  obtain ⟨l₁, l₂, hl⟩ := List.append_of_mem h
  have hnd := t.nodup
  simp only [hl, List.map_append, List.map_cons, List.nodup_append, List.nodup_cons,
    List.mem_map, List.mem_cons] at hnd
  have hzero : ∀ l : List ρ, (∀ q ∈ l, key q ≠ key r) →
      (l.map fun q => if key q = key r then g q else 0).sum = 0 := by
    intro l hne
    induction l with
    | nil => rfl
    | cons q l ih =>
      simp only [List.map_cons, List.sum_cons, hne q (by simp), ↓reduceIte, zero_add]
      exact ih fun q' hq' => hne q' (by simp [hq'])
  have h₁ := hzero l₁ fun q hq heq => hnd.2.2 _ ⟨q, hq, rfl⟩ _ (.inl rfl) heq
  have h₂ := hzero l₂ fun q hq heq => hnd.2.1.1 ⟨q, hq, heq⟩
  simp [total, hl, h₁, h₂]

theorem total_erase [DecidableEq κ] {t : KeyTable key} {k : κ} {r : ρ}
    (h : t.lookup k = some r) : (t.erase k).total g = t.total g - g r := by
  obtain ⟨hr, rfl⟩ := lookup_eq_some.mp h
  rw [erase, total_deleteWhere, ← total_single (g := g) hr]
  simp

theorem total_insertIgnore [DecidableEq κ] {t : KeyTable key} {r : ρ}
    (h : t.lookup (key r) = none) : (t.insertIgnore r).total g = t.total g + g r := by
  simp [total, insertIgnore_of_none h]

theorem total_put [DecidableEq κ] (t : KeyTable key) (r : ρ) :
    (t.put r).total g = (t.erase (key r)).total g + g r :=
  total_insertIgnore (lookup_erase_self t (key r))

theorem total_modify [DecidableEq κ] {t : KeyTable key} {k : κ} {f : ρ → ρ}
    {hf : ∀ r, key (f r) = key r} {r : ρ} (h : t.lookup k = some r) :
    (t.modify k f hf).total g = t.total g - g r + g (f r) := by
  obtain ⟨hr, rfl⟩ := lookup_eq_some.mp h
  have hsplit : (t.modify (key r) f hf).total g =
      t.total g - (t.total fun q => if key q = key r then g q else 0) +
        t.total fun q => if key q = key r then g (f q) else 0 := by
    simp only [total, rows_modify]
    induction t.rows with
    | nil => rfl
    | cons q l ih =>
      rw [List.map_cons, List.map_cons, List.sum_cons, ih]
      by_cases hq : key q = key r <;>
        simp only [hq, ↓reduceIte, List.map_cons, List.sum_cons] <;> ring
  rw [hsplit, total_single (g := g) hr, total_single (g := fun q => g (f q)) hr]

theorem length_erase [DecidableEq κ] {t : KeyTable key} {k : κ} {r : ρ}
    (h : t.lookup k = some r) : (t.erase k).rows.length + 1 = t.rows.length := by
  have hcount := total_erase (g := fun _ => 1) h
  simp only [total, List.map_const', List.sum_replicate, nsmul_eq_mul, mul_one] at hcount
  omega

theorem length_put [DecidableEq κ] {t : KeyTable key} {r q : ρ} (h : t.lookup (key r) = some q) :
    (t.put r).rows.length = t.rows.length := by
  rw [← length_erase h, put, insertIgnore_of_none (lookup_erase_self t (key r)),
    List.length_append, List.length_singleton]

theorem total_congr {t : KeyTable key} {g' : ρ → ℤ} (h : ∀ r ∈ t.rows, g r = g' r) :
    t.total g = t.total g' := by
  unfold total
  rw [List.map_congr_left h]

theorem total_nonneg {t : KeyTable key} (h : ∀ r ∈ t.rows, 0 ≤ g r) : 0 ≤ t.total g := by
  refine List.sum_nonneg fun x hx => ?_
  obtain ⟨r, hr, rfl⟩ := List.mem_map.mp hx
  exact h r hr

/-- Each row's entry of a nonnegative column is at most the column's sum. -/
theorem le_total [DecidableEq κ] {t : KeyTable key} {r : ρ} (hr : r ∈ t.rows)
    (h : ∀ q ∈ t.rows, 0 ≤ g q) : g r ≤ t.total g := by
  have h₁ := total_erase (g := g) (lookup_of_mem hr)
  have h₂ : 0 ≤ (t.erase (key r)).total g :=
    total_nonneg fun q hq => h q (mem_erase.mp hq).1
  omega

/-! ### Sets of keys -/

section Keys

variable {p : ρ → Bool}

theorem nodup_filter (t : KeyTable key) : ((t.rows.filter p).map key).Nodup :=
  t.nodup.sublist (List.filter_sublist.map key)

variable [DecidableEq κ]

/-- The keys of the rows that satisfy `p`. -/
def keysWhere (t : KeyTable key) (p : ρ → Bool) : Finset κ := ((t.rows.filter p).map key).toFinset

theorem mem_keysWhere {t : KeyTable key} {k : κ} :
    k ∈ t.keysWhere p ↔ (t.lookup k).any p = true := by
  rw [keysWhere, List.mem_toFinset, List.mem_map]
  constructor
  · rintro ⟨r, hr, rfl⟩
    obtain ⟨hr, hp⟩ := List.mem_filter.mp hr
    simp [lookup_of_mem hr, hp]
  · intro h
    rcases hlookup : t.lookup k with - | r
    · simp [hlookup] at h
    · obtain ⟨hr, hk⟩ := lookup_eq_some.mp hlookup
      exact ⟨r, List.mem_filter.mpr ⟨hr, by simpa [hlookup] using h⟩, hk⟩

theorem card_keysWhere (t : KeyTable key) : (t.keysWhere p).card = (t.rows.filter p).length := by
  rw [keysWhere, List.toFinset_card_of_nodup t.nodup_filter, List.length_map]

/-- **The keys in order** are a sorted set. -/
theorem sort_keysWhere [LinearOrder κ] (t : KeyTable key) :
    (sortByKey key (t.rows.filter p)).map key = (t.keysWhere p).sort := by
  have hperm : ((sortByKey key (t.rows.filter p)).map key).Perm ((t.rows.filter p).map key) :=
    (sortByKey_perm _).map key
  have hnodup : ((sortByKey key (t.rows.filter p)).map key).Nodup :=
    hperm.nodup_iff.mpr t.nodup_filter
  have hset : ((sortByKey key (t.rows.filter p)).map key).toFinset = t.keysWhere p := by
    rw [List.toFinset_eq_of_perm _ _ hperm]
    rfl
  rw [← hset, eq_comm, List.toFinset_sort _ hnodup, List.pairwise_map]
  exact sortByKey_sorted _

/-- Inserting a row adds its key. -/
theorem keys_insertIgnore (t : KeyTable key) (r : ρ) :
    (t.insertIgnore r).keysWhere (fun _ => true) = insert (key r) (t.keysWhere fun _ => true) := by
  ext k
  rw [mem_keysWhere, Finset.mem_insert, mem_keysWhere]
  by_cases hk : key r = k
  · rw [lookup_insertIgnore_self t hk]
    exact iff_of_true rfl (.inl hk.symm)
  · rw [lookup_insertIgnore_ne t hk]
    exact ⟨.inr, fun h => h.resolve_left (Ne.symm hk)⟩

/-- Putting a row adds its key. -/
theorem keys_put (t : KeyTable key) (r : ρ) :
    (t.put r).keysWhere (fun _ => true) = insert (key r) (t.keysWhere fun _ => true) := by
  ext k
  rw [put, keys_insertIgnore, Finset.mem_insert, Finset.mem_insert, mem_keysWhere, mem_keysWhere]
  by_cases hk : k = key r
  · exact iff_of_true (.inl hk) (.inl hk)
  · rw [lookup_erase_ne t hk]

theorem keysWhere_erase (t : KeyTable key) (k : κ) :
    (t.erase k).keysWhere p = (t.keysWhere p).erase k := by
  ext k'
  rw [mem_keysWhere, Finset.mem_erase, mem_keysWhere]
  by_cases hk : k' = k
  · rw [hk, lookup_erase_self]
    simp
  · rw [lookup_erase_ne t hk]
    exact ⟨fun h => ⟨hk, h⟩, And.right⟩

section

variable {f : ρ → ρ} {hf : ∀ r, key (f r) = key r}

/-- Setting a flag adds the key. -/
theorem keysWhere_upsert (t : KeyTable key) {r : ρ} (hr : p r = true) (hset : ∀ q, p (f q) = true) :
    (t.upsert r f hf).keysWhere p = insert (key r) (t.keysWhere p) := by
  ext k
  rw [mem_keysWhere, Finset.mem_insert, mem_keysWhere]
  by_cases hk : key r = k
  · subst hk
    rw [lookup_upsert_self]
    refine iff_of_true ?_ (.inl rfl)
    cases t.lookup (key r) with
    | none => exact hr
    | some q => exact hset q
  · rw [lookup_upsert_ne t hk]
    exact ⟨.inr, fun h => h.resolve_left (Ne.symm hk)⟩

/-- An update that leaves a flag alone changes no set of keys. -/
theorem keysWhere_upsert_of_eq (t : KeyTable key) {r : ρ} (hr : p r = false)
    (hsame : ∀ q, p (f q) = p q) : (t.upsert r f hf).keysWhere p = t.keysWhere p := by
  ext k
  rw [mem_keysWhere, mem_keysWhere]
  by_cases hk : key r = k
  · subst hk
    rw [lookup_upsert_self]
    cases t.lookup (key r) with
    | none => simp [hr]
    | some q => simp [hsame]
  · rw [lookup_upsert_ne t hk]

/-- An update changes no key. -/
theorem keys_modify (t : KeyTable key) (k : κ) :
    (t.modify k f hf).keysWhere (fun _ => true) = t.keysWhere fun _ => true := by
  have hkey : (key ∘ fun r => if key r = k then f r else r) = key := by
    funext r
    by_cases h : key r = k <;> simp [h, hf]
  simp [keysWhere, List.filter_eq_self.mpr, List.map_map, hkey]

/-- Clearing a flag removes the key. -/
theorem keysWhere_modify (t : KeyTable key) (k : κ) (hclear : ∀ q, p (f q) = false) :
    (t.modify k f hf).keysWhere p = (t.keysWhere p).erase k := by
  ext k'
  rw [mem_keysWhere, Finset.mem_erase, mem_keysWhere]
  by_cases hk : k' = k
  · rw [hk, lookup_modify_self]
    cases t.lookup k with
    | none => simp
    | some q => simp [hclear]
  · rw [lookup_modify_ne t hk]
    exact ⟨fun h => ⟨hk, h⟩, And.right⟩

theorem keysWhere_updateWhere (t : KeyTable key) (hclear : ∀ q, p (f q) = false) :
    (t.updateWhere (fun _ => true) f hf).keysWhere p = ∅ := by
  ext k
  rw [mem_keysWhere, lookup_updateWhere]
  cases t.lookup k with
  | none => simp
  | some q => simp [hclear]

end

end Keys

end KeyTable
