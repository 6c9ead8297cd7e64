/-
RecentMessages/Library/Escaping.lean

Escape sequences.  An `Escaping` is an escape character and a letter for every
character that may not stand for itself; the escape character is one of those.

* `escape` writes a letter behind the escape character, `unescape` replaces such
  pairs from left to right and leaves everything else alone;
* `unescape_escape` — reading gives back what was written;
* `not_mem_escape` — a character that is neither the escape character nor a letter, and
  has a letter itself, is never written;
* `flatMap_escape` — an encoding of characters by code units that respects two
  escapings may be applied before or after escaping.
-/
import Mathlib.Data.List.Basic

/-- An escape character, and the letters behind it. -/
structure Escaping (α : Type*) where
  esc : α
  /-- The letter of a character that has to be escaped. -/
  letter : α → Option α
  /-- The character that a letter stands for. -/
  special : α → Option α
  special_letter : ∀ {a b}, letter a = some b → special b = some a
  letter_esc : letter esc ≠ none

namespace Escaping

variable {α β : Type*} (e : Escaping α)

/-- What is written for a character. -/
def escapeChar (a : α) : List α :=
  match e.letter a with
  | some b => [e.esc, b]
  | none => [a]

/-- What is written for a text. -/
def escape (l : List α) : List α := l.flatMap e.escapeChar

/-- Replace pairs from left to right. -/
def unescape [DecidableEq α] : List α → List α
  | [] => []
  | [a] => [a]
  | a :: b :: l =>
    if a = e.esc then
      match e.special b with
      | some c => c :: unescape l
      | none => a :: unescape (b :: l)
    else
      a :: unescape (b :: l)

variable {e} {a b : α} {l : List α}

theorem escapeChar_of_some (h : e.letter a = some b) : e.escapeChar a = [e.esc, b] := by
  simp [escapeChar, h]

theorem escapeChar_of_none (h : e.letter a = none) : e.escapeChar a = [a] := by
  simp [escapeChar, h]

@[simp] theorem escape_nil : e.escape [] = [] := rfl

@[simp] theorem escape_cons : e.escape (a :: l) = e.escapeChar a ++ e.escape l := rfl

theorem escape_append (l l' : List α) : e.escape (l ++ l') = e.escape l ++ e.escape l' :=
  List.flatMap_append

/-! ### Reading what was written -/

section

variable [DecidableEq α]

theorem unescape_cons_of_ne (h : a ≠ e.esc) (l : List α) :
    e.unescape (a :: l) = a :: e.unescape l := by
  cases l with
  | nil => rfl
  | cons b l => rw [unescape, if_neg h]

theorem unescape_pair {c : α} (h : e.special b = some c) (l : List α) :
    e.unescape (e.esc :: b :: l) = c :: e.unescape l := by
  simp [unescape, h]

theorem unescape_escapeChar (a : α) (l : List α) :
    e.unescape (e.escapeChar a ++ l) = a :: e.unescape l := by
  rcases h : e.letter a with - | b
  · -- a character that stands for itself is not the escape character
    rw [escapeChar_of_none h]
    apply unescape_cons_of_ne
    rintro rfl
    exact e.letter_esc h
  · rw [escapeChar_of_some h]
    exact unescape_pair (e.special_letter h) l

/-- **Reading gives back what was written.** -/
@[simp] theorem unescape_escape (l : List α) : e.unescape (e.escape l) = l := by
  induction l with
  | nil => rfl
  | cons a l ih => rw [escape_cons, unescape_escapeChar, ih]

end

/-! ### What is not written -/

theorem mem_escapeChar {c : α} (h : c ∈ e.escapeChar a) :
    c = a ∧ e.letter a = none ∨ c = e.esc ∨ e.letter a = some c := by
  rcases hletter : e.letter a with - | b
  · rw [escapeChar_of_none hletter, List.mem_singleton] at h
    exact .inl ⟨h, rfl⟩
  · rw [escapeChar_of_some hletter] at h
    simp at h
    rcases h with rfl | rfl
    · exact .inr (.inl rfl)
    · exact .inr (.inr rfl)

/-- **A character that has a letter** and is not itself one is not written. -/
theorem not_mem_escape (hletter : e.letter a ≠ none) (hesc : a ≠ e.esc)
    (hfree : ∀ b, e.letter b ≠ some a) : a ∉ e.escape l := by
  intro hmem
  obtain ⟨b, -, hb⟩ := List.mem_flatMap.mp hmem
  rcases mem_escapeChar hb with ⟨rfl, hnone⟩ | heq | hsome
  · exact hletter hnone
  · exact hesc heq
  · exact hfree b hsome

/-! ### Code units -/

/-- `f` encodes characters, and turns one escaping into another one. -/
structure Respects (e : Escaping α) (e' : Escaping β) (f : α → List β) : Prop where
  esc : f e.esc = [e'.esc]
  letter : ∀ {a b}, e.letter a = some b → ∃ a' b', f a = [a'] ∧ f b = [b'] ∧ e'.letter a' = some b'
  free : ∀ {a}, e.letter a = none → ∀ u ∈ f a, e'.letter u = none

variable {e' : Escaping β} {f : α → List β}

theorem escape_of_free {l : List β} (h : ∀ u ∈ l, e'.letter u = none) : e'.escape l = l := by
  induction l with
  | nil => rfl
  | cons u l ih =>
    rw [List.forall_mem_cons] at h
    rw [escape_cons, escapeChar_of_none h.1, ih h.2, List.singleton_append]

/-- **Escaping commutes with encoding.** -/
theorem flatMap_escape (h : Respects e e' f) (l : List α) :
    (e.escape l).flatMap f = e'.escape (l.flatMap f) := by
  induction l with
  | nil => rfl
  | cons a l ih =>
    rw [escape_cons, List.flatMap_append, ih, List.flatMap_cons, escape_append]
    congr 1
    rcases hletter : e.letter a with - | b
    · simp [escapeChar_of_none hletter, escape_of_free (h.free hletter)]
    · obtain ⟨a', b', ha, hb, hletter'⟩ := h.letter hletter
      simp [escapeChar_of_some hletter, escapeChar_of_some hletter', ha, hb, h.esc]

end Escaping
