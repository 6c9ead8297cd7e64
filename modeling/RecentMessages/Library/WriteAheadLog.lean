/-
RecentMessages/Library/WriteAheadLog.lean

A write-ahead log, abstractly.  Entries of a type `β`, each standing for a set of
items (`items`), are logged before their items are worked into stable storage;
until then the items are only in memory.  A crash empties the memory, and a
recovery loads every logged entry again.

* `Wal.Step` — logging, work, trimming the log, crash and recovery;
* `Wal.Safe` — the invariant: while the system is up, the items of every logged
  entry are stable or in memory;
* `Wal.Durable` — an entry is in the log or its items are stable; once durable,
  always durable (`Step.durable`).
-/
import Mathlib.Data.Set.Basic
import Mathlib.Logic.Relation

/-- The state of a system with a write-ahead log. -/
structure Wal (β α : Type*) where
  up : Prop
  log : Set β
  stable : Set α
  memory : Set α

namespace Wal

variable {β α : Type*} {items : β → Set α} {s t : Wal β α} {b : β}

/-- The items that a running system has not lost. -/
def reach (s : Wal β α) : Set α := s.stable ∪ s.memory

/-- One step.  Stable items stay, whatever happens. -/
inductive Step (items : β → Set α) (s t : Wal β α) : Prop
  /-- An entry is logged and its items are loaded. -/
  | append (b : β) (hup : s.up) (hlog : t.log ⊆ insert b s.log) (hkept : s.log ⊆ t.log)
      (hstable : s.stable ⊆ t.stable) (hreach : s.reach ⊆ t.reach) (hitems : items b ⊆ t.reach)
  /-- Items move on; none is lost. -/
  | work (hup : s.up) (hlog : t.log = s.log) (hstable : s.stable ⊆ t.stable)
      (hreach : s.reach ⊆ t.reach)
  /-- Entries are dropped from the log at a moment when every item is stable. -/
  | trim (hup : s.up) (hlog : t.log ⊆ s.log) (hstable : s.reach ⊆ t.stable)
  /-- The memory is lost. -/
  | crash (hlog : t.log = s.log) (hstable : s.stable ⊆ t.stable) (hdown : ¬ t.up)
  /-- Every logged entry is loaded. -/
  | recover (hlog : t.log = s.log) (hstable : s.stable ⊆ t.stable)
      (hitems : ∀ b ∈ t.log, items b ⊆ t.reach)

/-- While the system is up, every logged item is stable or in memory. -/
def Safe (items : β → Set α) (s : Wal β α) : Prop := s.up → ∀ b ∈ s.log, items b ⊆ s.reach

/-- An entry that no crash can lose. -/
def Durable (items : β → Set α) (s : Wal β α) (b : β) : Prop := b ∈ s.log ∨ items b ⊆ s.stable

theorem stable_subset_reach (s : Wal β α) : s.stable ⊆ s.reach := Set.subset_union_left

/-- **A step keeps the invariant.** -/
theorem Step.safe (h : Step items s t) (hs : Safe items s) : Safe items t := by
  intro hup b hb
  cases h with
  | append c hsup hlog hkept hstable hreach hitems =>
    rcases hlog hb with rfl | hb
    · exact hitems
    · exact (hs hsup b hb).trans hreach
  | work hsup hlog hstable hreach => exact (hs hsup b (hlog ▸ hb)).trans hreach
  | trim hsup hlog hstable =>
    exact ((hs hsup b (hlog hb)).trans hstable).trans t.stable_subset_reach
  | crash hlog hstable hdown => exact absurd hup hdown
  | recover hlog hstable hitems => exact hitems b hb

theorem Step.stable_subset (h : Step items s t) : s.stable ⊆ t.stable := by
  cases h with
  | append c hsup hlog hkept hstable hreach hitems => exact hstable
  | work hsup hlog hstable hreach => exact hstable
  | trim hsup hlog hstable => exact s.stable_subset_reach.trans hstable
  | crash hlog hstable hdown => exact hstable
  | recover hlog hstable hitems => exact hstable

/-- **A durable entry stays durable.** -/
theorem Step.durable (h : Step items s t) (hs : Safe items s) (hb : Durable items s b) :
    Durable items t b := by
  rcases hb with hb | hb
  · cases h with
    | append c hup hlog hkept hstable hreach hitems => exact .inl (hkept hb)
    | work hup hlog hstable hreach => exact .inl (hlog ▸ hb)
    | trim hup hlog hstable => exact .inr ((hs hup b hb).trans hstable)
    | crash hlog hstable hdown => exact .inl (hlog ▸ hb)
    | recover hlog hstable hitems => exact .inl (hlog ▸ hb)
  · exact .inr (hb.trans h.stable_subset)

end Wal
