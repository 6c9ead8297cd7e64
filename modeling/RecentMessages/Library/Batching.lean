/-
RecentMessages/Library/Batching.lean

Batches of numbered items.  A batcher holds the items that it has not sent, and knows the
number of the first one.  It sends what it holds when there are `n` items or when it is
told to.

* `Batching.Batched` — what holds after every run (`batched_run`): the chunks that were sent
  tile the numbers, and together with the held items they are the items that came in;
* `collect` — the outputs of a machine along a list of inputs, and `collect_related`, which
  carries a simulation from one step to runs.
-/
import Mathlib.Data.List.Basic
import Mathlib.Order.Basic

/-! ### Machines with outputs -/

section Collect

variable {σ τ ι ο ο' : Type*}

/-- The outputs of a run, and the state after it. -/
def collect (step : σ → ι → Option ο × σ) : σ → List ι → List ο × σ
  | s, [] => ([], s)
  | s, i :: inputs =>
    ((step s i).1.toList ++ (collect step (step s i).2 inputs).1,
      (collect step (step s i).2 inputs).2)

variable {step : σ → ι → Option ο × σ} {step' : τ → ι → Option ο' × τ}

/-- **A simulation carries over to runs.**  `R` relates the states as long as inputs are left,
and related states answer an input alike. -/
theorem collect_related (R : List ι → σ → τ → Prop) (f : ο' → ο)
    (h : ∀ i inputs s t, R (i :: inputs) s t →
      (step s i).1 = (step' t i).1.map f ∧ R inputs (step s i).2 (step' t i).2)
    {inputs : List ι} {s : σ} {t : τ} (hR : R inputs s t) :
    (collect step s inputs).1 = (collect step' t inputs).1.map f ∧
      R [] (collect step s inputs).2 (collect step' t inputs).2 := by
  induction inputs generalizing s t with
  | nil => exact ⟨rfl, hR⟩
  | cons i inputs ih =>
    obtain ⟨hout, hnext⟩ := h i inputs s t hR
    obtain ⟨houts, hlast⟩ := ih hnext
    refine ⟨?_, hlast⟩
    rw [collect, collect, houts, hout, List.map_append]
    cases (step' t i).1 <;> rfl

/-- One more input. -/
theorem collect_concat (step : σ → ι → Option ο × σ) (s : σ) (inputs : List ι) (i : ι) :
    collect step s (inputs ++ [i]) =
      ((collect step s inputs).1 ++ (step (collect step s inputs).2 i).1.toList,
        (step (collect step s inputs).2 i).2) := by
  induction inputs generalizing s with
  | nil => simp [collect]
  | cons j inputs ih => simp [collect, ih]

end Collect

variable {α : Type*}

/-- The held items, and the number of the first one. -/
structure Batching (α : Type*) where
  start : ℕ
  held : List α

/-- An item comes in, the held items are sent, or nothing happens. -/
inductive BatchingCall (α : Type*)
  | push (item : α)
  | flush
  | skip

/-- The item of a call. -/
def BatchingCall.item : BatchingCall α → Option α
  | push item => some item
  | flush => none
  | skip => none

namespace Batching

/-- Send what is held, if there is anything. -/
def flush (b : Batching α) : Option (ℕ × List α) × Batching α :=
  if b.held = [] then (none, b) else (some (b.start, b.held), ⟨b.start + b.held.length, []⟩)

/-- One call. -/
def call (n : ℕ) (b : Batching α) : BatchingCall α → Option (ℕ × List α) × Batching α
  | .push item =>
    if n ≤ b.held.length + 1 then flush ⟨b.start, b.held ++ [item]⟩
    else (none, ⟨b.start, b.held ++ [item]⟩)
  | .flush => b.flush
  | .skip => (none, b)

/-- Chunks that begin at a number and number their items up to another one. -/
def Tiles : ℕ → List (ℕ × List α) → ℕ → Prop
  | first, [], stop => first = stop
  | first, (k, items) :: chunks, stop => k = first ∧ Tiles (first + items.length) chunks stop

/-- What holds after a run on an empty batcher whose first number is `first`. -/
structure Batched (n first : ℕ) (items : List α) (chunks : List (ℕ × List α)) (b : Batching α) :
    Prop where
  tiles : Tiles first chunks b.start
  sizes : ∀ c ∈ chunks, c.2 ≠ [] ∧ c.2.length ≤ n
  room : b.held.length < n
  items : (chunks.flatMap Prod.snd) ++ b.held = items

variable {n first : ℕ} {b : Batching α}

/-- Sending what is held. -/
theorem batched_flush (hlength : b.held.length ≤ n) (hpos : 0 < n) :
    Batched n b.start b.held b.flush.1.toList b.flush.2 := by
  unfold flush
  split
  · rename_i hempty
    refine ⟨rfl, fun c hc => absurd hc List.not_mem_nil, ?_, rfl⟩
    rw [hempty]
    exact hpos
  · rename_i hne
    refine ⟨⟨rfl, rfl⟩, ?_, hpos, by simp⟩
    intro c hc
    rw [List.mem_singleton.mp hc]
    exact ⟨hne, hlength⟩

/-- **One call** sends at most one chunk, and keeps or sends every item. -/
theorem batched_call (hroom : b.held.length < n) (c : BatchingCall α) :
    Batched n b.start (b.held ++ c.item.toList) (b.call n c).1.toList (b.call n c).2 := by
  have hpos : 0 < n := Nat.lt_of_le_of_lt (Nat.zero_le _) hroom
  cases c with
  | push item =>
    rw [call]
    split
    · have hlength : (b.held ++ [item]).length ≤ n := by
        rw [List.length_append]
        exact hroom
      exact batched_flush (b := ⟨b.start, b.held ++ [item]⟩) hlength hpos
    · rename_i hfree
      refine ⟨rfl, fun c hc => absurd hc List.not_mem_nil, ?_, rfl⟩
      rw [List.length_append]
      exact Nat.lt_of_not_le hfree
  | flush =>
    simp only [BatchingCall.item, Option.toList_none, List.append_nil]
    exact batched_flush (Nat.le_of_lt hroom) hpos
  | skip =>
    exact ⟨rfl, fun c hc => absurd hc List.not_mem_nil, hroom, (List.append_nil _).symm⟩

theorem Tiles.append {first middle stop : ℕ} {chunks chunks' : List (ℕ × List α)}
    (h : Tiles first chunks middle) (h' : Tiles middle chunks' stop) :
    Tiles first (chunks ++ chunks') stop := by
  induction chunks generalizing first with
  | nil =>
    cases h
    exact h'
  | cons c chunks ih => exact ⟨h.1, ih h.2⟩

/-- **A run** sends and holds exactly the items that came in, and the chunks tile their
numbers. -/
theorem batched_collect (calls : List (BatchingCall α)) (hroom : b.held.length < n) :
    Batched n b.start (b.held ++ calls.filterMap BatchingCall.item)
      (collect (call n) b calls).1 (collect (call n) b calls).2 := by
  induction calls generalizing b with
  | nil =>
    exact ⟨rfl, fun c hc => absurd hc List.not_mem_nil, hroom, by simp [collect]⟩
  | cons c calls ih =>
    have hstep := batched_call hroom c
    have hrest := ih hstep.room
    refine ⟨hstep.tiles.append hrest.tiles, ?_, hrest.room, ?_⟩
    · intro chunk hchunk
      rcases List.mem_append.mp hchunk with hmem | hmem
      · exact hstep.sizes chunk hmem
      · exact hrest.sizes chunk hmem
    · rw [collect, List.flatMap_append, List.append_assoc, hrest.items, ← List.append_assoc,
        hstep.items, List.append_assoc, List.filterMap_cons]
      cases c.item <;> rfl

end Batching
