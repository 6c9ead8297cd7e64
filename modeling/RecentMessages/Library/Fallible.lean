/-
RecentMessages/Library/Fallible.lean

Fallible computations.  A function that returns `Except ε α` is taken apart
one step at a time: `Except.bind_eq_ok` inverts a sequencing, and the `foldlM`
rules carry an invariant through a loop that stops at the first error.
Machine integers of the fallible conversions are here too: `i64` is the range
of a signed 64-bit integer, `satAdd` and `satSub` saturate at its ends.
-/
import Mathlib.Data.Int.Notation
import Mathlib.Order.Lattice
import Mathlib.Order.MinMax
import Mathlib.Algebra.Order.Ring.Int

/-! ### Sequencing -/

namespace Except

universe u v

variable {ε : Type u} {α β σ : Type v}

theorem bind_eq_ok {x : Except ε α} {f : α → Except ε β} {b : β} :
    (x >>= f) = .ok b ↔ ∃ a, x = .ok a ∧ f a = .ok b := by
  cases x with
  | error e => exact ⟨nofun, nofun⟩
  | ok a =>
    constructor
    · intro h; exact ⟨a, rfl, h⟩
    · rintro ⟨a', ⟨⟩, h⟩; exact h

theorem map_eq_ok {x : Except ε α} {f : α → β} {b : β} :
    (f <$> x) = .ok b ↔ ∃ a, x = .ok a ∧ f a = b := by
  cases x with
  | error e => exact ⟨nofun, nofun⟩
  | ok a => simp [Functor.map, Except.map]

/-- Renaming the error does not touch a success. -/
theorem mapError_eq_ok {ε' : Type*} {x : Except ε α} {f : ε → ε'} {a : α} :
    x.mapError f = .ok a ↔ x = .ok a := by
  cases x with
  | error e => exact ⟨nofun, nofun⟩
  | ok b =>
    constructor
    · intro h; rw [Except.ok.inj h]
    · intro h; rw [Except.ok.inj h]; rfl

/-- **A loop that may stop early**, by what holds after the iterations that are done. -/
theorem foldlM_done {f : σ → α → Except ε σ} (P : List α → σ → Prop) {l : List α}
    (hstep : ∀ done s s' a, a ∈ l → P done s → f s a = .ok s' → P (done ++ [a]) s') {s s' : σ}
    (hs : P [] s) (h : l.foldlM f s = .ok s') : P l s' := by
  have hloop : ∀ (rest done : List α) (s : σ), rest ⊆ l → P done s →
      rest.foldlM f s = .ok s' → P (done ++ rest) s' := by
    intro rest
    induction rest with
    | nil =>
      intro done s _ hs h
      cases h
      rw [List.append_nil]
      exact hs
    | cons a rest ih =>
      intro done s hrest hs h
      rw [List.foldlM_cons, bind_eq_ok] at h
      obtain ⟨s₁, h₁, h⟩ := h
      obtain ⟨ha, hrest⟩ := List.cons_subset.mp hrest
      rw [List.append_cons]
      exact ih (done ++ [a]) s₁ hrest (hstep done s s₁ a ha hs h₁) h
  exact hloop l [] s (List.Subset.refl l) hs h

/-- A loop that may stop early keeps whatever each iteration keeps. -/
theorem foldlM_invariant {f : σ → α → Except ε σ} (P : σ → Prop) {l : List α}
    (hstep : ∀ s s' a, a ∈ l → P s → f s a = .ok s' → P s') {s s' : σ} (hs : P s)
    (h : l.foldlM f s = .ok s') : P s' :=
  foldlM_done (fun _ => P) (fun _ => hstep) hs h

/-- A loop succeeds if every iteration does, from whatever each iteration keeps. -/
theorem exists_foldlM {f : σ → α → Except ε σ} (P : σ → Prop) {l : List α}
    (hstep : ∀ s, ∀ a ∈ l, P s → ∃ s', f s a = .ok s' ∧ P s') {s : σ} (hs : P s) :
    ∃ s', l.foldlM f s = .ok s' ∧ P s' := by
  induction l generalizing s with
  | nil => exact ⟨s, rfl, hs⟩
  | cons a l ih =>
    obtain ⟨s₁, h₁, hs₁⟩ := hstep s a List.mem_cons_self hs
    rw [List.foldlM_cons, h₁]
    exact ih (fun s b hb => hstep s b (List.mem_cons_of_mem a hb)) hs₁

/-- A mapping that succeeds at every element succeeds. -/
theorem mapM_of_ok {f : α → Except ε β} {g : α → β} {l : List α} (h : ∀ a ∈ l, f a = .ok (g a)) :
    l.mapM f = .ok (l.map g) := by
  induction l with
  | nil => rfl
  | cons a l ih =>
    rw [List.mapM_cons, h a List.mem_cons_self, ih fun b hb => h b (List.mem_cons_of_mem a hb)]
    rfl

/-- A mapping of a list goes through if it does at the head and on the rest. -/
theorem mapM_cons_eq_ok {f : α → Except ε β} {a : α} {l : List α} {l' : List β} :
    (a :: l).mapM f = .ok l' ↔ ∃ b rest, f a = .ok b ∧ l.mapM f = .ok rest ∧ l' = b :: rest := by
  rw [List.mapM_cons, bind_eq_ok]
  constructor
  · rintro ⟨b, hb, h⟩
    obtain ⟨rest, hrest, h⟩ := bind_eq_ok.mp h
    exact ⟨b, rest, hb, hrest, (Except.ok.inj h).symm⟩
  · rintro ⟨b, rest, hb, hrest, rfl⟩
    refine ⟨b, hb, ?_⟩
    rw [hrest]
    rfl

/-- A mapping that succeeds succeeds at every element. -/
theorem mapM_eq_ok {f : α → Except ε β} {l : List α} {l' : List β} (h : l.mapM f = .ok l') :
    (∀ a ∈ l, ∃ b ∈ l', f a = .ok b) ∧ ∀ b ∈ l', ∃ a ∈ l, f a = .ok b := by
  induction l generalizing l' with
  | nil =>
    cases h
    exact ⟨nofun, nofun⟩
  | cons a l ih =>
    obtain ⟨b, l₁, hb, hl, rfl⟩ := mapM_cons_eq_ok.mp h
    obtain ⟨hto, hfrom⟩ := ih hl
    constructor
    · intro x hx
      rcases List.mem_cons.mp hx with rfl | hx
      · exact ⟨b, List.mem_cons_self, hb⟩
      · obtain ⟨y, hy, hxy⟩ := hto x hx
        exact ⟨y, List.mem_cons_of_mem b hy, hxy⟩
    · intro y hy
      rcases List.mem_cons.mp hy with rfl | hy
      · exact ⟨a, List.mem_cons_self, hb⟩
      · obtain ⟨x, hx, hxy⟩ := hfrom y hy
        exact ⟨x, List.mem_cons_of_mem a hx, hxy⟩

/-- A mapping that can succeed at every element has a result. -/
theorem exists_mapM {f : α → Except ε β} {l : List α} (h : ∀ a ∈ l, ∃ b, f a = .ok b) :
    ∃ l', l.mapM f = .ok l' := by
  induction l with
  | nil => exact ⟨[], rfl⟩
  | cons a l ih =>
    obtain ⟨b, hb⟩ := h a List.mem_cons_self
    obtain ⟨l', hl'⟩ := ih fun c hc => h c (List.mem_cons_of_mem a hc)
    exact ⟨b :: l', mapM_cons_eq_ok.mpr ⟨b, l', hb, hl', rfl⟩⟩

/-- What results have in common with their arguments, the lists of them have. -/
theorem map_eq_of_mapM {γ : Type*} {f : α → Except ε β} {g : α → γ} {g' : β → γ}
    (hg : ∀ a b, f a = .ok b → g' b = g a) {l : List α} {l' : List β} (h : l.mapM f = .ok l') :
    l'.map g' = l.map g := by
  induction l generalizing l' with
  | nil =>
    cases h
    rfl
  | cons a l ih =>
    obtain ⟨b, l₁, hb, hl, rfl⟩ := mapM_cons_eq_ok.mp h
    rw [List.map_cons, List.map_cons, hg a b hb, ih hl]

/-- What can be read off each result is read off the list of them. -/
theorem map_of_mapM {f : α → Except ε β} {g : β → α} (hg : ∀ a b, f a = .ok b → g b = a)
    {l : List α} {l' : List β} (h : l.mapM f = .ok l') : l'.map g = l := by
  rw [map_eq_of_mapM (g := id) hg h, List.map_id]

/-- A mapping that keeps all results of another one gives the same list. -/
theorem mapM_mono {f f' : α → Except ε β} (hf : ∀ a b, f a = .ok b → f' a = .ok b) {l : List α}
    {l' : List β} (h : l.mapM f = .ok l') : l.mapM f' = .ok l' := by
  induction l generalizing l' with
  | nil => exact h
  | cons a l ih =>
    obtain ⟨b, l₁, hb, hl, rfl⟩ := mapM_cons_eq_ok.mp h
    exact mapM_cons_eq_ok.mpr ⟨b, l₁, hf a b hb, ih hl, rfl⟩

/-- One more element adds its result. -/
theorem mapM_concat {f : α → Except ε β} {l : List α} {l' : List β} {a : α} {b : β}
    (h : l.mapM f = .ok l') (ha : f a = .ok b) : (l ++ [a]).mapM f = .ok (l' ++ [b]) := by
  rw [List.mapM_append, h, List.mapM_cons, ha]
  rfl

end Except

/-! ### Signed 64-bit integers -/

/-- The largest signed 64-bit integer. -/
def i64Max : ℤ := 2 ^ 63 - 1

/-- The smallest signed 64-bit integer. -/
def i64Min : ℤ := -2 ^ 63

/-- Clamp to the signed 64-bit range. -/
def satI64 (x : ℤ) : ℤ := max i64Min (min i64Max x)

/-- Saturating addition. -/
def satAdd (x y : ℤ) : ℤ := satI64 (x + y)

/-- Saturating subtraction. -/
def satSub (x y : ℤ) : ℤ := satI64 (x - y)

theorem satI64_eq {x : ℤ} (h₁ : i64Min ≤ x) (h₂ : x ≤ i64Max) : satI64 x = x := by
  rw [satI64, min_eq_right h₂, max_eq_right h₁]

theorem satAdd_eq {x y : ℤ} (h₁ : i64Min ≤ x + y) (h₂ : x + y ≤ i64Max) :
    satAdd x y = x + y := satI64_eq h₁ h₂

theorem satSub_eq {x y : ℤ} (h₁ : i64Min ≤ x - y) (h₂ : x - y ≤ i64Max) :
    satSub x y = x - y := satI64_eq h₁ h₂

/-! ### Unsigned 64-bit integers -/

/-- The largest `usize`. -/
def usizeMax : ℕ := 2 ^ 64 - 1

/-- `saturating_add` on `usize`. -/
def satAddU (m n : ℕ) : ℕ := min usizeMax (m + n)

theorem satAddU_eq {m n : ℕ} (h : m + n ≤ usizeMax) : satAddU m n = m + n := min_eq_right h
