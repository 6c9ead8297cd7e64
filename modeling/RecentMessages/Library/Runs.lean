/-
RecentMessages/Library/Runs.lean

Runs of a step function.  The state after a run is `as.foldl step s`.  `Along`
says that every step of a run meets a condition on the state before it and the
action taken, and `Along.invariant` is the induction over a run whose steps do.
`Throughout` says that a property holds in every state a run reaches, and
`throughout_iff_along` that it does exactly when no step breaks it.
-/
import Mathlib.Logic.Basic

variable {σ α : Type*} {step : σ → α → σ}

/-- Every step of a run meets `P`. -/
def Along (step : σ → α → σ) (P : σ → α → Prop) : σ → List α → Prop
  | _, [] => True
  | s, a :: as => P s a ∧ Along step P (step s a) as

namespace Along

variable {P Q : σ → α → Prop} {s : σ} {as bs : List α}

instance decidable [∀ s a, Decidable (P s a)] : ∀ s as, Decidable (Along step P s as)
  | _, [] => inferInstanceAs (Decidable True)
  | s, a :: as =>
    have := decidable (step s a) as
    inferInstanceAs (Decidable (P s a ∧ Along step P (step s a) as))

/-- **What every step keeps, the run keeps.** -/
theorem invariant {I : σ → Prop} (hstep : ∀ s a, I s → P s a → I (step s a))
    (h : Along step P s as) (hs : I s) : I (as.foldl step s) := by
  induction as generalizing s with
  | nil => exact hs
  | cons a as ih =>
    obtain ⟨ha, h⟩ := h
    exact ih h (hstep s a hs ha)

theorem mono {I : σ → Prop} (hstep : ∀ s a, I s → P s a → I (step s a))
    (hPQ : ∀ s a, I s → P s a → Q s a) (hs : I s) (h : Along step P s as) :
    Along step Q s as := by
  induction as generalizing s with
  | nil => exact trivial
  | cons a as ih =>
    obtain ⟨ha, h⟩ := h
    exact ⟨hPQ s a hs ha, ih (hstep s a hs ha) h⟩

/-- Actions that meet `P` in every state. -/
theorem of_forall (h : ∀ a ∈ as, ∀ s, P s a) : Along step P s as := by
  induction as generalizing s with
  | nil => exact trivial
  | cons a as ih =>
    exact ⟨h a List.mem_cons_self s, ih fun b hb => h b (List.mem_cons_of_mem a hb)⟩

/-- The steps of a run take the actions that it is given. -/
theorem with_mem (h : Along step P s as) : Along step (fun s a => a ∈ as ∧ P s a) s as := by
  have hloop : ∀ bs s, bs ⊆ as → Along step P s bs →
      Along step (fun s a => a ∈ as ∧ P s a) s bs := by
    intro bs
    induction bs with
    | nil => exact fun _ _ _ => trivial
    | cons b bs ih =>
      rintro s hsub ⟨hb, h⟩
      exact ⟨⟨hsub List.mem_cons_self, hb⟩,
        ih (step s b) (fun a ha => hsub (List.mem_cons_of_mem b ha)) h⟩
  exact hloop as s (List.Subset.refl as) h

theorem append : Along step P s (as ++ bs) ↔
    Along step P s as ∧ Along step P (as.foldl step s) bs := by
  induction as generalizing s with
  | nil => simp [Along]
  | cons a as ih =>
    show P s a ∧ Along step P (step s a) (as ++ bs) ↔ _
    rw [ih, ← and_assoc]
    rfl

end Along

/-- Every state of a run has `Q`, the first and the last included. -/
def Throughout (step : σ → α → σ) (Q : σ → Prop) : σ → List α → Prop
  | s, [] => Q s
  | s, a :: as => Q s ∧ Throughout step Q (step s a) as

namespace Throughout

variable {I Q : σ → Prop} {P : σ → α → Prop} {s : σ} {as : List α}

theorem head (h : Throughout step Q s as) : Q s := by
  cases as with
  | nil => exact h
  | cons a as => exact h.1

theorem last (h : Throughout step Q s as) : Q (as.foldl step s) := by
  induction as generalizing s with
  | nil => exact h
  | cons a as ih => exact ih h.2

end Throughout

/-- **A property holds throughout a run exactly when every step keeps it**: `P`
says of a step that it does, and may rely on an invariant `I` of such runs. -/
theorem throughout_iff_along {I Q : σ → Prop} {P : σ → α → Prop} {s : σ} {as : List α}
    (hkeep : ∀ s a, I s → Q s → (Q (step s a) ↔ P s a))
    (hinv : ∀ s a, I s → Q s → P s a → I (step s a)) (hI : I s) (hQ : Q s) :
    Throughout step Q s as ↔ Along step P s as := by
  induction as generalizing s with
  | nil => exact iff_of_true hQ trivial
  | cons a as ih =>
    constructor
    · rintro ⟨-, h⟩
      have hP : P s a := (hkeep s a hI hQ).mp h.head
      exact ⟨hP, (ih (hinv s a hI hQ hP) h.head).mp h⟩
    · rintro ⟨hP, h⟩
      exact ⟨hQ, (ih (hinv s a hI hQ hP) ((hkeep s a hI hQ).mpr hP)).mpr h⟩

/-- **A property that every step of a run keeps** holds throughout it; the steps may rely on
an invariant `I`. -/
theorem throughout_of_along {I Q : σ → Prop} {P : σ → α → Prop} {s : σ} {as : List α}
    (hkeep : ∀ s a, I s → Q s → P s a → I (step s a) ∧ Q (step s a)) (hI : I s) (hQ : Q s)
    (h : Along step P s as) : Throughout step Q s as := by
  induction as generalizing s with
  | nil => exact hQ
  | cons a as ih =>
    obtain ⟨ha, h⟩ := h
    obtain ⟨hI', hQ'⟩ := hkeep s a hI hQ ha
    exact ⟨hQ, ih hI' hQ' h⟩
