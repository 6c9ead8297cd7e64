/-
RecentMessages/Library/Framing.lean

What a concatenation remembers of its parts.

* Parts that each follow a header of fixed width with their length are told apart
  (`frame_injective`): the concatenation determines the list of parts.
* A record of optional fields, written as the names and values of the fields that are
  present and followed by free items, is not told apart from every other.  The items of one
  record may begin with what looks like fields of another (`AbsorbsFields`), and this is the only
  way in which two records are written alike (`fields_append_eq_iff`).
-/
import Mathlib.Data.List.Basic
import Mathlib.Data.List.Nodup

/-! ### Length headers -/

section Frame

variable {β : Type*} (header : ℕ → List β)

/-- The parts, each behind its length. -/
def frame (parts : List (List β)) : List β :=
  parts.flatMap fun part => header part.length ++ part

@[simp] theorem frame_nil : frame header [] = [] := rfl

@[simp] theorem frame_cons (part : List β) (parts : List (List β)) :
    frame header (part :: parts) = header part.length ++ part ++ frame header parts := rfl

variable {header} {width bound : ℕ}

/-- **Length headers tell parts apart**, if headers have one width and differ below a bound. -/
theorem frame_injective (hwidth : ∀ n, (header n).length = width) (hpos : 0 < width)
    (hheader : ∀ m n, m < bound → n < bound → header m = header n → m = n)
    {parts parts' : List (List β)} (hparts : ∀ p ∈ parts, p.length < bound)
    (hparts' : ∀ p ∈ parts', p.length < bound) (h : frame header parts = frame header parts') :
    parts = parts' := by
  induction parts generalizing parts' with
  | nil =>
    cases parts' with
    | nil => rfl
    | cons part' rest' =>
      have hlength := congrArg List.length h
      simp only [frame_nil, frame_cons, List.length_nil, List.length_append, hwidth] at hlength
      omega
  | cons part rest ih =>
    cases parts' with
    | nil =>
      have hlength := congrArg List.length h
      simp only [frame_nil, frame_cons, List.length_nil, List.length_append, hwidth] at hlength
      omega
    | cons part' rest' =>
      rw [List.forall_mem_cons] at hparts hparts'
      rw [frame_cons, frame_cons, List.append_assoc, List.append_assoc] at h
      -- headers of one width, then parts of one length
      obtain ⟨hsame, h⟩ := List.append_inj h ((hwidth _).trans (hwidth _).symm)
      have hlength := hheader _ _ hparts.1 hparts'.1 hsame
      obtain ⟨rfl, hrest⟩ := List.append_inj h hlength
      rw [ih hparts.2 hparts'.2 hrest]

end Frame

/-! ### Optional fields -/

section Fields

variable {α : Type*}

/-- The names and values of the fields that are present. -/
def fields (names : List α) (f : α → Option α) : List α :=
  names.flatMap fun name => ((f name).map fun value => [name, value]).getD []

@[simp] theorem fields_nil (f : α → Option α) : fields [] f = [] := rfl

theorem fields_cons_some {name value : α} {names : List α} {f : α → Option α}
    (h : f name = some value) : fields (name :: names) f = name :: value :: fields names f := by
  rw [fields, List.flatMap_cons, h]
  rfl

theorem fields_cons_none {name : α} {names : List α} {f : α → Option α} (h : f name = none) :
    fields (name :: names) f = fields names f := by
  rw [fields, List.flatMap_cons, h]
  rfl

theorem fields_congr {names : List α} {f g : α → Option α} (h : ∀ name ∈ names, f name = g name) :
    fields names f = fields names g := by
  rw [fields, fields]
  exact List.flatMap_congr fun name hname => by rw [h name hname]

/-- The fields begin with one of the names. -/
theorem mem_of_fields_eq_cons {names : List α} {f : α → Option α} {a : α} {rest : List α}
    (h : fields names f = a :: rest) : a ∈ names := by
  induction names with
  | nil => cases h
  | cons name names ih =>
    rcases e : f name with - | value
    · rw [fields_cons_none e] at h
      exact List.mem_cons_of_mem name (ih h)
    · rw [fields_cons_some e] at h
      cases h
      exact List.mem_cons_self

/-- The items `q` begin with the fields that `f` has beyond those of `g`, and go on as `p`. -/
def AbsorbsFields (names : List α) (f g : α → Option α) (p q : List α) : Prop :=
  ∃ extra, extra ≠ [] ∧ fields names f = fields names g ++ extra ∧ q = extra ++ p

variable {names : List α} {f g : α → Option α} {p q : List α}

theorem AbsorbsFields.append_eq (h : AbsorbsFields names f g p q) :
    fields names f ++ p = fields names g ++ q := by
  obtain ⟨extra, -, hfields, rfl⟩ := h
  rw [hfields, List.append_assoc]

/-- Records of which one absorbs fields of the other differ in a field. -/
theorem AbsorbsFields.not_agree (h : AbsorbsFields names f g p q) :
    ¬ ∀ name ∈ names, f name = g name := by
  intro hagree
  obtain ⟨extra, hne, hfields, -⟩ := h
  rw [fields_congr hagree, List.self_eq_append_right] at hfields
  exact hne hfields

theorem AbsorbsFields.cons {name value : α} (h : AbsorbsFields names f g p q)
    (hf : f name = some value) (hg : g name = some value) : AbsorbsFields (name :: names) f g p q := by
  obtain ⟨extra, hne, hfields, hq⟩ := h
  refine ⟨extra, hne, ?_, hq⟩
  rw [fields_cons_some hf, fields_cons_some hg, hfields]
  rfl

theorem AbsorbsFields.cons_none {name : α} (h : AbsorbsFields names f g p q) (hf : f name = none)
    (hg : g name = none) : AbsorbsFields (name :: names) f g p q := by
  obtain ⟨extra, hne, hfields, hq⟩ := h
  refine ⟨extra, hne, ?_, hq⟩
  rw [fields_cons_none hf, fields_cons_none hg, hfields]

/-- A field that only one record has is absorbed by the items of the other, since no later
field has its name. -/
theorem absorbs_of_field {name value : α} (hnot : name ∉ names) (hf : f name = some value)
    (hg : g name = none)
    (h : fields (name :: names) f ++ p = fields (name :: names) g ++ q) :
    AbsorbsFields (name :: names) f g p q := by
  rw [fields_cons_some hf, fields_cons_none hg, List.cons_append] at h
  rcases e : fields names g with - | ⟨a, rest⟩
  · -- the other record has no fields left: the items begin with this one
    rw [e, List.nil_append] at h
    refine ⟨fields (name :: names) f, ?_, ?_, ?_⟩
    · rw [fields_cons_some hf]
      exact List.cons_ne_nil _ _
    · rw [fields_cons_none hg, e, List.nil_append]
    · rw [fields_cons_some hf]
      exact h.symm
  · rw [e] at h
    obtain ⟨rfl, -⟩ := List.cons.inj h
    exact absurd (mem_of_fields_eq_cons e) hnot

/-- **When two records are written alike**: they agree, or the items of one begin with fields
of the other. -/
theorem fields_append_eq_iff (hnames : names.Nodup) :
    fields names f ++ p = fields names g ++ q ↔
      ((∀ name ∈ names, f name = g name) ∧ p = q) ∨ AbsorbsFields names f g p q ∨
        AbsorbsFields names g f q p := by
  constructor
  · intro h
    induction names with
    | nil => exact .inl ⟨by rintro name ⟨⟩, h⟩
    | cons name names ih =>
      obtain ⟨hnot, hnames⟩ := List.nodup_cons.mp hnames
      rcases hf : f name with - | value <;> rcases hg : g name with - | value'
      · rw [fields_cons_none hf, fields_cons_none hg] at h
        rcases ih hnames h with ⟨hagree, hp⟩ | habs | habs
        · exact .inl ⟨List.forall_mem_cons.mpr ⟨hf.trans hg.symm, hagree⟩, hp⟩
        · exact .inr (.inl (habs.cons_none hf hg))
        · exact .inr (.inr (habs.cons_none hg hf))
      · -- the first field in which the records differ
        exact .inr (.inr (absorbs_of_field hnot hg hf h.symm))
      · exact .inr (.inl (absorbs_of_field hnot hf hg h))
      · rw [fields_cons_some hf, fields_cons_some hg] at h
        simp only [List.cons_append, List.cons.injEq, true_and] at h
        obtain ⟨rfl, h⟩ := h
        rcases ih hnames h with ⟨hagree, hp⟩ | habs | habs
        · exact .inl ⟨List.forall_mem_cons.mpr ⟨hf.trans hg.symm, hagree⟩, hp⟩
        · exact .inr (.inl (habs.cons hf hg))
        · exact .inr (.inr (habs.cons hg hf))
  · rintro (⟨hagree, rfl⟩ | habs | habs)
    · rw [fields_congr hagree]
    · exact habs.append_eq
    · exact habs.append_eq.symm

end Fields
