/-
RecentMessages/Library/Utf16.lean

Texts as code units.  A character below `0x10000` is one 16-bit unit, any other one a pair
of surrogates, which no character is.  So a text is determined by its units
(`utf16_injective`), and a unit below `0xD800` is the character of that number and never a
part of another one (`mem_units`).
-/
import Mathlib.Data.List.Basic

/-- The code units of a character. -/
def Char.units (c : Char) : List UInt16 :=
  if c.toNat < 0x10000 then
    [UInt16.ofNat c.toNat]
  else
    [UInt16.ofNat (0xD800 + (c.toNat - 0x10000) / 0x400),
      UInt16.ofNat (0xDC00 + (c.toNat - 0x10000) % 0x400)]

/-- The code units of a list of characters. -/
def units (l : List Char) : List UInt16 := l.flatMap Char.units

/-- The code units of a text. -/
def utf16 (s : String) : List UInt16 := units s.toList

namespace Char

variable {c d : Char}

theorem toNat_lt (c : Char) : c.toNat < 0x110000 := by
  have hvalid := c.valid
  simp only [UInt32.isValidChar, Nat.isValidChar] at hvalid
  show c.val.toNat < 0x110000
  omega

/-- No character is a surrogate. -/
theorem not_surrogate (c : Char) : ¬(0xD800 ≤ c.toNat ∧ c.toNat < 0xE000) := by
  have hvalid := c.valid
  simp only [UInt32.isValidChar, Nat.isValidChar] at hvalid
  show ¬(0xD800 ≤ c.val.toNat ∧ c.val.toNat < 0xE000)
  omega

theorem units_of_lt (h : c.toNat < 0x10000) : c.units = [UInt16.ofNat c.toNat] := if_pos h

theorem units_of_ge (h : 0x10000 ≤ c.toNat) :
    c.units = [UInt16.ofNat (0xD800 + (c.toNat - 0x10000) / 0x400),
      UInt16.ofNat (0xDC00 + (c.toNat - 0x10000) % 0x400)] := if_neg (Nat.not_lt.mpr h)

theorem toNat_unit {n : ℕ} (h : n < 0x10000) : (UInt16.ofNat n).toNat = n :=
  UInt16.toNat_ofNat_of_lt' h

/-- **A unit below the surrogates** is the whole character. -/
theorem mem_units {u : UInt16} (h : u ∈ c.units) (hlow : u.toNat < 0xD800) :
    c.toNat = u.toNat := by
  have hlt := c.toNat_lt
  by_cases hsmall : c.toNat < 0x10000
  · rw [units_of_lt hsmall, List.mem_singleton] at h
    rw [h, toNat_unit hsmall]
  · rw [units_of_ge (Nat.not_lt.mp hsmall), List.mem_cons, List.mem_singleton] at h
    -- both units of a pair are surrogates
    rcases h with rfl | rfl
    · rw [toNat_unit (by omega)] at hlow
      omega
    · rw [toNat_unit (by omega)] at hlow
      omega

/-- **Characters are told apart** from left to right. -/
theorem units_append_inj {l l' : List UInt16} (h : c.units ++ l = d.units ++ l') :
    c = d ∧ l = l' := by
  have hc := c.toNat_lt
  have hd := d.toNat_lt
  have hc' := c.not_surrogate
  have hd' := d.not_surrogate
  have hunit : ∀ {m n : ℕ}, m < 0x10000 → n < 0x10000 →
      UInt16.ofNat m = UInt16.ofNat n → m = n := by
    intro m n hm hn heq
    have hnat := congrArg UInt16.toNat heq
    rwa [toNat_unit hm, toNat_unit hn] at hnat
  by_cases hcs : c.toNat < 0x10000 <;> by_cases hds : d.toNat < 0x10000
  · rw [units_of_lt hcs, units_of_lt hds] at h
    obtain ⟨hhead, htail⟩ := List.cons.inj h
    exact ⟨Char.toNat_inj.mp (hunit hcs hds hhead), htail⟩
  · rw [units_of_lt hcs, units_of_ge (Nat.not_lt.mp hds)] at h
    have hhead := hunit hcs (by omega) (List.cons.inj h).1
    omega
  · rw [units_of_ge (Nat.not_lt.mp hcs), units_of_lt hds] at h
    have hhead := hunit (by omega) hds (List.cons.inj h).1
    omega
  · rw [units_of_ge (Nat.not_lt.mp hcs), units_of_ge (Nat.not_lt.mp hds)] at h
    obtain ⟨hhead, htail⟩ := List.cons.inj h
    obtain ⟨hsecond, htail⟩ := List.cons.inj htail
    have hhigh := hunit (by omega) (by omega) hhead
    have hlow := hunit (by omega) (by omega) hsecond
    exact ⟨Char.toNat_inj.mp (by omega), htail⟩

theorem units_ne_nil (c : Char) : c.units ≠ [] := by
  unfold units
  split <;> exact List.cons_ne_nil _ _

end Char

@[simp] theorem units_nil : units [] = [] := rfl

@[simp] theorem units_cons (c : Char) (l : List Char) : units (c :: l) = c.units ++ units l := rfl

theorem units_append (l l' : List Char) : units (l ++ l') = units l ++ units l' :=
  List.flatMap_append

theorem units_injective : Function.Injective units := by
  intro l l' h
  induction l generalizing l' with
  | nil =>
    cases l' with
    | nil => rfl
    | cons d l' => exact absurd (List.append_eq_nil_iff.mp h.symm).1 d.units_ne_nil
  | cons c l ih =>
    cases l' with
    | nil => exact absurd (List.append_eq_nil_iff.mp h).1 c.units_ne_nil
    | cons d l' =>
      obtain ⟨rfl, htail⟩ := Char.units_append_inj h
      rw [ih htail]

/-- **A text is determined by its code units.** -/
theorem utf16_injective : Function.Injective utf16 := by
  intro s s' h
  exact String.toList_inj.mp (units_injective h)

/-- A character below the surrogates is found among the units exactly where it stands. -/
theorem unit_mem_units {c : Char} (hlow : c.toNat < 0xD800) {l : List Char} :
    UInt16.ofNat c.toNat ∈ units l ↔ c ∈ l := by
  have hsmall : c.toNat < 0x10000 := Nat.lt_trans hlow (by decide)
  constructor
  · intro h
    obtain ⟨d, hd, hunit⟩ := List.mem_flatMap.mp h
    have hsame := Char.mem_units hunit (by rwa [Char.toNat_unit hsmall])
    rw [Char.toNat_unit hsmall] at hsame
    rwa [← Char.toNat_inj.mp hsame]
  · intro h
    apply List.mem_flatMap.mpr
    exact ⟨c, h, by simp [Char.units_of_lt hsmall]⟩
