import Mathlib.Algebra.Ring.Nat
import Mathlib.Data.List.DropRight

/-!
# Trimmed texts and bounded decimal numbers

What a reader of user-written text starts with: the text without the blanks at its ends, and an
unsigned decimal number of a machine width. The number is read as machine code reads it, digit by
digit with a check at each; the checks agree with one check of the value (`readDigits_eq_some`),
since the value read so far never shrinks.
-/

namespace Nestrs.Lib

/-! ## Trimming -/

section Trim

variable {α : Type} (p : α → Bool) {l m u v : List α}

/-- The list without what is blank at its ends. -/
def trimBlanks (l : List α) : List α := (l.dropWhile p).rdropWhile p

/-- Nothing to trim: neither end is blank. -/
def Trimmed (l : List α) : Prop :=
  (∀ x ∈ l.head?, p x = false) ∧ ∀ x ∈ l.getLast?, p x = false

variable {p}

theorem dropWhile_append_blanks (hu : ∀ x ∈ u, p x = true) (l : List α) :
    (u ++ l).dropWhile p = l.dropWhile p := by
  induction u with
  | nil => rfl
  | cons x u ih =>
    rw [List.forall_mem_cons] at hu
    rw [List.cons_append, List.dropWhile_cons_of_pos hu.1, ih hu.2]

theorem rdropWhile_append_blanks (hv : ∀ x ∈ v, p x = true) (l : List α) :
    (l ++ v).rdropWhile p = l.rdropWhile p := by
  unfold List.rdropWhile
  rw [List.reverse_append, dropWhile_append_blanks (by simpa using hv)]

theorem trimBlanks_of_trimmed (h : Trimmed p l) : trimBlanks p l = l := by
  have hstart : l.dropWhile p = l := by
    cases l with
    | nil => rfl
    | cons x l => exact List.dropWhile_cons_of_neg (by simp [h.1 x rfl])
  rw [trimBlanks, hstart, List.rdropWhile_eq_self_iff]
  intro hne
  simp [h.2 _ (List.getLast?_eq_some_getLast hne)]

/-- Blanks around a text do not matter to its trimming. -/
theorem trimBlanks_surrounded (hu : ∀ x ∈ u, p x = true) (hv : ∀ x ∈ v, p x = true)
    (l : List α) : trimBlanks p (u ++ l ++ v) = trimBlanks p l := by
  by_cases hl : ∀ x ∈ l, p x = true
  · have hall : ∀ x ∈ u ++ l ++ v, p x = true := by
      simp only [List.mem_append]
      rintro x ((hx | hx) | hx)
      exacts [hu x hx, hl x hx, hv x hx]
    rw [trimBlanks, trimBlanks, List.dropWhile_eq_nil_iff.mpr hall,
      List.dropWhile_eq_nil_iff.mpr hl]
  · have hne : l.dropWhile p ≠ [] := by rwa [Ne, List.dropWhile_eq_nil_iff]
    rw [trimBlanks, List.append_assoc, dropWhile_append_blanks hu, List.dropWhile_append,
      if_neg (by simpa using hne), rdropWhile_append_blanks hv, ← trimBlanks]

theorem trimmed_trimBlanks (l : List α) : Trimmed p (trimBlanks p l) := by
  constructor
  · intro x hx
    obtain ⟨v, hv⟩ : trimBlanks p l <+: l.dropWhile p := List.rdropWhile_prefix p _
    have hhead : x ∈ (l.dropWhile p).head? := by
      rw [← hv, List.head?_append, hx]
      rfl
    have hnot := List.head?_dropWhile_not p l
    rw [hhead] at hnot
    exact hnot
  · intro x hx
    have hne : trimBlanks p l ≠ [] := by
      rintro h
      rw [h] at hx
      exact nomatch hx
    have hlast := List.rdropWhile_last_not p (l.dropWhile p) hne
    rw [List.getLast?_eq_some_getLast hne, Option.mem_some_iff] at hx
    rw [← hx]
    exact Bool.eq_false_iff.mpr hlast

/-- **What trimming leaves is the trimmed list that the text is, up to blanks around it.** -/
theorem trimBlanks_eq_iff :
    trimBlanks p l = m ↔ Trimmed p m ∧
      ∃ u v, l = u ++ m ++ v ∧ (∀ x ∈ u, p x = true) ∧ ∀ x ∈ v, p x = true := by
  constructor
  · rintro rfl
    refine ⟨trimmed_trimBlanks l, l.takeWhile p, (l.dropWhile p).rtakeWhile p, ?_, ?_, ?_⟩
    · rw [List.append_assoc, trimBlanks, List.rdropWhile_append_rtakeWhile,
        List.takeWhile_append_dropWhile]
    · exact fun x hx => List.mem_takeWhile_imp hx
    · exact fun x hx => List.mem_rtakeWhile_imp hx
  · rintro ⟨hm, u, v, rfl, hu, hv⟩
    rw [trimBlanks_surrounded hu hv, trimBlanks_of_trimmed hm]

/-- `char::is_whitespace`: the characters with the property `White_Space`. -/
def isWhitespace (c : Char) : Bool :=
  (9 ≤ c.toNat && c.toNat ≤ 13) || (0x2000 ≤ c.toNat && c.toNat ≤ 0x200A) ||
    [0x20, 0x85, 0xA0, 0x1680, 0x2028, 0x2029, 0x202F, 0x205F, 0x3000].contains c.toNat

/-- `str::trim`. -/
def trim : List Char → List Char := trimBlanks isWhitespace

end Trim

/-! ## Decimal numbers -/

section Numbers

variable {bound acc n : Nat} {l ds : List Char}

/-- The loop of the reader: the value so far, checked at every digit. -/
def readDigits (bound : Nat) (acc : Nat) : List Char → Option Nat
  | [] => some acc
  | c :: cs =>
    if c.isDigit then
      if 10 * acc + (c.toNat - 48) < bound then readDigits bound (10 * acc + (c.toNat - 48)) cs
      else none
    else none

/-- `str::parse` of an unsigned integer below `bound`: at least one digit, and a plus sign may
stand in front. -/
def parseUnsigned (bound : Nat) : List Char → Option Nat
  | [] => none
  | '+' :: ds => if ds = [] then none else readDigits bound 0 ds
  | ds => readDigits bound 0 ds

theorem le_ofDigitChars (acc : Nat) (ds : List Char) : acc ≤ Nat.ofDigitChars 10 ds acc := by
  induction ds generalizing acc with
  | nil => simp
  | cons c ds ih =>
    rw [Nat.ofDigitChars_cons]
    exact le_trans (by omega) (ih _)

/-- **The checks of the loop are one check of the value.** -/
theorem readDigits_eq_some (hacc : acc < bound) :
    readDigits bound acc ds = some n ↔
      (∀ c ∈ ds, c.isDigit = true) ∧ Nat.ofDigitChars 10 ds acc = n ∧ n < bound := by
  induction ds generalizing acc with
  | nil =>
    rw [readDigits, Option.some_inj, Nat.ofDigitChars_nil]
    exact ⟨fun h => ⟨nofun, h, h ▸ hacc⟩, fun h => h.2.1⟩
  | cons c ds ih =>
    rw [readDigits, List.forall_mem_cons, Nat.ofDigitChars_cons]
    by_cases hc : c.isDigit = true
    · rw [if_pos hc]
      by_cases hstep : 10 * acc + (c.toNat - 48) < bound
      · rw [if_pos hstep, ih hstep]
        exact ⟨fun ⟨h, hn⟩ => ⟨⟨hc, h⟩, hn⟩, fun ⟨⟨_, h⟩, hn⟩ => ⟨h, hn⟩⟩
      · -- The value only grows from here, so it would not fit either.
        rw [if_neg hstep]
        refine ⟨nofun, fun ⟨_, hn, hlt⟩ => absurd ?_ hstep⟩
        have hle := le_ofDigitChars (10 * acc + (c.toNat - 48)) ds
        have hval : Nat.ofDigitChars 10 ds (10 * acc + (c.toNat - 48)) = n := hn
        omega
    · rw [if_neg hc]
      exact ⟨nofun, fun h => absurd h.1.1 hc⟩

/-- A numeral: digits, with or without a plus sign, and their value. -/
def Numeral (l : List Char) (n : Nat) : Prop :=
  ∃ ds, (l = ds ∨ l = '+' :: ds) ∧ ds ≠ [] ∧ (∀ c ∈ ds, c.isDigit = true) ∧
    Nat.ofDigitChars 10 ds 0 = n

theorem parseUnsigned_eq_some (hbound : 0 < bound) :
    parseUnsigned bound l = some n ↔ Numeral l n ∧ n < bound := by
  unfold parseUnsigned
  split
  · refine ⟨nofun, ?_⟩
    rintro ⟨⟨ds, rfl | h, hne, -⟩, -⟩
    · exact absurd rfl hne
    · exact nomatch h
  · rename_i ds
    by_cases hne : ds = []
    · rw [if_pos hne]
      refine ⟨nofun, ?_⟩
      rintro ⟨⟨ds', rfl | h, hne', hdigits, -⟩, -⟩
      · exact absurd (hdigits '+' List.mem_cons_self) (by decide)
      · exact absurd ((List.cons.inj h).2 ▸ hne) hne'
    · rw [if_neg hne, readDigits_eq_some hbound]
      constructor
      · rintro ⟨hdigits, hn, hlt⟩
        exact ⟨⟨ds, .inr rfl, hne, hdigits, hn⟩, hlt⟩
      · rintro ⟨⟨ds', rfl | h, -, hdigits, hn⟩, hlt⟩
        · exact absurd (hdigits '+' List.mem_cons_self) (by decide)
        · cases h
          exact ⟨hdigits, hn, hlt⟩
  · rename_i hnil hplus
    rw [readDigits_eq_some hbound]
    constructor
    · rintro ⟨hdigits, hn, hlt⟩
      exact ⟨⟨l, .inl rfl, hnil, hdigits, hn⟩, hlt⟩
    · rintro ⟨⟨ds, rfl | h, -, hdigits, hn⟩, hlt⟩
      · exact ⟨hdigits, hn, hlt⟩
      · exact absurd h (hplus ds)

/-- A numeral has one value. -/
theorem Numeral.value_unique {n' : Nat} (h : Numeral l n) (h' : Numeral l n') : n = n' := by
  have hn := (parseUnsigned_eq_some (by omega)).mpr ⟨h, (by omega : n < n + n' + 1)⟩
  have hn' := (parseUnsigned_eq_some (by omega)).mpr ⟨h', (by omega : n' < n + n' + 1)⟩
  exact Option.some_inj.mp (hn.symm.trans hn')

theorem Numeral.ne_nil (h : Numeral l n) : l ≠ [] := by
  obtain ⟨ds, rfl | rfl, hne, -⟩ := h
  · exact hne
  · exact List.cons_ne_nil _ _

theorem Numeral.mem {c : Char} (h : Numeral l n) (hc : c ∈ l) : c.isDigit = true ∨ c = '+' := by
  obtain ⟨ds, rfl | rfl, -, hdigits, -⟩ := h
  · exact .inl (hdigits c hc)
  · rcases List.mem_cons.mp hc with rfl | hc
    · exact .inr rfl
    · exact .inl (hdigits c hc)

/-- The decimal digits of a number are a numeral of it. -/
theorem numeral_toDigits (n : Nat) : Numeral (Nat.toDigits 10 n) n :=
  ⟨Nat.toDigits 10 n, .inl rfl, Nat.toDigits_ne_nil,
    fun _ hc => Nat.isDigit_of_mem_toDigits (by decide) (by decide) hc,
    Nat.ofDigitChars_ten_toDigits⟩

end Numbers

end Nestrs.Lib
