import AppAssembly.Origin

/-!
# Locations read back

A location is written as its file, a colon and the digits of its line. The digits hold no colon, so
the last colon of the text is the one that was written, whatever the file is called; and they hold
nothing that reading a line number skips over, so the number comes back as it was.
-/

namespace AppAssembly

/-! ## Digits -/

namespace Decimal

theorem isDigit_of_mem_digits {n : Nat} {c : Char} (h : c ∈ digits n) : c.isDigit = true :=
  Nat.isDigit_of_mem_toDigits (by decide) (by decide) h

theorem digits_ne_nil (n : Nat) : digits n ≠ [] :=
  Nat.toDigits_ne_nil

/-- A number has no other characters than its ten digits. -/
theorem not_mem_digits {n : Nat} {c : Char} (h : c.isDigit = false) : c ∉ digits n := fun hc =>
  absurd (isDigit_of_mem_digits hc) (by simp [h])

theorem digit?_of_isDigit {c : Char} (h : c.isDigit = true) :
    digit? c = some (c.toNat - '0'.toNat) := by
  have hc : '0' ≤ c ∧ c ≤ '9' := by
    simpa [Char.isDigit, Char.le_def, UInt32.le_iff_toNat_le] using h
  exact if_pos hc

/-- Digits are read from the left, each moving what was read one place up. -/
theorem readFrom_eq_some {cs : List Char} (h : ∀ c ∈ cs, c.isDigit = true) (acc : Nat) :
    readFrom acc cs = some (Nat.ofDigitChars 10 cs acc) := by
  induction cs generalizing acc with
  | nil => rfl
  | cons c cs ih =>
      have hc := digit?_of_isDigit (h c List.mem_cons_self)
      have hcs := ih fun d hd => h d (List.mem_cons_of_mem c hd)
      simp only [readFrom, hc, hcs, Nat.ofDigitChars_cons]

/-- Reading undoes writing. -/
theorem read?_digits (n : Nat) : read? (digits n) = some n := by
  have hread : readFrom 0 (digits n) = some n := by
    rw [readFrom_eq_some (fun c hc => isDigit_of_mem_digits hc), digits,
      Nat.ofDigitChars_toDigits (by decide) (by decide)]
  cases hd : digits n with
  | nil => exact absurd hd (digits_ne_nil n)
  | cons c cs =>
      rw [← hread, hd]
      rfl

end Decimal

/-! ## The last separator, and blanks at the ends -/

namespace Text

theorem splitLast?_of_not_mem {sep : Char} {cs : List Char} (h : sep ∉ cs) :
    splitLast? sep cs = none := by
  induction cs with
  | nil => rfl
  | cons c cs ih =>
      have hc : c ≠ sep := fun heq => h (heq ▸ List.mem_cons_self)
      have hcs : sep ∉ cs := fun hmem => h (List.mem_cons_of_mem c hmem)
      simp only [splitLast?, ih hcs, hc, if_false]

/-- A separator with none behind it is the last one, whatever stands in front of it. -/
theorem splitLast?_append_cons {sep : Char} (before : List Char) {after : List Char}
    (h : sep ∉ after) : splitLast? sep (before ++ sep :: after) = some (before, after) := by
  induction before with
  | nil => simp [splitLast?, splitLast?_of_not_mem h]
  | cons c before ih => simp [splitLast?, ih]

theorem dropWhile_isBlank {cs : List Char} (h : ∀ c ∈ cs, isBlank c = false) :
    cs.dropWhile isBlank = cs := by
  cases cs with
  | nil => rfl
  | cons c cs => simp [h c List.mem_cons_self]

theorem trim_eq_self {cs : List Char} (h : ∀ c ∈ cs, isBlank c = false) : trim cs = cs := by
  have hreverse : ∀ c ∈ cs.reverse, isBlank c = false := fun c hc => h c (List.mem_reverse.mp hc)
  rw [trim, dropWhile_isBlank h, dropWhile_isBlank hreverse, List.reverse_reverse]

theorem isBlank_of_isDigit {c : Char} (h : c.isDigit = true) : isBlank c = false := by
  have hc : 48 ≤ c.toNat ∧ c.toNat ≤ 57 := by
    simpa [Char.isDigit, UInt32.le_iff_toNat_le] using h
  simp [isBlank]
  omega

end Text

/-! ## Locations -/

namespace Location

open Decimal Text

theorem readLine?_digits (line : UInt32) : readLine? (digits line.toNat) = some line := by
  have htrim : trim (digits line.toNat) = digits line.toNat :=
    trim_eq_self fun c hc => isBlank_of_isDigit (isDigit_of_mem_digits hc)
  obtain ⟨c, cs, hd⟩ := List.exists_cons_of_ne_nil (digits_ne_nil line.toNat)
  have hplus : c ≠ '+' := by
    rintro rfl
    exact not_mem_digits (by decide) (hd ▸ List.mem_cons_self)
  have hread : read? (c :: cs) = some line.toNat := hd ▸ read?_digits line.toNat
  rw [hd] at htrim ⊢
  unfold readLine?
  rw [htrim]
  simp [hplus, hread, line.toNat_lt_size]

theorem display_toList (file : String) (line : UInt32) :
    (display ⟨file, some line⟩).toList = file.toList ++ ':' :: digits line.toNat := by
  simp [display]

/-- A location with a line is read back as it was written. -/
theorem parse_display_line (file : String) (line : UInt32) :
    parse (display ⟨file, some line⟩) = ⟨file, some line⟩ := by
  have hcolon : ':' ∉ digits line.toNat := not_mem_digits (by decide)
  simp only [parse, display_toList, splitLast?_append_cons _ hcolon, readLine?_digits,
    String.ofList_toList]

/-- Reading finds a line number, or takes the whole text for the file. -/
theorem parse_cases (text : String) :
    (∃ file line, parse text = ⟨file, some line⟩) ∨ parse text = ⟨text, none⟩ := by
  unfold parse
  split
  · split
    · exact .inl ⟨_, _, rfl⟩
    · exact .inr rfl
  · exact .inr rfl

/-- Locations survive printing and reading back: one with a line comes back with the same file and
the same line, and what was read from any text, however the line was spelled there, is what its own
written form reads as. -/
theorem survives_printing :
    (∀ (file : String) (line : UInt32), parse (display ⟨file, some line⟩) = ⟨file, some line⟩) ∧
      ∀ text : String, parse (parse text).display = parse text := by
  refine ⟨parse_display_line, fun text => ?_⟩
  rcases parse_cases text with ⟨file, line, h⟩ | h
  · rw [h, parse_display_line]
  · -- Without a line the written form is the text itself.
    rw [h, show display ⟨text, none⟩ = text from rfl, h]

/-- A file name may end like a line; only the last colon counts, and blanks, a sign and leading
zeros are lost. -/
example : (parse "a: 1: +007").display = "a: 1:7" := by decide +kernel

end Location

end AppAssembly
