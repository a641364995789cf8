import LambdaQuery.Query.Printer
import Mathlib.Tactic.IntervalCases

/-!
# Reading quoted texts back

A style of writing is lawful (`Style.Lawful`) when its short escapes are escapes of JSON, the
characters that it writes by their code are no surrogates, and all others may stand unescaped.
Reading a text that a lawful style has written gives the text (`read_encode`).
-/

set_option autoImplicit false

namespace LambdaQuery.Text.Quoted

structure Style.Lawful (style : Style) : Prop where
  short : ∀ c letter, style.short c = some letter → letter ≠ 'u' ∧ unescape letter = some c
  coded : ∀ c, style.short c = none → style.coded c = true → c.toNat < 0xD800
  plain : ∀ c, style.short c = none → style.coded c = false →
    c ≠ '"' ∧ c ≠ '\\' ∧ 0x20 ≤ c.toNat

theorem hexValue_hexDigit {n : Nat} (h : n < 16) : hexValue (hexDigit n) = some n := by
  interval_cases n <;> rfl

/-- The four digits of a code that is no surrogate are read as its character. -/
theorem readFrom_hex4 {n : Nat} (h : n < 0xD800) (cs : List Char) :
    readFrom (.code 4 0) (hex4 n ++ cs) =
      (readFrom .plain cs).map fun (s, r) => (Char.ofNat n :: s, r) := by
  have hv : ∀ m, hexValue (hexDigit (m % 16)) = some (m % 16) := fun m =>
    hexValue_hexDigit (Nat.mod_lt _ (by decide))
  have hn : ((n / 4096 % 16 * 16 + n / 256 % 16) * 16 + n / 16 % 16) * 16 + n % 16 = n := by
    omega
  have h1 : isHighSurrogate n = false := by
    simp only [isHighSurrogate, Bool.and_eq_false_iff, decide_eq_false_iff_not]; omega
  have h2 : isLowSurrogate n = false := by
    simp only [isLowSurrogate, Bool.and_eq_false_iff, decide_eq_false_iff_not]; omega
  simp only [hex4, List.cons_append, List.nil_append, readFrom, hv]
  simp [hn, h1, h2]

theorem readFrom_encodeChar {style : Style} (hs : style.Lawful) (c : Char) (cs : List Char) :
    readFrom .plain (encodeChar style c ++ cs) =
      (readFrom .plain cs).map fun (s, r) => (c :: s, r) := by
  unfold encodeChar
  split
  · rename_i letter hl
    obtain ⟨hu, he⟩ := hs.short c letter hl
    simp [readFrom, hu, he]
  · rename_i hc
    split
    · rename_i hcoded
      have h := readFrom_hex4 (hs.coded c hc hcoded) cs
      simp only [List.cons_append, readFrom, ↓reduceIte, Char.reduceEq]
      rw [h, Char.ofNat_toNat]
    · rename_i hplain
      obtain ⟨hq, hb, hl⟩ := hs.plain c hc (by simpa using hplain)
      have hl' : ¬ c.toNat < 0x20 := by omega
      simp [readFrom, hq, hb, hl']

/-- **What a lawful style writes is read back**, up to the closing quote. -/
theorem read_encode {style : Style} (hs : style.Lawful) (s rest : List Char) :
    read (encode style s ++ '"' :: rest) = some (s, rest) := by
  unfold read
  induction s with
  | nil => simp [encode, readFrom]
  | cons c s ih =>
    rw [encode, List.flatMap_cons, List.append_assoc, readFrom_encodeChar hs, ← encode, ih]
    rfl

theorem quoting_lawful : Query.quoting.Lawful where
  short c letter h := by
    simp only [Query.quoting] at h
    split at h <;> cases h <;> exact ⟨by decide, by rfl⟩
  coded c _ h := by
    simp only [Query.quoting, Bool.or_eq_true, decide_eq_true_eq] at h
    omega
  plain c hs h := by
    simp only [Query.quoting] at hs
    simp only [Query.quoting, Bool.or_eq_false_iff, decide_eq_false_iff_not] at h
    refine ⟨?_, ?_, by omega⟩
    · rintro rfl
      simp at hs
    · rintro rfl
      simp at hs

end LambdaQuery.Text.Quoted
