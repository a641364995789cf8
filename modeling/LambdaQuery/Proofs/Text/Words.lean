import LambdaQuery.Proofs.Text.Reader
import Mathlib

/-!
# Reading words and numbers back

A word, a number, a count or an optional clause is read back from in front of any text that does not
continue it. `After stops r` says that `r` is empty or starts with one of `stops`.
-/

set_option autoImplicit false

namespace LambdaQuery.Reader

/-- The text is empty or starts with one of the characters. -/
def After (stops : List Char) (r : List Char) : Prop := ∀ c ∈ r.head?, c ∈ stops

theorem After.mono {ss ts r : List Char} (h : After ss r) (hst : ss ⊆ ts) : After ts r :=
  fun c hc => hst (h c hc)

theorem After.nil (stops : List Char) : After stops [] := fun _ h => by simp at h

theorem After.cons {stops : List Char} {c : Char} (h : c ∈ stops) (r : List Char) :
    After stops (c :: r) := fun d hd => by
  obtain rfl : c = d := by simpa using hd
  exact h

/-- What may follow the first part of a scalar. -/
def stops : List Char := ['[', ' ', ',', ')', ']', '\x7d']

/-- What may follow a whole scalar. -/
def ends : List Char := [' ', ',', ')', ']', '\x7d']

/-- What may follow a list. -/
def closers : List Char := [' ', ')', ']', '\x7d']

theorem closers_subset : closers ⊆ ends := by simp [closers, ends]

theorem ends_subset : ends ⊆ stops := by simp [ends, stops]

theorem After.not_word {r : List Char} (h : After stops r) :
    ∀ c ∈ r.head?, isWordChar c = false := by
  intro c hc
  have hs := h c hc
  simp only [stops, List.mem_cons, List.not_mem_nil, or_false] at hs
  rcases hs with rfl | rfl | rfl | rfl | rfl | rfl <;> decide

/-! ## Fixed texts -/

theorem strip_append (t : String) (cs : List Char) : strip t (t.toList ++ cs) = some cs := by
  simp [strip]

theorem strip_singleton (c : Char) (cs : List Char) :
    strip (String.singleton c) (c :: cs) = some cs := by
  simpa using strip_append (String.singleton c) cs

/-- A text that starts with another character is refused. -/
theorem strip_of_head {t : String} {c : Char} {ts cs : List Char} (ht : t.toList = c :: ts)
    (h : ∀ d ∈ cs.head?, d ≠ c) : strip t cs = none := by
  unfold strip
  rw [ht]
  cases cs with
  | nil => rfl
  | cons d cs =>
    have hd : (c == d) = false := beq_eq_false_iff_ne.mpr (h d rfl).symm
    simp [List.isPrefixOf?, hd]

/-- A text that may not start with a character is refused before it. -/
theorem After.strip_eq_none {ss r ts : List Char} {t : String} {c : Char} (h : After ss r)
    (ht : t.toList = c :: ts) (hc : c ∉ ss) : strip t r = none :=
  strip_of_head ht fun d hd hdc => hc (hdc ▸ h d hd)

/-! ## Words -/

theorem takeWhile_append {p : Char → Bool} {w r : List Char} (hw : ∀ c ∈ w, p c = true)
    (hr : ∀ c ∈ r.head?, p c = false) : (w ++ r).takeWhile p = w := by
  rw [List.takeWhile_append_of_pos hw]
  cases r with
  | nil => simp
  | cons c r => simp [hr c rfl]

theorem dropWhile_append {p : Char → Bool} {w r : List Char} (hw : ∀ c ∈ w, p c = true)
    (hr : ∀ c ∈ r.head?, p c = false) : (w ++ r).dropWhile p = r := by
  rw [List.dropWhile_append_of_pos hw]
  cases r with
  | nil => simp
  | cons c r => simp [hr c rfl]

theorem word_append {w : String} {r : List Char} (hw : ∀ c ∈ w.toList, isWordChar c = true)
    (hr : ∀ c ∈ r.head?, isWordChar c = false) : word (w.toList ++ r) = w := by
  rw [word, takeWhile_append hw hr, String.ofList_toList]

theorem afterWord_append {w : String} {r : List Char}
    (hw : ∀ c ∈ w.toList, isWordChar c = true) (hr : ∀ c ∈ r.head?, isWordChar c = false) :
    afterWord (w.toList ++ r) = r := dropWhile_append hw hr

theorem isWordChar_of_identifier {cs : List Char} (h : isIdentifier cs = true) :
    ∀ c ∈ cs, isWordChar c = true := by
  cases cs with
  | nil => cases h
  | cons c cs =>
    simp only [isIdentifier, Bool.and_eq_true, List.all_eq_true] at h
    intro d hd
    rcases List.mem_cons.mp hd with rfl | hd
    · simp [isWordChar, h.1]
    · exact h.2 d hd

/-- A name starts with a letter or an underscore. -/
theorem exists_start_of_identifier {cs : List Char} (h : isIdentifier cs = true) :
    ∃ c rest, cs = c :: rest ∧ isNameStart c = true := by
  cases cs with
  | nil => cases h
  | cons c cs =>
    simp only [isIdentifier, Bool.and_eq_true] at h
    exact ⟨c, cs, rfl, h.1⟩

theorem isIdentifier_of_isName {name : String} (h : isName name = true) :
    isIdentifier name.toList = true := by
  simp only [isName, Bool.and_eq_true] at h
  exact h.1

theorem not_keyword_of_isName {name : String} (h : isName name = true) : name ∉ keywords := by
  simp only [isName, Bool.and_eq_true, Bool.not_eq_true', List.contains_eq_mem,
    decide_eq_false_iff_not] at h
  exact h.2

theorem isWordChar_of_isName {name : String} (h : isName name = true) :
    ∀ c ∈ name.toList, isWordChar c = true :=
  isWordChar_of_identifier (isIdentifier_of_isName h)

/-- A name stands for itself. -/
theorem bare_of_isName {name : String} (h : isName name = true) : bare name = .ref name := by
  have hk := not_keyword_of_isName h
  simp only [keywords, List.mem_cons, not_or] at hk
  simp [bare, hk]

/-- A parameter is an at sign and a word. -/
theorem exists_word_of_isParameterName {name : String} (h : isParameterName name = true) :
    ∃ w, name.toList = '@' :: w ∧ ∀ c ∈ w, isWordChar c = true := by
  simp only [isParameterName] at h
  split at h
  · rename_i w hw
    exact ⟨w, hw, isWordChar_of_identifier h⟩
  · cases h

/-! ## Numbers -/

theorem isDigit_toDigits (n : Nat) (c : Char) (h : c ∈ Nat.toDigits 10 n) : c.isDigit = true :=
  Nat.isDigit_of_mem_toDigits (b := 10) (n := n) (by decide) (by decide) h

theorem exists_digit_toDigits (n : Nat) :
    ∃ c cs, Nat.toDigits 10 n = c :: cs ∧ c.isDigit = true := by
  cases h : Nat.toDigits 10 n with
  | nil => exact absurd h Nat.toDigits_ne_nil
  | cons c cs => exact ⟨c, cs, rfl, isDigit_toDigits n c (h ▸ List.mem_cons_self)⟩

/-- An integer is its digits, behind a sign if it is negative. -/
theorem toList_toString (n : Int64) :
    (toString n).toList =
      if n.toInt < 0 then '-' :: Nat.toDigits 10 n.toInt.natAbs
      else Nat.toDigits 10 n.toInt.natAbs := by
  have h : toString n = toString n.toInt := rfl
  rw [h, Int.toString_eq_repr, Int.repr_eq_if]
  by_cases hn : n.toInt < 0
  · have hp : ¬ 0 ≤ n.toInt := by omega
    have ha : (-n.toInt).toNat = n.toInt.natAbs := by omega
    rw [if_neg hp, if_pos hn, ha]
    simp [Nat.toList_repr]
  · have hp : 0 ≤ n.toInt := by omega
    have ha : n.toInt.toNat = n.toInt.natAbs := by omega
    rw [if_pos hp, if_neg hn, ha, Nat.toList_repr]

theorem not_digit_of_not_word {r : List Char} (h : ∀ c ∈ r.head?, isWordChar c = false) :
    ∀ c ∈ r.head?, c.isDigit = false := fun c hc => by
  have hw := h c hc
  simp only [isWordChar, Bool.or_eq_false_iff] at hw
  exact hw.2

theorem not_nameStart_of_digit {c : Char} (h : c.isDigit = true) : isNameStart c = false := by
  have hu : (c == '_') = false := beq_eq_false_iff_ne.mpr fun hc => absurd (hc ▸ h) (by decide)
  simp only [Char.isDigit, Bool.and_eq_true, decide_eq_true_eq, ge_iff_le] at h
  have hl : c.val.toNat ≤ 57 := UInt32.le_iff_toNat_le.mp h.2
  have ha : c.isAlpha = false := by
    simp only [Char.isAlpha, Char.isUpper, Char.isLower, Bool.or_eq_false_iff,
      Bool.and_eq_false_iff, decide_eq_false_iff_not, UInt32.le_iff_toNat_le, ge_iff_le]
    have hA : 'A'.val.toNat = 65 := rfl
    have ha : 'a'.val.toNat = 97 := rfl
    omega
  rw [isNameStart, ha, hu]
  rfl

theorem natural_append (n : Nat) {r : List Char} (hr : ∀ c ∈ r.head?, c.isDigit = false) :
    natural (Nat.toDigits 10 n ++ r) = n := by
  rw [natural, takeWhile_append (isDigit_toDigits n) hr, Nat.ofDigitChars_ten_toDigits]

theorem integer_of_digit {c : Char} (h : c.isDigit = true) (cs : List Char) :
    integer (c :: cs) = (Int64.ofInt (natural (c :: cs)), (c :: cs).dropWhile Char.isDigit) := by
  unfold integer
  split
  · rename_i heq
    cases heq
    exact absurd h (by decide)
  · rfl

theorem integer_append (n : Int64) {r : List Char} (hr : ∀ c ∈ r.head?, isWordChar c = false) :
    integer ((toString n).toList ++ r) = (n, r) := by
  have hd := not_digit_of_not_word hr
  rw [toList_toString]
  split
  · rename_i hn
    rw [List.cons_append, integer, natural_append _ hd,
      dropWhile_append (isDigit_toDigits _) hd]
    have : -(n.toInt.natAbs : Int) = n.toInt := by omega
    rw [this, Int64.ofInt_toInt]
  · rename_i hn
    obtain ⟨c, cs, hcs, hc⟩ := exists_digit_toDigits n.toInt.natAbs
    have hi := integer_of_digit hc (cs ++ r)
    rw [← List.cons_append, ← hcs, natural_append _ hd,
      dropWhile_append (isDigit_toDigits _) hd] at hi
    have : (n.toInt.natAbs : Int) = n.toInt := by omega
    rw [hi, this, Int64.ofInt_toInt]

/-- An integer starts with a digit, or with a sign that a digit follows. -/
theorem exists_start_of_integer (n : Int64) :
    (∃ c cs, (toString n).toList = c :: cs ∧ c.isDigit = true) ∨
      ∃ c cs, (toString n).toList = '-' :: c :: cs ∧ c.isDigit = true := by
  obtain ⟨c, cs, hcs, hc⟩ := exists_digit_toDigits n.toInt.natAbs
  rw [toList_toString, hcs]
  split
  · exact .inr ⟨c, cs, rfl, hc⟩
  · exact .inl ⟨c, cs, rfl, hc⟩

/-! ## Counts and windows -/

theorem count_append {c : Count} (h : c.Readable) {r : List Char}
    (hr : ∀ c ∈ r.head?, isWordChar c = false) : count (c.text.toList ++ r) = (c, r) := by
  cases c with
  | literal n =>
    obtain ⟨c, cs, hcs, hc⟩ | ⟨c, cs, hcs, hc⟩ := exists_start_of_integer n
    all_goals
      have hi := integer_append n hr
      rw [Count.text]
      rw [hcs, List.cons_append] at hi ⊢
      unfold count
      split
      · rename_i heq
        cases heq
        try exact absurd hc (by decide)
      · rw [hi]
  | parameter name =>
    obtain ⟨w, hw, hword⟩ := exists_word_of_isParameterName h
    rw [Count.text, hw, List.cons_append, count, takeWhile_append hword hr, ← hw,
      String.ofList_toList, afterWord, dropWhile_append hword hr]

def topText : Option Count → String
  | some count => "TOP " ++ count.text ++ " "
  | none => ""

theorem top_append {n : Option Count} (h : ∀ c ∈ n, c.Readable) {r : List Char}
    (hr : strip "TOP " r = none) : top ((topText n).toList ++ r) = some (n, r) := by
  cases n with
  | none => simp [topText, top, hr]
  | some n =>
    have hn := count_append (h n rfl) (r := ' ' :: r) (by simp; decide)
    have ht := strip_append "TOP " (n.text.toList ++ ' ' :: r)
    have hb := strip_append " " r
    simp only [topText, String.toList_append, List.append_assoc, top]
    simp only [String.reduceToList, List.cons_append, List.nil_append] at ht hb ⊢
    simp [ht, hn, hb]

end LambdaQuery.Reader
