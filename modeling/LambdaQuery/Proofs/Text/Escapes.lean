import LambdaQuery.Json.Reader
import LambdaQuery.Proofs.Text.Quoted

/-!
# String literals

A string literal of a query is a JSON string: `Literal.text_string` says that between its quotes
there is no control character and no quote that is not escaped, and that reading it, alone or in
front of another text, gives the string. A quote is escaped where a scan from the left
(`pendingEscape`) is behind a backslash that is not escaped itself; what a lawful style writes for
one character leaves no such backslash behind (`pendingEscape_encodeChar`), so that no escape runs
into the characters after it.
-/

set_option autoImplicit false

namespace LambdaQuery

/-- A control character: one below the space, or one from delete up to the end of the second range
of control characters. -/
def IsControl (c : Char) : Prop := c.toNat < 0x20 ∨ 0x7F ≤ c.toNat ∧ c.toNat ≤ 0x9F

instance (c : Char) : Decidable (IsControl c) := inferInstanceAs (Decidable (_ ∨ _))

namespace Text.Quoted

/-- Whether what follows the text is escaped, where `pending` says so of the text itself. -/
def pendingFrom (pending : Bool) (cs : List Char) : Bool :=
  cs.foldl (fun pending c => !pending && c == '\\') pending

/-- Whether the text ends in a backslash that escapes what follows. -/
def pendingEscape (cs : List Char) : Bool := pendingFrom false cs

/-- No quote in the text would end a literal. -/
def QuotesEscaped (cs : List Char) : Prop :=
  ∀ before after, cs = before ++ '"' :: after → pendingEscape before = true

theorem pendingFrom_append (pending : Bool) (cs ds : List Char) :
    pendingFrom pending (cs ++ ds) = pendingFrom (pendingFrom pending cs) ds :=
  List.foldl_append

theorem QuotesEscaped.append {cs ds : List Char} (hcs : QuotesEscaped cs)
    (hds : QuotesEscaped ds) (h : pendingEscape cs = false) : QuotesEscaped (cs ++ ds) := by
  intro before after heq
  rcases List.append_eq_append_iff.mp heq with ⟨middle, rfl, hmiddle⟩ | ⟨middle, rfl, hmiddle⟩
  · rw [pendingEscape, pendingFrom_append, ← pendingEscape, h]
    exact hds middle after hmiddle
  · cases middle with
    | nil => cases hds [] after hmiddle.symm
    | cons c middle =>
      obtain ⟨rfl, rfl⟩ := List.cons_eq_cons.mp hmiddle
      exact hcs before middle rfl

/-- Without backslashes nothing is escaped. -/
theorem pendingEscape_of_not_mem {cs : List Char} (h : '\\' ∉ cs) :
    pendingEscape cs = false := by
  induction cs with
  | nil => rfl
  | cons c cs ih =>
    rw [List.mem_cons, not_or] at h
    have hc : (c == '\\') = false := beq_eq_false_iff_ne.mpr (Ne.symm h.1)
    show pendingFrom (!false && c == '\\') cs = false
    rw [hc]
    exact ih h.2

/-- Without quotes none needs to be escaped. -/
theorem quotesEscaped_of_not_mem {cs : List Char} (h : '"' ∉ cs) : QuotesEscaped cs := by
  rintro before after rfl
  exact absurd (List.mem_append_right _ List.mem_cons_self) h

/-! ## What is written for a character -/

theorem hexDigit_mem (n : Nat) (h : n < 16) : hexDigit n ∈ "0123456789abcdef".toList := by
  interval_cases n <;> decide

theorem mem_hex4 {n : Nat} {c : Char} (h : c ∈ hex4 n) : c ∈ "0123456789abcdef".toList := by
  simp only [hex4, List.mem_cons, List.not_mem_nil, or_false] at h
  rcases h with rfl | rfl | rfl | rfl <;> exact hexDigit_mem _ (Nat.mod_lt _ (by decide))

/-- A character is written as an escape of two characters, as its code, or as it is. -/
theorem encodeChar_cases (style : Style) (c : Char) :
    (∃ letter, style.short c = some letter ∧ encodeChar style c = ['\\', letter]) ∨
      encodeChar style c = '\\' :: 'u' :: hex4 c.toNat ∨
      style.short c = none ∧ style.coded c = false ∧ encodeChar style c = [c] := by
  unfold encodeChar
  split
  · exact .inl ⟨_, ‹_›, rfl⟩
  · split
    · exact .inr (.inl rfl)
    · exact .inr (.inr ⟨‹_›, Bool.eq_false_iff.mpr ‹_›, rfl⟩)

variable {style : Style}

/-- No escape runs into the characters after it. -/
theorem pendingEscape_encodeChar (hs : style.Lawful) (c : Char) :
    pendingEscape (encodeChar style c) = false := by
  rcases encodeChar_cases style c with ⟨letter, -, h⟩ | h | ⟨hshort, hcoded, h⟩ <;> rw [h]
  · rfl
  · show pendingEscape (hex4 c.toNat) = false
    exact pendingEscape_of_not_mem fun hmem => absurd (mem_hex4 hmem) (by decide)
  · refine pendingEscape_of_not_mem fun hmem => ?_
    exact (hs.plain c hshort hcoded).2.1 (List.mem_singleton.mp hmem).symm

theorem quotesEscaped_encodeChar (hs : style.Lawful) (c : Char) :
    QuotesEscaped (encodeChar style c) := by
  rcases encodeChar_cases style c with ⟨letter, -, h⟩ | h | ⟨hshort, hcoded, h⟩ <;> rw [h]
  · rintro (_ | ⟨d, before⟩) after heq
    · cases heq
    · obtain ⟨rfl, htail⟩ := List.cons_eq_cons.mp heq
      obtain ⟨rfl, -⟩ | ⟨-, hnil⟩ := List.singleton_eq_append_iff.mp htail
      · rfl
      · cases hnil
  · refine quotesEscaped_of_not_mem fun hmem => ?_
    simp only [List.mem_cons, Char.reduceEq, false_or] at hmem
    exact absurd (mem_hex4 hmem) (by decide)
  · refine quotesEscaped_of_not_mem fun hmem => ?_
    exact (hs.plain c hshort hcoded).1 (List.mem_singleton.mp hmem).symm

/-! ## What is written for a text -/

/-- **The quotes in what a lawful style writes are escaped**, and what is written after it is
not. -/
theorem escaped_encode (hs : style.Lawful) (s : List Char) :
    QuotesEscaped (encode style s) ∧ pendingEscape (encode style s) = false := by
  induction s with
  | nil => exact ⟨quotesEscaped_of_not_mem List.not_mem_nil, rfl⟩
  | cons c s ih =>
    have hc := pendingEscape_encodeChar hs c
    rw [encode, List.flatMap_cons, ← encode]
    refine ⟨(quotesEscaped_encodeChar hs c).append ih.1 hc, ?_⟩
    rw [pendingEscape, pendingFrom_append, ← pendingEscape, hc]
    exact ih.2

end Text.Quoted

namespace Query

open Text.Quoted

theorem not_isControl_encodeChar {c d : Char} (h : d ∈ encodeChar quoting c) : ¬IsControl d := by
  have hfixed : ("\\u\"nrt0123456789abcdef".toList.all fun d => !decide (IsControl d)) = true := by
    decide
  have hmem : ∀ d ∈ "\\u\"nrt0123456789abcdef".toList, ¬IsControl d := by
    intro d hd
    simpa using List.all_eq_true.mp hfixed d hd
  rcases encodeChar_cases quoting c with ⟨letter, hletter, heq⟩ | heq | ⟨-, hcoded, heq⟩ <;>
    rw [heq] at h
  · refine hmem d ?_
    rcases List.mem_cons.mp h with rfl | h
    · decide
    obtain rfl := List.mem_singleton.mp h
    simp only [quoting] at hletter
    split at hletter <;> cases hletter <;> decide
  · refine hmem d ?_
    rcases List.mem_cons.mp h with rfl | h
    · decide
    rcases List.mem_cons.mp h with rfl | h
    · decide
    · exact List.mem_append_right "\\u\"nrt".toList (mem_hex4 h)
  · obtain rfl := List.mem_singleton.mp h
    simp only [quoting, Bool.or_eq_false_iff, decide_eq_false_iff_not] at hcoded
    exact fun hcontrol => hcontrol.elim hcoded.1 hcoded.2

end Query

/-- A text that is quoted up to its end is read as a string. -/
theorem Json.read?_quoted {text s : String} {cs : List Char} (htext : text.toList = '"' :: cs)
    (h : Text.Quoted.read cs = some (s.toList, [])) : read? text = some (.str s) := by
  have hnext : Reader.next? ('"' :: cs) = some ('"', ⟨cs, Nat.lt_succ_self _⟩) := rfl
  have hscalar : Reader.scalar? '"' cs = some (.str s, []) := by
    show (Text.Quoted.read cs).map _ = _
    rw [h]
    exact congrArg (fun t => some (Json.str t, [])) (String.ofList_toList)
  have hvalue : ∀ ds, ds = '"' :: cs →
      ∃ rest : Reader.Rest ds, rest.1 = [] ∧ Reader.value? 127 ds = some (.str s, rest) := by
    rintro _ rfl
    refine ⟨⟨[], Nat.succ_pos _⟩, rfl, ?_⟩
    rw [Reader.value?, hnext]
    show (Reader.scalar? '"' cs).bind _ = _
    rw [hscalar]
    rfl
  obtain ⟨rest, hrest, hvalue⟩ := hvalue text.toList htext
  rw [read?, hvalue]
  dsimp only
  rw [hrest]
  rfl

/-- What stands between the quotes of a string literal. -/
def Literal.body (s : String) : List Char := Text.Quoted.encode Query.quoting s.toList

/-- **A string literal is a JSON string.** -/
theorem Literal.text_string (s : String) :
    (Literal.string s).text.toList = '"' :: (Literal.body s ++ ['"']) ∧
      (∀ c ∈ Literal.body s, ¬IsControl c) ∧
      Text.Quoted.QuotesEscaped (Literal.body s) ∧
      Text.Quoted.pendingEscape (Literal.body s) = false ∧
      (∀ rest, Text.Quoted.read (Literal.body s ++ '"' :: rest) = some (s.toList, rest)) ∧
      Json.read? (Literal.string s).text = some (.str s) := by
  have hread := Text.Quoted.read_encode Text.Quoted.quoting_lawful s.toList
  obtain ⟨hquotes, hpending⟩ := Text.Quoted.escaped_encode Text.Quoted.quoting_lawful s.toList
  have htext : (Literal.string s).text.toList = '"' :: (Literal.body s ++ ['"']) :=
    String.toList_ofList
  refine ⟨htext, fun c hc => ?_, hquotes, hpending, hread, Json.read?_quoted htext (hread [])⟩
  obtain ⟨d, -, hd⟩ := List.mem_flatMap.mp hc
  exact Query.not_isControl_encodeChar hd

end LambdaQuery
