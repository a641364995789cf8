import LambdaQuery.Proofs.Text.Quoted
import LambdaQuery.Proofs.Text.Words

/-!
# Reading scalars back, rule by rule

`ReadsTo f P t a`: with enough fuel, the reader `f` reads the text `t` as `a`, whatever follows it
that meets `P`. A scalar is read in two steps (`Reads`), for keys in brackets may follow its first
part. Each rule of the grammar has a lemma: a text is read when its parts are.
-/

set_option autoImplicit false

namespace LambdaQuery

namespace Reader

variable {α : Type}

def ReadsTo (f : Nat → List Char → Option (α × List Char)) (P : List Char → Prop)
    (t : List Char) (a : α) : Prop :=
  ∃ n₀, ∀ n ≥ n₀, ∀ r, P r → f n (t ++ r) = some (a, r)

/-- Reading the text of the scalar leaves the keys that follow to be read. -/
def Reads (s : Scalar) : Prop :=
  ∃ k n₀, ∀ n ≥ n₀, ∀ r, After stops r →
    scalar (n + k) (s.text.toList ++ r) = keys n s.completed r

/-- A whole scalar is read. -/
abbrev ReadsWhole (t : String) (s : Scalar) : Prop := ReadsTo scalar (After ends) t.toList s

theorem Reads.of_atom {s : Scalar} (h : ReadsTo atom (After stops) s.text.toList s.completed) :
    Reads s := by
  obtain ⟨n₀, h⟩ := h
  refine ⟨1, n₀, fun n hn r hr => ?_⟩
  rw [scalar, h n hn r hr]
  rfl

theorem keys_ends {r : List Char} (h : After ends r) (n : Nat) (s : Scalar) :
    keys (n + 1) s r = some (s, r) := by
  have hb : strip "[" r = none := h.strip_eq_none (c := '[') rfl (by decide)
  simp only [keys, hb]

theorem Reads.whole {s : Scalar} (h : Reads s) : ReadsWhole s.text s.completed := by
  obtain ⟨k, n₀, h⟩ := h
  refine ⟨n₀ + 1 + k, fun n hn r hr => ?_⟩
  obtain ⟨m, rfl⟩ : ∃ m, n = m + 1 + k := ⟨n - 1 - k, by omega⟩
  rw [h (m + 1) (by omega) r (hr.mono ends_subset), keys_ends hr]

/-- A key in brackets continues a scalar. -/
theorem Reads.index {object key : Scalar} (ho : Reads object) (hk : Reads key) :
    Reads (.index object key) := by
  obtain ⟨k, n₀, ho⟩ := ho
  obtain ⟨n₁, hk⟩ := hk.whole
  refine ⟨k + 1, n₀ + n₁, fun n hn r hr => ?_⟩
  have hclose : After ends (']' :: r) := .cons (by decide) r
  have hopen : After stops ('[' :: (key.text.toList ++ ']' :: r)) := .cons (by decide) _
  have h := ho (n + 1) (by omega) _ hopen
  have hb : ∀ cs, strip "[" ('[' :: cs) = some cs := strip_singleton '['
  have hc : ∀ cs, strip "]" (']' :: cs) = some cs := strip_singleton ']'
  rw [keys, hb] at h
  simp only [hk n (by omega) _ hclose, Option.bind_eq_bind, Option.bind_some, hc] at h
  rw [show n + (k + 1) = n + 1 + k by omega]
  simpa [Scalar.text, Scalar.completed] using h

/-! ## Beginnings -/

/-- The text begins as no other alternative in parentheses or brackets does. -/
structure Starts (cs : List Char) : Prop where
  not_select : word cs ≠ "SELECT"
  not_unary : unaryOp? cs = none
  not_closing : ∀ c ∈ cs.head?, c ≠ ')' ∧ c ≠ ']'

theorem starts_word {w : String} {r : List Char} (hi : isIdentifier w.toList = true)
    (hw : w ∉ ["SELECT", "NOT"]) (hr : ∀ c ∈ r.head?, isWordChar c = false) :
    Starts (w.toList ++ r) := by
  have hword := word_append (isWordChar_of_identifier hi) hr
  obtain ⟨c, cs, hcs, hc⟩ := exists_start_of_identifier hi
  simp only [List.mem_cons, List.not_mem_nil, or_false, not_or] at hw
  refine ⟨by rw [hword]; exact hw.1, ?_, ?_⟩
  · unfold unaryOp?
    rw [hword, if_neg hw.2, hcs]
    split
    all_goals first
      | rfl
      | (rename_i heq
         obtain ⟨rfl, -⟩ := List.cons.inj heq
         exact absurd hc (by decide))
  · rw [hcs]
    intro d hd
    obtain rfl : c = d := by simpa using hd
    exact ⟨fun h => absurd (h ▸ hc) (by decide), fun h => absurd (h ▸ hc) (by decide)⟩

/-- A text that starts with something else than a letter or an operator. -/
theorem starts_char {c : Char} {cs : List Char} (hc : isNameStart c = false)
    (hu : c ∉ ['~', '+', ')', ']']) (hm : c = '-' → ∀ d ∈ cs.head?, d ≠ ' ') :
    Starts (c :: cs) := by
  have hword : ∀ w : String, (∃ d ∈ w.toList.head?, isNameStart d = true) → word (c :: cs) ≠ w := by
    rintro w ⟨d, hd, hs⟩ rfl
    rw [word, String.toList_ofList, List.takeWhile_cons] at hd
    split at hd
    · obtain rfl : c = d := by simpa using hd
      rw [hc] at hs
      cases hs
    · cases hd
  simp only [List.mem_cons, List.not_mem_nil, or_false, not_or] at hu
  refine ⟨hword _ ⟨'S', rfl, by decide⟩, ?_, ?_⟩
  · unfold unaryOp?
    rw [if_neg (hword _ ⟨'N', rfl, by decide⟩)]
    split
    · rename_i heq
      exact absurd (List.cons.inj heq).1 hu.1
    · rename_i heq
      obtain ⟨h1, h2⟩ := List.cons.inj heq
      exact absurd rfl (hm h1 ' ' (by rw [h2]; rfl))
    · rename_i heq
      exact absurd (List.cons.inj heq).1 hu.2.1
    · rfl
  · intro d hd
    obtain rfl : c = d := by simpa using hd
    exact hu.2.2

theorem starts_integer (n : Int64) (r : List Char) : Starts ((toString n).toList ++ r) := by
  have hdigit : ∀ c : Char, c.isDigit = true → c ∉ ['~', '+', ')', ']', '-', ' '] := by
    intro c hc hmem
    simp only [List.mem_cons, List.not_mem_nil, or_false] at hmem
    rcases hmem with rfl | rfl | rfl | rfl | rfl | rfl <;> exact absurd hc (by decide)
  obtain ⟨c, cs, hcs, hc⟩ | ⟨c, cs, hcs, hc⟩ := exists_start_of_integer n
  · have hne := hdigit c hc
    rw [hcs]
    refine starts_char (not_nameStart_of_digit hc) (fun h => hne ?_) fun h => absurd ?_ hne
    · exact List.mem_append_left ['-', ' '] h
    · simp [h]
  · rw [hcs]
    refine starts_char (by decide) (by decide) fun _ d hd hs => hdigit c hc ?_
    obtain rfl : c = d := by simpa using hd
    simp [hs]

theorem starts_open {c : Char} (h : c ∈ ['"', '@', '[', '\x7b', '(']) (cs : List Char) :
    Starts (c :: cs) := by
  simp only [List.mem_cons, List.not_mem_nil, or_false] at h
  rcases h with rfl | rfl | rfl | rfl | rfl <;>
    exact starts_char (by decide) (by decide) fun h => absurd h (by decide)

theorem starts_name {name : String} {r : List Char} (h : isName name = true)
    (hr : ∀ c ∈ r.head?, isWordChar c = false) : Starts (name.toList ++ r) :=
  starts_word (isIdentifier_of_isName h)
    (fun hm => not_keyword_of_isName h (by
      simp only [List.mem_cons, List.not_mem_nil, or_false] at hm
      rcases hm with rfl | rfl <;> decide)) hr

theorem head_not_word {c : Char} (h : isWordChar c = false) (cs : List Char) :
    ∀ d ∈ (c :: cs).head?, isWordChar d = false := fun d hd => by
  obtain rfl : c = d := by simpa using hd
  exact h

/-- The text of a scalar begins with a word, a number, a quote, an at sign or a bracket. -/
theorem starts_scalar : ∀ s : Scalar, s.Readable → ∀ r, (∀ c ∈ r.head?, isWordChar c = false) →
    Starts (s.text.toList ++ r)
  | .literal .null, _, _, hr => starts_word (w := "null") (by decide) (by decide) hr
  | .literal .undefined, _, _, hr => starts_word (w := "undefined") (by decide) (by decide) hr
  | .literal (.boolean true), _, _, hr => starts_word (w := "true") (by decide) (by decide) hr
  | .literal (.boolean false), _, _, hr => starts_word (w := "false") (by decide) (by decide) hr
  | .literal (.integer n), _, r, _ => starts_integer n r
  | .literal (.double _), h, _, _ => by cases h
  | .literal (.string s), _, _, _ => by
    simpa [Scalar.text, Literal.text, Query.quote, Text.Quoted.write] using
      starts_open (by decide) _
  | .ref _, h, _, hr => starts_name h hr
  | .index object key, h, r, _ => by
    simpa [Scalar.text] using starts_scalar object h.1 _
      (head_not_word (by decide) (key.text.toList ++ ']' :: r))
  | .call name args true, _, r, _ => by
    simpa [Scalar.text] using starts_word (w := "udf") (by decide) (by decide)
      (head_not_word (by decide) (name.toList ++
        '(' :: ((", ".intercalate (Scalar.texts args)).toList ++ ')' :: r)))
  | .call _ args false, h, r, _ => by
    simpa [Scalar.text] using starts_name h.1
      (head_not_word (by decide) ((", ".intercalate (Scalar.texts args)).toList ++ ')' :: r))
  | .exists query, _, r, _ => by
    simpa [Scalar.text] using starts_word (w := "EXISTS") (by decide) (by decide)
      (head_not_word (by decide) ((" ".intercalate query.clauses).toList ++ ')' :: r))
  | .arrayOf query, _, r, _ => by
    simpa [Scalar.text] using starts_word (w := "ARRAY") (by decide) (by decide)
      (head_not_word (by decide) ((" ".intercalate query.clauses).toList ++ ')' :: r))
  | .parameter name, h, r, _ => by
    obtain ⟨w, hw, -⟩ := exists_word_of_isParameterName h
    rw [Scalar.text, hw]
    exact starts_open (by decide) _
  | .array _, _, _, _ => by simpa [Scalar.text] using starts_open (by decide) _
  | .object _, _, _, _ => by simpa [Scalar.text] using starts_open (by decide) _
  | .binary .., _, _, _ => by simpa [Scalar.text] using starts_open (by decide) _
  | .unary .., _, _, _ => by simpa [Scalar.text] using starts_open (by decide) _
  | .conditional .., _, _, _ => by simpa [Scalar.text] using starts_open (by decide) _
  | .isIn .., _, _, _ => by simpa [Scalar.text] using starts_open (by decide) _
  | .subquery _, _, _, _ => by simpa [Scalar.text] using starts_open (by decide) _

/-! ## Lists -/

/-- A reader of items with a separator between them reads the texts of items with the separator
between them. -/
theorem ReadsTo.separated {item : Nat → List Char → Option (α × List Char)}
    {list : Nat → List Char → Option (List α × List Char)} {sep : String}
    {P Q : List Char → Prop}
    (hlist : ∀ n cs, list (n + 1) cs = (item n cs).bind fun (a, cs) =>
      match strip sep cs with
      | none => some ([a], cs)
      | some cs => (list n cs).bind fun (as, cs) => some (a :: as, cs))
    (hQ : ∀ r, Q r → P r ∧ strip sep r = none) (hsep : ∀ r, P (sep.toList ++ r))
    {ts : List String} {as : List α} (h : List.Forall₂ (fun t a => ReadsTo item P t.toList a) ts as)
    (hne : ts ≠ []) : ReadsTo list Q (sep.intercalate ts).toList as := by
  induction h with
  | nil => exact absurd rfl hne
  | @cons t a ts as ha has ih =>
    obtain ⟨n₀, ha⟩ := ha
    cases has with
    | nil =>
      refine ⟨n₀ + 1, fun n hn r hr => ?_⟩
      obtain ⟨m, rfl⟩ : ∃ m, n = m + 1 := ⟨n - 1, by omega⟩
      obtain ⟨hP, hs⟩ := hQ r hr
      rw [String.intercalate_singleton, hlist, ha m (by omega) r hP]
      simp [hs]
    | @cons t' _ ts' _ _ _ =>
      obtain ⟨n₁, ih⟩ := ih (by simp)
      refine ⟨n₀ + n₁ + 1, fun n hn r hr => ?_⟩
      obtain ⟨m, rfl⟩ : ∃ m, n = m + 1 := ⟨n - 1, by omega⟩
      rw [String.intercalate_cons_cons, String.toList_append, String.toList_append,
        List.append_assoc, List.append_assoc, hlist, ha m (by omega) _ (hsep _)]
      simp only [Option.bind_some, strip_append, ih m (by omega) r hr]

theorem comma_ends (r : List Char) : After ends (", ".toList ++ r) := .cons (by decide) _

theorem closers_comma {r : List Char} (h : After closers r) :
    After ends r ∧ strip ", " r = none :=
  ⟨h.mono closers_subset, h.strip_eq_none (c := ',') rfl (by decide)⟩

theorem ReadsTo.scalars {ts : List String} {ss : List Scalar} (h : List.Forall₂ ReadsWhole ts ss)
    (hne : ts ≠ []) :
    ReadsTo Reader.scalars (After closers) (", ".intercalate ts).toList ss := by
  refine .separated (fun n cs => ?_) (fun r => closers_comma) comma_ends h hne
  rw [Reader.scalars]
  rfl

/-- A list in brackets, from behind the opening one on. -/
theorem ReadsTo.closed {close : Char} (hc : close ∈ [')', ']']) {ts : List String}
    {ss : List Scalar} (h : List.Forall₂ ReadsWhole ts ss)
    (hs : ∀ t ∈ ts.head?, ∀ r, After ends r → Starts (t.toList ++ r)) :
    ReadsTo (Reader.closed · close) (fun _ => True)
      ((", ".intercalate ts).toList ++ [close]) ss := by
  cases h with
  | nil =>
    refine ⟨1, fun n hn r _ => ?_⟩
    obtain ⟨m, rfl⟩ : ∃ m, n = m + 1 := ⟨n - 1, by omega⟩
    simp [Reader.closed, strip_singleton]
  | @cons t s ts ss ht hts =>
    obtain ⟨n₀, hr₀⟩ := ReadsTo.scalars (List.Forall₂.cons ht hts) (by simp)
    refine ⟨n₀ + 1, fun n hn r _ => ?_⟩
    obtain ⟨m, rfl⟩ : ∃ m, n = m + 1 := ⟨n - 1, by omega⟩
    have hclose : After closers (close :: r) := by
      simp only [List.mem_cons, List.not_mem_nil, or_false] at hc
      rcases hc with rfl | rfl <;> exact .cons (by decide) r
    have hstart : Starts ((", ".intercalate (t :: ts)).toList ++ close :: r) := by
      cases ts with
      | nil =>
        rw [String.intercalate_singleton]
        exact hs t rfl _ (hclose.mono closers_subset)
      | cons u us =>
        rw [String.intercalate_cons_cons, String.toList_append, String.toList_append,
          List.append_assoc, List.append_assoc]
        exact hs t rfl _ (comma_ends _)
    have hr : strip (String.singleton close) ((", ".intercalate (t :: ts)).toList ++ close :: r) =
        none := by
      refine strip_of_head (String.toList_singleton close) fun d hd => ?_
      simp only [List.mem_cons, List.not_mem_nil, or_false] at hc
      obtain ⟨h1, h2⟩ := hstart.not_closing d hd
      rcases hc with rfl | rfl
      exacts [h1, h2]
    simp only [Reader.closed, List.append_assoc, List.singleton_append, hr,
      hr₀ m (by omega) _ hclose]
    simp [strip_singleton]

/-! ## Words -/

theorem atom_word {w : String} (hi : isIdentifier w.toList = true) {r : List Char}
    (hr : ∀ c ∈ r.head?, isWordChar c = false) (n : Nat) :
    atom (n + 1) (w.toList ++ r) = named n w r := by
  have hword := word_append (isWordChar_of_identifier hi) hr
  have hafter := afterWord_append (isWordChar_of_identifier hi) hr
  obtain ⟨c, cs, hcs, hc⟩ := exists_start_of_identifier hi
  have hne : ∀ d, isNameStart d = false → c ≠ d := fun d hd h => by rw [h, hd] at hc; cases hc
  have hd : c.isDigit = false := by
    by_contra h
    rw [not_nameStart_of_digit (by simpa using h)] at hc
    cases hc
  rw [hcs, List.cons_append] at hword hafter ⊢
  simp [atom, hne '"' (by decide), hne '@' (by decide), hne '[' (by decide),
    hne '\x7b' (by decide), hne '(' (by decide), hne '-' (by decide), hd, hword, hafter]

theorem After.strip_open {r : List Char} (h : After stops r) : strip "(" r = none :=
  h.strip_eq_none (c := '(') rfl (by decide)

/-- A word that no parenthesis follows stands alone. -/
theorem readsTo_bare {w : String} (hi : isIdentifier w.toList = true) (hw : w ≠ "udf") :
    ReadsTo atom (After stops) w.toList (bare w) := by
  refine ⟨2, fun n hn r hr => ?_⟩
  obtain ⟨m, rfl⟩ : ∃ m, n = m + 2 := ⟨n - 2, by omega⟩
  rw [atom_word hi hr.not_word, named, if_neg hw, hr.strip_open]

theorem readsTo_ref {name : String} (h : isName name = true) :
    ReadsTo atom (After stops) name.toList (.ref name) := by
  have hw : name ≠ "udf" := fun hn => not_keyword_of_isName h (hn ▸ by decide)
  have hb := readsTo_bare (isIdentifier_of_isName h) hw
  rwa [bare_of_isName h] at hb

theorem readsTo_integer (n : Int64) :
    ReadsTo atom (After stops) (toString n).toList (.integer n) := by
  refine ⟨1, fun m hm r hr => ?_⟩
  obtain ⟨m, rfl⟩ : ∃ k, m = k + 1 := ⟨m - 1, by omega⟩
  have hi := integer_append n hr.not_word
  obtain ⟨c, cs, hcs, hc⟩ | ⟨c, cs, hcs, hc⟩ := exists_start_of_integer n
  · have hne : ∀ d : Char, d.isDigit = false → c ≠ d := fun d hd h => by
      rw [h, hd] at hc
      cases hc
    rw [hcs, List.cons_append] at hi ⊢
    simp [atom, hne, hc, hi]
  · rw [hcs, List.cons_append, List.cons_append] at hi ⊢
    simp [atom, hi]

theorem readsTo_string (s : String) :
    ReadsTo atom (After stops) (Query.quote s).toList (.string s) := by
  refine ⟨1, fun n hn r _ => ?_⟩
  obtain ⟨m, rfl⟩ : ∃ m, n = m + 1 := ⟨n - 1, by omega⟩
  have h := Text.Quoted.read_encode Text.Quoted.quoting_lawful s.toList r
  have hq : (Query.quote s).toList ++ r =
      '"' :: (Text.Quoted.encode Query.quoting s.toList ++ '"' :: r) := by
    simp [Query.quote, Text.Quoted.write]
  rw [hq, atom, if_pos rfl, h]
  simp [Scalar.string]

theorem readsTo_parameter {name : String} (h : isParameterName name = true) :
    ReadsTo atom (After stops) name.toList (.parameter name) := by
  obtain ⟨w, hw, hword⟩ := exists_word_of_isParameterName h
  refine ⟨1, fun n hn r hr => ?_⟩
  obtain ⟨m, rfl⟩ : ∃ m, n = m + 1 := ⟨n - 1, by omega⟩
  have ht := takeWhile_append hword hr.not_word
  have hd : afterWord (w ++ r) = r := dropWhile_append hword hr.not_word
  rw [hw, List.cons_append]
  simp [atom, ht, hd, ← hw]

/-! ## Brackets -/

/-- Anything may follow. -/
def anything (_ : List Char) : Prop := True

/-- A nested query is read up to the parenthesis that closes it. -/
abbrev ReadsQuery (t : String) (q : Query) : Prop := ReadsTo query (After [')']) t.toList q

theorem strip_char (c : Char) (t : String) (ht : t.toList = [c]) (cs : List Char) :
    strip t (c :: cs) = some cs := by
  have h := strip_append t cs
  rwa [ht] at h

theorem after_paren (r : List Char) : After [')'] (')' :: r) := .cons (by decide) r

theorem ends_paren (r : List Char) : After ends (')' :: r) := .cons (by decide) r

theorem readsTo_function {name : String} (h : isName name = true) {t : String}
    {ss : List Scalar} (hc : ReadsTo (closed · ')') anything (t.toList ++ [')']) ss) :
    ReadsTo atom (After stops) (name ++ "(" ++ t ++ ")").toList (.call name ss false) := by
  obtain ⟨n₀, hc⟩ := hc
  have hk := not_keyword_of_isName h
  have hu : name ≠ "udf" := fun hn => hk (hn ▸ by decide)
  have he : name ≠ "EXISTS" := fun hn => hk (hn ▸ by decide)
  have ha : name ≠ "ARRAY" := fun hn => hk (hn ▸ by decide)
  refine ⟨n₀ + 2, fun n hn r _ => ?_⟩
  obtain ⟨m, rfl⟩ : ∃ m, n = m + 2 := ⟨n - 2, by omega⟩
  have ht : (name ++ "(" ++ t ++ ")").toList ++ r =
      name.toList ++ '(' :: ((t.toList ++ [')']) ++ r) := by simp
  rw [ht, atom_word (isIdentifier_of_isName h) (head_not_word (by decide) _), named, if_neg hu,
    strip_char '(' "(" rfl]
  simp only [if_neg he, if_neg ha, hc m (by omega) r trivial, Option.bind_eq_bind,
    Option.bind_some]

theorem readsTo_udf {name : String} (h : isName name = true) {t : String}
    {ss : List Scalar} (hc : ReadsTo (closed · ')') anything (t.toList ++ [')']) ss) :
    ReadsTo atom (After stops) ("udf." ++ name ++ "(" ++ t ++ ")").toList
      (.call name ss true) := by
  obtain ⟨n₀, hc⟩ := hc
  refine ⟨n₀ + 2, fun n hn r _ => ?_⟩
  obtain ⟨m, rfl⟩ : ∃ m, n = m + 2 := ⟨n - 2, by omega⟩
  have ht : ("udf." ++ name ++ "(" ++ t ++ ")").toList ++ r =
      "udf".toList ++ '.' :: (name.toList ++ '(' :: ((t.toList ++ [')']) ++ r)) := by simp
  have hopen : ∀ c ∈ ('(' :: ((t.toList ++ [')']) ++ r)).head?, isWordChar c = false :=
    head_not_word (by decide) _
  rw [ht, atom_word (by decide) (head_not_word (by decide) _), named, if_pos rfl]
  simp only [strip_char '.' "." rfl, afterWord_append (isWordChar_of_isName h) hopen,
    word_append (isWordChar_of_isName h) hopen, strip_char '(' "(" rfl,
    hc m (by omega) r trivial, Option.bind_eq_bind, Option.bind_some]

theorem readsTo_exists {t : String} {q : Query} (hq : ReadsQuery t q) :
    ReadsTo atom (After stops) ("EXISTS(" ++ t ++ ")").toList (.exists q) := by
  obtain ⟨n₀, hq⟩ := hq
  refine ⟨n₀ + 2, fun n hn r _ => ?_⟩
  obtain ⟨m, rfl⟩ : ∃ m, n = m + 2 := ⟨n - 2, by omega⟩
  have ht : ("EXISTS(" ++ t ++ ")").toList ++ r =
      "EXISTS".toList ++ '(' :: (t.toList ++ ')' :: r) := by simp
  rw [ht, atom_word (by decide) (head_not_word (by decide) _), named, if_neg (by decide),
    strip_char '(' "(" rfl]
  simp only [if_pos, hq m (by omega) _ (after_paren r), strip_char ')' ")" rfl,
    Option.bind_eq_bind, Option.bind_some]

theorem readsTo_arrayOf {t : String} {q : Query} (hq : ReadsQuery t q) :
    ReadsTo atom (After stops) ("ARRAY(" ++ t ++ ")").toList (.arrayOf q) := by
  obtain ⟨n₀, hq⟩ := hq
  refine ⟨n₀ + 2, fun n hn r _ => ?_⟩
  obtain ⟨m, rfl⟩ : ∃ m, n = m + 2 := ⟨n - 2, by omega⟩
  have ht : ("ARRAY(" ++ t ++ ")").toList ++ r =
      "ARRAY".toList ++ '(' :: (t.toList ++ ')' :: r) := by simp
  rw [ht, atom_word (by decide) (head_not_word (by decide) _), named, if_neg (by decide),
    strip_char '(' "(" rfl]
  simp only [if_neg (show "ARRAY" ≠ "EXISTS" by decide), if_pos,
    hq m (by omega) _ (after_paren r), strip_char ')' ")" rfl,
    Option.bind_eq_bind, Option.bind_some]

theorem readsTo_array {t : String} {ss : List Scalar}
    (hc : ReadsTo (closed · ']') anything (t.toList ++ [']']) ss) :
    ReadsTo atom (After stops) ("[" ++ t ++ "]").toList (.array ss) := by
  obtain ⟨n₀, hc⟩ := hc
  refine ⟨n₀ + 1, fun n hn r _ => ?_⟩
  obtain ⟨m, rfl⟩ : ∃ m, n = m + 1 := ⟨n - 1, by omega⟩
  have ht : ("[" ++ t ++ "]").toList ++ r = '[' :: ((t.toList ++ [']']) ++ r) := by simp
  have hr : closed m ']' ((t.toList ++ [']']) ++ r) = some (ss, r) := hc m (by omega) r trivial
  rw [ht, atom, if_neg (by decide), if_neg (by decide), if_pos rfl, hr]
  rfl

theorem atom_brace (n : Nat) (cs : List Char) :
    atom (n + 1) ('\x7b' :: cs) = (members n cs).bind fun (ps, cs) => some (.object ps, cs) := by
  rw [atom, if_neg (by decide), if_neg (by decide), if_neg (by decide), if_pos rfl]
  rfl

theorem atom_paren (n : Nat) (cs : List Char) : atom (n + 1) ('(' :: cs) = group n cs := by
  rw [atom, if_neg (by decide), if_neg (by decide), if_neg (by decide), if_neg (by decide),
    if_pos rfl]

/-- A property is its quoted name and its value. -/
def property (n : Nat) (cs : List Char) : Option ((String × Scalar) × List Char) := do
  let (name, cs) ← Text.Quoted.read (← strip "\"" cs)
  let (s, cs) ← scalar n (← strip ": " cs)
  some ((String.ofList name, s), cs)

/-- The end of a chain of options can be split off if it can after the first of them. -/
theorem bind_of_forall {α β γ : Type} {x : Option α} {f : α → Option β} {g : β → Option γ}
    {k : α → Option γ} (h : ∀ a, k a = (f a).bind g) : x.bind k = (x.bind f).bind g := by
  cases x with
  | none => rfl
  | some a => exact h a

theorem quote_append (name : String) (cs : List Char) :
    (Query.quote name).toList ++ cs =
      '"' :: (Text.Quoted.encode Query.quoting name.toList ++ '"' :: cs) := by
  simp [Query.quote, Text.Quoted.write]

theorem readsTo_property {t : String} {s : Scalar} (name : String) (h : ReadsWhole t s) :
    ReadsTo property (After ends) (Query.quote name ++ ": " ++ t).toList (name, s) := by
  obtain ⟨n₀, h⟩ := h
  refine ⟨n₀, fun n hn r hr => ?_⟩
  rw [String.toList_append, String.toList_append, List.append_assoc, List.append_assoc,
    quote_append]
  simp only [property, strip_char '"' "\"" rfl, Option.bind_eq_bind, Option.bind_some,
    Text.Quoted.read_encode Text.Quoted.quoting_lawful, strip_append, h n hn r hr,
    String.ofList_toList]

/-- The properties of an object, if there is one, are in braces. -/
theorem readsTo_object {ts : List String} {ps : List (String × Scalar)}
    (h : List.Forall₂ (fun t p => ReadsTo property (After ends) t.toList p) ts ps)
    (hs : ∀ t ∈ ts.head?, t.toList.head? = some '"') :
    ReadsTo atom (After stops) ("\x7b" ++ ", ".intercalate ts ++ "\x7d").toList
      (.object ps) := by
  cases h with
  | nil =>
    refine ⟨2, fun n hn r _ => ?_⟩
    obtain ⟨m, rfl⟩ : ∃ m, n = m + 2 := ⟨n - 2, by omega⟩
    have ht : ("\x7b" ++ ", ".intercalate [] ++ "\x7d").toList ++ r = '\x7b' :: '\x7d' :: r := by
      simp
    rw [ht, atom_brace, members, strip_char '\x7d' "\x7d" rfl]
    rfl
  | @cons t p ts ps hp hps =>
    have hlist : ∀ n cs, Reader.properties (n + 1) cs = (property n cs).bind fun (a, cs) =>
        match strip ", " cs with
        | none => some ([a], cs)
        | some cs => (Reader.properties n cs).bind fun (as, cs) => some (a :: as, cs) := fun _ _ =>
      bind_of_forall fun _ => bind_of_forall fun (_, _) => bind_of_forall fun _ =>
        bind_of_forall fun (_, _) => rfl
    obtain ⟨n₀, hr₀⟩ := ReadsTo.separated hlist (fun r => closers_comma) comma_ends
      (List.Forall₂.cons hp hps) (by simp)
    refine ⟨n₀ + 2, fun n hn r _ => ?_⟩
    obtain ⟨m, rfl⟩ : ∃ m, n = m + 2 := ⟨n - 2, by omega⟩
    have ht : ("\x7b" ++ ", ".intercalate (t :: ts) ++ "\x7d").toList ++ r =
        '\x7b' :: ((", ".intercalate (t :: ts)).toList ++ '\x7d' :: r) := by simp
    have hhead : ((", ".intercalate (t :: ts)).toList ++ '\x7d' :: r).head? = some '"' := by
      have := hs t rfl
      cases ts <;> simp_all
    have hopen : strip "\x7d" ((", ".intercalate (t :: ts)).toList ++ '\x7d' :: r) = none :=
      strip_of_head (c := '\x7d') rfl fun d hd => by
        rw [hhead] at hd
        cases hd
        decide
    have hr := hr₀ m (by omega) ('\x7d' :: r) (.cons (by decide) r)
    rw [ht, atom_brace, members, hopen]
    simp only [hr, strip_char '\x7d' "\x7d" rfl, Option.bind_eq_bind, Option.bind_some]

/-! ## Parentheses -/

theorem readsTo_subquery {t : String} {q : Query} (hq : ReadsQuery t q)
    (hs : ∃ u, t.toList = "SELECT ".toList ++ u) :
    ReadsTo atom (After stops) ("(" ++ t ++ ")").toList (.subquery q) := by
  obtain ⟨n₀, hq⟩ := hq
  obtain ⟨u, hu⟩ := hs
  refine ⟨n₀ + 2, fun n hn r _ => ?_⟩
  obtain ⟨m, rfl⟩ : ∃ m, n = m + 2 := ⟨n - 2, by omega⟩
  have ht : ("(" ++ t ++ ")").toList ++ r = '(' :: (t.toList ++ ')' :: r) := by simp
  have hw : word (t.toList ++ ')' :: r) = "SELECT" := by
    rw [hu]
    exact word_append (w := "SELECT") (List.all_eq_true.mp (by decide))
      (head_not_word (c := ' ') (by decide) _)
  rw [ht, atom_paren, group, if_pos hw]
  simp only [hq m (by omega) _ (after_paren r), strip_char ')' ")" rfl,
    Option.bind_eq_bind, Option.bind_some]

theorem unaryOp_append (op : QueryUnaryOp) (cs : List Char) :
    unaryOp? (op.symbol.toList ++ ' ' :: cs) = some (op, cs) := by
  have hword : ∀ c : Char, isWordChar c = false → word (c :: ' ' :: cs) = "" := by
    intro c hc
    simp [word, hc]
  cases op with
  | not =>
    have hw : word ("NOT".toList ++ ' ' :: cs) = "NOT" :=
      word_append (List.all_eq_true.mp (by decide)) (head_not_word (by decide) cs)
    have hs : strip "NOT " ("NOT".toList ++ ' ' :: cs) = some cs := strip_append "NOT " cs
    have hop : QueryUnaryOp.not.symbol = "NOT" := rfl
    unfold unaryOp?
    rw [hop, if_pos hw, hs]
    rfl
  | bitwiseNot =>
    have hw := hword '~' (by decide)
    simp [QueryUnaryOp.symbol, unaryOp?, hw]
  | minus =>
    have hw := hword '-' (by decide)
    simp [QueryUnaryOp.symbol, unaryOp?, hw]
  | plus =>
    have hw := hword '+' (by decide)
    simp [QueryUnaryOp.symbol, unaryOp?, hw]

theorem word_unaryOp (op : QueryUnaryOp) (cs : List Char) :
    word (op.symbol.toList ++ ' ' :: cs) ≠ "SELECT" := by
  cases op with
  | not =>
    have hw : word ("NOT".toList ++ ' ' :: cs) = "NOT" :=
      word_append (List.all_eq_true.mp (by decide)) (head_not_word (by decide) cs)
    have hop : QueryUnaryOp.not.symbol = "NOT" := rfl
    rw [hop, hw]
    decide
  | _ => simp [QueryUnaryOp.symbol, word, isWordChar, isNameStart]

theorem readsTo_unary (op : QueryUnaryOp) {t : String} {s : Scalar} (h : ReadsWhole t s) :
    ReadsTo atom (After stops) ("(" ++ op.symbol ++ " " ++ t ++ ")").toList (.unary op s) := by
  obtain ⟨n₀, h⟩ := h
  refine ⟨n₀ + 2, fun n hn r _ => ?_⟩
  obtain ⟨m, rfl⟩ : ∃ m, n = m + 2 := ⟨n - 2, by omega⟩
  have ht : ("(" ++ op.symbol ++ " " ++ t ++ ")").toList ++ r =
      '(' :: (op.symbol.toList ++ ' ' :: (t.toList ++ ')' :: r)) := by simp
  rw [ht, atom_paren, group, if_neg (word_unaryOp op _), unaryOp_append]
  simp only [h m (by omega) _ (ends_paren r), strip_char ')' ")" rfl,
    Option.bind_eq_bind, Option.bind_some]

/-- A scalar in parentheses is the first operand of an operation. -/
theorem group_of_starts {cs : List Char} (h : Starts cs) (n : Nat) :
    group (n + 1) cs = (scalar n cs).bind fun (left, cs) =>
      (strip " " cs).bind (operation n left) := by
  rw [group, if_neg h.not_select, h.not_unary]
  rfl

/-- What follows the first operand, up to the closing parenthesis. -/
theorem ReadsTo.parenthesized {lt t : String} {left s : Scalar} (hl : ReadsWhole lt left)
    (hs : ∀ r, After ends r → Starts (lt.toList ++ r))
    (ho : ReadsTo (operation · left) anything (t.toList ++ [')']) s) :
    ReadsTo atom (After stops) ("(" ++ lt ++ " " ++ t ++ ")").toList s := by
  obtain ⟨n₀, hl⟩ := hl
  obtain ⟨n₁, ho⟩ := ho
  refine ⟨n₀ + n₁ + 2, fun n hn r _ => ?_⟩
  obtain ⟨m, rfl⟩ : ∃ m, n = m + 2 := ⟨n - 2, by omega⟩
  have ht : ("(" ++ lt ++ " " ++ t ++ ")").toList ++ r =
      '(' :: (lt.toList ++ ' ' :: ((t.toList ++ [')']) ++ r)) := by simp
  have hblank : After ends (' ' :: ((t.toList ++ [')']) ++ r)) := .cons (by decide) _
  rw [ht, atom_paren, group_of_starts (hs _ hblank), hl m (by omega) _ hblank]
  simp only [Option.bind_some, strip_char ' ' " " rfl]
  exact ho m (by omega) r trivial

/-- The symbol of an operation and the blank after it. -/
theorem operation_symbol {w : String} (hw : w.toList.all (· != ' ') = true) (cs : List Char) :
    String.ofList ((w.toList ++ ' ' :: cs).takeWhile (· != ' ')) = w ∧
      (w.toList ++ ' ' :: cs).dropWhile (· != ' ') = ' ' :: cs := by
  have hb : ∀ c ∈ (' ' :: cs).head?, (c != ' ') = false := fun c hc => by
    obtain rfl : ' ' = c := by simpa using hc
    rfl
  have hw := List.all_eq_true.mp hw
  rw [takeWhile_append hw hb, dropWhile_append hw hb]
  exact ⟨String.ofList_toList, rfl⟩

theorem readsTo_binary (op : QueryBinaryOp) (left : Scalar) {t : String} {right : Scalar}
    (h : ReadsWhole t right) :
    ReadsTo (operation · left) anything ((op.symbol ++ " " ++ t).toList ++ [')'])
      (.binary op left right) := by
  obtain ⟨n₀, h⟩ := h
  refine ⟨n₀ + 1, fun n hn r _ => ?_⟩
  obtain ⟨m, rfl⟩ : ∃ m, n = m + 1 := ⟨n - 1, by omega⟩
  have ht : ((op.symbol ++ " " ++ t).toList ++ [')']) ++ r =
      op.symbol.toList ++ ' ' :: (t.toList ++ ')' :: r) := by simp
  obtain ⟨hs, hd⟩ := operation_symbol (w := op.symbol) (by cases op <;> decide)
    (t.toList ++ ')' :: r)
  have hne : op.symbol ≠ "?" ∧ op.symbol ≠ "IN" ∧ op.symbol ≠ "NOT" := by cases op <;> decide
  have hop : binaryOp? op.symbol = some op := by cases op <;> rfl
  show operation (m + 1) left _ = _
  rw [ht, operation]
  simp only [hs, hd, strip_char ' ' " " rfl, if_neg hne.1, if_neg hne.2.1, if_neg hne.2.2, hop,
    h m (by omega) _ (ends_paren r), strip_char ')' ")" rfl, Option.bind_eq_bind,
    Option.bind_some]

theorem readsTo_conditional (test : Scalar) {t₁ t₂ : String} {s₁ s₂ : Scalar}
    (h₁ : ReadsWhole t₁ s₁) (h₂ : ReadsWhole t₂ s₂) :
    ReadsTo (operation · test) anything (("? " ++ t₁ ++ " : " ++ t₂).toList ++ [')'])
      (.conditional test s₁ s₂) := by
  obtain ⟨n₁, h₁⟩ := h₁
  obtain ⟨n₂, h₂⟩ := h₂
  refine ⟨n₁ + n₂ + 1, fun n hn r _ => ?_⟩
  obtain ⟨m, rfl⟩ : ∃ m, n = m + 1 := ⟨n - 1, by omega⟩
  have ht : (("? " ++ t₁ ++ " : " ++ t₂).toList ++ [')']) ++ r =
      "?".toList ++ ' ' :: (t₁.toList ++ (" : ".toList ++ (t₂.toList ++ ')' :: r))) := by simp
  obtain ⟨hs, hd⟩ := operation_symbol (w := "?") (by decide)
    (t₁.toList ++ (" : ".toList ++ (t₂.toList ++ ')' :: r)))
  have hcolon : After ends (" : ".toList ++ (t₂.toList ++ ')' :: r)) := .cons (by decide) _
  show operation (m + 1) test _ = _
  rw [ht, operation]
  simp only [hs, hd, strip_char ' ' " " rfl, if_pos, h₁ m (by omega) _ hcolon, strip_append,
    h₂ m (by omega) _ (ends_paren r), strip_char ')' ")" rfl, Option.bind_eq_bind,
    Option.bind_some]

theorem readsTo_isIn (item : Scalar) (negated : Bool) {t : String} {ss : List Scalar}
    (hc : ReadsTo (closed · ')') anything (t.toList ++ [')']) ss) :
    ReadsTo (operation · item) anything
      (((if negated then "NOT " else "") ++ "IN (" ++ t ++ ")").toList ++ [')'])
      (.isIn item ss negated) := by
  obtain ⟨n₀, hc⟩ := hc
  refine ⟨n₀ + 1, fun n hn r _ => ?_⟩
  obtain ⟨m, rfl⟩ : ∃ m, n = m + 1 := ⟨n - 1, by omega⟩
  have hr : closed m ')' ((t.toList ++ [')']) ++ ')' :: r) = some (ss, ')' :: r) :=
    hc m (by omega) _ trivial
  show operation (m + 1) item _ = _
  cases negated with
  | false =>
    have ht : (((if false then "NOT " else "") ++ "IN (" ++ t ++ ")").toList ++ [')']) ++ r =
        "IN".toList ++ ' ' :: ('(' :: ((t.toList ++ [')']) ++ ')' :: r)) := by simp
    obtain ⟨hs, hd⟩ := operation_symbol (w := "IN") (by decide)
      ('(' :: ((t.toList ++ [')']) ++ ')' :: r))
    rw [ht, operation]
    simp only [hs, hd, strip_char ' ' " " rfl, if_neg (show "IN" ≠ "?" by decide), if_pos,
      strip_char '(' "(" rfl, hr, strip_char ')' ")" rfl, Option.bind_eq_bind, Option.bind_some]
  | true =>
    have ht : (((if true then "NOT " else "") ++ "IN (" ++ t ++ ")").toList ++ [')']) ++ r =
        "NOT".toList ++ ' ' :: ("IN (".toList ++ ((t.toList ++ [')']) ++ ')' :: r)) := by simp
    obtain ⟨hs, hd⟩ := operation_symbol (w := "NOT") (by decide)
      ("IN (".toList ++ ((t.toList ++ [')']) ++ ')' :: r))
    rw [ht, operation]
    simp only [hs, hd, strip_char ' ' " " rfl, if_neg (show "NOT" ≠ "?" by decide),
      if_neg (show "NOT" ≠ "IN" by decide), if_pos, strip_append, hr, strip_char ')' ")" rfl,
      Option.bind_eq_bind, Option.bind_some]

end Reader

end LambdaQuery
