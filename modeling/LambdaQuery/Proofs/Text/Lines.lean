import LambdaQuery.Proofs.Text.Words
import LambdaQuery.Query.Printer
import Mathlib

/-!
# Lines of a query

`Query.pretty` writes a clause a line, which tells the clauses apart only if no clause has a line
break inside. Strings and keys of objects may hold any character, but line breaks are escaped in
them; what is written as it stands are the words of the query (`Query.words`): names of sources,
of functions and of parameters. Main statement: `Query.lines_pretty`.
-/

set_option autoImplicit false

namespace LambdaQuery

/-! ## Words of a query -/

def Count.words : Count → List String
  | .literal _ => []
  | .parameter name => [name]

/-- The words of a number of rows that may be missing. -/
def Count.optionalWords : Option Count → List String
  | none => []
  | some count => count.words

mutual

/-- The names of sources, functions and parameters that the scalar is written with. -/
def Scalar.words : Scalar → List String
  | .literal _ => []
  | .ref name | .parameter name => [name]
  | .index object key => object.words ++ key.words
  | .binary _ left right => left.words ++ right.words
  | .unary _ operand => operand.words
  | .call name args _ => name :: Scalar.listWords args
  | .array items => Scalar.listWords items
  | .object properties => Scalar.propertyWords properties
  | .conditional test ifTrue ifFalse => test.words ++ ifTrue.words ++ ifFalse.words
  | .isIn item items _ => item.words ++ Scalar.listWords items
  | .exists query | .arrayOf query | .subquery query => query.words

def Scalar.listWords : List Scalar → List String
  | [] => []
  | s :: ss => s.words ++ Scalar.listWords ss

def Scalar.propertyWords : List (String × Scalar) → List String
  | [] => []
  | (_, s) :: ps => s.words ++ Scalar.propertyWords ps

def Projection.words : Projection → List String
  | .star => []
  | .value value => value.words

def Selection.words : Selection → List String
  | ⟨projection, _, top⟩ => projection.words ++ Count.optionalWords top

def Source.words : Source → List String
  | .container name => [name]
  | .items name path => name :: path.words
  | .subquery name query => name :: query.words

def Source.listWords : List Source → List String
  | [] => []
  | s :: ss => s.words ++ Source.listWords ss

def SortKey.words : SortKey → List String
  | ⟨value, _⟩ => value.words

def SortKey.listWords : List SortKey → List String
  | [] => []
  | k :: ks => k.words ++ SortKey.listWords ks

def Query.filterWords : Option Scalar → List String
  | none => []
  | some filter => filter.words

/-- The names of sources, functions and parameters that the query is written with, in the clauses
of the query and of those inside it. -/
def Query.words : Query → List String
  | ⟨selection, sources, filter, groupBy, orderBy, offset, limit⟩ =>
    selection.words ++ Source.listWords sources ++ Query.filterWords filter ++
      Scalar.listWords groupBy ++ SortKey.listWords orderBy ++ Count.optionalWords offset ++
        Count.optionalWords limit

end

/-! ## Texts on one line -/

/-- The text has no line break. -/
def OneLine (s : String) : Prop := '\n' ∉ s.toList

@[simp]
theorem oneLine_append {s t : String} : OneLine (s ++ t) ↔ OneLine s ∧ OneLine t := by
  simp [OneLine]

/-- A fixed text is on one line if its characters say so. -/
theorem oneLine_fixed {s : String} (h : s.toList.all (· != '\n') = true) : OneLine s := by
  intro hs
  simpa using List.all_eq_true.mp h _ hs

theorem oneLine_intercalate {separator : String} (h : OneLine separator) :
    ∀ {ss : List String}, (∀ s ∈ ss, OneLine s) → OneLine (separator.intercalate ss)
  | [], _ => by simp [OneLine]
  | [s], hs => by simpa using hs
  | s :: t :: ss, hs => by
    rw [String.intercalate_cons_cons, oneLine_append, oneLine_append]
    exact ⟨⟨hs s (by simp), h⟩, oneLine_intercalate h fun u hu => hs u (List.mem_cons_of_mem _ hu)⟩

theorem oneLine_list {ss : List String} (h : ∀ s ∈ ss, OneLine s) :
    OneLine (", ".intercalate ss) := oneLine_intercalate (oneLine_fixed (by simp)) h

theorem oneLine_nested {ss : List String} (h : ∀ s ∈ ss, OneLine s) :
    OneLine (" ".intercalate ss) := oneLine_intercalate (oneLine_fixed (by simp)) h

/-- No hexadecimal digit is a line break. -/
theorem newline_ne_hexDigit {n : Nat} (h : n < 16) : '\n' ≠ Text.Quoted.hexDigit n := by
  have hall : ∀ n : Fin 16, '\n' ≠ Text.Quoted.hexDigit n := by decide
  exact hall ⟨n, h⟩

/-- A character of a string is written without a line break: the line break has an escape. -/
theorem newline_not_mem_encodeChar (c : Char) :
    '\n' ∉ Text.Quoted.encodeChar Query.quoting c := by
  unfold Text.Quoted.encodeChar
  cases hshort : Query.quoting.short c with
  | some letter =>
    simp only [Query.quoting] at hshort
    split at hshort <;> cases hshort <;> decide
  | none =>
    have hc : c ≠ '\n' := by
      rintro rfl
      cases hshort
    dsimp only
    split
    · have hdigit := fun n : Nat => newline_ne_hexDigit (Nat.mod_lt n (by decide : 0 < 16))
      simp only [Text.Quoted.hex4, List.mem_cons, List.not_mem_nil, or_false, not_or]
      exact ⟨by decide, by decide, hdigit _, hdigit _, hdigit _, hdigit _⟩
    · simpa using hc.symm

theorem oneLine_quote (s : String) : OneLine (Query.quote s) := by
  have hencode : '\n' ∉ Text.Quoted.encode Query.quoting s.toList := by
    simp only [Text.Quoted.encode, List.mem_flatMap, not_exists, not_and]
    exact fun c _ => newline_not_mem_encodeChar c
  simp [OneLine, Query.quote, Text.Quoted.write, hencode]

theorem newline_not_mem_toDigits (n : Nat) : '\n' ∉ Nat.toDigits 10 n :=
  fun h => absurd (Reader.isDigit_toDigits n _ h) (by decide)

theorem oneLine_integer (n : Int64) : OneLine (toString n) := by
  have hdigits := newline_not_mem_toDigits n.toInt.natAbs
  rw [OneLine, Reader.toList_toString]
  split <;> simp [hdigits]

/-- Digits are placed among zeros, points, signs and the letter of the exponent. -/
theorem newline_not_mem_place (layout : Shortest.Layout) {ds : List Char} (h : '\n' ∉ ds)
    (lead : Int) : '\n' ∉ layout.place ds lead := by
  have htake : ∀ n, '\n' ∉ ds.take n := fun n hn => h (List.mem_of_mem_take hn)
  have hdrop : ∀ n, '\n' ∉ ds.drop n := fun n hn => h (List.mem_of_mem_drop hn)
  have hexponent := newline_not_mem_toDigits lead.natAbs
  unfold Shortest.Layout.place
  dsimp only
  split
  · split
    · simp [h]
    · split
      · split <;> simp [h]
      · simp [htake, hdrop]
  · split
    · rename_i d e rest
      simp only [List.mem_cons, not_or] at h
      split <;> simp [h, hexponent]
    · split <;> simp [h, hexponent]

theorem oneLine_double (layout : Shortest.Layout) (x : Float) : OneLine (layout.write x) := by
  have hmagnitude : ∀ m e, '\n' ∉ layout.magnitude m e := by
    intro m e
    unfold Shortest.Layout.magnitude
    split
    · exact newline_not_mem_place layout (by decide) 0
    · exact newline_not_mem_place layout (newline_not_mem_toDigits _) _
  unfold Shortest.Layout.write OneLine
  split
  · simp
  · split <;> simp
  · split <;> simp [hmagnitude]

theorem Literal.oneLine_text (l : Literal) : OneLine l.text := by
  cases l with
  | null | undefined => simp [OneLine, Literal.text]
  | boolean b => cases b <;> simp [OneLine, Literal.text]
  | integer n => exact oneLine_integer n
  | double x => exact oneLine_double _ x
  | string s => exact oneLine_quote s

theorem QueryBinaryOp.oneLine_symbol (op : QueryBinaryOp) : OneLine op.symbol := by
  cases op <;> simp [OneLine, QueryBinaryOp.symbol]

theorem QueryUnaryOp.oneLine_symbol (op : QueryUnaryOp) : OneLine op.symbol := by
  cases op <;> simp [OneLine, QueryUnaryOp.symbol]

theorem Count.oneLine_text {c : Count} (h : ∀ w ∈ c.words, OneLine w) : OneLine c.text := by
  cases c with
  | literal n => exact oneLine_integer n
  | parameter name => exact h name (by simp [Count.words])

/-! ## Clauses on one line -/

theorem Query.oneLine_window {offset limit : Option Count}
    (ho : ∀ w ∈ Count.optionalWords offset, OneLine w)
    (hl : ∀ w ∈ Count.optionalWords limit, OneLine w) :
    ∀ s ∈ Query.window offset limit, OneLine s := by
  have hcount : ∀ {c : Option Count} (n : Int64), (∀ w ∈ Count.optionalWords c, OneLine w) →
      OneLine (c.getD (.literal n)).text := by
    intro c n h
    cases c with
    | none => exact oneLine_integer n
    | some c => exact Count.oneLine_text h
  unfold Query.window
  split
  · simp
  · have hoffset : OneLine "OFFSET " := by simp [OneLine]
    have hlimit : OneLine " LIMIT " := by simp [OneLine]
    simp [hcount _ ho, hcount _ hl, hoffset, hlimit]

mutual

/-- A scalar whose words are on one line is on one line, with all queries inside it. -/
theorem Scalar.oneLine_text : ∀ {s : Scalar}, (∀ w ∈ s.words, OneLine w) → OneLine s.text
  | .literal value, _ => value.oneLine_text
  | .ref name, h | .parameter name, h => h name (by simp [Scalar.words])
  | .index o k, h => by
    obtain ⟨ho, hk⟩ := List.forall_mem_append.mp h
    rw [Scalar.text]
    simp [Scalar.oneLine_text ho, Scalar.oneLine_text hk, oneLine_fixed]
  | .binary op left right, h => by
    obtain ⟨hl, hr⟩ := List.forall_mem_append.mp h
    rw [Scalar.text]
    simp [Scalar.oneLine_text hl, Scalar.oneLine_text hr, op.oneLine_symbol, oneLine_fixed]
  | .unary op operand, h => by
    rw [Scalar.text]
    simp [Scalar.oneLine_text (s := operand) h, op.oneLine_symbol, oneLine_fixed]
  | .call name args udf, h => by
    obtain ⟨hname, hargs⟩ := List.forall_mem_cons.mp h
    rw [Scalar.text]
    cases udf <;> simp [hname, oneLine_list (Scalar.oneLine_texts hargs), oneLine_fixed]
  | .array items, h => by
    have hitems : ∀ s ∈ Scalar.texts items, OneLine s := Scalar.oneLine_texts h
    rw [Scalar.text]
    simp [oneLine_list hitems, oneLine_fixed]
  | .object properties, h => by
    have hproperties : ∀ s ∈ Scalar.propertyTexts properties, OneLine s :=
      Scalar.oneLine_propertyTexts h
    rw [Scalar.text]
    simp [oneLine_list hproperties, oneLine_fixed]
  | .conditional test ifTrue ifFalse, h => by
    obtain ⟨h, hf⟩ := List.forall_mem_append.mp h
    obtain ⟨ht, hi⟩ := List.forall_mem_append.mp h
    rw [Scalar.text]
    simp [Scalar.oneLine_text ht, Scalar.oneLine_text hi, Scalar.oneLine_text hf, oneLine_fixed]
  | .isIn item items negated, h => by
    obtain ⟨hitem, hitems⟩ := List.forall_mem_append.mp h
    rw [Scalar.text]
    cases negated <;>
      simp [Scalar.oneLine_text hitem, oneLine_list (Scalar.oneLine_texts hitems), oneLine_fixed]
  | .exists query, h => by
    rw [Scalar.text]
    simp [oneLine_nested (Query.oneLine_clauses (q := query) h), oneLine_fixed]
  | .arrayOf query, h => by
    rw [Scalar.text]
    simp [oneLine_nested (Query.oneLine_clauses (q := query) h), oneLine_fixed]
  | .subquery query, h => by
    rw [Scalar.text]
    simp [oneLine_nested (Query.oneLine_clauses (q := query) h), oneLine_fixed]

theorem Scalar.oneLine_texts : ∀ {ss : List Scalar},
    (∀ w ∈ Scalar.listWords ss, OneLine w) → ∀ s ∈ Scalar.texts ss, OneLine s
  | [], _ => by simp [Scalar.texts]
  | s :: ss, h => by
    obtain ⟨hs, hss⟩ := List.forall_mem_append.mp h
    exact List.forall_mem_cons.mpr ⟨Scalar.oneLine_text hs, Scalar.oneLine_texts hss⟩

theorem Scalar.oneLine_propertyTexts : ∀ {ps : List (String × Scalar)},
    (∀ w ∈ Scalar.propertyWords ps, OneLine w) → ∀ s ∈ Scalar.propertyTexts ps, OneLine s
  | [], _ => by simp [Scalar.propertyTexts]
  | (name, s) :: ps, h => by
    obtain ⟨hs, hps⟩ := List.forall_mem_append.mp h
    refine List.forall_mem_cons.mpr ⟨?_, Scalar.oneLine_propertyTexts hps⟩
    simp [oneLine_quote name, Scalar.oneLine_text hs, oneLine_fixed]

theorem Projection.oneLine_text : ∀ {p : Projection},
    (∀ w ∈ p.words, OneLine w) → OneLine p.text
  | .star, _ => oneLine_fixed (by simp [Projection.text])
  | .value value, h => by
    rw [Projection.text]
    simp [Scalar.oneLine_text (s := value) h, oneLine_fixed]

theorem Selection.oneLine_text : ∀ {s : Selection},
    (∀ w ∈ s.words, OneLine w) → OneLine s.text
  | ⟨projection, distinct, top⟩, h => by
    obtain ⟨hprojection, htop⟩ := List.forall_mem_append.mp h
    have hdistinct : OneLine (if distinct then "DISTINCT " else "") := by
      cases distinct <;> exact oneLine_fixed (by simp)
    cases top with
    | none => simp [Selection.text, Projection.oneLine_text hprojection, hdistinct, oneLine_fixed]
    | some count =>
      simp [Selection.text, Projection.oneLine_text hprojection, Count.oneLine_text htop,
        hdistinct, oneLine_fixed]

theorem Source.oneLine_text : ∀ {s : Source}, (∀ w ∈ s.words, OneLine w) → OneLine s.text
  | .container name, h => h name (by simp [Source.words])
  | .items name path, h => by
    obtain ⟨hname, hpath⟩ := List.forall_mem_cons.mp h
    rw [Source.text]
    simp [hname, Scalar.oneLine_text hpath, oneLine_fixed]
  | .subquery name query, h => by
    obtain ⟨hname, hquery⟩ := List.forall_mem_cons.mp h
    rw [Source.text]
    simp [hname, oneLine_nested (Query.oneLine_clauses hquery), oneLine_fixed]

theorem Source.oneLine_texts : ∀ {ss : List Source},
    (∀ w ∈ Source.listWords ss, OneLine w) → ∀ s ∈ Source.texts ss, OneLine s
  | [], _ => by simp [Source.texts]
  | s :: ss, h => by
    obtain ⟨hs, hss⟩ := List.forall_mem_append.mp h
    exact List.forall_mem_cons.mpr ⟨Source.oneLine_text hs, Source.oneLine_texts hss⟩

theorem SortKey.oneLine_text : ∀ {k : SortKey}, (∀ w ∈ k.words, OneLine w) → OneLine k.text
  | ⟨value, descending⟩, h => by
    rw [SortKey.text]
    cases descending <;> simp [Scalar.oneLine_text (s := value) h, oneLine_fixed]

theorem SortKey.oneLine_texts : ∀ {ks : List SortKey},
    (∀ w ∈ SortKey.listWords ks, OneLine w) → ∀ s ∈ SortKey.texts ks, OneLine s
  | [], _ => by simp [SortKey.texts]
  | k :: ks, h => by
    obtain ⟨hk, hks⟩ := List.forall_mem_append.mp h
    exact List.forall_mem_cons.mpr ⟨SortKey.oneLine_text hk, SortKey.oneLine_texts hks⟩

/-- The clauses of a query whose words are on one line are each on one line. -/
theorem Query.oneLine_clauses : ∀ {q : Query},
    (∀ w ∈ q.words, OneLine w) → ∀ c ∈ q.clauses, OneLine c
  | ⟨selection, sources, filter, groupBy, orderBy, offset, limit⟩, h => by
    simp only [Query.words, List.forall_mem_append] at h
    obtain ⟨⟨⟨⟨⟨⟨hselection, hsources⟩, hfilter⟩, hgroupBy⟩, horderBy⟩, hoffset⟩, hlimit⟩ := h
    have hjoin : OneLine " JOIN " := oneLine_fixed (by simp)
    simp only [Query.clauses, List.forall_mem_cons, List.forall_mem_append]
    refine ⟨Selection.oneLine_text hselection, ?_, ⟨⟨?_, ?_⟩, ?_⟩,
      Query.oneLine_window hoffset hlimit⟩
    · simp [oneLine_intercalate hjoin (Source.oneLine_texts hsources), oneLine_fixed]
    · cases filter with
      | none => simp [Query.filterClause]
      | some filter =>
        simp [Query.filterClause, Scalar.oneLine_text (s := filter) hfilter, oneLine_fixed]
    · split <;> simp [oneLine_list (Scalar.oneLine_texts hgroupBy), oneLine_fixed]
    · split <;> simp [oneLine_list (SortKey.oneLine_texts horderBy), oneLine_fixed]

end

/-! ## The two texts -/

/-- The clauses that a query is written with: two that every query has, and one for each part that
it may have. Offset and limit are one part. -/
def Query.clauseCount (q : Query) : Nat :=
  2 + (if q.filter.isSome then 1 else 0) + (if q.groupBy.isEmpty then 0 else 1) +
    (if q.orderBy.isEmpty then 0 else 1) + (if q.offset.isSome || q.limit.isSome then 1 else 0)

theorem Query.length_clauses (q : Query) : q.clauses.length = q.clauseCount := by
  obtain ⟨selection, sources, filter, groupBy, orderBy, offset, limit⟩ := q
  have hfilter : (Query.filterClause filter).length = if filter.isSome then 1 else 0 := by
    cases filter <;> rfl
  have hwindow : (Query.window offset limit).length =
      if offset.isSome || limit.isSome then 1 else 0 := by
    cases offset <;> cases limit <;> rfl
  have hlist : ∀ {b : Bool} {c : String},
      (if b then [] else [c]).length = if b then 0 else 1 := by
    intro b c
    cases b <;> rfl
  rw [Query.clauses, Query.clauseCount]
  simp only [List.length_cons, List.length_append, hfilter, hwindow, hlist]
  omega

/-- The text with a space in the place of each line break. -/
def joinLines (s : String) : String := s.map fun c => if c = '\n' then ' ' else c

theorem joinLines_append (s t : String) : joinLines (s ++ t) = joinLines s ++ joinLines t := by
  apply String.toList_inj.mp
  simp [joinLines]

theorem joinLines_of_oneLine {s : String} (h : OneLine s) : joinLines s = s := by
  apply String.toList_inj.mp
  rw [joinLines, String.toList_map]
  refine (List.map_congr_left fun c hc => ?_).trans (List.map_id _)
  have hne : c ≠ '\n' := by
    rintro rfl
    exact h hc
  simp [hne]

/-- Texts on one line that line breaks separate are separated by spaces instead. -/
theorem joinLines_intercalate : ∀ {ss : List String}, (∀ s ∈ ss, OneLine s) →
    joinLines ("\n".intercalate ss) = " ".intercalate ss
  | [], _ => String.toList_inj.mp (by simp [joinLines])
  | [s], h => by
    rw [String.intercalate_singleton, String.intercalate_singleton]
    exact joinLines_of_oneLine (h s (by simp))
  | s :: t :: ss, h => by
    obtain ⟨hs, hss⟩ := List.forall_mem_cons.mp h
    have hbreak : joinLines "\n" = " " := String.toList_inj.mp (by simp [joinLines])
    rw [String.intercalate_cons_cons, String.intercalate_cons_cons, joinLines_append,
      joinLines_append, joinLines_of_oneLine hs, hbreak, joinLines_intercalate hss]

/-- **The two texts of a query are one query, on one line and on several.** Where no name has a
line break, spaces in the place of the line breaks of the pretty text give the text on one line.
The lines of the pretty text are the clauses of the query itself, whatever strings, keys and nested
queries they hold. -/
theorem Query.lines_pretty {q : Query} (h : ∀ w ∈ q.words, OneLine w) :
    joinLines q.pretty = q.text ∧
      (q.pretty.toList.splitOn '\n').map String.ofList = q.clauses ∧
        q.clauses.length = q.clauseCount := by
  have hclauses := Query.oneLine_clauses h
  refine ⟨joinLines_intercalate hclauses, ?_, q.length_clauses⟩
  have hsplit : q.pretty.toList.splitOn '\n' = q.clauses.map String.toList := by
    rw [Query.pretty, String.toList_intercalate]
    refine List.splitOn_intercalate '\n' ?_ ?_
    · simpa [OneLine] using hclauses
    · have hcount := q.length_clauses
      intro hnil
      rw [List.map_eq_nil_iff.mp hnil, Query.clauseCount] at hcount
      simp at hcount
      omega
  rw [hsplit, List.map_map]
  exact (List.map_congr_left fun c _ => String.ofList_toList).trans (List.map_id _)

/-- Line breaks in a key, in a string and in a nested query leave the query at its four lines. -/
theorem Query.lines_pretty_nested :
    let items : Source := .items "i" ((Scalar.ref "r").property "Items\n")
    let nested : Query :=
      ⟨.ofValue (.integer 1), [items], some (.equal (.ref "i") (.string "a\nb")), [], [], none,
        none⟩
    let q : Query :=
      ⟨.ofValue (.object [("Key\n", .ref "r")]), [.container "r"], some (.exists nested), [], [],
        none, some (.parameter "@n")⟩
    q.text = "SELECT VALUE \x7b\"Key\\n\": r\x7d FROM r WHERE EXISTS(SELECT VALUE 1 FROM i IN " ++
        "r[\"Items\\n\"] WHERE (i = \"a\\nb\")) OFFSET 0 LIMIT @n" ∧
      joinLines q.pretty = q.text ∧ (q.pretty.toList.splitOn '\n').length = 4 := by
  intro items nested q
  have hwords : ∀ w ∈ q.words, OneLine w := by
    have hlist : q.words = ["r", "r", "i", "r", "i", "@n"] := rfl
    rw [hlist]
    simp [OneLine]
  obtain ⟨hjoin, hlines, hlength⟩ := Query.lines_pretty hwords
  refine ⟨by cbv, hjoin, ?_⟩
  rw [← List.length_map String.ofList, hlines, hlength]
  rfl

end LambdaQuery
