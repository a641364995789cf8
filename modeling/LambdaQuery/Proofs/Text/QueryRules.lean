import LambdaQuery.Proofs.Text.ScalarRules

/-!
# Reading queries back, rule by rule

A clause is read in front of the clauses that may come after it (`Clauses`), so that an absent one
is told from all of them by the word it would start with. `readsTo_query` puts the clauses together.
-/

set_option autoImplicit false

namespace LambdaQuery

namespace Reader

/-! ## Clauses -/

/-- The query ends, or one of the given clauses follows. -/
def Clauses (ws : List String) (r : List Char) : Prop :=
  After [')'] r ∨ ∃ w ∈ ws, ∃ rest, r = w.toList ++ rest

theorem Clauses.closers {ws : List String} {r : List Char} (h : Clauses ws r)
    (hw : ∀ w ∈ ws, w.toList.head? = some ' ') : After closers r := by
  rcases h with h | ⟨w, hm, rest, rfl⟩
  · exact h.mono (by simp [Reader.closers])
  · obtain ⟨c, hc⟩ : ∃ cs, w.toList = ' ' :: cs := by
      have := hw w hm
      cases hl : w.toList with
      | nil => simp [hl] at this
      | cons d ds => exact ⟨ds, by simp_all⟩
    rw [hc]
    exact .cons (by decide) _

/-- A clause that is none of those that follow is absent. -/
theorem Clauses.strip_eq_none {ws : List String} {r : List Char} (h : Clauses ws r) {t : String}
    {cs : List Char} (ht : t.toList = ' ' :: cs)
    (hw : ∀ w ∈ ws, ∀ rest, strip t (w.toList ++ rest) = none) : strip t r = none := by
  rcases h with h | ⟨w, hm, rest, rfl⟩
  · exact h.strip_eq_none ht (by decide)
  · exact hw w hm rest

/-- Clauses with a blank before each. -/
def clauseText (cs : List String) : List Char := cs.flatMap fun c => ' ' :: c.toList

theorem clauseText_nil : clauseText [] = [] := rfl

theorem clauseText_singleton (w t : String) :
    clauseText [w ++ t] = (" " ++ w).toList ++ t.toList := by
  simp [clauseText]

def groupClause (groupBy : List Scalar) : List String :=
  if groupBy.isEmpty then [] else ["GROUP BY " ++ ", ".intercalate (Scalar.texts groupBy)]

def orderClause (orderBy : List SortKey) : List String :=
  if orderBy.isEmpty then [] else ["ORDER BY " ++ ", ".intercalate (SortKey.texts orderBy)]

theorem toList_join (c : String) (cs : List String) :
    (" ".intercalate (c :: cs)).toList = c.toList ++ clauseText cs := by
  induction cs generalizing c with
  | nil => simp [clauseText]
  | cons d cs ih =>
    rw [String.intercalate_cons_cons, String.toList_append, String.toList_append, ih d]
    simp [clauseText]

/-- The clauses of a query one after another. -/
theorem toList_text (selection : Selection) (sources : List Source) (filter : Option Scalar)
    (groupBy : List Scalar) (orderBy : List SortKey) (offset limit : Option Count) :
    (Query.text ⟨selection, sources, filter, groupBy, orderBy, offset, limit⟩).toList =
      selection.text.toList ++ (" FROM ".toList ++
        ((" JOIN ".intercalate (Source.texts sources)).toList ++
          (clauseText (Query.filterClause filter) ++ (clauseText (groupClause groupBy) ++
            (clauseText (orderClause orderBy) ++ clauseText (Query.window offset limit)))))) := by
  rw [Query.text, Query.clauses, toList_join]
  generalize " JOIN ".intercalate (Source.texts sources) = t
  simp only [clauseText, groupClause, orderClause, List.flatMap_cons, List.flatMap_append,
    String.toList_append, List.append_assoc]
  rfl

/-! ### Windows -/

theorem clauses_window (offset limit : Option Count) {r : List Char} (h : After [')'] r) :
    Clauses [" OFFSET "] (clauseText (Query.window offset limit) ++ r) := by
  unfold Query.window
  split
  · exact .inl h
  · rw [String.append_assoc, String.append_assoc, clauseText_singleton]
    exact .inr ⟨_, List.mem_singleton_self _, _, List.append_assoc ..⟩

theorem window_append {offset limit : Option Count} (ho : ∀ c ∈ offset, c.Readable)
    (hl : ∀ c ∈ limit, c.Readable) {r : List Char} (h : After [')'] r) :
    window (clauseText (Query.window offset limit) ++ r) =
      some (Query.windowOf offset limit, r) := by
  have hr : ∀ c ∈ r.head?, isWordChar c = false :=
    (h.mono (show [')'] ⊆ stops by decide)).not_word
  have hoff : (offset.getD (.literal 0)).Readable := by
    cases offset with
    | none =>
      simp only [Option.getD_none, Count.Readable]
      decide
    | some c => exact ho c rfl
  have hlim : (limit.getD (.literal Query.unlimited)).Readable := by
    cases limit with
    | none =>
      simp only [Option.getD_none, Count.Readable]
      decide
    | some c => exact hl c rfl
  unfold Query.window Query.windowOf
  split
  · have hs : strip " OFFSET " r = none := h.strip_eq_none (c := ' ') rfl (by decide)
    simp [clauseText_nil, window, hs]
  · have hc := count_append hoff (r := " LIMIT ".toList ++
      ((limit.getD (.literal Query.unlimited)).text.toList ++ r)) (head_not_word (by decide) _)
    have ht : ∀ t u : String, clauseText ["OFFSET " ++ t ++ " LIMIT " ++ u] ++ r =
        " OFFSET ".toList ++ (t.toList ++ (" LIMIT ".toList ++ (u.toList ++ r))) := by
      intro t u
      simp [clauseText]
    rw [ht, window, strip_append]
    simp only [hc, strip_append, count_append hlim hr, Option.bind_eq_bind, Option.bind_some]

/-! ### Orderings and groupings -/

/-- A key is a scalar and its direction. -/
def sortKey (n : Nat) (cs : List Char) : Option (SortKey × List Char) := do
  let (s, cs) ← scalar n cs
  match strip " DESC" cs with
  | some cs => some (⟨s, true⟩, cs)
  | none => (strip " ASC" cs).map (⟨s, false⟩, ·)

theorem readsTo_sortKey {t : String} {s : Scalar} (descending : Bool) (h : ReadsWhole t s) :
    ReadsTo sortKey anything (t ++ if descending then " DESC" else " ASC").toList
      ⟨s, descending⟩ := by
  obtain ⟨n₀, h⟩ := h
  refine ⟨n₀, fun n hn r _ => ?_⟩
  rw [String.toList_append, List.append_assoc]
  cases descending with
  | true =>
    have hd : After ends (" DESC".toList ++ r) := .cons (by decide) _
    simp only [sortKey, if_true, h n hn _ hd, strip_append, Option.bind_eq_bind, Option.bind_some]
  | false =>
    have ha : After ends (" ASC".toList ++ r) := .cons (by decide) _
    have hd : strip " DESC" (" ASC".toList ++ r) = none := by simp [strip, List.isPrefixOf?]
    simp only [sortKey, Bool.false_eq_true, if_false, h n hn _ ha, hd, strip_append,
      Option.bind_eq_bind, Option.bind_some, Option.map_some]

theorem ReadsTo.sortKeys {ts : List String} {ks : List SortKey}
    (h : List.Forall₂ (fun t k => ReadsTo sortKey anything t.toList k) ts ks) (hne : ts ≠ []) :
    ReadsTo Reader.sortKeys (After closers) (", ".intercalate ts).toList ks := by
  refine .separated (fun n cs => ?_) (fun r hr => ⟨trivial, (closers_comma hr).2⟩)
    (fun _ => trivial) h hne
  simp only [Reader.sortKeys, sortKey, Option.bind_eq_bind]
  cases scalar n cs with
  | none => rfl
  | some p =>
    simp only [Option.bind_some]
    cases strip " DESC" p.2 with
    | some cs => rfl
    | none => cases strip " ASC" p.2 <;> rfl

/-- A clause of its own, if there is one, before the others. -/
theorem Clauses.prepend {w : String} {ws : List String} {r t : List Char} (h : Clauses ws r)
    (ht : t = [] ∨ ∃ u, t = w.toList ++ u) : Clauses (w :: ws) (t ++ r) := by
  rcases ht with rfl | ⟨u, rfl⟩
  · rcases h with h | ⟨v, hv, rest, rfl⟩
    · exact .inl h
    · exact .inr ⟨v, List.mem_cons_of_mem _ hv, rest, rfl⟩
  · exact .inr ⟨w, List.mem_cons_self, u ++ r, List.append_assoc ..⟩

theorem orderClause_cases (orderBy : List SortKey) :
    clauseText (orderClause orderBy) = [] ∨
      ∃ u, clauseText (orderClause orderBy) = " ORDER BY ".toList ++ u := by
  unfold orderClause
  split
  · exact .inl rfl
  · exact .inr ⟨_, clauseText_singleton ..⟩

theorem groupClause_cases (groupBy : List Scalar) :
    clauseText (groupClause groupBy) = [] ∨
      ∃ u, clauseText (groupClause groupBy) = " GROUP BY ".toList ++ u := by
  unfold groupClause
  split
  · exact .inl rfl
  · exact .inr ⟨_, clauseText_singleton ..⟩

theorem filterClause_cases (filter : Option Scalar) :
    clauseText (Query.filterClause filter) = [] ∨
      ∃ u, clauseText (Query.filterClause filter) = " WHERE ".toList ++ u := by
  cases filter with
  | none => exact .inl rfl
  | some s => exact .inr ⟨_, clauseText_singleton ..⟩

theorem readsTo_orderBy {orderBy ks : List SortKey}
    (h : List.Forall₂ (fun t k => ReadsTo sortKey anything t.toList k) (SortKey.texts orderBy) ks) :
    ReadsTo Reader.orderBy (Clauses [" OFFSET "]) (clauseText (orderClause orderBy)) ks := by
  cases orderBy with
  | nil =>
    cases h
    refine ⟨1, fun n hn r hr => ?_⟩
    obtain ⟨m, rfl⟩ : ∃ m, n = m + 1 := ⟨n - 1, by omega⟩
    have hs : strip " ORDER BY " r = none := hr.strip_eq_none rfl fun w hw rest => by
      obtain rfl := List.mem_singleton.mp hw
      simp [strip, List.isPrefixOf?]
    simp only [orderClause, List.isEmpty_nil, if_true, clauseText_nil, List.nil_append,
      Reader.orderBy, hs]
  | cons k orderBy =>
    obtain ⟨n₀, h⟩ := ReadsTo.sortKeys h (by simp [SortKey.texts])
    refine ⟨n₀ + 1, fun n hn r hr => ?_⟩
    obtain ⟨m, rfl⟩ : ∃ m, n = m + 1 := ⟨n - 1, by omega⟩
    have hc : After closers r := hr.closers (by decide)
    rw [orderClause, List.isEmpty_cons, if_neg (by decide), clauseText_singleton,
      List.append_assoc]
    have hs := strip_append (" " ++ "ORDER BY ")
      ((", ".intercalate (SortKey.texts (k :: orderBy))).toList ++ r)
    rw [Reader.orderBy]
    simp only [show " ORDER BY " = " " ++ "ORDER BY " from rfl, hs, h m (by omega) r hc]

theorem readsTo_groupBy {groupBy ss : List Scalar}
    (h : List.Forall₂ ReadsWhole (Scalar.texts groupBy) ss) :
    ReadsTo Reader.groupBy (Clauses [" ORDER BY ", " OFFSET "])
      (clauseText (groupClause groupBy)) ss := by
  cases groupBy with
  | nil =>
    cases h
    refine ⟨1, fun n hn r hr => ?_⟩
    obtain ⟨m, rfl⟩ : ∃ m, n = m + 1 := ⟨n - 1, by omega⟩
    have hs : strip " GROUP BY " r = none := hr.strip_eq_none rfl fun w hw rest => by
      simp only [List.mem_cons, List.not_mem_nil, or_false] at hw
      rcases hw with rfl | rfl <;> simp [strip, List.isPrefixOf?]
    simp only [groupClause, List.isEmpty_nil, if_true, clauseText_nil, List.nil_append,
      Reader.groupBy, hs]
  | cons s groupBy =>
    obtain ⟨n₀, h⟩ := ReadsTo.scalars h (by simp [Scalar.texts])
    refine ⟨n₀ + 1, fun n hn r hr => ?_⟩
    obtain ⟨m, rfl⟩ : ∃ m, n = m + 1 := ⟨n - 1, by omega⟩
    have hc : After closers r := hr.closers (by decide)
    rw [groupClause, List.isEmpty_cons, if_neg (by decide), clauseText_singleton,
      List.append_assoc]
    have hs := strip_append (" " ++ "GROUP BY ")
      ((", ".intercalate (Scalar.texts (s :: groupBy))).toList ++ r)
    rw [Reader.groupBy]
    simp only [show " GROUP BY " = " " ++ "GROUP BY " from rfl, hs, h m (by omega) r hc]

theorem readsTo_noFilter :
    ReadsTo Reader.filter (Clauses [" GROUP BY ", " ORDER BY ", " OFFSET "])
      (clauseText (Query.filterClause none)) none := by
  refine ⟨1, fun n hn r hr => ?_⟩
  obtain ⟨m, rfl⟩ : ∃ m, n = m + 1 := ⟨n - 1, by omega⟩
  have hs : strip " WHERE " r = none := hr.strip_eq_none rfl fun w hw rest => by
    simp only [List.mem_cons, List.not_mem_nil, or_false] at hw
    rcases hw with rfl | rfl | rfl <;> simp [strip, List.isPrefixOf?]
  simp only [Query.filterClause, clauseText_nil, List.nil_append, Reader.filter, hs]

theorem readsTo_filter {s s' : Scalar} (h : ReadsWhole s.text s') :
    ReadsTo Reader.filter (Clauses [" GROUP BY ", " ORDER BY ", " OFFSET "])
      (clauseText (Query.filterClause (some s))) (some s') := by
  obtain ⟨n₀, h⟩ := h
  refine ⟨n₀ + 1, fun n hn r hr => ?_⟩
  obtain ⟨m, rfl⟩ : ∃ m, n = m + 1 := ⟨n - 1, by omega⟩
  have he : After ends r := (hr.closers (by decide)).mono closers_subset
  have hs := strip_append (" " ++ "WHERE ") (s.text.toList ++ r)
  rw [Query.filterClause, clauseText_singleton, List.append_assoc, Reader.filter]
  simp only [show " WHERE " = " " ++ "WHERE " from rfl, hs, h m (by omega) r he,
    Option.bind_eq_bind, Option.bind_some]

/-! ### Sources -/

/-- What may follow a source: another one, a clause or the end. -/
def AfterSource (r : List Char) : Prop := After [' ', ')'] r ∧ strip " IN " r = none

theorem AfterSource.not_word {r : List Char} (h : AfterSource r) :
    ∀ c ∈ r.head?, isWordChar c = false :=
  (h.1.mono (show [' ', ')'] ⊆ stops by decide)).not_word

theorem name_not_open {name : String} (h : isName name = true) (r : List Char) :
    strip "(" (name.toList ++ r) = none := by
  obtain ⟨c, cs, hcs, hc⟩ := exists_start_of_identifier (isIdentifier_of_isName h)
  rw [hcs]
  refine strip_of_head (c := '(') rfl fun d hd => ?_
  obtain rfl : c = d := by simpa using hd
  exact fun h => absurd (h ▸ hc) (by decide)

theorem readsTo_container {name : String} (h : isName name = true) :
    ReadsTo source AfterSource name.toList (.container name) := by
  refine ⟨1, fun n hn r hr => ?_⟩
  obtain ⟨m, rfl⟩ : ∃ m, n = m + 1 := ⟨n - 1, by omega⟩
  have hw := word_append (isWordChar_of_isName h) hr.not_word
  have ha := afterWord_append (isWordChar_of_isName h) hr.not_word
  simp only [source, name_not_open h, hw, ha, hr.2]

theorem readsTo_items {name : String} (h : isName name = true) {t : String} {path : Scalar}
    (hp : ReadsWhole t path) :
    ReadsTo source AfterSource (name ++ " IN " ++ t).toList (.items name path) := by
  obtain ⟨n₀, hp⟩ := hp
  refine ⟨n₀ + 1, fun n hn r hr => ?_⟩
  obtain ⟨m, rfl⟩ : ∃ m, n = m + 1 := ⟨n - 1, by omega⟩
  have hi : ∀ c ∈ (" IN ".toList ++ (t.toList ++ r)).head?, isWordChar c = false :=
    head_not_word (by decide) _
  have hw := word_append (isWordChar_of_isName h) hi
  have ha := afterWord_append (isWordChar_of_isName h) hi
  have he : After ends r := hr.1.mono (by decide)
  rw [String.toList_append, String.toList_append, List.append_assoc, List.append_assoc]
  simp only [source, name_not_open h, hw, ha, strip_append, hp m (by omega) r he,
    Option.bind_eq_bind, Option.bind_some]

theorem readsTo_source {name : String} (h : isName name = true) {t : String} {q : Query}
    (hq : ReadsQuery t q) :
    ReadsTo source AfterSource ("(" ++ t ++ ") AS " ++ name).toList (.subquery name q) := by
  obtain ⟨n₀, hq⟩ := hq
  refine ⟨n₀ + 1, fun n hn r hr => ?_⟩
  obtain ⟨m, rfl⟩ : ∃ m, n = m + 1 := ⟨n - 1, by omega⟩
  have hw := word_append (isWordChar_of_isName h) hr.not_word
  have ha := afterWord_append (isWordChar_of_isName h) hr.not_word
  have hc : After [')'] (") AS ".toList ++ (name.toList ++ r)) := .cons (by decide) _
  have ht : ("(" ++ t ++ ") AS " ++ name).toList ++ r =
      "(".toList ++ (t.toList ++ (") AS ".toList ++ (name.toList ++ r))) := by simp
  rw [ht]
  simp only [source, strip_append, hq m (by omega) _ hc, hw, ha, Option.bind_eq_bind,
    Option.bind_some]

def afterSources : List String := [" WHERE ", " GROUP BY ", " ORDER BY ", " OFFSET "]

theorem ReadsTo.sources {ts : List String} {ss : List Source}
    (h : List.Forall₂ (fun t s => ReadsTo source AfterSource t.toList s) ts ss) (hne : ts ≠ []) :
    ReadsTo Reader.sources (Clauses afterSources) (" JOIN ".intercalate ts).toList ss := by
  have hnot : ∀ t : String, t = " JOIN " ∨ t = " IN " → ∀ w ∈ afterSources, ∀ rest,
      strip t (w.toList ++ rest) = none := by
    intro t ht w hw rest
    simp only [afterSources, List.mem_cons, List.not_mem_nil, or_false] at hw
    rcases ht with rfl | rfl <;> rcases hw with rfl | rfl | rfl | rfl <;>
      simp [strip, List.isPrefixOf?]
  have hQ : ∀ r, Clauses afterSources r → AfterSource r ∧ strip " JOIN " r = none := by
    intro r hr
    refine ⟨⟨?_, hr.strip_eq_none rfl (hnot " IN " (.inr rfl))⟩,
      hr.strip_eq_none rfl (hnot " JOIN " (.inl rfl))⟩
    rcases hr with hr | ⟨w, hw, rest, rfl⟩
    · exact hr.mono (by decide)
    · simp only [afterSources, List.mem_cons, List.not_mem_nil, or_false] at hw
      rcases hw with rfl | rfl | rfl | rfl <;> exact .cons (by decide) _
  have hjoin : ∀ r, AfterSource (" JOIN ".toList ++ r) := fun r =>
    ⟨.cons (by decide) _, by simp [strip, List.isPrefixOf?]⟩
  exact .separated (fun _ _ => rfl) hQ hjoin h hne

/-! ### Selections -/

theorem readsTo_star : ReadsTo projection (After ends) "*".toList .star := by
  refine ⟨1, fun n hn r _ => ?_⟩
  obtain ⟨m, rfl⟩ : ∃ m, n = m + 1 := ⟨n - 1, by omega⟩
  simp only [projection, strip_append]

theorem readsTo_value {t : String} {s : Scalar} (h : ReadsWhole t s) :
    ReadsTo projection (After ends) ("VALUE " ++ t).toList (.value s) := by
  obtain ⟨n₀, h⟩ := h
  refine ⟨n₀ + 1, fun n hn r hr => ?_⟩
  obtain ⟨m, rfl⟩ : ∃ m, n = m + 1 := ⟨n - 1, by omega⟩
  have hs : strip "*" ("VALUE ".toList ++ (t.toList ++ r)) = none := by
    simp [strip, List.isPrefixOf?]
  rw [String.toList_append, List.append_assoc]
  simp only [projection, hs, strip_append, h m (by omega) r hr, Option.bind_eq_bind,
    Option.bind_some]

/-- The text of a projection starts with neither of the words that may stand before it. -/
theorem projection_start (p : Projection) (r : List Char) :
    strip "DISTINCT " (p.text.toList ++ r) = none ∧ strip "TOP " (p.text.toList ++ r) = none := by
  cases p with
  | star => simp [Projection.text, strip, List.isPrefixOf?]
  | value s =>
    rw [Projection.text]
    generalize s.text = t
    simp [strip, List.isPrefixOf?]

/-- The text of a selection, from behind the first word on. -/
def selectionRest (projection : Projection) (distinct : Bool) (top : Option Count) : String :=
  (if distinct then "DISTINCT " else "") ++ (topText top ++ projection.text)

theorem selection_text (projection : Projection) (distinct : Bool) (top : Option Count) :
    Selection.text ⟨projection, distinct, top⟩ =
      "SELECT " ++ selectionRest projection distinct top := by
  cases top <;> simp only [Selection.text, selectionRest, topText, String.append_assoc]

/-- What is read between the first word and the projection. -/
theorem selectionRest_append (projection : Projection) (distinct : Bool) {top : Option Count}
    (h : ∀ c ∈ top, c.Readable) (r : List Char) :
    ∃ u, Reader.distinct ((selectionRest projection distinct top).toList ++ r) = (distinct, u) ∧
      Reader.top u = some (top, projection.text.toList ++ r) := by
  have htop := top_append h (projection_start projection r).2
  have hd : strip "DISTINCT " ((topText top).toList ++ (projection.text.toList ++ r)) = none := by
    cases top with
    | none => exact (projection_start projection r).1
    | some c =>
      rw [topText]
      generalize projection.text.toList ++ r = u
      generalize c.text = t
      simp [strip, List.isPrefixOf?]
  refine ⟨_, ?_, htop⟩
  rw [selectionRest, String.toList_append, String.toList_append, List.append_assoc,
    List.append_assoc]
  cases distinct with
  | true => simp only [Reader.distinct, if_true, strip_append]
  | false =>
    simp only [Reader.distinct, Bool.false_eq_true, if_false, String.toList_empty,
      List.nil_append, hd]

/-! ### Queries -/

theorem text_start (q : Query) : ∃ u, q.text.toList = "SELECT ".toList ++ u := by
  obtain ⟨⟨projection, distinct, top⟩, sources, filter, groupBy, orderBy, offset, limit⟩ := q
  rw [toList_text, selection_text, String.toList_append, List.append_assoc]
  exact ⟨_, rfl⟩

/-- A query is read when its clauses are. -/
theorem readsTo_query {projection projection' : Projection} {distinct : Bool}
    {top : Option Count} {sources sources' : List Source} {filter filter' : Option Scalar}
    {groupBy groupBy' : List Scalar} {orderBy orderBy' : List SortKey}
    {offset limit : Option Count}
    (hp : ReadsTo Reader.projection (After ends) projection.text.toList projection')
    (ht : ∀ c ∈ top, c.Readable)
    (hs : ReadsTo Reader.sources (Clauses afterSources)
      (" JOIN ".intercalate (Source.texts sources)).toList sources')
    (hf : ReadsTo Reader.filter (Clauses [" GROUP BY ", " ORDER BY ", " OFFSET "])
      (clauseText (Query.filterClause filter)) filter')
    (hg : ReadsTo Reader.groupBy (Clauses [" ORDER BY ", " OFFSET "])
      (clauseText (groupClause groupBy)) groupBy')
    (ho : ReadsTo Reader.orderBy (Clauses [" OFFSET "])
      (clauseText (orderClause orderBy)) orderBy')
    (hoff : ∀ c ∈ offset, c.Readable) (hlim : ∀ c ∈ limit, c.Readable) :
    ReadsQuery
      (Query.text ⟨⟨projection, distinct, top⟩, sources, filter, groupBy, orderBy, offset, limit⟩)
      ⟨⟨projection', distinct, top⟩, sources', filter', groupBy', orderBy',
        (Query.windowOf offset limit).1, (Query.windowOf offset limit).2⟩ := by
  obtain ⟨n₁, hp⟩ := hp
  obtain ⟨n₂, hs⟩ := hs
  obtain ⟨n₃, hf⟩ := hf
  obtain ⟨n₄, hg⟩ := hg
  obtain ⟨n₅, ho⟩ := ho
  refine ⟨n₁ + n₂ + n₃ + n₄ + n₅ + 1, fun n hn r hr => ?_⟩
  obtain ⟨m, rfl⟩ : ∃ m, n = m + 1 := ⟨n - 1, by omega⟩
  have hr₅ := clauses_window offset limit hr
  have hr₄ := hr₅.prepend (orderClause_cases orderBy)
  have hr₃ := hr₄.prepend (groupClause_cases groupBy)
  have hr₂ := hr₃.prepend (filterClause_cases filter)
  have hr₁ : ∀ cs, After ends (" FROM ".toList ++ cs) := fun cs => .cons (by decide) _
  rw [toList_text, selection_text, String.toList_append]
  simp only [List.append_assoc]
  obtain ⟨u, hu, htop⟩ := selectionRest_append projection distinct ht (" FROM ".toList ++
    ((" JOIN ".intercalate (Source.texts sources)).toList ++
      (clauseText (Query.filterClause filter) ++ (clauseText (groupClause groupBy) ++
        (clauseText (orderClause orderBy) ++ (clauseText (Query.window offset limit) ++ r))))))
  rw [query, strip_append]
  simp only [Option.bind_eq_bind, Option.bind_some, hu, htop, hp m (by omega) _ (hr₁ _),
    strip_append, hs m (by omega) _ hr₂, hf m (by omega) _ hr₃, hg m (by omega) _ hr₄,
    ho m (by omega) _ hr₅, window_append hoff hlim hr]

end Reader

end LambdaQuery
