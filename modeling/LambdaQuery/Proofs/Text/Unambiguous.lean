import LambdaQuery.Proofs.Text.QueryRules

/-!
# Query texts are unambiguous

Every readable scalar and query is read back from its text, up to the defaults of windows
(`Scalar.reads`, `Query.reads`): one induction over scalars, their lists and queries, each case by
the rule of the grammar that wrote it. Two queries with one text are therefore equal once their
windows are completed.
-/

set_option autoImplicit false

namespace LambdaQuery

open Reader

namespace Reader

/-- An operation in parentheses is read when its first operand and the rest are. -/
theorem reads_operation {s left : Scalar} {t : String} (hleft : left.Readable)
    (h : Reads left) (ht : s.text = "(" ++ left.text ++ " " ++ t ++ ")")
    (ho : ReadsTo (operation · left.completed) anything (t.toList ++ [')']) s.completed) :
    Reads s := by
  refine .of_atom ?_
  rw [ht]
  exact .parenthesized h.whole
    (fun r hr => starts_scalar left hleft r (hr.mono ends_subset).not_word) ho

/-- The first of the texts in a list starts as a scalar does. -/
theorem starts_texts {ss : List Scalar} (h : Scalar.AllReadable ss) :
    ∀ t ∈ (Scalar.texts ss).head?, ∀ r, After ends r → Starts (t.toList ++ r) := by
  cases ss with
  | nil => simp [Scalar.texts]
  | cons s ss =>
    intro t ht r hr
    obtain rfl : s.text = t := by simpa [Scalar.texts] using ht
    exact starts_scalar s h.1 r (hr.mono ends_subset).not_word

theorem starts_propertyTexts (ps : List (String × Scalar)) :
    ∀ t ∈ (Scalar.propertyTexts ps).head?, t.toList.head? = some '"' := by
  cases ps with
  | nil => simp [Scalar.propertyTexts]
  | cons p ps =>
    obtain ⟨name, s⟩ := p
    intro t ht
    obtain rfl : Query.quote name ++ ": " ++ s.text = t := by
      simpa [Scalar.propertyTexts] using ht
    rw [String.toList_append, String.toList_append, List.append_assoc, quote_append]
    rfl

end Reader

mutual

theorem Scalar.reads : ∀ s : Scalar, s.Readable → Reads s
  | .literal .null, _ => .of_atom (readsTo_bare (w := "null") (by decide) (by decide))
  | .literal .undefined, _ => .of_atom (readsTo_bare (w := "undefined") (by decide) (by decide))
  | .literal (.boolean true), _ => .of_atom (readsTo_bare (w := "true") (by decide) (by decide))
  | .literal (.boolean false), _ => .of_atom (readsTo_bare (w := "false") (by decide) (by decide))
  | .literal (.integer n), _ => .of_atom (readsTo_integer n)
  | .literal (.double _), h => by cases h
  | .literal (.string s), _ => .of_atom (readsTo_string s)
  | .ref _, h => .of_atom (readsTo_ref h)
  | .index o key, h => (o.reads h.1).index (key.reads h.2)
  | .binary op left right, h =>
    reads_operation h.1 (left.reads h.1) (by simp only [Scalar.text, String.append_assoc])
      (readsTo_binary op left.completed (right.reads h.2).whole)
  | .unary op operand, h => .of_atom (readsTo_unary op (operand.reads h).whole)
  | .call _ args false, h =>
    .of_atom (readsTo_function h.1
      (.closed (by decide) (Scalar.allReads args h.2) (starts_texts h.2)))
  | .call _ args true, h =>
    .of_atom (readsTo_udf h.1
      (.closed (by decide) (Scalar.allReads args h.2) (starts_texts h.2)))
  | .array items, h =>
    .of_atom (readsTo_array (.closed (by decide) (Scalar.allReads items h) (starts_texts h)))
  | .object properties, h =>
    .of_atom (readsTo_object (Scalar.propertiesRead properties h) (starts_propertyTexts _))
  | .conditional test ifTrue ifFalse, h =>
    reads_operation h.1 (test.reads h.1) (by simp only [Scalar.text, String.append_assoc]; rfl)
      (readsTo_conditional test.completed (ifTrue.reads h.2.1).whole (ifFalse.reads h.2.2).whole)
  | .isIn item items negated, h =>
    reads_operation h.1 (item.reads h.1) (by simp only [Scalar.text, String.append_assoc]; rfl)
      (readsTo_isIn item.completed negated
        (.closed (by decide) (Scalar.allReads items h.2) (starts_texts h.2)))
  | .parameter _, h => .of_atom (readsTo_parameter h)
  | .exists query, h => .of_atom (readsTo_exists (query.reads h))
  | .arrayOf query, h => .of_atom (readsTo_arrayOf (query.reads h))
  | .subquery query, h => .of_atom (readsTo_subquery (query.reads h) (text_start query))

theorem Scalar.allReads : ∀ ss : List Scalar, Scalar.AllReadable ss →
    List.Forall₂ ReadsWhole (Scalar.texts ss) (Scalar.allCompleted ss)
  | [], _ => .nil
  | s :: ss, h => .cons (s.reads h.1).whole (Scalar.allReads ss h.2)

theorem Scalar.propertiesRead : ∀ ps : List (String × Scalar), Scalar.PropertiesReadable ps →
    List.Forall₂ (fun t p => ReadsTo Reader.property (After ends) t.toList p)
      (Scalar.propertyTexts ps) (Scalar.propertiesCompleted ps)
  | [], _ => .nil
  | (name, s) :: ps, h =>
    .cons (readsTo_property name (s.reads h.1).whole) (Scalar.propertiesRead ps h.2)

theorem Projection.reads : ∀ p : Projection, p.Readable →
    ReadsTo Reader.projection (After ends) p.text.toList p.completed
  | .star, _ => readsTo_star
  | .value s, h => readsTo_value (s.reads h).whole

theorem Source.allRead : ∀ ss : List Source, Source.AllReadable ss →
    List.Forall₂ (fun t s => ReadsTo source AfterSource t.toList s)
      (Source.texts ss) (Source.allCompleted ss)
  | [], _ => .nil
  | .container _ :: ss, h => .cons (readsTo_container h.1) (Source.allRead ss h.2)
  | .items _ path :: ss, h =>
    .cons (readsTo_items h.1.1 (path.reads h.1.2).whole) (Source.allRead ss h.2)
  | .subquery _ query :: ss, h =>
    .cons (readsTo_source h.1.1 (query.reads h.1.2)) (Source.allRead ss h.2)

theorem SortKey.allRead : ∀ ks : List SortKey, SortKey.AllReadable ks →
    List.Forall₂ (fun t k => ReadsTo sortKey anything t.toList k)
      (SortKey.texts ks) (SortKey.allCompleted ks)
  | [], _ => .nil
  | ⟨s, descending⟩ :: ks, h =>
    .cons (readsTo_sortKey descending (s.reads h.1).whole) (SortKey.allRead ks h.2)

theorem Scalar.optionReads : ∀ s : Option Scalar, Scalar.OptionReadable s →
    ReadsTo Reader.filter (Clauses [" GROUP BY ", " ORDER BY ", " OFFSET "])
      (clauseText (Query.filterClause s)) (Scalar.optionCompleted s)
  | none, _ => readsTo_noFilter
  | some s, h => readsTo_filter (s.reads h).whole

theorem Query.reads : ∀ q : Query, q.Readable → ReadsQuery q.text q.completed
  | ⟨⟨projection, _, _⟩, sources, filter, groupBy, orderBy, _, _⟩,
      ⟨⟨hp, ht⟩, hne, hs, hf, hg, ho, hoff, hlim⟩ =>
    readsTo_query (projection.reads hp) ht
      (.sources (Source.allRead sources hs) (by cases sources <;> simp_all [Source.texts]))
      (Scalar.optionReads filter hf) (readsTo_groupBy (Scalar.allReads groupBy hg))
      (readsTo_orderBy (SortKey.allRead orderBy ho)) hoff hlim

end

/-- **The text of a query determines the query**, up to the defaults of windows. -/
theorem Query.completed_eq_of_text_eq {q₁ q₂ : Query} (h₁ : q₁.Readable) (h₂ : q₂.Readable)
    (h : q₁.text = q₂.text) : q₁.completed = q₂.completed := by
  obtain ⟨n₁, hr₁⟩ := q₁.reads h₁
  obtain ⟨n₂, hr₂⟩ := q₂.reads h₂
  have e₁ := hr₁ (n₁ + n₂) (by omega) [] (.nil _)
  have e₂ := hr₂ (n₁ + n₂) (by omega) [] (.nil _)
  rw [h, e₂] at e₁
  exact (congrArg Prod.fst (Option.some.inj e₁)).symm

/-- Within another query, too, a limit alone has the text of the limit with offset 0. -/
theorem completed_eq_of_limit_alone :
    let nested (offset : Option Count) : Query :=
      ⟨.ofValue (.ref "x"), [.items "x" (.property (.ref "root") "a\"b")], none, [], [], offset,
        some (.literal 3)⟩
    let q (offset : Option Count) : Query :=
      ⟨.ofValue (.ref "root"), [.container "root"], some (.exists (nested offset)), [], [], none,
        none⟩
    (q none).text = (q (some (.literal 0))).text ∧
      (q none).completed = (q (some (.literal 0))).completed := by
  intro nested q
  have hx : isName "x" = true := by decide
  have hr : isName "root" = true := by decide
  have hc : (Count.literal 3).Readable ∧ (Count.literal 0).Readable := by
    simp only [Count.Readable]
    decide
  have hnone : ∀ c ∈ (none : Option Count), c.Readable := by rintro c ⟨⟩
  have hn : ∀ offset, (∀ c ∈ offset, c.Readable) → (nested offset).Readable := fun offset h =>
    ⟨⟨hx, hnone⟩, by simp, ⟨⟨hx, hr, rfl⟩, trivial⟩, trivial, trivial, trivial, h, by
      rintro c ⟨⟩
      exact hc.1⟩
  have hq : ∀ offset, (∀ c ∈ offset, c.Readable) → (q offset).Readable := fun offset h =>
    ⟨⟨hr, hnone⟩, by simp, ⟨hr, trivial⟩, hn offset h, trivial, trivial, hnone, hnone⟩
  have ht : (q none).text = (q (some (.literal 0))).text := by rfl
  refine ⟨ht, Query.completed_eq_of_text_eq (hq none hnone) (hq _ ?_) ht⟩
  rintro c ⟨⟩
  exact hc.2

end LambdaQuery
