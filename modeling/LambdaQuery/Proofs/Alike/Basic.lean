import LambdaQuery.Proofs.Names

/-!
# Alike scalars and queries

Two scalars are `Alike` when they are built in the same way up to the names that their sources bind
and up to given pairs of scalars. A `Likeness` says which pairs these are; a context lists the names
that are bound on both sides. The relation is stable under more bound names (`weaken`), under
putting alike scalars in the place of a pair (`graft`) or of a bound name (`substitute`).
-/

set_option autoImplicit false

namespace LambdaQuery

/-- Names bound on both sides, innermost first. -/
abbrev Context := List (String × String)

/-- What two scalars may differ in. -/
structure Likeness where
  /-- Scalars that stand for each other as they are. -/
  leaf : Scalar → Scalar → Prop
  count : Count → Count → Prop
  /-- Whether a negated membership test stands for the negation of one. -/
  negation : Prop
  /-- Whether the sides bind the same names. -/
  named : Prop
  /-- Names that no source of the left side binds. -/
  left : List String
  right : List String
  leaf_names : ∀ a b, leaf a b → a.names ⊆ left ∧ b.names ⊆ right
  count_literal : ∀ a n, count a (.literal n) ↔ a = .literal n

/-- Nothing but the names that sources bind differs. -/
def Likeness.names : Likeness where
  leaf a b := ∃ name, a = .parameter name ∧ b = .parameter name
  count := Eq
  negation := False
  named := False
  left := []
  right := []
  leaf_names := by
    rintro a b ⟨name, rfl, rfl⟩
    exact ⟨List.nil_subset _, List.nil_subset _⟩
  count_literal _ _ := Iff.rfl

/-- Names that sources may bind on both sides. -/
structure Likeness.Fresh (c : Likeness) (Γ : Context) (n m : String) : Prop where
  left : n ∉ c.left
  right : m ∉ c.right
  unbound : ∀ p ∈ Γ, p.1 ≠ n ∧ p.2 ≠ m
  named : c.named → n = m

section

variable (c : Likeness)

mutual

inductive Scalar.Alike : Context → Scalar → Scalar → Prop where
  | leaf {Γ a b} (h : c.leaf a b) : Scalar.Alike Γ a b
  | literal {Γ} (value : Literal) : Scalar.Alike Γ (.literal value) (.literal value)
  | ref {Γ n m} (h : (n, m) ∈ Γ) : Scalar.Alike Γ (.ref n) (.ref m)
  | index {Γ a b k l} (h : Scalar.Alike Γ a b) (hk : Scalar.Alike Γ k l) :
    Scalar.Alike Γ (.index a k) (.index b l)
  | binary {Γ a b a' b'} (op : QueryBinaryOp) (h : Scalar.Alike Γ a b)
    (h' : Scalar.Alike Γ a' b') : Scalar.Alike Γ (.binary op a a') (.binary op b b')
  | unary {Γ a b} (op : QueryUnaryOp) (h : Scalar.Alike Γ a b) :
    Scalar.Alike Γ (.unary op a) (.unary op b)
  | notIn {Γ a item items negated} (hn : c.negation)
    (h : Scalar.Alike Γ a (.isIn item items negated)) :
    Scalar.Alike Γ (.unary .not a) (.isIn item items !negated)
  | negated {Γ a b as bs m n} (h : Scalar.Alike Γ (.isIn a as m) (.isIn b bs n)) :
    Scalar.Alike Γ (.isIn a as !m) (.isIn b bs !n)
  | call {Γ as bs} (name : String) (udf : Bool) (h : Scalar.AllAlike Γ as bs) :
    Scalar.Alike Γ (.call name as udf) (.call name bs udf)
  | array {Γ as bs} (h : Scalar.AllAlike Γ as bs) : Scalar.Alike Γ (.array as) (.array bs)
  | object {Γ ps qs} (h : Scalar.PropertiesAlike Γ ps qs) :
    Scalar.Alike Γ (.object ps) (.object qs)
  | conditional {Γ a b a₁ b₁ a₂ b₂} (h : Scalar.Alike Γ a b) (h₁ : Scalar.Alike Γ a₁ b₁)
    (h₂ : Scalar.Alike Γ a₂ b₂) : Scalar.Alike Γ (.conditional a a₁ a₂) (.conditional b b₁ b₂)
  | isIn {Γ a b as bs} (negated : Bool) (h : Scalar.Alike Γ a b)
    (hs : Scalar.AllAlike Γ as bs) : Scalar.Alike Γ (.isIn a as negated) (.isIn b bs negated)
  | exists {Γ q r} (h : Query.Alike Γ q r) : Scalar.Alike Γ (.exists q) (.exists r)
  | arrayOf {Γ q r} (h : Query.Alike Γ q r) : Scalar.Alike Γ (.arrayOf q) (.arrayOf r)
  | subquery {Γ q r} (h : Query.Alike Γ q r) : Scalar.Alike Γ (.subquery q) (.subquery r)

inductive Scalar.AllAlike : Context → List Scalar → List Scalar → Prop where
  | nil {Γ} : Scalar.AllAlike Γ [] []
  | cons {Γ a b as bs} (h : Scalar.Alike Γ a b) (hs : Scalar.AllAlike Γ as bs) :
    Scalar.AllAlike Γ (a :: as) (b :: bs)

inductive Scalar.PropertiesAlike :
    Context → List (String × Scalar) → List (String × Scalar) → Prop where
  | nil {Γ} : Scalar.PropertiesAlike Γ [] []
  | cons {Γ a b ps qs} (name : String) (h : Scalar.Alike Γ a b)
    (hs : Scalar.PropertiesAlike Γ ps qs) :
    Scalar.PropertiesAlike Γ ((name, a) :: ps) ((name, b) :: qs)

/-- The sources of two queries, the context before them and the one after them. -/
inductive Source.AllAlike : Context → List Source → List Source → Context → Prop where
  | nil {Γ} : Source.AllAlike Γ [] [] Γ
  | container {Γ Δ n m ss ts} (hn : c.Fresh Γ n m) (h : Source.AllAlike ((n, m) :: Γ) ss ts Δ) :
    Source.AllAlike Γ (.container n :: ss) (.container m :: ts) Δ
  | items {Γ Δ n m p q ss ts} (hp : Scalar.Alike Γ p q) (hn : c.Fresh Γ n m)
    (h : Source.AllAlike ((n, m) :: Γ) ss ts Δ) :
    Source.AllAlike Γ (.items n p :: ss) (.items m q :: ts) Δ
  | subquery {Γ Δ n m q r ss ts} (hq : Query.Alike Γ q r) (hn : c.Fresh Γ n m)
    (h : Source.AllAlike ((n, m) :: Γ) ss ts Δ) :
    Source.AllAlike Γ (.subquery n q :: ss) (.subquery m r :: ts) Δ

/-- The clauses of two queries see what their sources bind. -/
inductive Query.Alike : Context → Query → Query → Prop where
  | mk {Γ Δ : Context} {q r : Query} (sources : Source.AllAlike Γ q.sources r.sources Δ)
    (value : Scalar.AllAlike Δ q.selection.value?.toList r.selection.value?.toList)
    (distinct : q.selection.distinct = r.selection.distinct)
    (filter : Scalar.AllAlike Δ q.filter.toList r.filter.toList)
    (groupBy : Scalar.AllAlike Δ q.groupBy r.groupBy)
    (orderBy : Scalar.AllAlike Δ (q.orderBy.map (·.value)) (r.orderBy.map (·.value)))
    (descending : q.orderBy.map (·.descending) = r.orderBy.map (·.descending))
    (top : Option.Rel c.count q.selection.top r.selection.top)
    (offset : Option.Rel c.count q.offset r.offset)
    (limit : Option.Rel c.count q.limit r.limit) : Query.Alike Γ q r

end

end

variable {c d : Likeness} {Γ Δ : Context}

/-! ## More names and weaker likenesses -/

/-- `d` asks for less than `c`. -/
structure Likeness.Le (c d : Likeness) : Prop where
  leaf : ∀ a b, c.leaf a b → d.leaf a b
  count : ∀ a b, c.count a b → d.count a b
  negation : c.negation → d.negation
  named : d.named → c.named
  left : d.left ⊆ c.left
  right : d.right ⊆ c.right

theorem Likeness.Le.refl (c : Likeness) : c.Le c :=
  ⟨fun _ _ h => h, fun _ _ h => h, id, id, fun _ h => h, fun _ h => h⟩

theorem optionRel_mono {α β : Type} {r r' : α → β → Prop} (h : ∀ a b, r a b → r' a b)
    {x : Option α} {y : Option β} (hxy : Option.Rel r x y) : Option.Rel r' x y := by
  cases hxy with
  | some hab => exact .some (h _ _ hab)
  | none => exact .none

theorem optionRel_cases {α β : Type} {r : α → β → Prop} {x : Option α} {y : Option β}
    (h : Option.Rel r x y) : x = none ∧ y = none ∨ ∃ a b, x = some a ∧ y = some b ∧ r a b := by
  cases h with
  | none => exact .inl ⟨rfl, rfl⟩
  | some h => exact .inr ⟨_, _, rfl, rfl, h⟩

theorem optionRel_isSome {α β : Type} {r : α → β → Prop} {x : Option α} {y : Option β}
    (h : Option.Rel r x y) : x.isSome = y.isSome := by
  cases h <;> rfl

theorem Source.AllAlike.subset {ss ts : List Source} (h : Source.AllAlike c Γ ss ts Δ) :
    Γ ⊆ Δ := by
  induction ss generalizing Γ ts with
  | nil =>
    cases h
    exact List.Subset.refl _
  | cons s ss ih =>
    cases h with
    | container hn h => exact List.Subset.trans (List.subset_cons_self _ _) (ih h)
    | items hp hn h => exact List.Subset.trans (List.subset_cons_self _ _) (ih h)
    | subquery hq hn h => exact List.Subset.trans (List.subset_cons_self _ _) (ih h)

/-- A name bound by the first source is known after all sources. -/
theorem Source.AllAlike.mem_or_mem {p : String × String} {ss ts : List Source} {Δ Δ' : Context}
    {Γ' : Context} (h : Source.AllAlike c (p :: Γ) ss ts Γ')
    (hm : ∀ q ∈ Δ', q ∈ Γ' ∨ q ∈ p :: Δ) : ∀ q ∈ Δ', q ∈ Γ' ∨ q ∈ Δ := fun q hq => by
  rcases hm q hq with hq | hq
  · exact .inl hq
  · rcases List.mem_cons.mp hq with rfl | hq
    · exact .inl (h.subset List.mem_cons_self)
    · exact .inr hq

/-- The names of `Δ` that are not in `Γ` do not occur. -/
def Context.Apart (Γ Δ : Context) (left right : List String) : Prop :=
  ∀ p ∈ Δ, p ∈ Γ ∨ p.1 ∉ left ∧ p.2 ∉ right

theorem Context.Apart.mono {left right left' right' : List String}
    (h : Context.Apart Γ Δ left right) (hl : left' ⊆ left) (hr : right' ⊆ right) :
    Context.Apart Γ Δ left' right' := fun p hp =>
  (h p hp).imp_right fun ⟨h₁, h₂⟩ => ⟨fun h => h₁ (hl h), fun h => h₂ (hr h)⟩

theorem Context.Apart.left {left right left' right' : List String}
    (h : Context.Apart Γ Δ (left ++ left') (right ++ right')) : Context.Apart Γ Δ left right :=
  h.mono (List.subset_append_left ..) (List.subset_append_left ..)

theorem Context.Apart.right {left right left' right' : List String}
    (h : Context.Apart Γ Δ (left ++ left') (right ++ right')) : Context.Apart Γ Δ left' right' :=
  h.mono (List.subset_append_right ..) (List.subset_append_right ..)

theorem Context.Apart.cons {left right : List String} (h : Context.Apart Γ Δ left right)
    (p : String × String) : Context.Apart (p :: Γ) (p :: Δ) left right := fun q hq => by
  rcases List.mem_cons.mp hq with rfl | hq
  · exact .inl List.mem_cons_self
  · exact (h q hq).imp_left (List.mem_cons_of_mem _)

/-- What is apart before the sources is apart after them. -/
theorem Context.Apart.sources {left right : List String} (h : Context.Apart Γ Δ left right)
    {ss ts : List Source} {Γ' Δ' : Context} (hs : Source.AllAlike c Γ ss ts Γ')
    (hm : ∀ p ∈ Δ', p ∈ Γ' ∨ p ∈ Δ) : Context.Apart Γ' Δ' left right := fun p hp => by
  rcases hm p hp with hp | hp
  · exact .inl hp
  · exact (h p hp).imp_left fun hp => hs.subset hp

theorem Likeness.Fresh.weaken (hcd : c.Le d) {n m : String} (hn : c.Fresh Γ n m)
    {left right : List String} (h : Context.Apart Γ Δ left right) (hl : n ∈ left)
    (hr : m ∈ right) : d.Fresh Δ n m where
  left hn' := hn.left (hcd.left hn')
  right hn' := hn.right (hcd.right hn')
  unbound p hp := by
    rcases h p hp with hp | ⟨h₁, h₂⟩
    · exact hn.unbound p hp
    · exact ⟨fun he => h₁ (he ▸ hl), fun he => h₂ (he ▸ hr)⟩
  named hd := hn.named (hcd.named hd)

theorem cons_subset_cons {p : String × String} (h : Γ ⊆ Δ) : p :: Γ ⊆ p :: Δ :=
  List.cons_subset_cons p h

mutual

/-- Alike scalars stay alike where more names are bound that do not occur in them. -/
theorem Scalar.Alike.weaken (hcd : c.Le d) : ∀ {Γ Δ : Context} {a b : Scalar},
    Scalar.Alike c Γ a b → Γ ⊆ Δ → Context.Apart Γ Δ a.names b.names → Scalar.Alike d Δ a b
  | _, _, _, _, .leaf h, _, _ => .leaf (hcd.leaf _ _ h)
  | _, _, _, _, .literal value, _, _ => .literal value
  | _, _, _, _, .ref h, hΓ, _ => .ref (hΓ h)
  | _, _, _, _, .index h hk, hΓ, ha =>
    .index (h.weaken hcd hΓ ha.left)
      (hk.weaken hcd hΓ ha.right)
  | _, _, _, _, .binary op h h', hΓ, ha =>
    .binary op (h.weaken hcd hΓ ha.left)
      (h'.weaken hcd hΓ ha.right)
  | _, _, _, _, .unary op h, hΓ, ha => .unary op (h.weaken hcd hΓ ha)
  | _, _, _, _, .notIn hn h, hΓ, ha => .notIn (hcd.negation hn) (h.weaken hcd hΓ ha)
  | _, _, _, _, .negated h, hΓ, ha => .negated (h.weaken hcd hΓ ha)
  | _, _, _, _, .call name udf h, hΓ, ha => .call name udf (h.weaken hcd hΓ ha)
  | _, _, _, _, .array h, hΓ, ha => .array (h.weaken hcd hΓ ha)
  | _, _, _, _, .object h, hΓ, ha => .object (h.weaken hcd hΓ ha)
  | _, _, _, _, .conditional h h₁ h₂, hΓ, ha =>
    .conditional
      (h.weaken hcd hΓ ha.left)
      (h₁.weaken hcd hΓ ha.right.left)
      (h₂.weaken hcd hΓ ha.right.right)
  | _, _, _, _, .isIn negated h hs, hΓ, ha =>
    .isIn negated
      (h.weaken hcd hΓ ha.left)
      (hs.weaken hcd hΓ ha.right)
  | _, _, _, _, .exists h, hΓ, ha => .exists (h.weaken hcd hΓ ha)
  | _, _, _, _, .arrayOf h, hΓ, ha => .arrayOf (h.weaken hcd hΓ ha)
  | _, _, _, _, .subquery h, hΓ, ha => .subquery (h.weaken hcd hΓ ha)

theorem Scalar.AllAlike.weaken (hcd : c.Le d) : ∀ {Γ Δ : Context} {as bs : List Scalar},
    Scalar.AllAlike c Γ as bs → Γ ⊆ Δ →
      Context.Apart Γ Δ (Scalar.namesAll as) (Scalar.namesAll bs) → Scalar.AllAlike d Δ as bs
  | _, _, _, _, .nil, _, _ => .nil
  | _, _, _, _, .cons h hs, hΓ, ha =>
    .cons (h.weaken hcd hΓ ha.left)
      (hs.weaken hcd hΓ ha.right)

theorem Scalar.PropertiesAlike.weaken (hcd : c.Le d) : ∀ {Γ Δ : Context}
    {ps qs : List (String × Scalar)},
    Scalar.PropertiesAlike c Γ ps qs → Γ ⊆ Δ →
      Context.Apart Γ Δ (Scalar.namesProperties ps) (Scalar.namesProperties qs) →
        Scalar.PropertiesAlike d Δ ps qs
  | _, _, _, _, .nil, _, _ => .nil
  | _, _, _, _, .cons name h hs, hΓ, ha =>
    .cons name
      (h.weaken hcd hΓ ha.left)
      (hs.weaken hcd hΓ ha.right)

theorem Source.AllAlike.weaken (hcd : c.Le d) : ∀ {Γ Γ' Δ : Context} {ss ts : List Source},
    Source.AllAlike c Γ ss ts Γ' → Γ ⊆ Δ →
      Context.Apart Γ Δ (Source.namesAll ss) (Source.namesAll ts) →
        ∃ Δ', Source.AllAlike d Δ ss ts Δ' ∧ Γ' ⊆ Δ' ∧ ∀ p ∈ Δ', p ∈ Γ' ∨ p ∈ Δ
  | _, _, Δ, _, _, .nil, hΓ, _ => ⟨Δ, .nil, hΓ, fun _ hp => .inr hp⟩
  | _, _, _, _, _, .container hn h, hΓ, ha => by
    obtain ⟨Δ', hs, hsub, hm⟩ := h.weaken hcd (cons_subset_cons hΓ) (ha.right.cons _)
    have hn' := hn.weaken hcd ha.left (List.mem_singleton_self _) (List.mem_singleton_self _)
    exact ⟨Δ', .container hn' hs, hsub, h.mem_or_mem hm⟩
  | _, _, _, _, _, .items hp hn h, hΓ, ha => by
    obtain ⟨Δ', hs, hsub, hm⟩ := h.weaken hcd (cons_subset_cons hΓ) (ha.right.cons _)
    have hn' := hn.weaken hcd ha.left List.mem_cons_self List.mem_cons_self
    have hp' := hp.weaken hcd hΓ
      (ha.left.mono (List.subset_cons_self ..) (List.subset_cons_self ..))
    exact ⟨Δ', .items hp' hn' hs, hsub, h.mem_or_mem hm⟩
  | _, _, _, _, _, .subquery hq hn h, hΓ, ha => by
    obtain ⟨Δ', hs, hsub, hm⟩ := h.weaken hcd (cons_subset_cons hΓ) (ha.right.cons _)
    have hn' := hn.weaken hcd ha.left List.mem_cons_self List.mem_cons_self
    have hq' := hq.weaken hcd hΓ
      (ha.left.mono (List.subset_cons_self ..) (List.subset_cons_self ..))
    exact ⟨Δ', .subquery hq' hn' hs, hsub, h.mem_or_mem hm⟩

theorem Query.Alike.weaken (hcd : c.Le d) : ∀ {Γ Δ : Context} {q r : Query},
    Query.Alike c Γ q r → Γ ⊆ Δ → Context.Apart Γ Δ q.names r.names → Query.Alike d Δ q r
  | _, _, q, r, .mk sources value distinct filter groupBy orderBy descending top offset limit,
    hΓ, ha => by
    obtain ⟨Δ', hs, hsub, hm⟩ := sources.weaken hcd hΓ
      (ha.mono (fun n hn => q.mem_names.mpr (.inl hn)) fun n hn => r.mem_names.mpr (.inl hn))
    have ha' := ha.sources sources hm
    refine .mk hs (value.weaken hcd hsub ?_) distinct (filter.weaken hcd hsub ?_)
      (groupBy.weaken hcd hsub ?_) (orderBy.weaken hcd hsub ?_) descending
      (optionRel_mono hcd.count top) (optionRel_mono hcd.count offset)
      (optionRel_mono hcd.count limit)
    all_goals
      refine ha'.mono (fun n hn => q.mem_names.mpr ?_) fun n hn => r.mem_names.mpr ?_
      all_goals simp only [hn, true_or, or_true]

end

theorem Context.Apart.refl (Γ : Context) (left right : List String) :
    Context.Apart Γ Γ left right := fun _ h => .inl h

theorem Scalar.Alike.mono (hcd : c.Le d) {a b : Scalar} (h : Scalar.Alike c Γ a b) :
    Scalar.Alike d Γ a b := h.weaken hcd (List.Subset.refl _) (.refl _ _ _)

theorem Scalar.AllAlike.mono (hcd : c.Le d) {as bs : List Scalar}
    (h : Scalar.AllAlike c Γ as bs) : Scalar.AllAlike d Γ as bs :=
  h.weaken hcd (List.Subset.refl _) (.refl _ _ _)

theorem Query.Alike.mono (hcd : c.Le d) {q r : Query} (h : Query.Alike c Γ q r) :
    Query.Alike d Γ q r := h.weaken hcd (List.Subset.refl _) (.refl _ _ _)

theorem Likeness.Fresh.mono (hcd : c.Le d) {n m : String} (h : c.Fresh Γ n m) :
    d.Fresh Γ n m :=
  ⟨fun hn => h.left (hcd.left hn), fun hm => h.right (hcd.right hm), h.unbound,
    fun hd => h.named (hcd.named hd)⟩

/-! ## Alike scalars in the place of leaves -/

/-- Every leaf of `c` is a leaf of `d`, or is alike where the names of `Γ` are bound; its names and
those of `Γ` are names that no source binds. -/
structure Likeness.Grafts (c d : Likeness) (Γ : Context) : Prop where
  leaf : ∀ a b, c.leaf a b →
    d.leaf a b ∨ Scalar.Alike d Γ a b ∧ a.names ⊆ c.left ∧ b.names ⊆ c.right
  count : ∀ a b, c.count a b → d.count a b
  negation : c.negation → d.negation
  named : d.named → c.named
  left : d.left ⊆ c.left
  right : d.right ⊆ c.right
  bound : ∀ p ∈ Γ, p.1 ∈ c.left ∧ p.2 ∈ c.right

/-- The context has none of the names that no source binds. -/
def Context.Unreserved (c : Likeness) (Θ : Context) : Prop :=
  ∀ p ∈ Θ, p.1 ∉ c.left ∧ p.2 ∉ c.right

theorem Context.Unreserved.cons {Θ : Context} {n m : String} (h : Context.Unreserved c Θ)
    (hn : c.Fresh Θ n m) : Context.Unreserved c ((n, m) :: Θ) := fun p hp => by
  rcases List.mem_cons.mp hp with rfl | hp
  · exact ⟨hn.left, hn.right⟩
  · exact h p hp

theorem Likeness.Grafts.fresh (hg : c.Grafts d Γ) {Θ : Context} {n m : String}
    (hn : c.Fresh Θ n m) : d.Fresh (Θ ++ Γ) n m where
  left h := hn.left (hg.left h)
  right h := hn.right (hg.right h)
  unbound p hp := by
    rcases List.mem_append.mp hp with hp | hp
    · exact hn.unbound p hp
    · exact ⟨fun h => hn.left (h ▸ (hg.bound p hp).1), fun h => hn.right (h ▸ (hg.bound p hp).2)⟩
  named h := hn.named (hg.named h)

mutual

/-- Alike scalars stay alike when the leaves are no longer taken as they are. -/
theorem Scalar.Alike.graft (hg : c.Grafts d Γ) : ∀ {Θ : Context} {a b : Scalar},
    Scalar.Alike c Θ a b → Context.Unreserved c Θ → Scalar.Alike d (Θ ++ Γ) a b
  | Θ, a, b, .leaf h, hΘ => by
    rcases hg.leaf a b h with h | ⟨h, ha, hb⟩
    · exact .leaf h
    · refine h.weaken (.refl d) (List.subset_append_right ..) fun p hp => ?_
      rcases List.mem_append.mp hp with hp | hp
      · exact .inr ⟨fun h => (hΘ p hp).1 (ha h), fun h => (hΘ p hp).2 (hb h)⟩
      · exact .inl hp
  | _, _, _, .literal value, _ => .literal value
  | _, _, _, .ref h, _ => .ref (List.mem_append_left _ h)
  | _, _, _, .index h hk, hΘ => .index (h.graft hg hΘ) (hk.graft hg hΘ)
  | _, _, _, .binary op h h', hΘ => .binary op (h.graft hg hΘ) (h'.graft hg hΘ)
  | _, _, _, .unary op h, hΘ => .unary op (h.graft hg hΘ)
  | _, _, _, .notIn hn h, hΘ => .notIn (hg.negation hn) (h.graft hg hΘ)
  | _, _, _, .negated h, hΘ => .negated (h.graft hg hΘ)
  | _, _, _, .call name udf h, hΘ => .call name udf (h.graft hg hΘ)
  | _, _, _, .array h, hΘ => .array (h.graft hg hΘ)
  | _, _, _, .object h, hΘ => .object (h.graft hg hΘ)
  | _, _, _, .conditional h h₁ h₂, hΘ =>
    .conditional (h.graft hg hΘ) (h₁.graft hg hΘ) (h₂.graft hg hΘ)
  | _, _, _, .isIn negated h hs, hΘ => .isIn negated (h.graft hg hΘ) (hs.graft hg hΘ)
  | _, _, _, .exists h, hΘ => .exists (h.graft hg hΘ)
  | _, _, _, .arrayOf h, hΘ => .arrayOf (h.graft hg hΘ)
  | _, _, _, .subquery h, hΘ => .subquery (h.graft hg hΘ)

theorem Scalar.AllAlike.graft (hg : c.Grafts d Γ) : ∀ {Θ : Context} {as bs : List Scalar},
    Scalar.AllAlike c Θ as bs → Context.Unreserved c Θ → Scalar.AllAlike d (Θ ++ Γ) as bs
  | _, _, _, .nil, _ => .nil
  | _, _, _, .cons h hs, hΘ => .cons (h.graft hg hΘ) (hs.graft hg hΘ)

theorem Scalar.PropertiesAlike.graft (hg : c.Grafts d Γ) : ∀ {Θ : Context}
    {ps qs : List (String × Scalar)},
    Scalar.PropertiesAlike c Θ ps qs → Context.Unreserved c Θ →
      Scalar.PropertiesAlike d (Θ ++ Γ) ps qs
  | _, _, _, .nil, _ => .nil
  | _, _, _, .cons name h hs, hΘ => .cons name (h.graft hg hΘ) (hs.graft hg hΘ)

theorem Source.AllAlike.graft (hg : c.Grafts d Γ) : ∀ {Θ Θ' : Context} {ss ts : List Source},
    Source.AllAlike c Θ ss ts Θ' → Context.Unreserved c Θ →
      Source.AllAlike d (Θ ++ Γ) ss ts (Θ' ++ Γ) ∧ Context.Unreserved c Θ'
  | _, _, _, _, .nil, hΘ => ⟨.nil, hΘ⟩
  | _, _, _, _, .container hn h, hΘ => by
    obtain ⟨hs, hΘ'⟩ := h.graft hg (hΘ.cons hn)
    exact ⟨.container (hg.fresh hn) hs, hΘ'⟩
  | _, _, _, _, .items hp hn h, hΘ => by
    obtain ⟨hs, hΘ'⟩ := h.graft hg (hΘ.cons hn)
    exact ⟨.items (hp.graft hg hΘ) (hg.fresh hn) hs, hΘ'⟩
  | _, _, _, _, .subquery hq hn h, hΘ => by
    obtain ⟨hs, hΘ'⟩ := h.graft hg (hΘ.cons hn)
    exact ⟨.subquery (hq.graft hg hΘ) (hg.fresh hn) hs, hΘ'⟩

theorem Query.Alike.graft (hg : c.Grafts d Γ) : ∀ {Θ : Context} {q r : Query},
    Query.Alike c Θ q r → Context.Unreserved c Θ → Query.Alike d (Θ ++ Γ) q r
  | _, _, _, .mk sources value distinct filter groupBy orderBy descending top offset limit, hΘ => by
    obtain ⟨hs, hΘ'⟩ := sources.graft hg hΘ
    exact .mk hs (value.graft hg hΘ') distinct (filter.graft hg hΘ') (groupBy.graft hg hΘ')
      (orderBy.graft hg hΘ') descending (optionRel_mono hg.count top)
      (optionRel_mono hg.count offset) (optionRel_mono hg.count limit)

end

end LambdaQuery
