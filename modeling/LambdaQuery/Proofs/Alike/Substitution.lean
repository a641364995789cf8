import LambdaQuery.Proofs.Alike.Basic

/-!
# Substitution in alike scalars

Alike scalars stay alike when a name that is bound on both sides is replaced on both sides by alike
scalars. No source may bind a name of these scalars, for the replaced name may stand below it; the
names that a likeness reserves are a bound for them.
-/

set_option autoImplicit false

namespace LambdaQuery

variable {c d : Likeness} {x y : String} {r s : Scalar}

/-- What a replacement of `x` by `r` and of `y` by `s` needs of the likenesses before and after. -/
structure Likeness.Replaces (c d : Likeness) (x y : String) (r s : Scalar) : Prop where
  leaf : ∀ a b, c.leaf a b → d.leaf a b ∧ x ∉ a.names ∧ y ∉ b.names
  count : ∀ a b, c.count a b → d.count a b
  negation : c.negation → d.negation
  named : d.named → c.named
  left : d.left ⊆ c.left
  right : d.right ⊆ c.right
  names_left : r.names ⊆ c.left
  names_right : s.names ⊆ c.right

/-- What the replacement needs of the names bound before and after. -/
structure Context.Replaces (c d : Likeness) (x y : String) (r s : Scalar) (Θ Δ : Context) :
    Prop where
  pair : (x, y) ∈ Θ
  agree : ∀ p ∈ Θ, (p.1 = x ↔ p.2 = y) ∧ (p.1 ≠ x → p ∈ Δ)
  bound_left : ∀ p ∈ Δ, p.1 ∈ c.left ∨ ∃ q ∈ Θ, q.1 = p.1
  bound_right : ∀ p ∈ Δ, p.2 ∈ c.right ∨ ∃ q ∈ Θ, q.2 = p.2
  alike : Scalar.Alike d Δ r s

theorem Context.Replaces.fresh (hc : c.Replaces d x y r s) {Θ Δ : Context} {n m : String}
    (hΘ : Context.Replaces c d x y r s Θ Δ) (hn : c.Fresh Θ n m) : d.Fresh Δ n m where
  left h := hn.left (hc.left h)
  right h := hn.right (hc.right h)
  unbound p hp := by
    constructor
    · rintro rfl
      rcases hΘ.bound_left p hp with h | ⟨q, hq, he⟩
      · exact hn.left h
      · exact (hn.unbound q hq).1 he
    · rintro rfl
      rcases hΘ.bound_right p hp with h | ⟨q, hq, he⟩
      · exact hn.right h
      · exact (hn.unbound q hq).2 he
  named h := hn.named (hc.named h)

theorem Context.Replaces.cons (hc : c.Replaces d x y r s) {Θ Δ : Context} {n m : String}
    (hΘ : Context.Replaces c d x y r s Θ Δ) (hn : c.Fresh Θ n m) :
    Context.Replaces c d x y r s ((n, m) :: Θ) ((n, m) :: Δ) where
  pair := List.mem_cons_of_mem _ hΘ.pair
  agree p hp := by
    rcases List.mem_cons.mp hp with rfl | hp
    · have hx := hn.unbound _ hΘ.pair
      exact ⟨⟨fun h => absurd h.symm hx.1, fun h => absurd h.symm hx.2⟩,
        fun _ => List.mem_cons_self⟩
    · exact (hΘ.agree p hp).imp_right fun h hne => List.mem_cons_of_mem _ (h hne)
  bound_left p hp := by
    rcases List.mem_cons.mp hp with rfl | hp
    · exact .inr ⟨_, List.mem_cons_self, rfl⟩
    · exact (hΘ.bound_left p hp).imp_right fun ⟨q, hq, h⟩ => ⟨q, List.mem_cons_of_mem _ hq, h⟩
  bound_right p hp := by
    rcases List.mem_cons.mp hp with rfl | hp
    · exact .inr ⟨_, List.mem_cons_self, rfl⟩
    · exact (hΘ.bound_right p hp).imp_right fun ⟨q, hq, h⟩ => ⟨q, List.mem_cons_of_mem _ hq, h⟩
  alike := hΘ.alike.weaken (.refl d) (List.subset_cons_self ..) fun p hp => by
    rcases List.mem_cons.mp hp with rfl | hp
    · exact .inr ⟨fun h => hn.left (hc.names_left h), fun h => hn.right (hc.names_right h)⟩
    · exact .inl hp

mutual

theorem Scalar.Alike.substitute (hc : c.Replaces d x y r s) : ∀ {Θ Δ : Context} {a b : Scalar},
    Scalar.Alike c Θ a b → Context.Replaces c d x y r s Θ Δ →
      Scalar.Alike d Δ (a.substitute ⟨x, r⟩) (b.substitute ⟨y, s⟩)
  | _, _, a, b, .leaf h, _ => by
    obtain ⟨h, hx, hy⟩ := hc.leaf a b h
    rw [a.substitute_of_not_mem hx, b.substitute_of_not_mem hy]
    exact .leaf h
  | _, _, _, _, .literal value, _ => .literal value
  | _, _, _, _, .ref (n := n) (m := m) h, hΘ => by
    obtain ⟨hxy, hmem⟩ := hΘ.agree _ h
    by_cases hn : n = x
    · have hm : m = y := hxy.mp hn
      simp only [Scalar.substitute, hn, hm, if_true]
      exact hΘ.alike
    · have hm : m ≠ y := fun hm => hn (hxy.mpr hm)
      simp only [Scalar.substitute, hn, hm, if_false]
      exact .ref (hmem hn)
  | _, _, _, _, .index h hk, hΘ => .index (h.substitute hc hΘ) (hk.substitute hc hΘ)
  | _, _, _, _, .binary op h h', hΘ => .binary op (h.substitute hc hΘ) (h'.substitute hc hΘ)
  | _, _, _, _, .unary op h, hΘ => .unary op (h.substitute hc hΘ)
  | _, _, _, _, .notIn hn h, hΘ => .notIn (hc.negation hn) (h.substitute hc hΘ)
  | _, _, _, _, .negated h, hΘ => .negated (h.substitute hc hΘ)
  | _, _, _, _, .call name udf h, hΘ => .call name udf (h.substitute hc hΘ)
  | _, _, _, _, .array h, hΘ => .array (h.substitute hc hΘ)
  | _, _, _, _, .object h, hΘ => .object (h.substitute hc hΘ)
  | _, _, _, _, .conditional h h₁ h₂, hΘ =>
    .conditional (h.substitute hc hΘ) (h₁.substitute hc hΘ) (h₂.substitute hc hΘ)
  | _, _, _, _, .isIn negated h hs, hΘ => .isIn negated (h.substitute hc hΘ) (hs.substitute hc hΘ)
  | _, _, _, _, .exists h, hΘ => .exists (h.substitute hc hΘ)
  | _, _, _, _, .arrayOf h, hΘ => .arrayOf (h.substitute hc hΘ)
  | _, _, _, _, .subquery h, hΘ => .subquery (h.substitute hc hΘ)

theorem Scalar.AllAlike.substitute (hc : c.Replaces d x y r s) : ∀ {Θ Δ : Context}
    {as bs : List Scalar},
    Scalar.AllAlike c Θ as bs → Context.Replaces c d x y r s Θ Δ →
      Scalar.AllAlike d Δ (Scalar.substituteAll ⟨x, r⟩ as) (Scalar.substituteAll ⟨y, s⟩ bs)
  | _, _, _, _, .nil, _ => .nil
  | _, _, _, _, .cons h hs, hΘ => .cons (h.substitute hc hΘ) (hs.substitute hc hΘ)

theorem Scalar.PropertiesAlike.substitute (hc : c.Replaces d x y r s) : ∀ {Θ Δ : Context}
    {ps qs : List (String × Scalar)},
    Scalar.PropertiesAlike c Θ ps qs → Context.Replaces c d x y r s Θ Δ →
      Scalar.PropertiesAlike d Δ (Scalar.substituteProperties ⟨x, r⟩ ps)
        (Scalar.substituteProperties ⟨y, s⟩ qs)
  | _, _, _, _, .nil, _ => .nil
  | _, _, _, _, .cons name h hs, hΘ => .cons name (h.substitute hc hΘ) (hs.substitute hc hΘ)

theorem Source.AllAlike.substitute (hc : c.Replaces d x y r s) : ∀ {Θ Θ' Δ : Context}
    {ss ts : List Source},
    Source.AllAlike c Θ ss ts Θ' → Context.Replaces c d x y r s Θ Δ →
      ∃ Δ', Source.AllAlike d Δ (Source.substituteAll ⟨x, r⟩ ss) (Source.substituteAll ⟨y, s⟩ ts)
        Δ' ∧ Context.Replaces c d x y r s Θ' Δ'
  | _, _, Δ, _, _, .nil, hΘ => ⟨Δ, .nil, hΘ⟩
  | _, _, _, _, _, .container hn h, hΘ => by
    obtain ⟨Δ', hs, hΘ'⟩ := h.substitute hc (hΘ.cons hc hn)
    exact ⟨Δ', .container (hΘ.fresh hc hn) hs, hΘ'⟩
  | _, _, _, _, _, .items hp hn h, hΘ => by
    obtain ⟨Δ', hs, hΘ'⟩ := h.substitute hc (hΘ.cons hc hn)
    exact ⟨Δ', .items (hp.substitute hc hΘ) (hΘ.fresh hc hn) hs, hΘ'⟩
  | _, _, _, _, _, .subquery hq hn h, hΘ => by
    obtain ⟨Δ', hs, hΘ'⟩ := h.substitute hc (hΘ.cons hc hn)
    exact ⟨Δ', .subquery (hq.substitute hc hΘ) (hΘ.fresh hc hn) hs, hΘ'⟩

theorem Query.Alike.substitute (hc : c.Replaces d x y r s) : ∀ {Θ Δ : Context} {q q' : Query},
    Query.Alike c Θ q q' → Context.Replaces c d x y r s Θ Δ →
      Query.Alike d Δ (q.substitute ⟨x, r⟩) (q'.substitute ⟨y, s⟩)
  | _, _, ⟨⟨_, _, _⟩, _, _, _, _, _, _⟩, ⟨⟨_, _, _⟩, _, _, _, _, _, _⟩,
    .mk sources value distinct filter groupBy orderBy descending top offset limit, hΘ => by
    obtain ⟨Δ', hs, hΘ'⟩ := sources.substitute hc hΘ
    refine .mk hs ?_ distinct ?_ (groupBy.substitute hc hΘ') ?_ ?_ (optionRel_mono hc.count top)
      (optionRel_mono hc.count offset) (optionRel_mono hc.count limit)
    · have hv := value.substitute hc hΘ'
      rwa [← Selection.value?_substitute, ← Selection.value?_substitute] at hv
    · have hf := filter.substitute hc hΘ'
      rwa [← Scalar.toList_substituteOption, ← Scalar.toList_substituteOption] at hf
    · have ho := orderBy.substitute hc hΘ'
      rwa [← SortKey.values_substituteAll, ← SortKey.values_substituteAll] at ho
    · simpa only [Query.substitute, SortKey.descending_substituteAll] using descending

end

end LambdaQuery
