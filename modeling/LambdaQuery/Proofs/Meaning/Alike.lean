import LambdaQuery.Proofs.Alike.Flatten
import LambdaQuery.Proofs.Fresh
import LambdaQuery.Proofs.Meaning.Basic

/-!
# Alike scalars mean the same

Alike scalars have the same value where the names in their context stand for the same, and alike
queries the same rows (`Scalar.Alike.eval`, `Query.Alike.rows`). This is proved for the left side
after a substitution, which so need not be treated again, and for a right side with parameters of
its own, which may stand for what the left side has names for.
-/

set_option autoImplicit false

namespace LambdaQuery

variable {V : Type} {D : Database V} {f : String → V}

/-! ## Other parameters -/

/-- The database where the parameters of queries have other values. -/
abbrev Database.withParameters (D : Database V) (f : String → V) : Database V :=
  { D with parameter := f }

theorem Database.Lawful.withParameters (h : D.Lawful) (f : String → V) :
    (D.withParameters f).Lawful :=
  ⟨h.and, h.not, h.total, h.trans⟩

theorem Database.before_withParameters {α : Type} (keys : List ((α → V) × Bool)) (a b : α) :
    (D.withParameters f).before keys a b = D.before keys a b := by
  induction keys with
  | nil => rfl
  | cons k keys ih => rw [before, before, ih]

theorem ClauseSemantics.rows_withParameters [DecidableEq V] (c : ClauseSemantics V)
    (ρ : Valuation V)
    (ρs : List (Valuation V)) : c.rows (D.withParameters f) ρ ρs = c.rows D ρ ρs := by
  have hkept : c.kept (D.withParameters f) ρs = c.kept D ρs := by
    simp only [kept, Database.sorted, Database.before_withParameters]
  simp only [rows, unlimited, values, hkept]

/-! ## Clauses of related rows -/

theorem Database.before_congr {α β : Type} {R : α → β → Prop} {keys : List ((α → V) × Bool)}
    {keys' : List ((β → V) × Bool)}
    (hkeys : List.Forall₂ (fun k k' => k.2 = k'.2 ∧ ∀ a b, R a b → k.1 a = k'.1 b) keys keys')
    {a a' : α} {b b' : β} (hab : R a b) (hab' : R a' b') :
    D.before keys a a' = D.before keys' b b' := by
  induction hkeys with
  | nil => rfl
  | @cons k k' _ _ hk _ ih =>
    obtain ⟨key, descending⟩ := k
    obtain ⟨key', descending'⟩ := k'
    obtain ⟨rfl, hkey⟩ := hk
    dsimp only at hkey
    simp only [before, hkey a b hab, hkey a' b' hab', ih]

/-- Clauses that make the same of related rows. -/
structure ClauseSemantics.Agree (R : Valuation V → Valuation V → Prop)
    (c c' : ClauseSemantics V) : Prop where
  passes : ∀ ρ ρ', R ρ ρ' → c.passes ρ = c'.passes ρ'
  keys : List.Forall₂ (fun k k' => k.2 = k'.2 ∧ ∀ ρ ρ', R ρ ρ' → k.1 ρ = k'.1 ρ') c.keys c'.keys
  value : ∀ ρ ρ', R ρ ρ' → c.value ρ none = c'.value ρ' none
  aggregate : c.aggregate = c'.aggregate

namespace ClauseSemantics.Agree

variable {R : Valuation V → Valuation V → Prop} {c c' : ClauseSemantics V}
    {ρs ρs' : List (Valuation V)}

theorem kept (h : c.Agree R c') (hρs : List.Forall₂ R ρs ρs') :
    List.Forall₂ R (c.kept D ρs) (c'.kept D ρs') :=
  Rows.forall₂_insertionSort
    (fun _ _ _ _ hab hab' => by rw [Database.before_congr h.keys hab hab'])
    (List.rel_filter (fun ρ ρ' hab => iff_of_eq (congrArg (· = true) (h.passes ρ ρ' hab))) hρs)

theorem values (h : c.Agree R c') (hρs : List.Forall₂ R ρs ρs') {ρ ρ' : Valuation V}
    (hall : c.aggregate = true → ∀ l l', List.Forall₂ R l l' →
      c.missing l = c'.missing l' ∧ c.value ρ (some l) = c'.value ρ' (some l')) :
    c.values D ρ ρs = c'.values D ρ' ρs' := by
  have hkept := h.kept (D := D) hρs
  unfold ClauseSemantics.values
  rw [← h.aggregate]
  split
  · rename_i hagg
    obtain ⟨hmissing, hvalue⟩ := hall hagg _ _ hkept
    rw [hmissing, hvalue]
  · exact List.forall₂_eq_eq_eq ▸ List.rel_map (fun _ _ hab => h.value _ _ hab) hkept

theorem rows [DecidableEq V] (h : c.Agree R c') (hdistinct : c.distinct = c'.distinct)
    (htop : c.top = c'.top) (hoffset : c.offset = c'.offset) (hlimit : c.limit = c'.limit)
    (hρs : List.Forall₂ R ρs ρs') {ρ ρ' : Valuation V}
    (hall : c.aggregate = true → ∀ l l', List.Forall₂ R l l' →
      c.missing l = c'.missing l' ∧ c.value ρ (some l) = c'.value ρ' (some l')) :
    c.rows D ρ ρs = c'.rows D ρ' ρs' := by
  simp only [ClauseSemantics.rows, ClauseSemantics.bounded, ClauseSemantics.unlimited,
    h.values hρs hall, hdistinct, htop, hoffset, hlimit]

end ClauseSemantics.Agree

/-! ## Alike scalars -/

variable {c : Likeness}

theorem Scalar.Alike.isAggregate {σ : Substitution} (hσ : σ.replacement.isAggregate = false)
    (hleaf : ∀ a b, c.leaf a b → (a.substitute σ).isAggregate = b.isAggregate) :
    ∀ {Γ : Context} {a b : Scalar}, Scalar.Alike c Γ a b →
      (a.substitute σ).isAggregate = b.isAggregate
  | _, _, _, .leaf h => hleaf _ _ h
  | _, _, _, .binary op h h' =>
    congrArg₂ or (h.isAggregate hσ hleaf) (h'.isAggregate hσ hleaf)
  | _, _, _, .ref (n := n) _ => Scalar.isAggregate_substitute hσ (.ref n)
  | _, _, _, .literal _ | _, _, _, .index .. | _, _, _, .unary .. | _, _, _, .notIn ..
  | _, _, _, .negated _ | _, _, _, .call .. | _, _, _, .array _ | _, _, _, .object _
  | _, _, _, .conditional .. | _, _, _, .isIn .. | _, _, _, .exists _ | _, _, _, .arrayOf _
  | _, _, _, .subquery _ => rfl

variable [DecidableEq V]

/-- The names in a context stand for the same, after the substitution on the left, where `P` holds;
and so do the leaves, which are no aggregates. The right side has the parameters `f`. -/
structure Likeness.Means (c : Likeness) (D : Database V) (f : String → V) (σ : Substitution)
    (P : Context → Valuation V → Valuation V → Prop) : Prop where
  count : ∀ m n, c.count m n → D.size m = D.size n
  single : σ.replacement.isAggregate = false
  leaf_single : ∀ a b, c.leaf a b →
    (a.substitute σ).isAggregate = false ∧ b.isAggregate = false
  leaf : ∀ {Γ ρ ρ' a b} (g g' : Option (List (Valuation V))), c.leaf a b → P Γ ρ ρ' →
    (a.substitute σ).eval D ρ g = b.eval (D.withParameters f) ρ' g'
  ref : ∀ {Γ ρ ρ' n m} (g : Option (List (Valuation V))), P Γ ρ ρ' → (n, m) ∈ Γ →
    ((Scalar.ref n).substitute σ).eval D ρ g = ρ' m
  bind : ∀ {Γ ρ ρ' n m} (v : V), P Γ ρ ρ' → c.Fresh Γ n m →
    P ((n, m) :: Γ) (Function.update ρ n v) (Function.update ρ' m v)

section

variable {σ : Substitution} {P : Context → Valuation V → Valuation V → Prop} {Γ : Context}
  {ρ ρ' : Valuation V}

/-- The scalars have the same value where `R` holds, after the substitution on the left. -/
structure Scalar.Same (D : Database V) (f : String → V) (σ : Substitution)
    (R : Valuation V → Valuation V → Prop) (a b : Scalar) : Prop where
  eval : ∀ {ρ ρ' g g'}, R ρ ρ' → Option.Rel (List.Forall₂ R) g g' →
    (a.substitute σ).eval D ρ g = b.eval (D.withParameters f) ρ' g'
  missing : ∀ {rows rows'}, List.Forall₂ R rows rows' →
    (a.substitute σ).missing D rows = b.missing (D.withParameters f) rows'

/-- Only calls may be missing. -/
theorem Scalar.missing_of_single {s : Scalar} (h : s.isAggregate = false)
    (rows : List (Valuation V)) : s.missing D rows = false := by
  cases s with
  | call name args udf =>
    have h : (!udf && Scalar.aggregates.contains name) = false := h
    rw [Scalar.missing, h, Bool.false_and]
  | _ => rfl

theorem Scalar.evalAll_same {as bs : List Scalar}
    (h : List.Forall₂ (Scalar.Same D f σ (P Γ)) as bs) (hρ : P Γ ρ ρ') :
    Scalar.evalAll D (Scalar.substituteAll σ as) ρ =
      Scalar.evalAll (D.withParameters f) bs ρ' := by
  induction h with
  | nil => rfl
  | cons hab _ ih => rw [Scalar.substituteAll, Scalar.evalAll, Scalar.evalAll, hab.eval hρ .none,
    ih]

theorem Scalar.evalAll_rows_same {as bs : List Scalar}
    (h : List.Forall₂ (Scalar.Same D f σ (P Γ)) as bs) {rows rows' : List (Valuation V)}
    (hrows : List.Forall₂ (P Γ) rows rows') :
    (rows.map fun ρ => Scalar.evalAll D (Scalar.substituteAll σ as) ρ) =
      rows'.map fun ρ => Scalar.evalAll (D.withParameters f) bs ρ :=
  List.forall₂_eq_eq_eq ▸ List.rel_map (fun _ _ hab => Scalar.evalAll_same h hab) hrows

theorem Scalar.passes_same {s s' : Option Scalar}
    (h : List.Forall₂ (Scalar.Same D f σ (P Γ)) s.toList s'.toList) (hρ : P Γ ρ ρ') :
    Scalar.passes D (Scalar.substituteOption σ s) ρ =
      Scalar.passes (D.withParameters f) s' ρ' := by
  cases s <;> cases s' <;> cases h
  · rfl
  · rename_i hab _
    exact congrArg D.holds (hab.eval hρ .none)

theorem SortKey.keys_same {ks ks' : List SortKey}
    (h : List.Forall₂ (Scalar.Same D f σ (P Γ)) (ks.map (·.value)) (ks'.map (·.value)))
    (hd : ks.map (·.descending) = ks'.map (·.descending)) :
    List.Forall₂ (fun k k' => k.2 = k'.2 ∧ ∀ ρ ρ', P Γ ρ ρ' → k.1 ρ = k'.1 ρ')
      (SortKey.keys D (SortKey.substituteAll σ ks))
      (SortKey.keys (D.withParameters f) ks') := by
  induction ks generalizing ks' with
  | nil =>
    cases ks' with
    | nil => exact .nil
    | cons => cases hd
  | cons k ks ih =>
    cases ks' with
    | nil => cases hd
    | cons k' ks' =>
      obtain ⟨value, descending⟩ := k
      obtain ⟨value', descending'⟩ := k'
      obtain ⟨hdk, hd⟩ := List.cons.inj hd
      cases h with
      | cons hk h => exact .cons ⟨hdk, fun _ _ hρ => hk.eval hρ .none⟩ (ih h hd)

theorem Likeness.Means.size_congr (hc : c.Means D f σ P) {m n : Option Count}
    (h : Option.Rel c.count m n) : m.map D.size = n.map D.size := by
  cases h with
  | none => rfl
  | some h => exact congrArg some (hc.count _ _ h)

theorem Source.AllAlike.blank (hc : c.Means D f σ P) {Γ Δ : Context} {ρ ρ' : Valuation V}
    {ss ts : List Source} (h : Source.AllAlike c Γ ss ts Δ) (hρ : P Γ ρ ρ') :
    P Δ (Source.blank D (Source.substituteAll σ ss) ρ)
      (Source.blank (D.withParameters f) ts ρ') := by
  induction ss generalizing Γ ρ ρ' ts with
  | nil =>
    cases h
    exact hρ
  | cons s ss ih =>
    rw [Source.substituteAll, Source.blank]
    cases h with
    | container hn h =>
      rw [Source.blank]
      exact ih h (hc.bind _ hρ hn)
    | items hp hn h =>
      rw [Source.blank]
      exact ih h (hc.bind _ hρ hn)
    | subquery hq hn h =>
      rw [Source.blank]
      exact ih h (hc.bind _ hρ hn)

mutual

/-- **Alike scalars have the same value.** -/
theorem Scalar.Alike.eval (hD : D.Lawful) (hc : c.Means D f σ P) : ∀ {Γ : Context}
    {ρ ρ' : Valuation V} {a b : Scalar} {g g' : Option (List (Valuation V))},
    Scalar.Alike c Γ a b → P Γ ρ ρ' →
      Option.Rel (List.Forall₂ (P Γ)) g g' →
        (a.substitute σ).eval D ρ g = b.eval (D.withParameters f) ρ' g'
  | _, _, _, _, _, g, g', .leaf h, hρ, _ => hc.leaf g g' h hρ
  | _, _, _, _, _, _, _, .literal value, _, _ => rfl
  | _, _, _, _, _, g, _, .ref h, hρ, _ => hc.ref g hρ h
  | _, _, _, _, _, _, _, .index h hk, hρ, _ => by
    simp only [Scalar.substitute, Scalar.eval, h.eval hD hc hρ .none, hk.eval hD hc hρ .none]
  | _, _, _, _, _, _, _, .binary op h h', hρ, hg => by
    simp only [Scalar.substitute, Scalar.eval, h.eval hD hc hρ hg, h'.eval hD hc hρ hg]
  | _, _, _, _, _, _, _, .unary op h, hρ, _ => by
    simp only [Scalar.substitute, Scalar.eval, h.eval hD hc hρ .none]
  | _, _, _, _, _, _, _, .notIn hn h, hρ, _ => by
    rw [Scalar.substitute, Scalar.eval, h.eval hD hc hρ .none, Scalar.eval, hD.not, Scalar.eval]
  | _, _, _, _, _, _, _, .negated h, hρ, _ => by
    have hin := congrArg (D.unary .not) (h.eval hD hc hρ .none)
    rw [Scalar.substitute, Scalar.eval, Scalar.eval, hD.not, hD.not] at hin
    rw [Scalar.substitute, Scalar.eval, Scalar.eval, hin]
  | _, _, _, _, _, _, _, .call name udf h, hρ, hg => by
    rw [Scalar.substitute]
    cases hg with
    | none => rw [Scalar.eval, Scalar.eval, Scalar.evalAll_same (h.eval hD hc) hρ]
    | @some rows rows' hg =>
      rw [Scalar.eval, Scalar.eval, Scalar.evalAll_same (h.eval hD hc) hρ,
        Scalar.evalAll_rows_same (h.eval hD hc) hg]
      rfl
  | _, _, _, _, _, _, _, .array h, hρ, _ => by
    simp only [Scalar.substitute, Scalar.eval, Scalar.evalAll_same (h.eval hD hc) hρ]
  | _, _, _, _, _, _, _, .object h, hρ, _ => by
    simp only [Scalar.substitute, Scalar.eval, h.eval hD hc hρ]
  | _, _, _, _, _, _, _, .conditional h h₁ h₂, hρ, _ => by
    simp only [Scalar.substitute, Scalar.eval, h.eval hD hc hρ .none, h₁.eval hD hc hρ .none,
      h₂.eval hD hc hρ .none]
  | _, _, _, _, _, _, _, .isIn negated h hs, hρ, _ => by
    simp only [Scalar.substitute, Scalar.eval, h.eval hD hc hρ .none,
      Scalar.evalAll_same (hs.eval hD hc) hρ]
  | _, _, _, _, _, _, _, .exists h, hρ, _ => by
    simp only [Scalar.substitute, Scalar.eval, h.rows hD hc hρ]
  | _, _, _, _, _, _, _, .arrayOf h, hρ, _ => by
    simp only [Scalar.substitute, Scalar.eval, h.rows hD hc hρ]
  | _, _, _, _, _, _, _, .subquery h, hρ, _ => by
    simp only [Scalar.substitute, Scalar.eval, h.rows hD hc hρ]

theorem Scalar.AllAlike.eval (hD : D.Lawful) (hc : c.Means D f σ P) : ∀ {Γ : Context}
    {as bs : List Scalar}, Scalar.AllAlike c Γ as bs →
    List.Forall₂ (Scalar.Same D f σ (P Γ)) as bs
  | _, _, _, .nil => .nil
  | _, _, _, .cons h hs =>
    .cons ⟨fun hρ hg => h.eval hD hc hρ hg, fun hrows => h.missing hD hc hrows⟩ (hs.eval hD hc)

/-- An aggregate is missing on both sides or on none. -/
theorem Scalar.Alike.missing (hD : D.Lawful) (hc : c.Means D f σ P) : ∀ {Γ : Context}
    {a b : Scalar} {rows rows' : List (Valuation V)},
    Scalar.Alike c Γ a b → List.Forall₂ (P Γ) rows rows' →
      (a.substitute σ).missing D rows = b.missing (D.withParameters f) rows'
  | _, _, _, _, _, .leaf h, _ => by
    obtain ⟨ha, hb⟩ := hc.leaf_single _ _ h
    rw [Scalar.missing_of_single ha, Scalar.missing_of_single hb]
  | _, _, _, _, _, .ref (n := n) h, _ =>
    Scalar.missing_of_single (Scalar.isAggregate_substitute hc.single (.ref n)) _
  | _, _, _, _, _, .call name udf h, hrows => by
    rw [Scalar.substitute, Scalar.missing, Scalar.missing,
      Scalar.evalAll_rows_same (h.eval hD hc) hrows]
    rfl
  | _, _, _, _, _, .literal _, _ | _, _, _, _, _, .index .., _ | _, _, _, _, _, .binary .., _
  | _, _, _, _, _, .unary .., _ | _, _, _, _, _, .notIn .., _ | _, _, _, _, _, .negated _, _
  | _, _, _, _, _, .array _, _ | _, _, _, _, _, .object _, _ | _, _, _, _, _, .conditional .., _
  | _, _, _, _, _, .isIn .., _ | _, _, _, _, _, .exists _, _ | _, _, _, _, _, .arrayOf _, _
  | _, _, _, _, _, .subquery _, _ => rfl

theorem Scalar.PropertiesAlike.eval (hD : D.Lawful) (hc : c.Means D f σ P) : ∀ {Γ : Context}
    {ρ ρ' : Valuation V}
    {ps qs : List (String × Scalar)}, Scalar.PropertiesAlike c Γ ps qs → P Γ ρ ρ' →
      Scalar.evalProperties D (Scalar.substituteProperties σ ps) ρ =
        Scalar.evalProperties (D.withParameters f) qs ρ'
  | _, _, _, _, _, .nil, _ => rfl
  | _, _, _, _, _, .cons name h hs, hρ => by
    rw [Scalar.substituteProperties, Scalar.evalProperties, Scalar.evalProperties,
      h.eval hD hc hρ .none, hs.eval hD hc hρ]

/-- Alike sources bind their names to the same values. -/
theorem Source.AllAlike.valuations (hD : D.Lawful) (hc : c.Means D f σ P) : ∀ {Γ Δ : Context}
    {ρ ρ' : Valuation V}
    {ss ts : List Source}, Source.AllAlike c Γ ss ts Δ → P Γ ρ ρ' →
      List.Forall₂ (P Δ) (Source.valuations D (Source.substituteAll σ ss) ρ)
        (Source.valuations (D.withParameters f) ts ρ')
  | _, _, _, _, _, _, .nil, hρ => .cons hρ .nil
  | _, _, _, _, _, _, .container hn h, hρ => by
    rw [Source.substituteAll, Source.substitute, Source.valuations, Source.valuations]
    exact Rows.forall₂_flatMap_same _ fun v => h.valuations hD hc (hc.bind v hρ hn)
  | _, _, _, _, _, _, .items hp hn h, hρ => by
    rw [Source.substituteAll, Source.substitute, Source.valuations, Source.valuations,
      hp.eval hD hc hρ .none]
    exact Rows.forall₂_flatMap_same _ fun v => h.valuations hD hc (hc.bind v hρ hn)
  | _, _, _, _, _, _, .subquery hq hn h, hρ => by
    rw [Source.substituteAll, Source.substitute, Source.valuations, Source.valuations,
      hq.rows hD hc hρ]
    exact Rows.forall₂_flatMap_same _ fun v => h.valuations hD hc (hc.bind v hρ hn)

/-- **Alike queries have the same rows.** -/
theorem Query.Alike.rows (hD : D.Lawful) (hc : c.Means D f σ P) : ∀ {Γ : Context}
    {ρ ρ' : Valuation V} {q r : Query},
    Query.Alike c Γ q r → P Γ ρ ρ' →
      (q.substitute σ).rows D ρ = r.rows (D.withParameters f) ρ'
  | _, ρ, ρ', ⟨⟨p, d, top⟩, ss, k, gs, os, offset, limit⟩,
    ⟨⟨p', d', top'⟩, ss', k', gs', os', offset', limit'⟩,
    .mk (Δ := Δ) hsources hvalue hdistinct hfilter hgroupBy horderBy hdescending htop hoffset
      hlimit, hρ => by
    have hρs := hsources.valuations hD hc hρ
    have hblank := hsources.blank hc hρ
    have hv := hvalue.eval hD hc
    have hf := hfilter.eval hD hc
    have ho := horderBy.eval hD hc
    have hagg : ∀ v v', p = .value v → p' = .value v' →
        (v.substitute σ).isAggregate = v'.isAggregate := by
      rintro v v' rfl rfl
      cases hvalue with
      | cons h _ =>
        exact h.isAggregate hc.single fun a b hab =>
          (hc.leaf_single a b hab).1.trans (hc.leaf_single a b hab).2.symm
    dsimp only at hv hf ho hdistinct hdescending htop hoffset hlimit hρs hblank
    subst hdistinct
    -- Unless both sides select a value and do not group, neither has rows.
    cases p <;> cases p' <;> cases hgroupBy <;> try rfl
    · cases hv
    · cases hv
    · rename_i v v'
      simp only [Query.substitute, Selection.substitute, Projection.substitute,
        Scalar.substituteAll, Query.rows, hc.size_congr htop, hc.size_congr hoffset,
        hc.size_congr hlimit]
      rw [ClauseSemantics.rows_withParameters (D := D) (f := f)]
      cases hv with
      | cons hv _ =>
      refine ClauseSemantics.Agree.rows (R := P Δ) ?_ ?_ ?_ ?_ ?_ hρs ?_ <;> try rfl
      · exact ⟨fun ρ ρ' hρ => Scalar.passes_same hf hρ, SortKey.keys_same ho hdescending,
          fun ρ ρ' hρ => hv.eval hρ .none, hagg v v' rfl rfl⟩
      · exact fun _ l l' hl => ⟨hv.missing hl, hv.eval hblank (.some hl)⟩

end

end

/-! ## Without a substitution -/

/-- The leaves have the same values where `R` holds, also below more names. -/
structure Likeness.Reads (c : Likeness) (D : Database V) (f : String → V)
    (R : Valuation V → Valuation V → Prop) : Prop where
  count : ∀ m n, c.count m n → D.size m = D.size n
  single : ∀ a b, c.leaf a b → a.isAggregate = false ∧ b.isAggregate = false
  leaf : ∀ {ρ ρ' a b} (g g' : Option (List (Valuation V))), c.leaf a b → R ρ ρ' →
    a.eval D ρ g = b.eval (D.withParameters f) ρ' g'
  bind : ∀ {ρ ρ' n m} (v : V), R ρ ρ' → n ∉ c.left → m ∉ c.right →
    R (Function.update ρ n v) (Function.update ρ' m v)

/-- The names in a context stand for the same. -/
def Context.Agrees (Γ : Context) (ρ ρ' : Valuation V) : Prop := ∀ p ∈ Γ, ρ p.1 = ρ' p.2

omit [DecidableEq V] in
theorem Context.Agrees.bind {Γ : Context} {ρ ρ' : Valuation V} (h : Context.Agrees Γ ρ ρ')
    {n m : String} (hn : c.Fresh Γ n m) (v : V) :
    Context.Agrees ((n, m) :: Γ) (Function.update ρ n v) (Function.update ρ' m v) := fun p hp => by
  rcases List.mem_cons.mp hp with rfl | hp
  · rw [Function.update_self, Function.update_self]
  · obtain ⟨hl, hr⟩ := hn.unbound p hp
    rw [Function.update_of_ne hl, Function.update_of_ne hr]
    exact h p hp

/-- A name that neither the leaves have nor one of `ns` is. -/
theorem Likeness.exists_unused (c : Likeness) (ns : List String) : ∃ x, x ∉ c.left ∧ x ∉ ns := by
  obtain ⟨k, -, hk⟩ := Scope.exists_number (c.left ++ ns) "" 0
  exact ⟨_, fun h => hk (List.mem_append_left _ h), fun h => hk (List.mem_append_right _ h)⟩

theorem Likeness.Reads.means {R : Valuation V → Valuation V → Prop} (h : c.Reads D f R)
    {x : String} (hx : x ∉ c.left) :
    c.Means D f ⟨x, .ref x⟩ fun Γ ρ ρ' => Context.Agrees Γ ρ ρ' ∧ R ρ ρ' := by
  have hleaf : ∀ {a b}, c.leaf a b → a.substitute ⟨x, .ref x⟩ = a := fun {a b} hab =>
    a.substitute_of_not_mem fun hm => hx ((c.leaf_names a b hab).1 hm)
  refine ⟨h.count, rfl, fun a b hab => ?_, fun g g' hab hρ => ?_, fun {_ _ _ n _} g hρ hp => ?_,
    fun v hρ hn => ⟨hρ.1.bind hn v, h.bind v hρ.2 hn.left hn.right⟩⟩
  · rw [hleaf hab]
    exact h.single a b hab
  · rw [hleaf hab]
    exact h.leaf g g' hab hρ.2
  · have href : (Scalar.ref n).substitute ⟨x, .ref x⟩ = .ref n := by
      rw [Scalar.substitute]
      split
      · rename_i he
        exact congrArg Scalar.ref he.symm
      · rfl
    rw [href]
    exact hρ.1 _ hp

/-- Alike scalars have the same value where their names and leaves do. -/
theorem Scalar.Alike.eval_eq {R : Valuation V → Valuation V → Prop} (hD : D.Lawful)
    (hc : c.Reads D f R) {Γ : Context} {a b : Scalar} (h : Scalar.Alike c Γ a b)
      {ρ ρ' : Valuation V}
    (hΓ : Context.Agrees Γ ρ ρ') (hρ : R ρ ρ') :
    a.eval D ρ none = b.eval (D.withParameters f) ρ' none := by
  obtain ⟨x, hx, hxa⟩ := c.exists_unused a.names
  rw [← a.substitute_of_not_mem (σ := ⟨x, .ref x⟩) hxa]
  exact h.eval hD (hc.means hx) ⟨hΓ, hρ⟩ .none

end LambdaQuery
