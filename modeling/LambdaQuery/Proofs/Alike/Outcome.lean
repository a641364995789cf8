import LambdaQuery.Proofs.Alike.Runs

/-!
# Outcomes of two runs

`Setting.Outcome`: two scalars that come out of two runs are alike, and the compilation sees the
same of both. Each way to build a scalar from others keeps it.
-/

set_option autoImplicit false

namespace LambdaQuery

/-! ## Frames -/

/-- The frame with all names in use. -/
def Frame.reserved (F : Frame) (s s' : Scope) : Frame :=
  { F with left := s.names, right := s'.names }

/-- The frame with a pair more. -/
def Frame.bind (F : Frame) (a b : Scalar) : Frame := { F with pairs := (a, b) :: F.pairs }

/-- The frame with corresponding parameters. -/
def Frame.enter (F : Frame) (B : Binders) : Frame := { F with binders := B }

/-- The names of the frame are in use, those of its pairs reserved. -/
structure Frame.Within (F : Frame) (s s' : Scope) : Prop where
  names : ∀ p ∈ F.pairs, p.1.names ⊆ F.left ∧ p.2.names ⊆ F.right
  left : F.left ⊆ s.names
  right : F.right ⊆ s'.names

namespace Setting

variable (κ : Setting)

/-! ## Outcomes -/

/-- Scalars made of names in use, of which the compilation sees the same. -/
structure Seen (t t' : Scope) (a b : Scalar) : Prop where
  facts : κ.Facts a b
  left : a.names ⊆ t.live
  right : b.names ⊆ t'.names

/-- Scalars that come out alike; outside of groups they are no aggregates. -/
structure Outcome (F : Frame) (t t' : Scope) (a b : Scalar) : Prop extends κ.Seen t t' a b where
  single : t'.group = none → b.isAggregate = false
  alike : Scalar.Alike (κ.likeness t'.parameters F) [] a b

variable {κ} {F : Frame} {s s' t t' : Scope}

theorem likeness_le {qs rs : List QueryParameter} (h : qs <+: rs) (F : Frame) :
    (κ.likeness qs F).Le (κ.likeness rs F) where
  leaf _ _ hab := hab.imp_left (κ.leaf_mono h)
  count _ _ := κ.count_mono h
  negation := id
  named := id
  left := List.Subset.refl _
  right := List.Subset.refl _

theorem Seen.step {a b : Scalar} (h : κ.Seen s s' a b) (hs : κ.Step s s' t t') :
    κ.Seen t t' a b where
  facts := h.facts
  left := List.Subset.trans h.left hs.left.live
  right := List.Subset.trans h.right hs.right.names

theorem within_step (h : F.Within s s') (hs : κ.Step s s' t t') : F.Within t t' :=
  ⟨h.names, List.Subset.trans h.left hs.left.names, List.Subset.trans h.right hs.right.names⟩

theorem Outcome.step {a b : Scalar} (h : κ.Outcome F s s' a b) (hs : κ.Step s s' t t') :
    κ.Outcome F t t' a b where
  toSeen := h.toSeen.step hs
  single := by
    rw [hs.right.group]
    exact h.single
  alike := h.alike.mono (likeness_le hs.right.parameters F)

/-- What comes out inside of a lambda is alike outside of it. -/
theorem Outcome.leave {B : Binders} {a b : Scalar} (h : κ.Outcome (F.enter B) t t' a b) :
    κ.Outcome F t t' a b :=
  ⟨h.toSeen, h.single, h.alike⟩

namespace Scopes

variable (h : κ.Scopes F s s')

include h

theorem within : F.Within s s' := ⟨h.names, h.left, h.right⟩

theorem reserved : κ.Scopes (F.reserved s s') s s' :=
  { h with
    names := fun p hp => ⟨List.Subset.trans (h.names p hp).1 h.left,
      List.Subset.trans (h.names p hp).2 h.right⟩
    left := List.Subset.refl _
    right := List.Subset.refl _ }

theorem pushMethod (method : String) :
    κ.Scopes F (s.pushMethod method) (s'.pushMethod method) :=
  { h with depth := h.depth }

theorem pushCollection (c c' : Collection) :
    κ.Scopes F (s.pushCollection c) (s'.pushCollection c') :=
  { h with depth := h.depth }

theorem enterSubquery : κ.Scopes F s.enterSubquery s'.enterSubquery :=
  { h with depth := congrArg (· + 1) h.depth }

/-- What is seen alike may be added to the frame. -/
theorem addPair {a b : Scalar} (hab : κ.Seen s s' a b)
    (hsingle : s'.group = none → b.isAggregate = false) :
    κ.Scopes ((F.bind a b).reserved s s') s s' :=
  { h.reserved with
    lookup? := fun hxy => optionRel_mono (fun _ _ => List.mem_cons_of_mem _) (h.lookup? hxy)
    groupRow? := fun hxy =>
      optionRel_mono (fun _ _ hg => hg.imp_left (List.mem_cons_of_mem _)) (h.groupRow? hxy)
    facts := fun p hp => by
      rcases List.mem_cons.mp hp with rfl | hp
      · exact hab.facts
      · exact h.facts p hp
    single := fun hg p hp => by
      rcases List.mem_cons.mp hp with rfl | hp
      · exact hsingle hg
      · exact h.single hg p hp
    names := fun p hp => by
      rcases List.mem_cons.mp hp with rfl | hp
      · exact ⟨List.Subset.trans hab.left s.live_subset, hab.right⟩
      · exact h.reserved.names p hp
    live := fun p hp => by
      rcases List.mem_cons.mp hp with rfl | hp
      · exact hab.left
      · exact h.live p hp }

theorem bindPair {a b : Scalar} (hab : (a, b) ∈ F.pairs) {name name' : String}
    (hn : κ.exact → name = name') :
    κ.Scopes (F.enter (F.binders.bind name name')) (s.bindTo name a) (s'.bindTo name' b) :=
  { h with
    lookup? := by
      rintro x y (⟨rfl, rfl⟩ | ⟨hx, hy, hxy⟩)
      · rw [Scope.lookup?, Scope.lookup?, Scope.bindTo, Scope.bindTo, Record.get?, Record.get?,
          if_pos rfl, if_pos rfl]
        exact .some hab
      · rw [Scope.lookup?, Scope.lookup?, Scope.bindTo, Scope.bindTo, Record.get?, Record.get?,
          if_neg (Ne.symm hx), if_neg (Ne.symm hy)]
        exact h.lookup? hxy
    exact := by
      rintro he x y (⟨rfl, rfl⟩ | ⟨-, -, hxy⟩)
      · exact hn he
      · exact h.exact he x y hxy }

/-- Binding a parameter adds what it stands for to the frame. -/
theorem bindTo {a b : Scalar} (hab : κ.Seen s s' a b)
    (hsingle : s'.group = none → b.isAggregate = false) {name name' : String}
    (hn : κ.exact → name = name') :
    κ.Scopes (((F.bind a b).reserved s s').enter (F.binders.bind name name')) (s.bindTo name a)
      (s'.bindTo name' b) :=
  (h.addPair hab hsingle).bindPair List.mem_cons_self hn

/-- Where nothing is bound, any parameters correspond. -/
theorem unbound (hs : s.bindings = []) (hs' : s'.bindings = []) {name name' : String}
    (hn : κ.exact → name = name') :
    κ.Scopes (F.enter (F.binders.bind name name')) s s' :=
  { h with
    lookup? := fun _ => by
      rw [Scope.lookup?, Scope.lookup?, hs, hs']
      exact .none
    exact := by
      rintro he x y (⟨rfl, rfl⟩ | ⟨-, -, hxy⟩)
      · exact hn he
      · exact h.exact he x y hxy }

theorem setGroup {a b : Scalar} (hab : (a, b) ∈ F.pairs) (name name' : String) :
    κ.Scopes (F.enter (F.binders.group name name')) (s.setGroup (some ⟨name, a⟩))
      (s'.setGroup (some ⟨name', b⟩)) :=
  { h with
    groupRow? := by
      intro x y hxy
      show Option.Rel _ (if name = x then some a else none) (if name' = y then some b else none)
      have hxy := hxy h.strict
      by_cases hx : name = x
      · rw [if_pos hx, if_pos (hxy.mp hx.symm).symm]
        exact .some ⟨hab, fun hne => nomatch hne⟩
      · rw [if_neg hx, if_neg fun hy => hx (hxy.mpr hy.symm).symm]
        exact .none
    single := fun hg => (nomatch hg) }

/-- A pair of the frame is an outcome. -/
theorem outcome {a b : Scalar} (hab : (a, b) ∈ F.pairs) : κ.Outcome F s s' a b where
  alike := .leaf (.inr ⟨hab, h.names _ hab⟩)
  facts := h.facts _ hab
  single hg := h.single hg _ hab
  left := h.live _ hab
  right := List.Subset.trans (h.names _ hab).2 h.right

end Scopes

/-! ## Building scalars -/

/-- Scalars that are seen alike because they are of one form, which is no literal. -/
theorem Facts.of_form {a b : Scalar} (hindex : a.isIndex = b.isIndex) (ha : a.isLiteral = false)
    (hb : b.isLiteral = false) (hagg : a.isAggregate = b.isAggregate)
    (hobject : Compilation.isObject a = Compilation.isObject b)
    (hmem : a.isMembership = b.isMembership) : κ.Facts a b where
  shape := κ.shape_of hindex ha hb
  aggregate := hagg
  object h := .inl (hobject ▸ h)
  membership h := hmem ▸ h
  negation h := .inl (hmem ▸ h)

theorem Facts.leaf {qs : List QueryParameter} {a b : Scalar} (h : κ.leaf qs a b) :
    κ.Facts a b := by
  obtain ⟨-, hagg, hmem, hobject, -⟩ := κ.leaf_left h
  obtain ⟨name, rfl⟩ := κ.leaf_right h
  refine ⟨κ.leaf_shape h, hagg, fun h => .inr (hobject h), fun h => ?_, fun h => (nomatch h)⟩
  rw [hmem] at h
  cases h

variable (κ) in
abbrev Outcomes (F : Frame) (t t' : Scope) (as bs : List Scalar) : Prop :=
  List.Forall₂ (κ.Outcome F t t') as bs

theorem Outcomes.step {as bs : List Scalar} (h : κ.Outcomes F s s' as bs)
    (hs : κ.Step s s' t t') : κ.Outcomes F t t' as bs :=
  h.imp fun _ _ hab => hab.step hs

theorem Outcomes.alike {as bs : List Scalar} (h : κ.Outcomes F t t' as bs) :
    Scalar.AllAlike (κ.likeness t'.parameters F) [] as bs := by
  induction h with
  | nil => exact .nil
  | cons hab h ih => exact .cons hab.alike ih

theorem Outcomes.left {as bs : List Scalar} (h : κ.Outcomes F t t' as bs) :
    Scalar.namesAll as ⊆ t.live := by
  induction h with
  | nil => exact List.nil_subset _
  | cons hab h ih => exact List.append_subset.mpr ⟨hab.left, ih⟩

theorem Outcomes.right {as bs : List Scalar} (h : κ.Outcomes F t t' as bs) :
    Scalar.namesAll bs ⊆ t'.names := by
  induction h with
  | nil => exact List.nil_subset _
  | cons hab h ih => exact List.append_subset.mpr ⟨hab.right, ih⟩

namespace Outcome

variable {a b a₁ b₁ a₂ b₂ : Scalar} {as bs : List Scalar} {q r : Query}

theorem leaf (h : κ.leaf t'.parameters a b) : κ.Outcome F t t' a b where
  alike := .leaf (.inl h)
  facts := .leaf h
  single _ := by
    obtain ⟨name, rfl⟩ := κ.leaf_right h
    rfl
  left := by
    rw [(κ.leaf_left h).1]
    exact List.nil_subset _
  right := by
    obtain ⟨name, rfl⟩ := κ.leaf_right h
    exact List.nil_subset _

theorem literal (value : Literal) : κ.Outcome F t t' (.literal value) (.literal value) where
  alike := .literal value
  facts := ⟨κ.shape_literal value, rfl, fun h => .inl h, id, fun h => .inl h⟩
  single _ := rfl
  left := List.nil_subset _
  right := List.nil_subset _

theorem index (h : κ.Outcome F t t' a b) (hk : κ.Outcome F t t' a₁ b₁) :
    κ.Outcome F t t' (.index a a₁) (.index b b₁) where
  alike := .index h.alike hk.alike
  facts := .of_form rfl rfl rfl rfl rfl rfl
  single _ := rfl
  left := List.append_subset.mpr ⟨h.left, hk.left⟩
  right := List.append_subset.mpr ⟨h.right, hk.right⟩

theorem binary (op : QueryBinaryOp) (h : κ.Outcome F t t' a b) (h₁ : κ.Outcome F t t' a₁ b₁) :
    κ.Outcome F t t' (.binary op a a₁) (.binary op b b₁) where
  alike := .binary op h.alike h₁.alike
  facts := .of_form rfl rfl rfl
    (by rw [Scalar.isAggregate, Scalar.isAggregate, h.facts.aggregate, h₁.facts.aggregate]) rfl rfl
  single hg := by
    rw [Scalar.isAggregate, h.single hg, h₁.single hg]
    rfl
  left := List.append_subset.mpr ⟨h.left, h₁.left⟩
  right := List.append_subset.mpr ⟨h.right, h₁.right⟩

theorem unary (op : QueryUnaryOp) (h : κ.Outcome F t t' a b) :
    κ.Outcome F t t' (.unary op a) (.unary op b) where
  alike := .unary op h.alike
  facts := .of_form rfl rfl rfl rfl rfl rfl
  single _ := rfl
  left := h.left
  right := h.right

/-- A call, of an aggregate function only within a group. -/
theorem call {name : String} {udf : Bool} (h : κ.Outcomes F t t' as bs)
    (hname : t'.group = none → (!udf && Scalar.aggregates.contains name) = false) :
    κ.Outcome F t t' (.call name as udf) (.call name bs udf) where
  alike := .call name udf h.alike
  facts := .of_form rfl rfl rfl rfl rfl rfl
  single := hname
  left := h.left
  right := h.right

theorem array (h : κ.Outcomes F t t' as bs) : κ.Outcome F t t' (.array as) (.array bs) where
  alike := .array h.alike
  facts := .of_form rfl rfl rfl rfl rfl rfl
  single _ := rfl
  left := h.left
  right := h.right

/-- An object of properties with the same names. -/
theorem object {ps qs : List (String × Scalar)}
    (h : List.Forall₂ (fun p q => p.1 = q.1 ∧ κ.Outcome F t t' p.2 q.2) ps qs) :
    κ.Outcome F t t' (.object ps) (.object qs) where
  alike := by
    refine .object ?_
    induction h with
    | nil => exact .nil
    | @cons p q ps qs hpq _ ih =>
      obtain ⟨name, a⟩ := p
      obtain ⟨name', b⟩ := q
      obtain ⟨rfl, hab⟩ := hpq
      exact .cons name hab.alike ih
  facts := .of_form rfl rfl rfl rfl rfl rfl
  single _ := rfl
  left := by
    show Scalar.namesProperties ps ⊆ t.live
    induction h with
    | nil => exact List.nil_subset _
    | cons hpq _ ih => exact List.append_subset.mpr ⟨hpq.2.left, ih⟩
  right := by
    show Scalar.namesProperties qs ⊆ t'.names
    induction h with
    | nil => exact List.nil_subset _
    | cons hpq _ ih => exact List.append_subset.mpr ⟨hpq.2.right, ih⟩

theorem conditional (h : κ.Outcome F t t' a b) (h₁ : κ.Outcome F t t' a₁ b₁)
    (h₂ : κ.Outcome F t t' a₂ b₂) :
    κ.Outcome F t t' (.conditional a a₁ a₂) (.conditional b b₁ b₂) where
  alike := .conditional h.alike h₁.alike h₂.alike
  facts := .of_form rfl rfl rfl rfl rfl rfl
  single _ := rfl
  left := List.append_subset.mpr ⟨h.left, List.append_subset.mpr ⟨h₁.left, h₂.left⟩⟩
  right := List.append_subset.mpr ⟨h.right, List.append_subset.mpr ⟨h₁.right, h₂.right⟩⟩

theorem isIn (negated : Bool) (h : κ.Outcome F t t' a b) (hs : κ.Outcomes F t t' as bs) :
    κ.Outcome F t t' (.isIn a as negated) (.isIn b bs negated) where
  alike := .isIn negated h.alike hs.alike
  facts := .of_form rfl rfl rfl rfl rfl rfl
  single _ := rfl
  left := List.append_subset.mpr ⟨h.left, hs.left⟩
  right := List.append_subset.mpr ⟨h.right, hs.right⟩

/-- Negation is the same on both sides, except that a membership test takes it in. -/
theorem not (h : κ.Outcome F t t' a b) :
    κ.Outcome F t t' (Compilation.unaryOf .not a) (Compilation.unaryOf .not b) := by
  have hplain : ∀ {s : Scalar}, s.isMembership = false →
      Compilation.unaryOf .not s = .unary .not s := by
    intro s hs
    cases s with
    | isIn => cases hs
    | _ => rfl
  cases hb : b.isMembership with
  | false =>
    have ha : a.isMembership = false := by
      cases ha : a.isMembership with
      | false => rfl
      | true =>
        rw [h.facts.membership ha] at hb
        cases hb
    rw [hplain ha, hplain hb]
    exact h.unary .not
  | true =>
    cases b with
    | isIn item items negated =>
      cases ha : a.isMembership with
      | true =>
        cases a with
        | isIn item' items' negated' =>
          exact ⟨⟨.of_form rfl rfl rfl rfl rfl rfl, h.left, h.right⟩, fun _ => rfl,
            .negated h.alike⟩
        | _ => cases ha
      | false =>
        have hn : κ.negation := (h.facts.negation hb).resolve_left fun h => by
          rw [ha] at h
          cases h
        rw [hplain ha]
        exact ⟨⟨⟨κ.shape_of rfl rfl rfl, rfl, fun h => (nomatch h), fun h => (nomatch h),
          fun _ => .inr hn⟩, h.left, h.right⟩, fun _ => rfl, .notIn hn h.alike⟩
    | _ => cases hb

section

variable (h : Query.Alike (κ.likeness t'.parameters F) [] q r) (hl : q.names ⊆ t.live)
  (hr : r.names ⊆ t'.names)

include h hl hr

theorem «exists» : κ.Outcome F t t' (.exists q) (.exists r) :=
  ⟨⟨.of_form rfl rfl rfl rfl rfl rfl, hl, hr⟩, fun _ => rfl, .exists h⟩

theorem arrayOf : κ.Outcome F t t' (.arrayOf q) (.arrayOf r) :=
  ⟨⟨.of_form rfl rfl rfl rfl rfl rfl, hl, hr⟩, fun _ => rfl, .arrayOf h⟩

theorem subquery : κ.Outcome F t t' (.subquery q) (.subquery r) :=
  ⟨⟨.of_form rfl rfl rfl rfl rfl rfl, hl, hr⟩, fun _ => rfl, .subquery h⟩

end

end Outcome

/-! ## Congruences -/

variable (κ) in
/-- A relation of scalars that come out of two runs, which the ways to build scalars keep. -/
structure Congruence (Q : Scope → Scope → Scalar → Scalar → Prop) : Prop where
  step : ∀ {s s' t t' a b}, Q s s' a b → κ.Step s s' t t' → Q t t' a b
  literal : ∀ {t t'} value, Q t t' (.literal value) (.literal value)
  index : ∀ {t t' a b a₁ b₁}, Q t t' a b → Q t t' a₁ b₁ → Q t t' (.index a a₁) (.index b b₁)
  binary : ∀ {t t' a b a₁ b₁} op, Q t t' a b → Q t t' a₁ b₁ →
    Q t t' (.binary op a a₁) (.binary op b b₁)
  unary : ∀ {t t' a b} op, Q t t' a b → Q t t' (.unary op a) (.unary op b)
  not : ∀ {t t' a b}, Q t t' a b →
    Q t t' (Compilation.unaryOf .not a) (Compilation.unaryOf .not b)
  /-- A function that is no aggregate. -/
  call : ∀ {t t' as bs} name udf, udf = true ∨ Scalar.aggregates.contains name = false →
    List.Forall₂ (Q t t') as bs → Q t t' (.call name as udf) (.call name bs udf)
  array : ∀ {t t' as bs}, List.Forall₂ (Q t t') as bs → Q t t' (.array as) (.array bs)
  object : ∀ {t t'} {ps qs : List (String × Scalar)},
    List.Forall₂ (fun p q => p.1 = q.1 ∧ Q t t' p.2 q.2) ps qs → Q t t' (.object ps) (.object qs)
  conditional : ∀ {t t' a b a₁ b₁ a₂ b₂}, Q t t' a b → Q t t' a₁ b₁ → Q t t' a₂ b₂ →
    Q t t' (.conditional a a₁ a₂) (.conditional b b₁ b₂)
  isIn : ∀ {t t' a b as bs} negated, Q t t' a b → List.Forall₂ (Q t t') as bs →
    Q t t' (.isIn a as negated) (.isIn b bs negated)

variable (κ F) in
theorem Outcome.congruence : κ.Congruence (κ.Outcome F) where
  step h hs := h.step hs
  literal := .literal
  index h hk := h.index hk
  binary op h h₁ := h.binary op h₁
  unary op h := h.unary op
  not h := h.not
  call name udf hname h := .call h fun _ => by
    rcases hname with rfl | hname
    · rfl
    · rw [hname, Bool.and_false]
  array := .array
  object := .object
  conditional h h₁ h₂ := h.conditional h₁ h₂
  isIn negated h hs := h.isIn negated hs

namespace Congruence

variable {Q : Scope → Scope → Scalar → Scalar → Prop} (hQ : κ.Congruence Q) {a b : Scalar}
  {as bs : List Scalar}

include hQ

theorem steps (h : List.Forall₂ (Q s s') as bs) (hs : κ.Step s s' t t') :
    List.Forall₂ (Q t t') as bs := h.imp fun _ _ hab => hQ.step hab hs

/-- A function of the query language. -/
theorem function {name : String} (hname : Scalar.aggregates.contains name = false)
    (h : List.Forall₂ (Q t t') as bs) : Q t t' (.builtin name as) (.builtin name bs) :=
  hQ.call name false (.inr hname) h

theorem equal {a₁ b₁ : Scalar} (h : Q t t' a b) (h₁ : Q t t' a₁ b₁) :
    Q t t' (.equal a a₁) (.equal b b₁) := hQ.binary .equal h h₁

end Congruence

end Setting

end LambdaQuery
