import LambdaQuery.Proofs.Renaming.Basic

/-!
# What the compilation sees of renamed expressions

The compilation looks at the forms of lambdas, constants, members and calls, of which renamed
expressions have the same.
-/

set_option autoImplicit false

namespace LambdaQuery

open Compilation

/-- The group in scope is aggregated where it is the source of an operator. -/
theorem Compilation.groupSource?_eq (s : Scope) (target : Option Expr) (method : Method)
    (args : List Expr) (ty : HostType) :
    groupSource? s method args = (Expr.source? (.call target method args ty)).bind s.groupRow? := by
  unfold groupSource? Expr.source?
  rcases args with _ | ⟨d, args⟩
  · rfl
  · cases d with
    | parameter =>
      dsimp only
      cases method.isOperator <;> rfl
    | _ => rfl

/-- Calls of related operands compare related strings. -/
theorem Compilation.comparedStrings?_call {R : Expr → Expr → Prop} {target target' : Option Expr}
    {args args' : List Expr} (ht : Option.Rel R target target') (h : List.Forall₂ R args args')
    (method : Method) (ty : HostType) :
    Option.Rel (fun p q => R p.1.1 q.1.1 ∧ R p.1.2 q.1.2)
      (comparedStrings? (.call target method args ty))
      (comparedStrings? (.call target' method args' ty)) := by
  by_cases hto : method = ⟨.string, "CompareTo"⟩
  · subst hto
    rcases h with _ | ⟨ha, _ | _⟩ <;> cases ht <;> try exact .none
    rename_i hd
    exact .some ⟨hd, ha⟩
  by_cases hc : method = ⟨.string, "Compare"⟩
  · subst hc
    rcases h with _ | ⟨ha, _ | ⟨hb, _ | _⟩⟩ <;> cases ht <;> try exact .none
    exact .some ⟨ha, hb⟩
  have hnone : ∀ target args, comparedStrings? (.call target method args ty) = none := by
    intro target args
    refine comparedStrings?.eq_3 _ ?_ ?_
    · intro _ _ _ he
      cases he
      exact hto rfl
    · intro _ _ _ he
      cases he
      exact hc rfl
  rw [hnone, hnone]
  exact .none

/-- Sides that compare related strings compare related strings with each other. -/
theorem Compilation.stringComparison?_rel {R : Expr × Expr → Expr × Expr → Prop}
    {left left' right right' : Expr}
    (hl : Option.Rel (fun p q => R p.1 q.1) (comparedStrings? left) (comparedStrings? left'))
    (hr : Option.Rel (fun p q => R p.1 q.1) (comparedStrings? right) (comparedStrings? right'))
    (hzl : left.asConstant? = left'.asConstant?) (hzr : right.asConstant? = right'.asConstant?)
    (op : BinaryOp) :
    Option.Rel (fun p q => R p.1.1 q.1.1 ∧ p.2 = q.2)
      (stringComparison? op left right) (stringComparison? op left' right') := by
  unfold stringComparison? isZero
  rw [hzl, hzr]
  rcases optionRel_cases hl with ⟨h₁, h₂⟩ | ⟨p, p', h₁, h₂, hp⟩ <;>
    rcases optionRel_cases hr with ⟨h₃, h₄⟩ | ⟨q, q', h₃, h₄, hq⟩ <;>
      rw [h₁, h₂, h₃, h₄] <;> dsimp only
  · exact .none
  · split_ifs
    · exact .some ⟨hq, rfl⟩
    · exact .none
  · split_ifs
    · exact .some ⟨hp, rfl⟩
    · exact .none
  · split_ifs
    · exact .some ⟨hp, rfl⟩
    · exact .some ⟨hq, rfl⟩
    · exact .none

namespace Expr.Renamed

variable {exact : Prop} {B : Binders} {e e' : Expr}

/-! ## Lambdas -/

/-- The bodies of the lambdas that renamed expressions are. -/
theorem asLambda? (h : Renamed exact B e e') :
    Option.Rel (fun l l' =>
      List.Forall₂ (fun p q => exact → p.name = q.name) l.1.params l'.1.params ∧
      Renamed exact (B.enter l.1.params l'.1.params) l.1.body l'.1.body)
        e.asLambda? e'.asLambda? := by
  induction e using Expr.asLambda?.induct generalizing e' with
  | case1 params body =>
    cases h with
    | lambda hps hbody => exact .some ⟨hps.imp fun _ _ hp => hp.2, hbody⟩
    | node hp => cases hp
  | case2 operand ty ih =>
    obtain ⟨d, rfl, hd⟩ := h.unary
    rw [Expr.asLambda?, Expr.asLambda?]
    rcases optionRel_cases (ih hd) with ⟨h₁, h₂⟩ | ⟨l, l', h₁, h₂, hl⟩ <;> rw [h₁, h₂]
    · exact .none
    · exact .some hl
  | case3 e hl hq =>
    have hk := h.kind
    have hnone : e'.asLambda? = none := by
      refine Expr.asLambda?.eq_3 _ ?_ ?_
      · rintro params body rfl
        cases e <;> first | exact hl _ _ rfl | cases hk
      · rintro operand ty rfl
        cases e <;> cases hk
        exact hq _ _ rfl
    rw [Expr.asLambda?.eq_3 _ hl hq, hnone]
    exact .none

theorem selector? (h : Renamed exact B e e') {method : String} {l' : Selector e'}
    (hl : Compilation.selector? method e' = .ok l') :
    ∃ l, Compilation.selector? method e = .ok l ∧ (exact → l.param = l'.param) ∧
      Renamed exact (B.bind l.param l'.param) l.body l'.body := by
  unfold Compilation.selector? at hl ⊢
  rcases optionRel_cases h.asLambda? with ⟨-, h₂⟩ | ⟨⟨⟨ps, body⟩, hs⟩, ⟨⟨qs, body'⟩, hs'⟩, h₁, h₂,
    hps, hbody⟩
  · rw [h₂] at hl
    cases hl
  · rw [h₂] at hl
    rw [h₁]
    rcases hps with _ | ⟨hp, _ | _⟩
    · cases hl
    · cases hl
      exact ⟨_, rfl, hp, hbody⟩
    · cases hl

theorem resultSelector? (h : Renamed exact B e e') {l' : ResultSelector e'}
    (hl : Compilation.resultSelector? e' = .ok l') :
    ∃ l, Compilation.resultSelector? e = .ok l ∧
      (exact → l.key = l'.key ∧ l.group = l'.group) ∧
        Renamed exact (((B.bind l.group l'.group).bind l.key l'.key).group l.group l'.group)
          l.body l'.body := by
  unfold Compilation.resultSelector? at hl ⊢
  rcases optionRel_cases h.asLambda? with ⟨-, h₂⟩ | ⟨⟨⟨ps, body⟩, hs⟩, ⟨⟨qs, body'⟩, hs'⟩, h₁, h₂,
    hps, hbody⟩
  · rw [h₂] at hl
    cases hl
  · rw [h₂] at hl
    rw [h₁]
    rcases hps with _ | ⟨hk, _ | ⟨hg, _ | _⟩⟩
    · cases hl
    · cases hl
    · cases hl
      exact ⟨_, rfl, fun he => ⟨hk he, hg he⟩, hbody⟩
    · cases hl

/-! ## Calls -/

theorem isGrouping (h : Renamed exact B e e') : e.isGrouping = e'.isGrouping := by
  cases e with
  | call =>
    obtain ⟨target', args', rfl, -⟩ := h.call
    rfl
  | _ =>
    have hk := h.kind
    cases e' <;> first | rfl | cases hk

/-- What the group in scope is to the operators of renamed expressions. -/
theorem groupSource? {s s' : Scope} {R : Scalar → Scalar → Prop} {target target' : Option Expr}
    {method : Method} {args args' : List Expr} {ty : HostType}
    (h : Renamed exact B (.call target method args ty) (.call target' method args' ty))
    (hs : ∀ x y, B.sources x y → Option.Rel R (s.groupRow? x) (s'.groupRow? y)) :
    Option.Rel R (Compilation.groupSource? s method args)
      (Compilation.groupSource? s' method args') := by
  obtain ⟨-, -, -, hrel⟩ := h.parts rfl
  rw [groupSource?_eq s target _ _ ty, groupSource?_eq s' target' _ _ ty]
  rcases optionRel_cases hrel with ⟨h₁, h₂⟩ | ⟨x, y, h₁, h₂, hxy⟩ <;> rw [h₁, h₂]
  · exact .none
  · exact hs x y hxy

theorem isOperatorCall (h : Renamed exact B e e') :
    Compilation.isOperatorCall e = Compilation.isOperatorCall e' := by
  cases e with
  | call =>
    obtain ⟨target', args', rfl, -⟩ := h.call
    rfl
  | _ =>
    have hk := h.kind
    cases e' <;> first | rfl | cases hk

theorem isNestedQuery {target target' : Option Expr}
    (ht : Option.Rel (Renamed exact B) target target')
    {args args' : List Expr} (h : List.Forall₂ (Renamed exact B) args args') (method : Method) :
    Compilation.isNestedQuery target method args =
      Compilation.isNestedQuery target' method args' := by
  have hhead : args.head?.any Compilation.isOperatorCall =
      args'.head?.any Compilation.isOperatorCall := by
    cases h with
    | nil => rfl
    | cons hd _ => exact hd.isOperatorCall
  have hnone : target.isNone = target'.isNone := by cases ht <;> rfl
  unfold Compilation.isNestedQuery
  rw [hhead, hnone, h.length_eq]

theorem isInlineList (h : Renamed exact B e e') :
    Builtin.isInlineList e = Builtin.isInlineList e' := by
  cases e with
  | constant => rw [h.constant]
  | newArray =>
    obtain ⟨ds, rfl, -⟩ := h.newArray
    rfl
  | _ =>
    have hk := h.kind
    cases e' <;> first | rfl | cases hk

theorem isRoot (h : Renamed exact B e e') : e.isRoot = e'.isRoot := by
  cases e with
  | constant => rw [h.constant]
  | _ =>
    have hk := h.kind
    cases e' <;> first | rfl | cases hk

theorem comparedStrings? (h : Renamed exact B e e') :
    Option.Rel (fun p q => Renamed exact B p.1.1 q.1.1 ∧ Renamed exact B p.1.2 q.1.2)
      (Compilation.comparedStrings? e) (Compilation.comparedStrings? e') := by
  cases e with
  | call =>
    obtain ⟨target', args', rfl, ht, hargs⟩ := h.call
    exact comparedStrings?_call ht hargs _ _
  | _ =>
    have hk := h.kind
    cases e' <;> first | exact .none | cases hk

/-! ## Members and constants -/

theorem accessed? (h : Renamed exact B e e') :
    Compilation.accessed? e = Compilation.accessed? e' := by
  induction e using Compilation.accessed?.induct generalizing e' with
  | case1 target m ty hv ih =>
    obtain ⟨_, rfl, ht⟩ := h.member
    cases ht with
    | some hd => rw [Compilation.accessed?, Compilation.accessed?, ← hd.ty, if_pos hv, if_pos hv,
      ih hd]
  | case2 target m ty hv =>
    obtain ⟨_, rfl, ht⟩ := h.member
    cases ht with
    | some hd => rw [Compilation.accessed?, Compilation.accessed?, ← hd.ty, if_neg hv, if_neg hv]
  | case3 m ty =>
    obtain ⟨_, rfl, ht⟩ := h.member
    cases ht
    rfl
  | case4 operand ty ih =>
    obtain ⟨d, rfl, hd⟩ := h.unary
    exact (ih hd :)
  | case5 operand ty ih =>
    obtain ⟨d, rfl, hd⟩ := h.unary
    exact (ih hd :)
  | case6 e h₁ h₂ h₃ h₄ =>
    have hk := h.kind
    rw [Compilation.accessed?.eq_5 _ h₁ h₂ h₃ h₄]
    refine (Compilation.accessed?.eq_5 _ ?_ ?_ ?_ ?_).symm
    · rintro d m ty rfl
      cases e <;> cases hk
      obtain ⟨_, hm, ht⟩ := h.member
      cases hm
      cases ht
      exact h₁ _ _ _ rfl
    · rintro m ty rfl
      cases e <;> cases hk
      obtain ⟨_, hm, ht⟩ := h.member
      cases hm
      cases ht
      exact h₂ _ _ rfl
    · rintro operand ty rfl
      cases e <;> cases hk
      exact h₃ _ _ rfl
    · rintro operand ty rfl
      cases e <;> cases hk
      exact h₄ _ _ rfl

/-- A literal is encoded for the member opposite of it, whatever parameter this belongs to. -/
theorem matched_eq {left left' right right' : Expr} (hl : Renamed exact B left left')
    (hr : Renamed exact B right right') (naming : Naming) (a b : Scalar) :
    matched naming left right a b = matched naming left' right' a b := by
  unfold matched encoded
  rw [hl.accessed?, hr.accessed?]

theorem stripConversions (h : Renamed exact B e e') :
    Renamed exact B (Compilation.stripConversions e) (Compilation.stripConversions e') := by
  induction e using Compilation.stripConversions.induct generalizing e' with
  | case1 operand ty ih =>
    obtain ⟨d, rfl, hd⟩ := h.unary
    exact (ih hd :)
  | case2 e hc =>
    have hk := h.kind
    rw [Compilation.stripConversions.eq_2 _ hc, Compilation.stripConversions.eq_2]
    · exact h
    · rintro operand ty rfl
      cases e <;> cases hk
      exact hc _ _ rfl

theorem count_eq (h : Renamed exact B e e') (options : Options) (method : String) :
    Compilation.count options method e = Compilation.count options method e' := by
  unfold Compilation.count
  rw [h.stripConversions.asConstant?]

end Expr.Renamed

end LambdaQuery
