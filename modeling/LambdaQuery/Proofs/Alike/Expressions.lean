import LambdaQuery.Proofs.Alike.Clauses
import LambdaQuery.Proofs.Alike.Data
import LambdaQuery.Proofs.Alike.Nodes
import LambdaQuery.Proofs.Subexpressions

/-!
# Two runs of the compilation of scalars

A setting is `Sound` when its constants, counts and comparisons come out alike. Then the scalar of
every expression does, given that the stages of the nested queries in it do: renamed expressions
correspond (`Sound.parts`), and what is no plain node has a lemma of its own. The induction is in
`Compilations`.
-/

set_option autoImplicit false

namespace LambdaQuery.Setting

open Compilation

variable (κ : Setting)

/-- What is asked of the parts of the compilation that look at the options. -/
structure Sound : Prop where
  constant : ∀ {F s s' v ty}, κ.Scopes F s s' → κ.admits (.constant v ty) →
    κ.Runs s s' (constant κ.left.options ty v) (constant κ.right.options ty v) (κ.Outcome F)
  listed : ∀ {F s s' items ty}, κ.Scopes F s s' → κ.admits (.constant (.array items) ty) →
    κ.Runs s s' (Compilation.constant κ.left.options ty (.array items))
      (Compilation.constant κ.right.options ty (.array items)) (κ.Listed (κ.Outcome F))
  arguments : ∀ {F s s' items ty}, κ.Scopes F s s' → κ.admits (.constant (.array items) ty) →
    κ.Runs s s' (constants κ.left.options .object items) (constants κ.right.options .object items)
      (κ.Outcomes F)
  count : ∀ {F s s' arg} (method : String), κ.Scopes F s s' → κ.admits arg →
    κ.Runs s s' (Compilation.count κ.left.options method arg)
      (Compilation.count κ.right.options method arg)
      fun _ t' n m => κ.count t'.parameters n m
  matched : ∀ {F s s' left left' right right' a a' b b'}, κ.Scopes F s s' →
    left.Renamed κ.exact F.binders left' → right.Renamed κ.exact F.binders right' →
    κ.apart left right → κ.Outcome F s s' a a' → κ.Outcome F s s' b b' →
    (scalar κ.right left').Reaches a' → (scalar κ.right right').Reaches b' →
      κ.Runs s s' (matched κ.left.options.naming left right a b)
        (matched κ.right.options.naming left' right' a' b')
          fun t t' p q => κ.Outcome F t t' p.1 q.1 ∧ κ.Outcome F t t' p.2 q.2

/-- The scalar of an expression comes out alike that of every renamed one. -/
def ScalarRuns (e : Expr) : Prop :=
  ∀ {F s s' e'}, e.Renamed κ.exact F.binders e' → κ.admits e → κ.Scopes F s s' →
    κ.Runs s s' (scalar κ.left e) (scalar κ.right e') (κ.Outcome F)

/-- At the top of a query the rows of the container have a name of their own. -/
def Rooted (F : Frame) (s s' : Scope) : Prop :=
  s'.depth = 0 → (Stage.rootName ∉ F.left ∧ Stage.rootName ∉ F.right) ∧
    Stage.rootName ∈ s.live ∧ Stage.rootName ∈ s'.names

/-- Nothing is bound, as at the top of a query. -/
structure Unbound (s s' : Scope) : Prop where
  left : s.bindings = []
  right : s'.bindings = []

/-- The stage of an operator comes out alike. Only the outermost one may select an aggregate, and
only at the top of a query rows are grouped. -/
def OperatorRuns (method : String) (args : List Expr) : Prop :=
  ∀ {F s s' args'}, List.Forall₂ (Expr.Renamed κ.exact F.binders) args args' →
    (∀ e ∈ args, κ.admits e) → κ.Scopes F s s' → s.methods = s'.methods → s'.methods ≠ [] →
      Rooted F s s' → (method = "GroupBy" → Unbound s s') →
        κ.Runs s s' (operator κ.left method args) (operator κ.right method args')
          fun t t' => κ.Staged F t t' (s'.methods.length = 1)

variable {κ} {F : Frame} {s s' t t' : Scope}

/-! ## Parts of expressions -/

theorem admits_part {d e : Expr} (h : κ.admits e) (hd : d.IsPart e) : κ.admits d :=
  hd.induct κ.admits_child h

theorem admits_selector {method : String} {arg : Expr} {l : Selector arg} (h : κ.admits arg)
    (hl : selector? method arg = .ok l) : κ.admits l.body := admits_part h (selector?_isPart hl)

theorem admits_resultSelector {arg : Expr} {l : ResultSelector arg} (h : κ.admits arg)
    (hl : resultSelector? arg = .ok l) : κ.admits l.body :=
  admits_part h (resultSelector?_isPart hl)

/-! ## Scalars of parts -/

theorem Outcome.nestedScalar {q r : Query} (method : String)
    (h : Query.Alike (κ.likeness t'.parameters F) [] q r) (hl : q.names ⊆ t.live)
    (hr : r.names ⊆ t'.names) :
    κ.Outcome F t t' (nestedScalar method q) (nestedScalar method r) := by
  unfold Compilation.nestedScalar
  split
  · exact .exists h hl hr
  · exact .subquery h hl hr
  · exact .subquery h hl hr
  · exact (Outcome.arrayOf h hl hr).index (.literal _)
  · exact (Outcome.arrayOf h hl hr).index (.literal _)
  · exact (Outcome.arrayOf h hl hr).index (.literal _)
  · exact .arrayOf h hl hr

/-- A literal opposite of a member is encoded in the same way. -/
theorem Runs.encoded_literal (naming : Naming) (member : Expr) (value : Literal) :
    κ.Runs s s' (encoded naming member (.literal value)) (encoded naming member (.literal value))
      (κ.Outcome F) := by
  unfold Compilation.encoded
  split
  · refine .bind (.same _) fun t t' j j' _ hj => ?_
    obtain ⟨rfl, -⟩ := hj
    exact (Runs.same j.toScalar).imp fun _ _ _ _ _ ⟨hab, ha⟩ =>
      hab ▸ (Outcome.congruence κ F).data (Json.toScalar_data ha)
  · exact .pure (.literal value)

/-- Where the same literals are opposite of members, the sides of a comparison come out alike. -/
theorem Runs.matched (naming : Naming) (left right : Expr) {a a' b b' : Scalar}
    (ha : κ.Outcome F s s' a a') (hb : κ.Outcome F s s' b b') (hshape : a.SameShape a')
    (hshape' : b.SameShape b') :
    κ.Runs s s' (Compilation.matched naming left right a b)
      (Compilation.matched naming left right a' b')
      fun t t' p q => κ.Outcome F t t' p.1 q.1 ∧ κ.Outcome F t t' p.2 q.2 := by
  have hliteral : ∀ {x y : Scalar}, x.SameShape y → y.isNonNullLiteral = true →
      ∃ value, x = .literal value ∧ y = .literal value := by
    intro x y h hy
    cases y with
    | literal value => exact ⟨value, (h.literal value).mpr rfl, rfl⟩
    | _ => cases hy
  unfold Compilation.matched
  rw [hshape.index, hshape'.index, hshape.isNonNullLiteral, hshape'.isNonNullLiteral]
  split
  · rename_i h
    obtain ⟨value, rfl, rfl⟩ := hliteral hshape' (Bool.and_eq_true_iff.mp h).2
    exact .bind (.encoded_literal (F := F) naming left value) fun t t' x y hst hxy =>
      .pure ⟨ha.step hst, hxy⟩
  split
  · rename_i h
    obtain ⟨value, rfl, rfl⟩ := hliteral hshape (Bool.and_eq_true_iff.mp h).2
    exact .bind (.encoded_literal (F := F) naming right value) fun t t' x y hst hxy =>
      .pure ⟨hxy, hb.step hst⟩
  · exact .pure ⟨ha, hb⟩

/-- What the compilation sees of renamed expressions. -/
theorem LooksAlike.of_renamed {B : Binders} {e e' : Expr} (h : e.Renamed κ.exact B e') :
    LooksAlike e e' where
  constant := h.asConstant?
  newArray := by
    constructor
    · rintro ⟨items, ty, rfl⟩
      obtain ⟨ds, rfl, -⟩ := h.newArray
      exact ⟨ds, ty, rfl⟩
    · rintro ⟨items, ty, rfl⟩
      obtain ⟨ds, rfl⟩ := h.of_newArray
      exact ⟨ds, ty, rfl⟩
  list := h.isInlineList

/-- Renamed parts correspond where the expression is compiled. -/
theorem admitted {es es' : List Expr} (hr : List.Forall₂ (Expr.Renamed κ.exact F.binders) es es')
    (h : ∀ e ∈ es, κ.admits e) :
    List.Forall₂ (fun e e' => e.Renamed κ.exact F.binders e' ∧ κ.admits e) es es' := by
  obtain ⟨hlength, hzip⟩ := List.forall₂_iff_zip.mp hr
  exact List.forall₂_iff_zip.mpr ⟨hlength, fun hp => ⟨hzip hp, h _ (List.of_mem_zip hp).1⟩⟩

/-- Renamed expressions correspond. -/
theorem Sound.parts (hκ : κ.Sound) {size : Nat} (h : ∀ e, sizeOf e < size → κ.ScalarRuns e)
    (hs : κ.Scopes F s s') :
    κ.Parts (κ.Outcome F) (fun e e' => e.Renamed κ.exact F.binders e' ∧ κ.admits e) size s s' where
  ty hr := hr.1.ty
  looks hr := .of_renamed hr.1
  items := by
    rintro items items' ty ty' ⟨hr, he⟩
    obtain ⟨ds, heq, hds⟩ := hr.newArray
    cases heq
    exact admitted hds fun d hd => κ.admits_child he hd
  compared := by
    rintro e e' ⟨hr, he⟩
    rcases optionRel_cases hr.comparedStrings? with
      ⟨h₁, h₂⟩ | ⟨⟨⟨a, b⟩, hab⟩, q, h₁, h₂, ha, hb⟩ <;> rw [h₁, h₂]
    · exact .none
    · obtain ⟨hpa, hpb⟩ := comparedStrings?_isPart h₁
      exact .some ⟨⟨⟨ha, admits_part he hpa⟩, hb, admits_part he hpb⟩, κ.admits_compared he h₁⟩
  runs hr hsize _ _ hst := h _ hsize hr.1 hr.2 (hs.step hst)
  listed hr _ _ hst := hκ.listed (hs.step hst) hr.2
  arguments hr _ _ hst := hκ.arguments (hs.step hst) hr.2
  matched hl hr hapart _ _ hst ha hb hleft hright :=
    hκ.matched (hs.step hst) hl.1 hr.1 hapart ha hb hleft hright

theorem Runs.groupAggregate {method : String} {args args' : List Expr} {row row' : Scalar}
    (h : ∀ e, sizeOf e < sizeOf args → κ.ScalarRuns e)
    (hr : List.Forall₂ (Expr.Renamed κ.exact F.binders) args args') (hes : ∀ e ∈ args, κ.admits e)
    (hs : κ.Scopes F s s') (hg : s'.group ≠ none) (hrow : (row, row') ∈ F.pairs) :
    κ.Runs s s' (groupAggregate κ.left method args row)
      (groupAggregate κ.right method args' row') (κ.Outcome F) := by
  have hcall : ∀ {t t' : Scope} {a b : Scalar} (function : String), κ.Step s s' t t' →
      κ.Outcome F t t' a b →
        κ.Runs t t' (pure (.builtin function [a])) (pure (.builtin function [b]))
          (κ.Outcome F) := by
    intro t t' a b function hst hab
    refine .pure (.call (.cons hab .nil) fun hn => ?_)
    rw [hst.right.group] at hn
    exact absurd hn hg
  have htail : List.Forall₂ (Expr.Renamed κ.exact F.binders) args.tail args'.tail := by
    cases hr with
    | nil => exact .nil
    | cons _ hrest => exact hrest
  by_cases hm : method = "Count"
  · subst hm
    cases ht : args.tail with
    | nil =>
      have ht' : args'.tail = [] := List.forall₂_nil_left_iff.mp (ht ▸ htail)
      rw [Compilation.groupAggregate.eq_1 _ _ _ ht, Compilation.groupAggregate.eq_1 _ _ _ ht']
      exact hcall "COUNT" (.refl κ s s') (.literal _)
    | cons e es =>
      have hne : args'.tail = [] → False := fun h => by
        rw [h] at htail
        rw [List.forall₂_nil_right_iff.mp htail] at ht
        cases ht
      rw [Compilation.groupAggregate.eq_2 κ.right _ _ hne]
      exact .throw _ _
  · have hm' : method = "Count" → ∀ es : List Expr, es = [] → False := fun h => absurd h hm
    cases hf : aggregate? method with
    | none =>
      rw [Compilation.groupAggregate.eq_3 κ.right _ _ _ hm hf (hm' · _)]
      exact .throw _ _
    | some function =>
      rcases hr with _ | @⟨source, _, _, _, _, _ | @⟨arg, arg', _, _, ha, _ | _⟩⟩
      · rw [Compilation.groupAggregate.eq_4 _ _ _ _ hm hf (hm' · _),
          Compilation.groupAggregate.eq_4 _ _ _ _ hm hf (hm' · _)]
        exact hcall _ (.refl κ s s') (hs.outcome hrow)
      · rw [Compilation.groupAggregate.eq_5 _ _ _ _ _ hm hf (hm' · _),
          Compilation.groupAggregate.eq_5 _ _ _ _ _ hm hf (hm' · _)]
        exact hcall _ (.refl κ s s') (hs.outcome hrow)
      · rw [Compilation.groupAggregate.eq_6 _ _ _ _ _ _ hm hf (hm' · _),
          Compilation.groupAggregate.eq_6 _ _ _ _ _ _ hm hf (hm' · _)]
        refine .bind (.selector ha method) fun t t' l l' hst hlambda => ?_
        obtain ⟨hname, hbody, hl⟩ := hlambda
        have hsize := l.smaller
        have hadmits := admits_selector (hes _ (List.mem_cons_of_mem _ List.mem_cons_self)) hl
        have hscalar : κ.ScalarRuns l.body := by
          refine h l.body ?_
          simp only [List.cons.sizeOf_spec]
          omega
        refine .bind (.withParameter row row'
          (hscalar hbody hadmits ((hs.step hst).bindPair hrow hname)) (Q := κ.Outcome F)
          fun u u' a b hab => ⟨⟨hab.facts, hab.left, hab.right⟩, hab.single, hab.alike⟩)
            fun u u' a b hsu hab => ?_
        exact hcall _ (hst.trans hsu) hab
      · rw [Compilation.groupAggregate.eq_7 κ.right _ _ _ _ hm (by simp) (by simp) _ hf (hm' · _)]
        exact .throw _ _

/-! ## Nodes -/

/-- No nested query groups rows. -/
theorem ne_groupBy_of_isNestedQuery {target : Option Expr} {method : Method} {args : List Expr}
    (h : isNestedQuery target method args = true) : method.name ≠ "GroupBy" := by
  intro hname
  have hnot : nestedOperators.contains "GroupBy" = false := by decide
  unfold isNestedQuery at h
  rw [hname, hnot, Bool.and_false, Bool.false_and] at h
  cases h

/-- A nested query, within the operators around it. -/
theorem Runs.nestedQuery {method : String} {args args' : List Expr}
    (h : κ.OperatorRuns method args) (hmethod : method ≠ "GroupBy")
    (hr : List.Forall₂ (Expr.Renamed κ.exact F.binders) args args') (hes : ∀ e ∈ args, κ.admits e)
    (hs : κ.Scopes F s s') :
    κ.Runs s s'
      (do
        let stage ← Compilation.nested (Compilation.withMethod method (operator κ.left method args))
        return Compilation.nestedScalar method (← Compilation.flattened stage))
      (do
        let stage ← Compilation.nested
          (Compilation.withMethod method (operator κ.right method args'))
        return Compilation.nestedScalar method (← Compilation.flattened stage)) (κ.Outcome F) := by
  have hin := (hs.reserved.enterSubquery).pushMethod method
  have hdepth : Rooted (F.reserved s s') (s.enterSubquery.pushMethod method)
      (s'.enterSubquery.pushMethod method) := fun hd => nomatch hd
  have hop := h (F := F.reserved s s') hr hes hin rfl (List.cons_ne_nil _ _) hdepth fun hm =>
    absurd hm hmethod
  have hrun : κ.Runs s s'
      (Compilation.nested (Compilation.withMethod method (operator κ.left method args)))
      (Compilation.nested (Compilation.withMethod method (operator κ.right method args')))
        fun t t' => κ.Staged (F.reserved s s') t t' True := by
    refine .nested (.withMethod method hop
      (Q := fun t t' => κ.Staged (F.reserved s s') t t' True) ?_) ?_
    · exact fun t t' st st' hst => ⟨hst.alike, hst.left, hst.right, hst.row,
        fun _ hn => absurd trivial hn⟩
    · exact fun t t' st st' hst => ⟨hst.alike, hst.left, hst.right, hst.row, hst.single⟩
  exact .flattened hs.within hrun fun t t' q r _ hqr hq hr =>
    .pure (Outcome.nestedScalar method hqr hq hr)

theorem Runs.call (hκ : κ.Sound) {target : Option Expr} {method : Method} {args : List Expr}
    {ty : HostType} (h : ∀ d, sizeOf d < sizeOf (Expr.call target method args ty) → κ.ScalarRuns d)
    (hop : κ.OperatorRuns method.name args) {e' : Expr}
    (hr : (Expr.call target method args ty).Renamed κ.exact F.binders e')
    (he : κ.admits (.call target method args ty)) (hs : κ.Scopes F s s') :
    κ.Runs s s' (scalar κ.left (.call target method args ty)) (scalar κ.right e')
      (κ.Outcome F) := by
  obtain ⟨target', args', rfl, htarget, hrargs⟩ := hr.call
  have hadmits : ∀ d ∈ target.toList ++ args, κ.admits d := fun d hd => κ.admits_child he hd
  obtain ⟨htargets, hargs⟩ := List.forall_mem_append.mp hadmits
  have hparts := hκ.parts h hs
  have hsize : ∀ d ∈ target.toList ++ args, sizeOf d < sizeOf (Expr.call target method args ty) :=
    fun d hd => Expr.sizeOf_child hd
  have hnested := Expr.Renamed.isNestedQuery htarget hrargs method
  -- Calls of the database's own functions come first, whatever group is in scope.
  by_cases huser : method.declaring = .userFunction
  · rw [Compilation.scalar, Compilation.scalar, if_pos huser, if_pos huser]
    exact hparts.userFunction (Outcome.congruence κ F) (admitted hrargs hargs)
      (List.forall_mem_append.mp hsize).2
  rcases optionRel_cases (hr.groupSource? fun _ _ => hs.groupRow?) with
    ⟨h₁, h₂⟩ | ⟨row, row', h₁, h₂, hrow, hne⟩
  · cases hnest : isNestedQuery target method args with
    | true =>
      rw [Compilation.scalar, Compilation.scalar, if_neg huser, if_neg huser]
      refine .get_bind ?_
      rw [h₁, h₂]
      dsimp only
      rw [if_pos hnest, if_pos (hnested.symm.trans hnest)]
      exact .nestedQuery hop (ne_groupBy_of_isNestedQuery hnest) hrargs hargs hs
    | false =>
      have ht : Option.Rel (fun e e' => e.Renamed κ.exact F.binders e' ∧ κ.admits e) target
          target' := by
        cases htarget with
        | none => exact .none
        | some ht => exact .some ⟨ht, htargets _ (List.mem_singleton_self _)⟩
      exact hparts.call (Outcome.congruence κ F) ty ht (admitted hrargs hargs) hsize
        (κ.admits_contains he) h₁ h₂ hnest (hnested.symm.trans hnest)
  · rw [Compilation.scalar, Compilation.scalar, if_neg huser, if_neg huser]
    refine .get_bind ?_
    rw [h₁, h₂]
    refine .groupAggregate (fun d hd => h d ?_) hrargs hargs hs hne hrow
    simp only [Expr.call.sizeOf_spec]
    omega

/-- What is constructed by the evaluator. -/
theorem Runs.geometry {args args' : List Expr} {members : Option (List Member)} {ty : HostType}
    (hty : ty.underlying = .geometry)
    (heq : (Expr.construct args members ty).Renamed κ.exact F.binders (.construct args' members ty))
    (hs : κ.Scopes F s s') :
    κ.Runs s s' (scalar κ.left (.construct args members ty))
      (scalar κ.right (.construct args' members ty)) (κ.Outcome F) := by
  have hscalar : ∀ (env : Environment) (args : List Expr),
      scalar env (.construct args members ty) = (do
        ofExcept (← ofHost (env.evaluator (.construct args members ty))).toScalar) := by
    intro env args
    cases members <;> rw [Compilation.scalar, if_pos hty]
  rw [hscalar, hscalar]
  refine .bind (.evaluated heq hs) fun t t' v v' _ hv => ?_
  obtain rfl := hv
  refine (Runs.same _).imp fun u u' a b _ hab => ?_
  obtain ⟨rfl, hab⟩ := hab
  exact (Outcome.congruence κ F).data (Value.toScalar_data hab)

/-- **The scalar of a node comes out alike** when those of its parts and its nested query do. -/
theorem ScalarRuns.of_parts (hκ : κ.Sound) (e : Expr)
    (h : ∀ d, sizeOf d < sizeOf e → κ.ScalarRuns d)
    (hop : ∀ method args, sizeOf args < sizeOf e → κ.OperatorRuns method args) :
    κ.ScalarRuns e := by
  intro F s s' e' hr he hs
  have hcomposite : e.IsComposite → e.hasParams = false →
      κ.Runs s s' (scalar κ.left e) (scalar κ.right e') (κ.Outcome F) := by
    intro hcomposite hp
    obtain ⟨ds, rfl, hds, -⟩ := hr.parts hp
    exact (hκ.parts h hs).node (Outcome.congruence κ F) hcomposite he
      (admitted hds fun d hd => κ.admits_child he hd)
  cases e with
  | constant v ty =>
    obtain rfl := hr.constant
    rw [Compilation.scalar, Compilation.scalar]
    exact hκ.constant hs he
  | parameter name ty =>
    cases hr with
    | node hp => cases hp
    | parameter _ hxy =>
      rw [Compilation.scalar, Compilation.scalar]
      refine .get_bind ?_
      rcases optionRel_cases (hs.lookup? hxy) with ⟨h₁, h₂⟩ | ⟨a, b, h₁, h₂, hab⟩
      · rw [h₁, h₂]
        exact .throw _ _
      · rw [h₁, h₂]
        exact .pure (hs.outcome hab)
  | lambda params body =>
    have hk := hr.kind
    cases e' <;> cases hk
    rw [Compilation.scalar, Compilation.scalar]
    exact .throw _ _
  | call target method args ty =>
    refine .call hκ h (hop _ _ ?_) hr he hs
    simp only [Expr.call.sizeOf_spec]
    omega
  | construct args members ty =>
    by_cases hty : ty.underlying = .geometry
    · obtain ⟨args', rfl, -⟩ := hr.construct
      exact .geometry hty hr hs
    · exact hcomposite hty rfl
  | _ => exact hcomposite trivial rfl

end LambdaQuery.Setting
