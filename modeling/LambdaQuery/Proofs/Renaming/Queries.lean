import LambdaQuery.Host.Queryable
import LambdaQuery.Proofs.Renaming.Evaluation
import LambdaQuery.Proofs.Renaming.Folding
import LambdaQuery.Proofs.Renaming.Lexical
import LambdaQuery.Proofs.Scoping

/-!
# Queries of renamed expressions

The names of lambda parameters make no difference to the compiled query but for the names that its
sources bind, where no lambda hides the group in scope (`Expr.toQuery_alpha`). Where one does, they
do (`Expr.toQuery_alpha_group`).
-/

set_option autoImplicit false

namespace LambdaQuery

namespace Expr

theorem Alpha.symm {e e' : Expr} (h : e.Alpha e') : e'.Alpha e :=
  Renamed.mono (Renamed.symm h) ⟨fun _ _ => Eq.symm, fun _ _ _ => trivial, id⟩

section

variable {env : Environment} (hnameless : env.evaluator.Nameless) {e e' : Expr} (h : e.Alpha e')
  (he : e.Unshadowed none) (he' : e'.Unshadowed none)

include hnameless h he he'

/-- When the one expression is accepted, so is the other. -/
theorem Alpha.toQuery_ok {r : Query} (hr : e'.toQuery env = .ok r) :
    ∃ q, e.toQuery env = .ok q ∧ Query.Alike .names [] q r := by
  let κ : Setting := .beside env False (.inr hnameless)
  have hquery : Compilation.query env e' .initial =
    (.ok r, (Compilation.query env e' .initial).2) :=
    Prod.ext hr rfl
  obtain ⟨folded', hfold'⟩ := Setting.exists_fold_of_query hquery
  obtain ⟨folded, hfold, hren⟩ := (h.renamed he he').fold hfold'
  rcases (Setting.beside_sound env : κ.Sound).renamed trivial False.elim hfold hfold' hren trivial
    hquery with ⟨q, t, hq, halike, -⟩ | ⟨hlax, -⟩
  · have hle : (κ.likeness (Compilation.query env e' .initial).2.parameters .empty).Le .names := by
      refine ⟨?_, fun _ _ => id, id, id, List.nil_subset _, List.nil_subset _⟩
      rintro a b (hab | ⟨hab, -⟩)
      · exact hab
      · cases hab
    exact ⟨q, congrArg Prod.fst hq,
      Query.Alike.weaken hle halike (List.Subset.refl _) fun _ hp => (nomatch hp)⟩
  · exact hlax.elim

/-- **Lambda parameters are lexically scoped**: equivalent expressions are both accepted or both
refused, and their queries are equal up to the names that sources bind. -/
theorem toQuery_alpha :
    Option.Rel (Query.Alike .names []) (e.toQuery env).toOption (e'.toQuery env).toOption := by
  cases hq : e.toQuery env with
  | ok q =>
    obtain ⟨r, hr, -⟩ := Alpha.toQuery_ok hnameless h.symm he' he hq
    obtain ⟨q', hq', halike⟩ := Alpha.toQuery_ok hnameless h he he' hr
    obtain rfl := Except.ok.inj (hq.symm.trans hq')
    rw [hr]
    exact .some halike
  | error err =>
    cases hr : e'.toQuery env with
    | ok r =>
      obtain ⟨q, hq', -⟩ := Alpha.toQuery_ok hnameless h he he' hr
      cases hq.symm.trans hq'
    | error err' => exact .none

end

/-! ## Rows in groups -/

namespace Renamed

variable {exact : Prop} {B : Binders} {l l' : Lambda}

theorem quote (h : Renamed exact B (.ofLambda l) (.ofLambda l')) :
    Renamed exact B (.quote l) (.quote l') :=
  (.rebuild rfl .none (.cons h .nil) :
    Renamed exact B (.quote l) ((Expr.quote l).rebuild [.ofLambda l']))

theorem staticCall {method : Method} {args args' : List Expr} {ty : HostType}
    (hs : Option.Rel B.sources (Expr.staticCall method args ty).source?
      (Expr.staticCall method args' ty).source?)
    (h : List.Forall₂ (Renamed exact B) args args') :
    Renamed exact B (.staticCall method args ty) (.staticCall method args' ty) :=
  (.rebuild rfl hs h : Renamed exact B (.staticCall method args ty)
    ((Expr.staticCall method args ty).rebuild args'))

end Renamed

/-- Rows by their cells, and what is made of each group. -/
def grouped (k g : String) (result : Expr) : Expr :=
  ((Queryable.root (.model "Row")).groupBy
    (.unary "r" (.model "Row") ((Expr.parameter "r" (.model "Row")).property "Cells"
      (.array (.array .int32))))
    ⟨[⟨k, .array (.array .int32)⟩, ⟨g, .array (.model "Row")⟩], result⟩).expr

/-- The numbers of the cells in a key. -/
def lengths (k x : String) : Expr :=
  .staticCall ⟨.enumerable, "Select"⟩ [.parameter k (.array (.array .int32)),
    .ofLambda (.unary x (.array .int32) (.staticCall ⟨.enumerable, "Count"⟩
      [.parameter x (.array .int32)] .int32))] (.array .int32)

theorem grouped_alpha {k g k' g' : String} {result result' : Expr}
    (h : Renamed False ((Binders.lexical Eq).enter
      [⟨k, .array (.array .int32)⟩, ⟨g, .array (.model "Row")⟩]
      [⟨k', .array (.array .int32)⟩, ⟨g', .array (.model "Row")⟩]) result result')
    (hty : result.ty = result'.ty) : (grouped k g result).Alpha (grouped k' g' result') := by
  unfold grouped Queryable.groupBy Queryable.compose
  rw [hty]
  have hkey : ∀ e, Renamed False (.lexical Eq) e e :=
    Renamed.refl ⟨fun _ => rfl, fun _ => trivial⟩
  refine .staticCall .none (.cons (hkey _) (.cons (hkey _) (.cons (.quote ?_) .nil)))
  exact .lambda (.cons ⟨rfl, False.elim⟩ (.cons ⟨rfl, False.elim⟩ .nil)) h

theorem lengths_renamed {B : Binders} {k k' : String} (hk : B.names k k')
    (hs : ∀ x y, B.sources x y) (x x' : String) :
    Renamed False B (lengths k x) (lengths k' x') := by
  refine .staticCall (.some (hs _ _)) (.cons (.parameter _ hk) (.cons ?_ .nil))
  refine .lambda (.cons ⟨rfl, False.elim⟩ .nil) ?_
  exact .staticCall (.some (hs _ _)) (.cons (.parameter _ (.inl ⟨rfl, rfl⟩)) .nil)

theorem grouped_lengths_alpha {k g k' g' x x' : String} :
    (grouped k g (lengths k x)).Alpha (grouped k' g' (lengths k' x')) :=
  grouped_alpha (lengths_renamed (Or.inl ⟨rfl, rfl⟩) (fun _ _ h => h.elim) x x') rfl

theorem grouped_lengths_unshadowed {k g x : String} (hk : k ≠ g) (hx : x ≠ g) :
    (grouped k g (lengths k x)).Unshadowed none := by
  have hcall : ∀ {γ : Option String} {method : Method} {args : List Expr} {ty : HostType},
      (∀ d ∈ args, d.Unshadowed γ) → (Expr.staticCall method args ty).Unshadowed γ :=
    fun h => .node rfl h
  have hone : ∀ {γ : Option String} {n : String} {ty : HostType} {body : Expr}, γ ≠ some n →
      body.Unshadowed γ → (Expr.ofLambda (.unary n ty body)).Unshadowed γ := fun hn h =>
    .lambda (by decide : (1 : Nat) ≠ 2) (fun p hp => by rwa [List.mem_singleton.mp hp]) h
  have hcells : ((Expr.parameter "r" (.model "Row")).property "Cells"
      (.array (.array .int32))).Unshadowed none :=
    .node rfl (List.forall_mem_singleton.mpr (.parameter _ _))
  have hlengths : (lengths k x).Unshadowed (some g) := by
    refine hcall (List.forall_mem_cons.mpr ⟨.parameter _ _, List.forall_mem_singleton.mpr ?_⟩)
    refine hone (fun h => hx (Option.some.inj h).symm) (hcall ?_)
    exact List.forall_mem_singleton.mpr (.parameter _ _)
  refine hcall (List.forall_mem_cons.mpr ⟨.node rfl fun _ hd => (nomatch hd), ?_⟩)
  refine List.forall_mem_cons.mpr ⟨.node rfl (List.forall_mem_singleton.mpr
    (hone (fun h => nomatch h) hcells)), List.forall_mem_singleton.mpr ?_⟩
  exact .node rfl (List.forall_mem_singleton.mpr (.result hk hlengths))

/-- The lambda's parameter may have the name of the key. -/
theorem toQuery_alpha_lengths :
    let env : Environment := ⟨.default, Interpreter.empty.evaluate⟩
    let e := grouped "k" "g" (lengths "k" "c")
    let e' := grouped "p" "q" (lengths "p" "p")
    env.evaluator.Nameless ∧ e.Alpha e' ∧ e.Unshadowed none ∧ e'.Unshadowed none ∧
      (e.toQuery env).isOk = true ∧
        Option.Rel (Query.Alike .names []) (e.toQuery env).toOption (e'.toQuery env).toOption := by
  intro env e e'
  have hnameless : env.evaluator.Nameless := Interpreter.nameless _
  have he : e.Unshadowed none := grouped_lengths_unshadowed (by decide) (by decide)
  have he' : e'.Unshadowed none := grouped_lengths_unshadowed (by decide) (by decide)
  refine ⟨hnameless, grouped_lengths_alpha, he, he', ?_,
    toQuery_alpha hnameless grouped_lengths_alpha he he'⟩
  subst e' e env
  cbv

/-- Where it has the name of the group, the size of the group is counted in place of the cells. -/
theorem toQuery_alpha_group :
    let env : Environment := ⟨.default, Interpreter.empty.evaluate⟩
    let e := grouped "k" "g" (lengths "k" "g")
    let e' := grouped "k" "g" (lengths "k" "c")
    env.evaluator.Nameless ∧ e.Alpha e' ∧
      ¬Option.Rel (Query.Alike .names []) (e.toQuery env).toOption (e'.toQuery env).toOption := by
  intro env e e'
  let lengths (item : Scalar) : Query :=
    { selection := ⟨.value item, false, none⟩
      sources := [.items "v0" (.property (.ref "root") "Cells")]
      filter := none, groupBy := [], orderBy := [], offset := none, limit := none }
  let query (item : Scalar) : Query :=
    { selection := ⟨.value (.arrayOf (lengths item)), false, none⟩
      sources := [.container "root"]
      filter := none, groupBy := [.property (.ref "root") "Cells"]
      orderBy := [], offset := none, limit := none }
  have hq : e.toQuery env = .ok (query Compilation.countAll) := by
    subst e' e env
    cbv
    rw [Compilation.groupAggregate_count]
    cbv
  have hr : e'.toQuery env = .ok (query (.builtin "ARRAY_LENGTH" [.ref "v0"])) := by
    subst e' e env
    cbv
  refine ⟨Interpreter.nameless _, grouped_lengths_alpha, fun h => ?_⟩
  rw [hq, hr] at h
  -- The calls in the nested queries have different names.
  have hcalls : ∀ {q r : Query} {a b : Scalar} {Γ : Context}, Query.Alike .names Γ q r →
      q.selection.value? = some a → r.selection.value? = some b →
        ∃ Δ, Scalar.Alike .names Δ a b := by
    intro q r a b Γ h ha hb
    obtain ⟨-, hvalue, -⟩ := h
    rw [ha, hb] at hvalue
    cases hvalue with
    | cons hab => exact ⟨_, hab⟩
  have hname : ∀ {Γ : Context} {a b : Scalar} {n m : String} {as bs : List Scalar} {u v : Bool},
      Scalar.Alike .names Γ a b → a = .call n as u → b = .call m bs v → n = m := by
    intro Γ a b n m as bs u v h ha hb
    cases h with
    | leaf hleaf =>
      obtain ⟨_, rfl, -⟩ := hleaf
      cases ha
    | call =>
      cases ha
      cases hb
      rfl
    | _ => cases ha
  obtain h | - := h
  obtain ⟨Δ, hlengths⟩ := hcalls h rfl rfl
  cases hlengths with
  | leaf hleaf =>
    obtain ⟨name, hname, -⟩ := hleaf
    cases hname
  | arrayOf hlengths =>
    obtain ⟨Δ', hitem⟩ := hcalls hlengths rfl rfl
    exact absurd (hname hitem rfl rfl) (by decide)

end Expr

end LambdaQuery
