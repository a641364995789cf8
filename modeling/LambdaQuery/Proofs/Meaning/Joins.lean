import LambdaQuery.Proofs.Meaning.Operators

/-!
# The rows of joined stages

`SelectMany` iterates an array within each row of a stage. The stage that comes out has the items
that the operators on the array leave and make of it, row by row (`Compilation.joined_iterates`).
-/

set_option autoImplicit false

namespace LambdaQuery

open Compilation

variable {V : Type} [DecidableEq V] {D : Database V} {env : Environment} {L : Locals V}

/-! ## Scopes of lambdas -/

/-- The scope inside of a lambda over the rows of a stage. -/
structure Scope.Within (L : Locals V) (s : Stage) (param : String) (t : Scope) : Prop where
  bindings : t.bindings = (param, s.layer.row) :: L.params.map fun p => (p, .parameter p)
  depth : t.depth = L.depth
  group : t.group = none
  operation : t.operation ≠ some .none
  names : s.layer.names ⊆ t.names

/-- The scope without the parameters of lambdas of the chain. -/
def Scope.outOf (L : Locals V) (t : Scope) : Scope :=
  { t with bindings := L.params.map fun p => (p, .parameter p) }

namespace Scope.Within

variable {s : Stage} {param : String} {t t' : Scope} (h : t.Within L s param)

omit [DecidableEq V]

include h

theorem grows (ht : t.Grows t') : t'.Within L s param where
  bindings := ht.bindings.trans h.bindings
  depth := ht.depth.trans h.depth
  group := ht.group.trans h.group
  operation := ht.operation h.operation
  names := List.Subset.trans h.names ht.names

theorem pushCollection (c : Collection) : (t.pushCollection c).Within L s param :=
  ⟨h.bindings, h.depth, h.group, h.operation, h.names⟩

theorem around : (t.outOf L).Around L := ⟨rfl, h.depth, h.group, h.operation⟩

theorem eq_bindTo : t = (t.outOf L).bindTo param s.layer.row := by
  rw [bindTo, outOf, ← h.bindings]

theorem isRow (hs : s.layer.row.isAggregate = false) : s.layer.row.IsRow (t.outOf L) where
  names _ hn := h.names (s.layer.names_row hn)
  single := hs

end Scope.Within

/-! ## Arrays -/

namespace Compilation

variable {s u : Stage} {t t' : Scope} {e : Expr}

theorem fresh_eq_ok {base n : String} (h : Compilation.fresh base t = (.ok n, t')) :
    n = (t.fresh base).1 ∧ t' = (t.fresh base).2 := by
  cases h
  exact ⟨rfl, rfl⟩

theorem fresh_pushCollection (t : Scope) (c : Collection) (base : String) :
    (t.pushCollection c).fresh base = ((t.fresh base).1, (t.fresh base).2.pushCollection c) := by
  refine Prod.ext rfl ?_
  rw [Scope.fresh_eq, Scope.fresh_eq]
  rfl

theorem joined_array (he : isOperatorCall e = false) (s : Stage) :
    joined env e s = do
      let path ← scalar env e
      return s.addJoin (← Compilation.fresh "v") path := by
  rw [joined.eq_def]
  cases e with
  | call target method args ty =>
    have he : method.isOperator = false := he
    dsimp only
    rw [he]
    rfl
  | _ => rfl

/-- The body of a lambda over the items of a source, and the stage that iterates them. -/
def projected (env : Environment) (source : Expr) (l : RowLambda) (s : Stage) :
    Compilation (Scalar × Stage) :=
  if isOperatorCall source then do
    let stage ← joined env source s
    withRow l.param stage fun stage => return (← scalar env l.body, stage)
  else do
    let path ← scalar env source
    withCollection (.inner path) (withRow l.param s fun stage =>
      return (← scalar env l.body, stage))

theorem joined_call {name : String} {source arg : Expr} {l : RowLambda}
    (he : e.Calls name [source, arg]) (hl : l.IsArg arg)
    (hname : (name == "Where" || name == "Select") = true)
    (h : joined env e s t = (.ok u, t')) :
    ∃ p, projected env source l s t = (.ok p, t') ∧
      u = if name == "Where" then p.2.addWhere p.1 else p.2.replaceSelect p.1 := by
  obtain ⟨target, method, ty, rfl, hop, rfl⟩ := he
  obtain ⟨hsize, hselector⟩ := hl.selector? method.name
  rw [joined.eq_1, if_pos hop, if_pos hname, hselector] at h
  replace h := bind_ofExcept_ok h
  have hchanged : ∀ {p : Scalar × Stage} {v : Scope}, (if method.name == "Where" then
      pure (p.2.addWhere p.1) else pure (p.2.replaceSelect p.1) : Compilation Stage) v =
        (.ok u, t') → u = (if method.name == "Where" then p.2.addWhere p.1
          else p.2.replaceSelect p.1) ∧ t' = v := by
    intro p v hp
    cases hw : method.name == "Where" <;> rw [hw] at hp <;> exact pure_eq_ok.mp hp
  unfold projected
  by_cases hsource : isOperatorCall source = true
  · rw [if_pos hsource] at h
    obtain ⟨y, v, hjoined, hrest⟩ := Compilation.bind_eq_ok.mp h
    obtain ⟨p, w, hp, hresult⟩ := Compilation.bind_eq_ok.mp hrest
    obtain ⟨hu, rfl⟩ := hchanged hresult
    exact ⟨p, by rw [if_pos hsource]; exact Compilation.bind_eq_ok.mpr ⟨y, v, hjoined, hp⟩, hu⟩
  · rw [if_neg hsource] at h
    obtain ⟨path, v, hpath, hrest⟩ := Compilation.bind_eq_ok.mp h
    obtain ⟨p, w, hp, hresult⟩ := Compilation.bind_eq_ok.mp hrest
    obtain ⟨hu, rfl⟩ := hchanged hresult
    exact ⟨p, by rw [if_neg hsource]; exact Compilation.bind_eq_ok.mpr ⟨path, v, hpath, hp⟩, hu⟩

/-- A lambda over the items that a stage iterates, within one over its rows. -/
theorem item_scope {param : String} {l : RowLambda} {s : Stage} {t w : Scope} {b : Scalar}
    (hD : D.Lawful) (henv : env.Plain) (hL : D.parameter = L.values)
    (hs : s.layer.row.isAggregate = false) (ht : t.Within L s param) {item : Scalar}
    (hitem : item.IsRow t) (hrun : scalar env l.body (t.bindTo l.param item) = (.ok b, w)) :
    ∃ f, l.ofItem env D L param = .ok f ∧
      (∀ ρ, b.eval D ρ none = f (s.layer.row.eval D ρ none) (item.eval D ρ none)) ∧
        t.Grows w.unbind ∧ b.IsRow w := by
  rw [ht.eq_bindTo] at hrun
  obtain ⟨f, hf, hval, hgrows, hb⟩ :=
    ht.around.ofItem hD henv hL (ht.isRow hs) ⟨hitem.names, hitem.single⟩ hrun
  exact ⟨f, hf, hval, by rw [ht.eq_bindTo]; exact hgrows.afterLambda, hb⟩

variable {param : String} (hD : D.Lawful) (henv : env.Plain) (hL : D.parameter = L.values)
  {c : Likeness} (hc : c.Plain) (hlayer : Layer.Alike c s.layer s.layer) (hs : s.Fit D)
  (hsel : s.layer.selection = none)

include hD henv hL hc hlayer hs hsel

/-- What is known of a stage that iterates a path within each row. -/
structure Iterated (env : Environment) (D : Database V) (L : Locals V) (param : String)
    (p : ItemPath) (s u : Stage) (t t' : Scope) : Prop where
  grows : t.Grows t'
  items : ∃ f, p.items env D L param = .ok f ∧ Stage.Iterates D s u f
  row : u.layer.row.IsRow t'
  orderBy : u.layer.orderBy = s.layer.orderBy

/-- What is known of a lambda over the items that a stage iterates. -/
structure Projected (env : Environment) (D : Database V) (L : Locals V) (param : String)
    (source : ItemPath) (l : RowLambda) (s : Stage) (p : Scalar × Stage) (t t' : Scope) : Prop
    extends Iterated env D L param source s p.2 t t' where
  value : ∃ f, l.ofItem env D L param = .ok f ∧
    ∀ ρ, p.1.eval D ρ none = f (s.layer.row.eval D ρ none) (p.2.layer.row.eval D ρ none)
  body : p.1.IsRow t'

section

omit hD henv hL hc hlayer hs hsel

variable {source : ItemPath} {l : RowLambda} {p : Scalar × Stage}
  (h : Projected env D L param source l s p t t')

include h

theorem Projected.addWhere (hD : D.Lawful) :
    Iterated env D L param (.filter source l) s (p.2.addWhere p.1) t t' := by
  obtain ⟨f, hf, hiterates⟩ := h.items
  obtain ⟨q, hq, hval⟩ := h.value
  refine ⟨h.grows, ⟨_, ?_, hiterates.addWhere hD hval⟩, h.row, h.orderBy⟩
  rw [ItemPath.items, hf]
  show (do let q ← l.ofItem env D L param; _) = _
  rw [hq]
  rfl

theorem Projected.replaceSelect :
    Iterated env D L param (.select source l) s (p.2.replaceSelect p.1) t t' := by
  obtain ⟨f, hf, hiterates⟩ := h.items
  obtain ⟨q, hq, hval⟩ := h.value
  obtain ⟨sel, hsel, hvalue, -⟩ := Stage.selection_replaceSelect p.2 p.1
  have hrow : (p.2.replaceSelect p.1).layer.row = p.1 :=
    Layer.row_of_value (by rw [hsel, Option.bind_some, Selection.value?, hvalue])
  refine ⟨h.grows, ⟨_, ?_, hiterates.replaceSelect h.body.single hval⟩, ?_, h.orderBy⟩
  · rw [ItemPath.items, hf]
    show (do let q ← l.ofItem env D L param; _) = _
    rw [hq]
    rfl
  · rw [hrow]
    exact h.body

end

omit hc hlayer hsel in
/-- A lambda over the items of a stage that iterates them. -/
theorem Iterated.projected {source : ItemPath} {l : RowLambda} {w : Scope} {b : Scalar}
    (ht : t.Within L s param) (h : Iterated env D L param source s u t t')
    (hrun : scalar env l.body (t'.bindTo l.param u.layer.row) = (.ok b, w)) :
    Projected env D L param source l s (b, u) t w.unbind := by
  obtain ⟨q, hq, hval, hgrows, hb⟩ :=
    item_scope hD henv hL hs.single (ht.grows h.grows) h.row hrun
  exact ⟨⟨h.grows.trans hgrows, h.items, h.row.mono hgrows.names, h.orderBy⟩, ⟨q, hq, hval⟩,
    ⟨hb.names, hb.single⟩⟩

/-- The items of an array get a name that was not in use. -/
theorem iterated_array {path : Scalar} {v : Scope} (ht : t.Within L s param)
    (hpath : scalar env e t = (.ok path, v)) (base : String) :
    Iterated env D L param (.array e) s (s.addJoin (v.fresh base).1 path) t (v.fresh base).2 := by
  have hbound := hpath
  rw [ht.eq_bindTo] at hbound
  obtain ⟨f, hf, hval, hgrows, -⟩ :=
    ht.around.ofRow (l := ⟨param, e⟩) hD henv hL (ht.isRow hs.single) hbound
  rw [← ht.eq_bindTo] at hgrows
  have hnew : (v.fresh base).1 ∉ s.layer.names := fun h =>
    v.fresh_notMem base (hgrows.names (ht.names h))
  refine ⟨hgrows.trans (Scope.grows_fresh v base), ⟨D.items ∘ f, by rw [ItemPath.items, hf]; rfl,
    .addJoin hD hc hlayer hs.plain hsel hnew hval⟩, ?_, rfl⟩
  rw [Stage.row_addJoin hsel, v.fresh_eq]
  exact ⟨List.cons_subset.mpr ⟨List.mem_cons_self, List.nil_subset _⟩, rfl⟩

/-- The items of an array that a lambda ranges over. -/
theorem projected_array {l : RowLambda} {p : Scalar × Stage} (ht : t.Within L s param)
    (he : isOperatorCall e = false) (hrun : projected env e l s t = (.ok p, t')) :
    Projected env D L param (.array e) l s p t t' := by
  rw [projected, he] at hrun
  obtain ⟨path, v, hpath, hwithin⟩ := Compilation.bind_eq_ok.mp hrun
  obtain ⟨w, hrow, rfl⟩ := within_eq_ok hwithin
  obtain ⟨w', hbody, rfl⟩ := withRow_inner_eq_ok rfl hrow
  obtain ⟨b, w'', hscalar, hpure⟩ := Compilation.bind_eq_ok.mp hbody
  obtain ⟨rfl, rfl⟩ := pure_eq_ok.mp hpure
  rw [fresh_pushCollection] at hscalar ⊢
  have h := iterated_array hD henv hL hc hlayer hs hsel ht hpath l.param
  rw [← show (s.addJoin (v.fresh l.param).1 path).layer.row = _ from Stage.row_addJoin hsel]
    at hscalar
  obtain ⟨q, hq, hval, hgrows, hb⟩ := item_scope hD henv hL hs.single
    ((ht.grows h.grows).pushCollection (.inner path)) ⟨h.row.names, h.row.single⟩ hscalar
  have hleft := hgrows.afterCollection
  exact ⟨⟨h.grows.trans hleft, h.items, h.row.mono hleft.names, h.orderBy⟩, ⟨q, hq, hval⟩,
    ⟨hb.names, hb.single⟩⟩

/-- The items of a path that a lambda ranges over. -/
theorem projected_path {source : ItemPath} {l : RowLambda} {p : Scalar × Stage}
    (ih : ∀ {t t' : Scope} {u : Stage}, t.Within L s param →
      (∃ name cs, t.collections = .outer name :: cs) → joined env e s t = (.ok u, t') →
        Iterated env D L param source s u t t')
    (ht : t.Within L s param) (houter : ∃ name cs, t.collections = .outer name :: cs)
    (hsource : source.IsExpr e) (hrun : projected env e l s t = (.ok p, t')) :
    Projected env D L param source l s p t t' := by
  by_cases he : isOperatorCall e = true
  · rw [projected, if_pos he] at hrun
    obtain ⟨u, v, hjoined, hrow⟩ := Compilation.bind_eq_ok.mp hrun
    have hu := ih ht houter hjoined
    obtain ⟨name, cs, hcs⟩ := houter
    obtain ⟨w, hbody, rfl⟩ := withRow_outer_eq_ok (hu.grows.collections.trans hcs) hrow
    obtain ⟨b, w', hscalar, hpure⟩ := Compilation.bind_eq_ok.mp hbody
    obtain ⟨rfl, rfl⟩ := pure_eq_ok.mp hpure
    exact hu.projected hD henv hL hs ht hscalar
  · have he : isOperatorCall e = false := by simpa using he
    cases hsource with
    | array => exact projected_array hD henv hL hc hlayer hs hsel ht he hrun
    | filter h | select h =>
      obtain ⟨target, method, ty, rfl, hop, -⟩ := h
      exact absurd hop (by rw [show method.isOperator = false from he]; simp)

/-- **A stage that iterates a path has the items of the path, row by row.** -/
theorem joined_iterates {p : ItemPath} (hp : p.IsExpr e) :
    ∀ {t t' : Scope} {u : Stage}, t.Within L s param →
      (∃ name cs, t.collections = .outer name :: cs) → joined env e s t = (.ok u, t') →
        Iterated env D L param p s u t t' := by
  induction hp with
  | array he =>
    intro t t' u ht _ hrun
    rw [joined_array he] at hrun
    obtain ⟨path, v, hpath, hjoin⟩ := Compilation.bind_eq_ok.mp hrun
    obtain ⟨n, w, hfresh, hpure⟩ := Compilation.bind_eq_ok.mp hjoin
    obtain ⟨rfl, rfl⟩ := pure_eq_ok.mp hpure
    obtain ⟨rfl, rfl⟩ := fresh_eq_ok hfresh
    exact iterated_array hD henv hL hc hlayer hs hsel ht hpath "v"
  | @filter e source arg p l h hp hl ih =>
    intro t t' u ht houter hrun
    obtain ⟨p, hprojected, rfl⟩ := joined_call h hl rfl hrun
    exact (projected_path hD henv hL hc hlayer hs hsel ih ht houter hp hprojected).addWhere hD
  | @select e source arg p l h hp hl ih =>
    intro t t' u ht houter hrun
    obtain ⟨p, hprojected, rfl⟩ := joined_call h hl rfl hrun
    exact (projected_path hD henv hL hc hlayer hs hsel ih ht houter hp hprojected).replaceSelect

end Compilation

/-! ## Operators -/

/-- Each row is followed up by the items of its array. -/
theorem Applies.selectMany {input x st : Stage} {v : Scope} {l : RowLambda}
    {arg : Expr} {p : ItemPath} (hD : D.Lawful) (henv : env.Plain) (hL : D.parameter = L.values)
    (hl : l.IsArg arg) (hp : p.IsExpr l.body) (hin : input.Fit D)
    (h : Applies env L "SelectMany" [arg] input x v st) :
    st.Fit D ∧
      Operator.apply env D L (input.rows D) (.selectMany l.param p) = .ok (st.rows D) ∧
        st.layer.orderBy = x.layer.orderBy := by
  obtain ⟨w, hrun⟩ := h.run
  obtain ⟨hsize, hselector⟩ := hl.selector? "SelectMany"
  rw [apply.eq_3, hselector] at hrun
  obtain ⟨name, cs, hcs⟩ := h.outer
  obtain ⟨w', hjoined, -⟩ := withRow_outer_eq_ok hcs (bind_ofExcept_ok hrun)
  have hnone : x.layer.selection = none := h.layered.selection rfl
  have hlayer : Layer.Alike ((Setting.self env).upper v.parameters L.frame x x)
    x.layer x.layer := by
    cases h.stage.alike with
    | cons hlayer => exact hlayer
  obtain ⟨hfit, hrows⟩ := h.layered.fit hin
  have hwithin : (v.bindTo l.param x.layer.row).Within L x l.param :=
    ⟨congrArg (List.cons _) h.top.bindings, h.top.depth, h.top.group, h.top.operation,
      fun n hn => h.stage.right (List.mem_append_left _ hn)⟩
  obtain ⟨-, ⟨f, hf, hiterates⟩, -, horder⟩ := joined_iterates hD henv hL
    (Setting.self_plain env L v.parameters x) hlayer hfit hnone hp hwithin ⟨name, cs, hcs⟩ hjoined
  obtain ⟨hst, -, hjoin⟩ := hiterates.fit hfit (h.unbounded (by decide) (by decide))
    (by rw [Layer.isDistinct, hnone]; rfl)
  refine ⟨hst, ?_, horder⟩
  rw [Operator.apply, hf, hjoin, hrows]
  rfl

end LambdaQuery
