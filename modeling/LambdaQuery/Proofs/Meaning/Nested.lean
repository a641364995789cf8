import LambdaQuery.Proofs.Meaning.Queries

/-!
# The values of nested queries

A chain of operators over an array inside of a lambda is compiled to a scalar that has the value of
the chain over the items of the array (`Compilation.scalar_nested`), where no operator in it has the
group in scope for its source. Where one has, the rows of the group are what it ranges over, also if
a lambda of the chain gave the name another meaning (`Compilation.scalar_nested_group`). By itself,
with the parameters around it for parameters of the query, the nested chain is a chain like those
over the container.
-/

set_option autoImplicit false

namespace LambdaQuery

open Compilation

variable {V : Type} [DecidableEq V] {D : Database V} {env : Environment} {L : Locals V}

/-! ## Chains and parameters of the query -/

section

variable (f : String → V)

/-- The parameters of a query are none of its chains. -/
theorem ItemPath.items_withParameters (param : String) (p : ItemPath) :
    p.items env (D.withParameters f) L param = p.items env D L param := by
  induction p with
  | array e => rfl
  | filter source l ih | select source l ih =>
    rw [items, items, ih]
    rfl

theorem Operator.apply_withParameters (rows : List V) (op : Operator) :
    op.apply env (D.withParameters f) L rows = op.apply env D L rows := by
  cases op with
  | selectMany param p =>
    rw [apply, apply, p.items_withParameters]
  | orderBy keys =>
    have hkey : RowLambda.key env (D.withParameters f) L = RowLambda.key env D L := rfl
    rw [apply, apply, hkey]
    simp only [Database.sorted, Database.before_withParameters]
  | _ => rfl

theorem Operator.rows_withParameters (start : List V) (ops : List Operator) :
    Operator.rows env (D.withParameters f) L start ops = Operator.rows env D L start ops := by
  induction ops with
  | nil => rfl
  | cons op ops ih =>
    rw [rows, rows, ih]
    exact congrArg _ (funext fun rows => op.apply_withParameters f rows)

theorem Chain.value_withParameters (items : List V) (c : Chain) :
    c.value env (D.withParameters f) L items = c.value env D L items := by
  rw [value, value, Operator.rows_withParameters]
  rfl

end

/-! ## Nested chains -/

omit [DecidableEq V] in
/-- In a nested query by itself, the parameters around it are parameters of the query. -/
theorem Scope.top_nested (env : Environment) (depth : Nat) (params : List String)
    (values : Valuation V) :
    (Scope.reading depth params).enterSubquery.Top env ⟨depth + 1, params, values⟩ where
  bindings := rfl
  depth := rfl
  group := rfl
  operation := nofun
  scopes := {
    lookup? := by
      rintro x _ rfl
      cases h : (Scope.reading depth params).enterSubquery.lookup? x with
      | none => exact .none
      | some r =>
        obtain ⟨p, hp, heq⟩ := List.mem_map.mp (Record.mem_of_get? h)
        cases heq
        exact .some (List.mem_map_of_mem hp)
    groupRow? := fun _ => .none
    exact := fun _ _ _ => id
    strict := trivial
    facts := by
      intro p hp
      obtain ⟨x, -, rfl⟩ := List.mem_map.mp hp
      exact ⟨⟨rfl, fun _ => Iff.rfl⟩, rfl, nofun, nofun, nofun⟩
    single := by
      intro _ p hp
      obtain ⟨x, -, rfl⟩ := List.mem_map.mp hp
      rfl
    names := by
      intro p hp
      obtain ⟨x, -, rfl⟩ := List.mem_map.mp hp
      exact ⟨List.nil_subset _, List.nil_subset _⟩
    live := by
      intro p hp
      obtain ⟨x, -, rfl⟩ := List.mem_map.mp hp
      exact List.nil_subset _
    left := List.nil_subset _
    right := List.nil_subset _
    depth := rfl
    named := fun _ => rfl
    operation := nofun
    operation' := nofun
    merged := List.nil_subset _ }
  rooted := nofun

/-- A nested chain starts from the items of an array. -/
theorem Compilation.rows_array {e : Expr} {s t : Scope} {st : Stage} (hs : s.inSubquery = true)
    (he : isOperatorCall e = false) (hrun : Compilation.rows env e s = (.ok st, t)) :
    ∃ b u item, scalar env e s = (.ok b, u) ∧ st = .overItems item b := by
  have hitems : (do
      let path ← scalar env e
      return .overItems (← Compilation.fresh "v") path : Compilation Stage) s = (.ok st, t) →
        ∃ b u item, scalar env e s = (.ok b, u) ∧ st = .overItems item b := by
    intro h
    obtain ⟨b, u, hscalar, h⟩ := Compilation.bind_eq_ok.mp h
    obtain ⟨item, u', -, h⟩ := Compilation.bind_eq_ok.mp h
    exact ⟨b, u, item, hscalar, (pure_eq_ok.mp h).1⟩
  rw [Compilation.rows.eq_def] at hrun
  split at hrun
  · rename_i target m args ty
    have hm : ¬m.isOperator = true := Bool.eq_false_iff.mp he
    rw [if_neg hm] at hrun
    obtain ⟨s', t', hget, hrun⟩ := Compilation.bind_eq_ok.mp hrun
    cases hget
    rw [if_pos hs] at hrun
    exact hitems hrun
  · obtain ⟨s', t', hget, hrun⟩ := Compilation.bind_eq_ok.mp hrun
    cases hget
    rw [if_pos hs] at hrun
    exact hitems hrun

omit [DecidableEq V] in
theorem isGrouping_of_array {e : Expr} (he : isOperatorCall e = false) : e.isGrouping = false := by
  cases e with
  | call target m args ty => exact Bool.and_eq_false_iff.mpr (.inl he)
  | _ => rfl

/-- The items of an array are the rows of the array. -/
theorem Stage.starts_array (hD : D.Lawful) (henv : env.Plain) (hL : D.parameter = L.values)
    (hdepth : L.depth ≠ 0) {path : Expr} (hpath : isOperatorCall path = false)
    {f : Valuation V → V} (hf : path.meaning env D L.depth L.params = .ok f) :
    Stage.Starts env D L (D.items (f L.values)) (· = path) := by
  rintro e rfl
  refine ⟨?_, fun s t st hs hrun => ?_⟩
  · exact isGrouping_of_array hpath
  obtain ⟨b, u, item, hscalar, rfl⟩ := rows_array (by simp [Scope.inSubquery, hs.depth, hdepth])
    hpath hrun
  obtain ⟨g, hg, hvalue, -⟩ :=
    hs.toAround.valid.meaning hD henv (.refl (Scope.outside_refl hs.group) _) hscalar
  rw [hs.depth, hs.toAround.params, hf] at hg
  obtain rfl := Except.ok.inj hg
  have hrows : (Stage.overItems item b).rows D = D.items (f L.values) := by
    rw [Stage.overItems, Stage.rows_ofSource, ← hvalue D.nothing _ (hs.toAround.values hL _)]
    rfl
  exact ⟨.ofSource _, congrArg Except.ok hrows.symm, fun _ => rfl, by rintro _ _ ⟨⟩⟩

omit [DecidableEq V] in
/-- What operators start from has been compiled. -/
theorem Operator.AreExpr.started {start : Expr → Prop} {ops : List Operator} {e : Expr}
    (h : Operator.AreExpr start ops e) (hgroup : ∀ e, start e → e.isGrouping = false) {s t : Scope}
    (hs : s.Top env L) {st : Stage} (hrun : Compilation.rows env e s = (.ok st, t)) :
    ∃ e₀ s₀ st₀ t₀, start e₀ ∧ s₀.Top env L ∧ Compilation.rows env e₀ s₀ = (.ok st₀, t₀) := by
  induction h generalizing s t st with
  | start he => exact ⟨_, s, st, t, he, hs, hrun⟩
  | filter h hsource _ ih | select h hsource _ ih | selectMany h hsource _ _ ih
  | orderBy _ h hsource _ ih | thenBy _ h hsource _ ih | distinct h hsource ih
  | take h hsource _ ih | skip h hsource _ ih =>
    obtain ⟨s', u, input, x, v, hs', hrows, -⟩ := h.applies (hsource.isGrouping hgroup) hs hrun
    exact ih hs' hrows

omit [DecidableEq V] in
theorem Chain.IsExpr.started {start : Expr → Prop} {c : Chain} {e : Expr} (h : c.IsExpr start e)
    (hgroup : ∀ e, start e → e.isGrouping = false) {s t : Scope} (hs : s.Top env L) {st : Stage}
    (hrun : Compilation.rows env e s = (.ok st, t)) :
    ∃ e₀ s₀ st₀ t₀, start e₀ ∧ s₀.Top env L ∧ Compilation.rows env e₀ s₀ = (.ok st₀, t₀) := by
  cases h with
  | rows h => exact h.started hgroup hs hrun
  | ending h hsource =>
    obtain ⟨s', u, input, x, v, hs', hrows, -⟩ := h.applies (hsource.isGrouping hgroup) hs hrun
    exact hsource.started hgroup hs' hrows

/-! ## The scalars of nested chains -/

/-- Operators that do not end a chain make arrays of arrays. -/
theorem Operator.AreExpr.nestedScalar {start : Expr → Prop} {ops : List Operator}
    {target : Option Expr} {m : Method} {args : List Expr} {ty : HostType}
    (h : Operator.AreExpr start ops (.call target m args ty))
    (hstart : ¬start (.call target m args ty)) (q : Query) :
    Compilation.nestedScalar m.name q = .arrayOf q := by
  have hcalls : ∀ {name : String} {args' : List Expr},
      (Expr.call target m args ty).Calls name args' → m.name = name := by
    rintro name args' ⟨_, _, _, heq, -, hname⟩
    cases heq
    exact hname
  cases h with
  | start h => exact (hstart h).elim
  | filter h | select h | selectMany h | distinct h | take h | skip h => rw [hcalls h]; rfl
  | orderBy descending h | thenBy descending h => cases descending <;> rw [hcalls h] <;> rfl

/-- The scalar that a nested chain is compiled to has the value of the chain, if its query selects
the rows that it should. -/
theorem Chain.IsExpr.value {start : Expr → Prop} {c : Chain} {target : Option Expr} {m : Method}
    {args : List Expr} {ty : HostType} (h : c.IsExpr start (.call target m args ty))
    (hstart : ¬start (.call target m args ty)) (hm : nestedOperators.contains m.name = true)
    (hfirst : ∀ vs, D.index (D.array vs) (D.literal (.integer 0)) = vs.headD (D.literal .undefined))
    (hL : L.depth ≠ 0) {items : List V} {q : Query}
    (hq : c.selected env D L items = .ok (q.rows D D.nothing)) :
    c.value env D L items = .ok ((nestedScalar m.name q).eval D D.nothing none) := by
  obtain ⟨rows, hrows, hq⟩ := bind_eq_ok.mp hq
  rw [Chain.value, hrows]
  cases h with
  | rows h =>
    rw [h.nestedScalar hstart]
    obtain rfl := Except.ok.inj hq
    rfl
  | @ending _ source ops ending name args' h hs he =>
    have hname : m.name = name := by
      obtain ⟨_, _, _, heq, -, hname⟩ := h
      cases heq
      exact hname
    cases ending with
    | rows => exact he.elim
    | first =>
      rw [hname, he.1] at hm
      exact absurd hm (by decide)
    | count l =>
      rw [hname, he.1]
      obtain ⟨kept, hkept, hq⟩ := bind_eq_ok.mp hq
      show Ending.value env D L rows (.count l) = .ok ((q.rows D D.nothing).headD _)
      rw [Ending.value, hkept, ← Except.ok.inj hq]
      rfl
    | any l =>
      rw [hname, he.1]
      rw [Ending.selected, if_neg hL] at hq
      show Ending.value env D L rows (.any l) =
        .ok (D.literal (.boolean !(q.rows D D.nothing).isEmpty))
      rw [Ending.value, hq]
      rfl
    | aggregate a l =>
      rw [hname, he.1]
      obtain ⟨operands, heach, hq⟩ := bind_eq_ok.mp hq
      have hq := Except.ok.inj hq
      have hvalue : (nestedScalar a.method q).eval D D.nothing none =
          (q.rows D D.nothing).headD (D.literal .undefined) := by
        cases a with
        | sum => rfl
        | min | max | average => exact hfirst _
      show Ending.value env D L rows (.aggregate a l) = _
      rw [Ending.value, heach, hvalue, ← hq]
      rfl

/-! ## Nested queries -/

/-- Inside of lambdas all names still correspond to themselves, and no source is told apart anew. -/
theorem Binders.enter_same {B : Binders} (hB : ∀ x, B.names x x) (ps : List Param) :
    (∀ x, (B.enter ps ps).names x x) ∧ ∀ x, B.sources x x → (B.enter ps ps).sources x x := by
  refine enter_induction (R := Eq) (P := fun C => (∀ x, C.names x x) ∧
    ∀ x, B.sources x x → C.sources x x) (List.forall₂_same.mpr fun _ _ => rfl) ⟨hB, fun _ => id⟩
      ?_ ?_
  · rintro C p _ rfl hC
    refine ⟨fun x => ?_, hC.2⟩
    by_cases hx : x = p.name
    · exact .inl ⟨hx, hx⟩
    · exact .inr ⟨hx, hx, hC.1 x⟩
  · rintro C p _ rfl hC
    exact ⟨hC.1, fun _ _ _ => Iff.rfl⟩

/-- An expression corresponds to itself where no operator in it has the group for its source. -/
theorem Expr.Renamed.of_sources {exact : Prop} {B : Binders} (e : Expr) (hB : ∀ x, B.names x x)
    (h : ∀ d : Expr, d.IsPart e → ∀ x, d.source? = some x → B.sources x x) :
    e.Renamed exact B e := by
  induction hn : sizeOf e using Nat.strongRecOn generalizing e B with
  | ind n ih =>
    subst hn
    have hchild : ∀ d ∈ e.children, ∀ d' : Expr, d'.IsPart d → ∀ x, d'.source? = some x →
        B.sources x x := fun d hd d' hd' => h d' (hd'.child hd)
    cases hp : e.hasParams with
    | false =>
      have hchildren : List.Forall₂ (Expr.Renamed exact B) e.children e.children :=
        List.forall₂_same.mpr fun d hd => ih _ (Expr.sizeOf_child hd) d hB (hchild d hd) rfl
      have hsource : Option.Rel B.sources e.source? (e.rebuild e.children).source? := by
        rw [Expr.rebuild_children]
        cases hs : e.source? with
        | none => exact .none
        | some x => exact .some (h e .self x hs)
      have hrenamed := Expr.Renamed.rebuild hp hsource hchildren
      rwa [Expr.rebuild_children] at hrenamed
    | true =>
      cases e with
      | parameter x ty => exact .parameter ty (hB x)
      | lambda ps body =>
        have hbody : body ∈ (Expr.lambda ps body).children := List.mem_singleton_self body
        obtain ⟨hnames, hsources⟩ := Binders.enter_same hB ps
        exact .lambda (List.forall₂_same.mpr fun _ _ => ⟨rfl, fun _ => rfl⟩)
          (ih _ (Expr.sizeOf_child hbody) body hnames
            (fun d hd x hx => hsources x (hchild body hbody d hd x hx)) rfl)
      | _ => cases hp

/-- A nested chain is compiled among operators of its own. -/
theorem Compilation.nested_eq_ok {method : Method} {args : List Expr} {ty : HostType} {s t : Scope}
    {b : Scalar} (hgroup : s.group = none) (hnested : isNestedQuery none method args = true)
    (hrun : scalar env (.call none method args ty) s = (.ok b, t)) :
    ∃ st u q, Compilation.rows env (.call none method args ty) s.enterSubquery = (.ok st, u) ∧
      st.toQuery = .ok q ∧ b = nestedScalar method.name q := by
  have hop : method.isOperator = true := by
    simp only [isNestedQuery, Bool.and_eq_true] at hnested
    exact hnested.1.1.2
  have hdeclaring : method.declaring ≠ .userFunction := by
    rintro hd
    unfold Method.isOperator at hop
    rw [hd] at hop
    cases hop
  have hsource : groupSource? s method args = none := by
    unfold groupSource? Scope.groupRow?
    rw [hgroup]
    split
    · split <;> rfl
    · rfl
  rw [Compilation.scalar, if_neg hdeclaring] at hrun
  obtain ⟨s', t', hget, hrun⟩ := Compilation.bind_eq_ok.mp hrun
  cases hget
  rw [hsource] at hrun
  dsimp only at hrun
  rw [if_pos hnested] at hrun
  obtain ⟨st, u, hrows, hrun⟩ := Compilation.bind_eq_ok.mp hrun
  obtain ⟨q, u', hflattened, hrun⟩ := Compilation.bind_eq_ok.mp hrun
  obtain ⟨w, hrows, -⟩ := within_eq_ok hrows
  refine ⟨st, w, q, ?_, flattened_eq_ok hflattened, (pure_eq_ok.mp hrun).1⟩
  rw [Compilation.rows, if_pos hop]
  exact hrows

/-- **Nested chains keep their meaning.** Where no operator in it has the group in scope for its
source, the scalar of a nested chain has, for any values of the names around it, the value that the
operators make of the items of the array. Scopes are valid where a chain starts
(`Scope.Around.valid`), and stay so in its lambdas (`Scope.Valid.bindTo`). -/
theorem Compilation.scalar_nested {t t' : Scope} {method : Method} {args : List Expr}
    {ty : HostType}
    {c : Chain} {path : Expr} {b : Scalar} (hD : D.Lawful) (henv : env.Plain)
    (hfirst : ∀ vs, D.index (D.array vs) (D.literal (.integer 0)) = vs.headD (D.literal .undefined))
    (ht : t.Valid) (hnested : isNestedQuery none method args = true)
    (hgroup : ∀ d : Expr, d.IsPart (.call none method args ty) → ∀ x, d.source? = some x →
      t.groupRow? x = none)
    (hc : c.IsExpr (· = path) (.call none method args ty)) (hpath : isOperatorCall path = false)
    (horder : c.operators.countP Operator.isOrder ≤ 1)
    (hrun : scalar env (.call none method args ty) t = (.ok b, t')) :
    ∃ f, path.meaning env D (t.depth + 1) t.params = .ok f ∧ ∀ ρ values, t.Values D ρ values →
      Operator.Sized env D ⟨t.depth + 1, t.params, values⟩ (D.items (f values)) c.operators →
        c.value env D ⟨t.depth + 1, t.params, values⟩ (D.items (f values)) =
          .ok (b.eval D ρ none) := by
  have hop : isOperatorCall (.call none method args ty) = true ∧
      nestedOperators.contains method.name = true := by
    simp only [isNestedQuery, Bool.and_eq_true] at hnested
    exact ⟨hnested.1.1.2, hnested.1.2⟩
  have hstart : ¬Expr.call none method args ty = path := by
    rintro rfl
    rw [hop.1] at hpath
    cases hpath
  have hgrouping : ∀ e, e = path → e.isGrouping = false := by
    rintro e rfl
    exact isGrouping_of_array hpath
  -- By itself the chain is compiled with the parameters around it for parameters of the query.
  have hsame : (Expr.call none method args ty).Renamed True t.outside (.call none method args ty) :=
    .of_sources _ (fun _ => rfl) fun d hd x hx => ⟨rfl, hgroup d hd x hx⟩
  obtain ⟨g, hg, hvalue, -⟩ := ht.meaning hD henv hsame hrun
  obtain ⟨a, ha, hg⟩ := LambdaQuery.bind_eq_ok.mp hg
  obtain rfl := Except.ok.inj hg
  obtain ⟨st, u, q, hrows, hq, rfl⟩ := nested_eq_ok (s := .reading t.depth t.params) rfl hnested
    (show _ = (Except.ok a, _) from Prod.ext ha rfl)
  have htop := fun values : Valuation V => Scope.top_nested env t.depth t.params values
  obtain ⟨_, s₀, st₀, t₀, hpath₀, hs₀, hstarted⟩ :=
    hc.started hgrouping (htop fun _ => D.literal .undefined) hrows
  rw [hpath₀] at hstarted
  obtain ⟨_, _, _, hscalar, -⟩ :=
    rows_array (by simp [Scope.inSubquery, hs₀.depth]) hpath hstarted
  obtain ⟨f, hf, -⟩ :=
    hs₀.toAround.valid.meaning hD henv (.refl (Scope.outside_refl hs₀.group) _) hscalar
  rw [hs₀.depth, hs₀.toAround.params] at hf
  change path.meaning env D (t.depth + 1) t.params = .ok f at hf
  refine ⟨f, hf, fun ρ values hρ hsized => ?_⟩
  rw [hvalue ρ values hρ, ← Chain.value_withParameters values]
  have hD' := hD.withParameters values
  have hitems : Stage.Starts env (D.withParameters values) ⟨t.depth + 1, t.params, values⟩
      (D.items (f values)) (· = path) :=
    Stage.starts_array hD' henv rfl (Nat.succ_ne_zero _) hpath hf
  refine hc.value (D := D.withParameters values) hstart hop.2 hfirst (Nat.succ_ne_zero _)
    (hc.query hD' henv rfl hitems horder ?_ (htop values) hrows hq)
  intro n ops hsuffix rows hops
  rw [Operator.rows_withParameters] at hops
  exact hsized n ops hsuffix rows hops

/-- Of the cells of a row those that are not too small: their number, the greatest of them and their
mean. -/
theorem Compilation.scalar_nested_cells :
    let env : Environment := ⟨.default, Interpreter.empty.evaluate⟩
    let path := (Expr.parameter "r" (.model "Row")).property "Cells" (.array .int32)
    let big := Expr.compare .greaterThanOrEqual (.parameter "c" .int32) (.int 3)
    let cells := Datum.ofList [.number 5, .number 1, .number 4, .number 3]
    let t : Scope := { Scope.initial with bindings := [("r", .ref "root")] }
    let gives (name : String) (v : Datum) : Prop :=
      ∃ b t', scalar env (.staticCall ⟨.enumerable, name⟩ [.staticCall ⟨.enumerable, "Where"⟩
        [path, .ofLambda (.unary "c" .int32 big)] (.array .int32)] .int32) t = (.ok b, t') ∧
          b.eval (Database.ofNumbers []) (fun _ => cells) none = v
    gives "Count" (.number 3) ∧ gives "Max" (.number 5) ∧ gives "Average" (.number 4) := by
  intro env path big cells t gives
  let D := Database.ofNumbers []
  let values : Valuation Datum := fun _ => cells
  let ops : List Operator := [.filter ⟨"c", big⟩]
  let kept := Expr.staticCall ⟨.enumerable, "Where"⟩ [path, .ofLambda (.unary "c" .int32 big)]
    (.array .int32)
  have ht : t.Valid := by
    refine ⟨?_, ?_, nofun⟩
    · decide
    · decide
  have hread : t.Values D values values := by
    rintro x row hrow
    obtain rfl : row = .ref "root" := by
      cases List.mem_singleton.mp (Record.mem_of_get? hrow)
      rfl
    rfl
  have hitems : ∀ f, path.meaning env D 1 ["r"] = .ok f → f values = cells := by
    intro f hf
    have hpath : (scalar env path (.reading 1 ["r"])).1 =
        .ok (.property (.parameter "r") "Cells") := by
      subst path env
      cbv
    obtain ⟨a, ha, hf⟩ := LambdaQuery.bind_eq_ok.mp hf
    obtain rfl := Except.ok.inj (hpath.symm.trans ha)
    obtain rfl := Except.ok.inj hf
    rfl
  have hgives : ∀ (name : String) (ending : Ending) (v : Datum), ending.IsCall name [] →
      isNestedQuery none ⟨.enumerable, name⟩ [kept] = true →
        (scalar env (.staticCall ⟨.enumerable, name⟩ [kept] .int32) t).1.isOk = true →
          Chain.value env D ⟨1, ["r"], values⟩ (D.items cells) ⟨ops, ending⟩ = .ok v →
            gives name v := by
    intro name ending v hending hnested hok hvalue
    have hc : Chain.IsExpr (· = path) ⟨ops, ending⟩
        (.staticCall ⟨.enumerable, name⟩ [kept] .int32) :=
      .ending (Expr.staticCall_calls rfl _ _)
        (.filter (Expr.staticCall_calls rfl _ _) (.start rfl) ⟨.int32, rfl⟩) hending
    rcases hrun : scalar env (.staticCall ⟨.enumerable, name⟩ [kept] .int32) t with ⟨_ | b, t'⟩
    · rw [hrun] at hok
      cases hok
    obtain ⟨f, hf, hmeans⟩ := scalar_nested (D := D) (Database.ofNumbers_lawful _)
      (Environment.plain_default _) (Database.ofNumbers_first _) ht hnested (fun _ _ _ _ => rfl) hc
      rfl (show ops.countP Operator.isOrder ≤ 1 by decide) hrun
    have hsized : Operator.Sized env D ⟨1, ["r"], values⟩ (D.items (f values)) ops := by
      intro n ops' hops
      simp [ops, List.suffix_cons_iff] at hops
    have hmeans := hmeans values values hread hsized
    rw [show D.items (f values) = D.items cells by rw [hitems f hf]] at hmeans
    exact ⟨b, t', hrun, (Except.ok.inj (hvalue.symm.trans hmeans)).symm⟩
  have haggregate : ∀ a : Aggregate, a = .max ∨ a = .average →
      (scalar env (.staticCall ⟨.enumerable, a.method⟩ [kept] .int32) t).1.isOk = true := by
    intro a ha
    have hplain : a.method ∉ plainOperators := by cases a <;> decide
    rw [Expr.staticCall, scalar]
    simp only [operator, apply_aggregate env _ hplain, a.aggregate?_method]
    subst kept big path t env
    rcases ha with rfl | rfl <;> cbv
  refine ⟨hgives _ (.count none) _ ⟨rfl, rfl⟩ rfl ?_ ?_,
    hgives _ (.aggregate .max none) _ ⟨rfl, rfl⟩ rfl (haggregate _ (.inl rfl)) ?_,
    hgives _ (.aggregate .average none) _ ⟨rfl, rfl⟩ rfl (haggregate _ (.inr rfl)) ?_⟩
  all_goals
    subst gives values ops kept cells big path t D env
    cbv

/-- Where a parameter has the name of the group, the rows of the group are counted in place of the
items of each cell. -/
theorem Compilation.scalar_nested_group :
    let env : Environment := ⟨.default, Interpreter.empty.evaluate⟩
    let D := Database.ofNumbers []
    let count := Expr.staticCall ⟨.enumerable, "Count"⟩ [.parameter "g" (.array .int32)] .int32
    let path := Expr.parameter "k" (.array (.array .int32))
    let args := [path, .ofLambda (.unary "g" (.array .int32) count)]
    let e := Expr.staticCall ⟨.enumerable, "Select"⟩ args (.array .int32)
    let c : Chain := ⟨[.select ⟨"g", count⟩], .rows⟩
    let t : Scope := { Scope.initial with
      bindings := [("k", .ref "root")], group := some ⟨"g", .ref "root"⟩ }
    let cells := Datum.ofList [.ofList [.number 5, .number 1, .number 4], .ofList [.number 3]]
    isNestedQuery none ⟨.enumerable, "Select"⟩ args = true ∧ c.IsExpr (· = path) e ∧
      c.value env D ⟨1, ["k"], fun _ => cells⟩ (D.items cells) =
        .ok (.ofList [.number 3, .number 1]) ∧
      ∃ b t', scalar env e t = (.ok b, t') ∧
        b.eval D (fun _ => cells) none = .ofList [.number 2] := by
  intro env D count path args e c t cells
  let query : Query :=
    { selection := ⟨.value countAll, false, none⟩, sources := [.items "v0" (.ref "root")]
      filter := none, groupBy := [], orderBy := [], offset := none, limit := none }
  have hc : c.IsExpr (· = path) e :=
    .rows (.select (Expr.staticCall_calls rfl _ _) (.start rfl) ⟨.array .int32, rfl⟩)
  have hlengths : c.value env D ⟨1, ["k"], fun _ => cells⟩ (D.items cells) =
      .ok (.ofList [.number 3, .number 1]) := by
    subst c count D cells env
    cbv
  have hrun : (scalar env e t).1 = .ok (.arrayOf query) := by
    subst e args path count t env
    cbv
    rw [groupAggregate_count]
    cbv
  have hcount : (Scalar.arrayOf query).eval D (fun _ => cells) none = .ofList [.number 2] := by
    subst query D cells
    cbv
  exact ⟨rfl, hc, hlengths, _, _, Prod.ext hrun rfl, hcount⟩

end LambdaQuery
