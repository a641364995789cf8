import LambdaQuery.Host.Interpreter
import LambdaQuery.Host.Queryable
import LambdaQuery.Proofs.Alike.Bound
import LambdaQuery.Proofs.Alike.Queries
import Mathlib

/-!
# Queries with their parameters filled in

`Query.fill` puts the literal of its value in the place of every parameter. What is then left of a
query is the query of the same expression without parameters (`Compilation.fill_query`), if the
constants agree with what is registered, no member with a converter is compared with what may be a
parameter, and no call tests for containment. A converter is applied to a literal alone, so that the
parameter stands for a value that no document has (`Compilation.fill_query_converter`).
-/

set_option autoImplicit false

namespace LambdaQuery

/-! ## Values of parameters -/

/-- The value that is reported for a parameter. -/
def reported? (ps : List QueryParameter) (name : String) : Option Json :=
  (ps.find? (·.name == name)).map (·.value)

/-- The literal of a parameter; one without a value stays. -/
def Scalar.ofParameter (ps : List QueryParameter) (name : String) : Scalar :=
  match (reported? ps name).map Json.toScalar with
  | some (.ok s) => s
  | _ => .parameter name

def Count.fill (ps : List QueryParameter) : Count → Count
  | .literal n => .literal n
  | .parameter name =>
    match (reported? ps name).bind Json.toInt64? with
    | some n => .literal n
    | none => .parameter name

mutual

/-- The scalar with the literals of the parameters. -/
def Scalar.fill (ps : List QueryParameter) : Scalar → Scalar
  | .literal value => .literal value
  | .ref name => .ref name
  | .index object key => .index (object.fill ps) (key.fill ps)
  | .binary op left right => .binary op (left.fill ps) (right.fill ps)
  | .unary op operand => .unary op (operand.fill ps)
  | .call name args udf => .call name (Scalar.fillAll ps args) udf
  | .array items => .array (Scalar.fillAll ps items)
  | .object properties => .object (Scalar.fillProperties ps properties)
  | .conditional test ifTrue ifFalse =>
    .conditional (test.fill ps) (ifTrue.fill ps) (ifFalse.fill ps)
  | .isIn item items negated => .isIn (item.fill ps) (Scalar.fillAll ps items) negated
  | .parameter name => .ofParameter ps name
  | .exists query => .exists (query.fill ps)
  | .arrayOf query => .arrayOf (query.fill ps)
  | .subquery query => .subquery (query.fill ps)

def Scalar.fillAll (ps : List QueryParameter) : List Scalar → List Scalar
  | [] => []
  | s :: ss => s.fill ps :: Scalar.fillAll ps ss

def Scalar.fillProperties (ps : List QueryParameter) :
    List (String × Scalar) → List (String × Scalar)
  | [] => []
  | (name, s) :: rest => (name, s.fill ps) :: Scalar.fillProperties ps rest

def Projection.fill (ps : List QueryParameter) : Projection → Projection
  | .star => .star
  | .value value => .value (value.fill ps)

def Selection.fill (ps : List QueryParameter) : Selection → Selection
  | ⟨projection, distinct, top⟩ => ⟨projection.fill ps, distinct, top.map (·.fill ps)⟩

def Source.fill (ps : List QueryParameter) : Source → Source
  | .container name => .container name
  | .items name path => .items name (path.fill ps)
  | .subquery name query => .subquery name (query.fill ps)

def Source.fillAll (ps : List QueryParameter) : List Source → List Source
  | [] => []
  | s :: ss => s.fill ps :: Source.fillAll ps ss

def SortKey.fill (ps : List QueryParameter) : SortKey → SortKey
  | ⟨value, descending⟩ => ⟨value.fill ps, descending⟩

def SortKey.fillAll (ps : List QueryParameter) : List SortKey → List SortKey
  | [] => []
  | k :: ks => k.fill ps :: SortKey.fillAll ps ks

def Scalar.fillOption (ps : List QueryParameter) : Option Scalar → Option Scalar
  | none => none
  | some s => some (s.fill ps)

/-- The query with the literals of the parameters. -/
def Query.fill (ps : List QueryParameter) : Query → Query
  | ⟨selection, sources, filter, groupBy, orderBy, offset, limit⟩ =>
    ⟨selection.fill ps, Source.fillAll ps sources, Scalar.fillOption ps filter,
      Scalar.fillAll ps groupBy, SortKey.fillAll ps orderBy, offset.map (·.fill ps),
      limit.map (·.fill ps)⟩

end

theorem Query.filter_fill (ps : List QueryParameter) (q : Query) :
    (q.fill ps).filter = Scalar.fillOption ps q.filter := by
  cases q
  rfl

/-! ## Alike queries filled in -/

/-- The right side becomes the left one when its parameters are filled in. -/
structure Likeness.Fills (c : Likeness) (ps : List QueryParameter) : Prop where
  leaf : ∀ a b, c.leaf a b → b.fill ps = a
  count : ∀ a b, c.count a b → b.fill ps = a
  negation : ¬c.negation
  named : c.named

/-- Every name is bound to itself. -/
def Context.Diagonal (Γ : Context) : Prop := ∀ p ∈ Γ, p.1 = p.2

theorem Context.Diagonal.cons {Γ : Context} (h : Context.Diagonal Γ) {n m : String} (hn : n = m) :
    Context.Diagonal ((n, m) :: Γ) :=
  List.forall_mem_cons.mpr ⟨hn, h⟩

variable {c : Likeness} {ps : List QueryParameter}

theorem optionRel_fill (hc : c.Fills ps) {x y : Option Count} (h : Option.Rel c.count x y) :
    y.map (·.fill ps) = x := by
  cases h with
  | none => rfl
  | some h => exact congrArg some (hc.count _ _ h)

theorem SortKey.ext_map {ks ls : List SortKey}
    (hvalue : Scalar.fillAll ps (ls.map (·.value)) = ks.map (·.value))
    (hdescending : ks.map (·.descending) = ls.map (·.descending)) :
    SortKey.fillAll ps ls = ks := by
  induction ls generalizing ks with
  | nil =>
    rw [List.map_eq_nil_iff.mp hvalue.symm]
    rfl
  | cons l ls ih =>
    cases ks with
    | nil => cases hvalue
    | cons k ks =>
      obtain ⟨hv, hvs⟩ := List.cons.inj hvalue
      obtain ⟨hd, hds⟩ := List.cons.inj hdescending
      obtain ⟨value, descending⟩ := l
      obtain ⟨value', descending'⟩ := k
      dsimp only at hv hd
      rw [SortKey.fillAll, ih hvs hds, SortKey.fill, hv, hd]

theorem Scalar.fillOption_eq {x y : Option Scalar} (h : Scalar.fillAll ps y.toList = x.toList) :
    Scalar.fillOption ps y = x := by
  cases x with
  | none =>
    cases y with
    | none => rfl
    | some b => cases h
  | some a =>
    cases y with
    | none => cases h
    | some b => exact congrArg some (List.cons.inj h).1

theorem Projection.fill_eq {p p' : Projection} {d d' : Bool} {t t' : Option Count}
    (h : Scalar.fillAll ps (Selection.value? ⟨p', d', t'⟩).toList =
      (Selection.value? ⟨p, d, t⟩).toList) : p'.fill ps = p := by
  cases p with
  | star =>
    cases p' with
    | star => rfl
    | value b => cases h
  | value a =>
    cases p' with
    | star => cases h
    | value b => exact congrArg Projection.value (List.cons.inj h).1

mutual

/-- A scalar that is alike becomes the other one. -/
theorem Scalar.Alike.fill (hc : c.Fills ps) : ∀ {Γ : Context} {a b : Scalar}, Scalar.Alike c Γ a b →
    Context.Diagonal Γ → b.fill ps = a
  | _, _, _, .leaf h, _ => hc.leaf _ _ h
  | _, _, _, .literal value, _ => rfl
  | _, _, _, .ref h, hΓ => congrArg Scalar.ref (hΓ _ h).symm
  | _, _, _, .index h hk, hΓ => by rw [Scalar.fill, h.fill hc hΓ, hk.fill hc hΓ]
  | _, _, _, .binary op h h', hΓ => by rw [Scalar.fill, h.fill hc hΓ, h'.fill hc hΓ]
  | _, _, _, .unary op h, hΓ => by rw [Scalar.fill, h.fill hc hΓ]
  | _, _, _, .notIn hn h, _ => absurd hn hc.negation
  | _, _, _, .negated h, hΓ => by
    obtain ⟨hitem, hitems, hnegated⟩ := Scalar.isIn.inj (h.fill hc hΓ)
    rw [Scalar.fill, hitem, hitems, hnegated]
  | _, _, _, .call name udf h, hΓ => by rw [Scalar.fill, h.fill hc hΓ]
  | _, _, _, .array h, hΓ => by rw [Scalar.fill, h.fill hc hΓ]
  | _, _, _, .object h, hΓ => by rw [Scalar.fill, h.fill hc hΓ]
  | _, _, _, .conditional h h₁ h₂, hΓ => by
    rw [Scalar.fill, h.fill hc hΓ, h₁.fill hc hΓ, h₂.fill hc hΓ]
  | _, _, _, .isIn negated h hs, hΓ => by rw [Scalar.fill, h.fill hc hΓ, hs.fill hc hΓ]
  | _, _, _, .exists h, hΓ => by rw [Scalar.fill, h.fill hc hΓ]
  | _, _, _, .arrayOf h, hΓ => by rw [Scalar.fill, h.fill hc hΓ]
  | _, _, _, .subquery h, hΓ => by rw [Scalar.fill, h.fill hc hΓ]

theorem Scalar.AllAlike.fill (hc : c.Fills ps) : ∀ {Γ : Context} {as bs : List Scalar},
    Scalar.AllAlike c Γ as bs → Context.Diagonal Γ → Scalar.fillAll ps bs = as
  | _, _, _, .nil, _ => rfl
  | _, _, _, .cons h hs, hΓ => by rw [Scalar.fillAll, h.fill hc hΓ, hs.fill hc hΓ]

theorem Scalar.PropertiesAlike.fill (hc : c.Fills ps) : ∀ {Γ : Context}
    {xs ys : List (String × Scalar)},
    Scalar.PropertiesAlike c Γ xs ys → Context.Diagonal Γ → Scalar.fillProperties ps ys = xs
  | _, _, _, .nil, _ => rfl
  | _, _, _, .cons name h hs, hΓ => by rw [Scalar.fillProperties, h.fill hc hΓ, hs.fill hc hΓ]

theorem Source.AllAlike.fill (hc : c.Fills ps) : ∀ {Γ Δ : Context} {ss ts : List Source},
    Source.AllAlike c Γ ss ts Δ → Context.Diagonal Γ →
      Source.fillAll ps ts = ss ∧ Context.Diagonal Δ
  | _, _, _, _, .nil, hΓ => ⟨rfl, hΓ⟩
  | _, _, _, _, .container hn h, hΓ => by
    obtain ⟨hss, hΔ⟩ := h.fill hc (hΓ.cons (hn.named hc.named))
    exact ⟨by rw [Source.fillAll, Source.fill, hss, hn.named hc.named], hΔ⟩
  | _, _, _, _, .items hp hn h, hΓ => by
    obtain ⟨hss, hΔ⟩ := h.fill hc (hΓ.cons (hn.named hc.named))
    exact ⟨by rw [Source.fillAll, Source.fill, hp.fill hc hΓ, hss, hn.named hc.named], hΔ⟩
  | _, _, _, _, .subquery hq hn h, hΓ => by
    obtain ⟨hss, hΔ⟩ := h.fill hc (hΓ.cons (hn.named hc.named))
    exact ⟨by rw [Source.fillAll, Source.fill, hq.fill hc hΓ, hss, hn.named hc.named], hΔ⟩

theorem Query.Alike.fill (hc : c.Fills ps) : ∀ {Γ : Context} {q r : Query}, Query.Alike c Γ q r →
    Context.Diagonal Γ → r.fill ps = q
  | _, ⟨⟨_, _, _⟩, _, _, _, _, _, _⟩, ⟨⟨_, _, _⟩, _, _, _, _, _, _⟩,
    .mk hsources hvalue hdistinct hfilter hgroupBy horderBy hdescending htop hoffset hlimit,
    hΓ => by
    obtain ⟨hss, hΔ⟩ := hsources.fill hc hΓ
    have hv := Projection.fill_eq (hvalue.fill hc hΔ)
    have hf := Scalar.fillOption_eq (hfilter.fill hc hΔ)
    have hg := hgroupBy.fill hc hΔ
    have ho := SortKey.ext_map (horderBy.fill hc hΔ) hdescending
    dsimp only at hv hss hf hg ho hdistinct
    rw [Query.fill, Selection.fill, hv, hss, hf, hg, ho, optionRel_fill hc htop,
      optionRel_fill hc hoffset, optionRel_fill hc hlimit, hdistinct]

end

/-! ## Compiled queries -/

/-- A parameter in use is reported with the value that is registered for it. -/
theorem reported?_of_used {env : Environment}
    (hnames : (env.options.parameters.map (·.queryName)).Nodup)
    (hreports : ∀ q ∈ ps, (Setting.bound env).reports q) {p : BoundParameter}
    (hp : p ∈ env.options.parameters) (hused : Setting.Used ps p.queryName) :
    reported? ps p.queryName = some p.value.toJson := by
  obtain ⟨used, hmem, hname⟩ := hused
  obtain ⟨q, hq⟩ : ∃ q, ps.find? (·.name == p.queryName) = some q :=
    Option.isSome_iff_exists.mp (List.find?_isSome.mpr ⟨used, hmem, beq_iff_eq.mpr hname⟩)
  obtain ⟨b, hb, rfl⟩ := hreports q (List.mem_of_find?_eq_some hq)
  have hbp : b.queryName = p.queryName := by simpa using List.find?_some hq
  obtain rfl := List.inj_on_of_nodup_map hnames hb hp hbp
  rw [reported?, hq]
  rfl

theorem Setting.bound_fills {env : Environment}
    (hnames : (env.options.parameters.map (·.queryName)).Nodup)
    (hreports : ∀ q ∈ ps, (Setting.bound env).reports q) :
    ((Setting.bound env).likeness ps .empty).Fills ps where
  leaf a b hab := by
    rcases hab with ⟨p, hp, rfl, ha, hused⟩ | ⟨hab, -⟩
    · rw [Scalar.fill, Scalar.ofParameter, reported?_of_used hnames hreports hp hused,
        Option.map_some, ha]
    · cases hab
  count a b hab := by
    rcases hab with ⟨n, rfl, rfl⟩ | ⟨p, hp, n, rfl, hn, rfl, hused⟩
    · rfl
    · rw [Count.fill, reported?_of_used hnames hreports hp hused, Option.bind_some, hn]
  negation := id
  named := trivial

/-- **Parameters stand for their literals.** Where an expression has a query with parameters and one
without, the second is the first with the reported values in the place of the parameters. -/
theorem Compilation.fill_query (env : Environment) (e folded : Expr)
    (hfold : e.fold env.evaluator = .ok folded) (hbindable : folded.Bindable env.options)
    (hnames : (env.options.parameters.map (·.queryName)).Nodup) (q r : Query) (t u : Scope)
    (hr : Compilation.query env e .initial = (.ok r, t))
    (hq : Compilation.query env.unbound e .initial = (.ok q, u)) :
    r.fill t.parameters = q := by
  rcases Setting.bound_sound.query hfold hbindable hr with
    ⟨q', u', hq', halike, -, hreports⟩ | ⟨-, error, u', herror⟩
  · cases hq.symm.trans hq'
    exact halike.fill (Setting.bound_fills hnames hreports) fun _ hp => nomatch hp
  · cases hq.symm.trans herror

/-- The least size of a row is a parameter; of such rows the status is read, which documents store
as text. -/
theorem Compilation.fill_query_size :
    let stored : FieldInfo := ⟨none, none, some (.enumAsString [(1, "Active")])⟩
    let env : Environment :=
      ⟨⟨⟨.declared, [("Row", [("Status", stored)])]⟩, [⟨"size", .integer 3⟩], false⟩,
        Interpreter.empty.evaluate⟩
    let size := (Expr.parameter "r" (.model "Row")).property "Size" .int32
    let status := (Expr.parameter "r" (.model "Row")).property "Status" .int32
    let test := Expr.compare .greaterThanOrEqual size (.int 3)
    let rows := (Queryable.root (.model "Row")).filter (.unary "r" (.model "Row") test)
    let e := (rows.select (.unary "r" (.model "Row") status)).expr
    ∃ q r t u, Compilation.query env e .initial = (.ok r, t) ∧
      Compilation.query env.unbound e .initial = (.ok q, u) ∧
        t.parameters.map (·.name) = ["@size"] ∧ r.fill t.parameters = q := by
  intro stored env size status test rows e
  have hr : (Compilation.query env e .initial).map (·.isOk) (·.parameters.map (·.name)) =
      (true, ["@size"]) := by cbv
  have hq : (Compilation.query env.unbound e .initial).1.isOk = true := by cbv
  rcases hr' : Compilation.query env e .initial with ⟨_ | r, t⟩
  · rw [hr'] at hr
    cases (Prod.mk.inj hr).1
  rcases hq' : Compilation.query env.unbound e .initial with ⟨_ | q, u⟩
  · rw [hq'] at hq
    cases hq
  rw [hr'] at hr
  have hfold : e.fold env.evaluator = .ok e := by cbv
  have hproper : ∀ p ∈ env.options.parameters, p.value.Proper :=
    List.forall_mem_singleton.mpr trivial
  have hleaf : ∀ (v : Value) (ty : HostType), v.Exact → v.Plain env.options.naming ty →
      (Expr.constant v ty).Bindable env.options := fun v ty hv hplain =>
    Expr.bindable_iff.mpr ⟨hv.agrees hproper hplain, List.forall_mem_nil _⟩
  have hrow : (Expr.parameter "r" (.model "Row")).Bindable env.options :=
    Expr.bindable_iff.mpr ⟨trivial, List.forall_mem_nil _⟩
  have hmember : ∀ (name : String) (ty : HostType),
      ((Expr.parameter "r" (.model "Row")).property name ty).Bindable env.options := fun _ _ =>
    Expr.bindable_iff.mpr ⟨trivial, List.forall_mem_singleton.mpr hrow⟩
  have htest : test.Bindable env.options := Expr.bindable_iff.mpr
    ⟨⟨.inl rfl, .inl rfl⟩, List.forall_mem_cons.mpr
      ⟨hmember _ _, List.forall_mem_singleton.mpr (hleaf _ _ trivial trivial)⟩⟩
  have hlambda : ∀ {body : Expr}, body.Bindable env.options →
      (Expr.quote (.unary "r" (.model "Row") body)).Bindable env.options := fun hbody =>
    Expr.bindable_iff.mpr ⟨trivial, List.forall_mem_singleton.mpr
      (Expr.bindable_iff.mpr ⟨trivial, List.forall_mem_singleton.mpr hbody⟩)⟩
  have hrows : rows.expr.Bindable env.options := Expr.bindable_iff.mpr
    ⟨⟨show "Where" ≠ "Contains" by decide, fun _ hp => absurd hp (Option.not_mem_none _)⟩,
      List.forall_mem_cons.mpr
        ⟨hleaf _ _ trivial trivial, List.forall_mem_singleton.mpr (hlambda htest)⟩⟩
  have hbindable : e.Bindable env.options := Expr.bindable_iff.mpr
    ⟨⟨show "Select" ≠ "Contains" by decide, fun _ hp => absurd hp (Option.not_mem_none _)⟩,
      List.forall_mem_cons.mpr
        ⟨hrows, List.forall_mem_singleton.mpr (hlambda (hmember _ _))⟩⟩
  exact ⟨q, r, t, u, rfl, rfl, (Prod.mk.inj hr).2,
    fill_query env e e hfold hbindable (by decide) q r t u hr' hq'⟩

/-- A status that documents store as text: the literal is converted, the parameter is not. -/
theorem Compilation.fill_query_converter :
    let status : FieldInfo := ⟨none, none, some (.enumAsString [(1, "Active")])⟩
    let env : Environment :=
      ⟨⟨⟨.declared, [("Row", [("Status", status)])]⟩, [⟨"p", .integer 1⟩], false⟩,
        Interpreter.empty.evaluate⟩
    let test := Expr.compare .equal
      ((Expr.parameter "r" (.model "Row")).property "Status" .int32) (.int 1)
    let e := ((Queryable.root (.model "Row")).filter (.unary "r" (.model "Row") test)).expr
    ∃ q r t u, Compilation.query env e .initial = (.ok r, t) ∧
      Compilation.query env.unbound e .initial = (.ok q, u) ∧ r.fill t.parameters ≠ q := by
  intro status env test e
  have hr : (Compilation.query env e .initial).map (·.map (·.filter)) (·.parameters) =
      (.ok (some (.equal (.property (.ref "root") "Status") (.parameter "@p"))),
        [⟨"@p", .int 1⟩]) := by cbv
  have hq : (Compilation.query env.unbound e .initial).1.map (·.filter) =
      .ok (some (.equal (.property (.ref "root") "Status") (.string "Active"))) := by cbv
  rcases hr' : Compilation.query env e .initial with ⟨_ | r, t⟩
  · rw [hr'] at hr
    cases (Prod.mk.inj hr).1
  rcases hq' : Compilation.query env.unbound e .initial with ⟨_ | q, u⟩
  · rw [hq'] at hq
    cases hq
  rw [hr'] at hr
  rw [hq'] at hq
  have hfilter : r.filter = _ := Except.ok.inj (Prod.mk.inj hr).1
  have hparameters : t.parameters = _ := (Prod.mk.inj hr).2
  have hliteral : q.filter = _ := Except.ok.inj hq
  refine ⟨q, r, t, u, rfl, rfl, fun hfill => ?_⟩
  have h := congrArg Query.filter hfill
  rw [Query.filter_fill, hfilter, hliteral, hparameters] at h
  cases h

end LambdaQuery
