import LambdaQuery.Proofs.Json.Records
import LambdaQuery.Proofs.Naming.Comparisons
import Mathlib

/-!
# Constructed objects

An object that host code builds, by constructor calls and by initialisers on top of them, is built
in the query too. `Scalar.Denotes` says that both are one JSON value. The compilation of an
initialiser looks at what it sets and not at the constructor call under it, so that the two are the
same where every argument of the call is set again (`Expr.Resets`): `Expr.Built.denotes`. An
argument that is not is lost: `Expr.initialiser_loses_argument`.
-/

set_option autoImplicit false

namespace LambdaQuery

/-- A value that is built of primitive values, arrays, constructor calls that name their members,
and initialisers that set members on top of such calls. -/
inductive Expr.Built : Expr → Prop where
  | null (ty : HostType) : Built (.constant .null ty)
  | literal {v : Value} (hv : v.IsLiteral) (ty : HostType) : Built (.constant v ty)
  | newArray {items : List Expr} (h : ∀ e ∈ items, Built e) (ty : HostType) :
    Built (.newArray items ty)
  | construct {args : List Expr} (h : ∀ e ∈ args, Built e) (members : List Member)
    (ty : HostType) : Built (.construct args (some members) ty)
  | initialised {args : List Expr} (hargs : ∀ e ∈ args, Built e) (members : List Member)
    {sets : List (Member × Expr)} (hsets : ∀ q ∈ sets, Built q.2) (cty ty : HostType) :
    Built (.memberInit (.construct args (some members) cty)
      (sets.map fun q => .assign q.1 q.2) ty)

/-- Every initialiser sets all members again that the constructor call under it sets. Geometries
are constructed by the evaluator. -/
inductive Expr.Resets : Expr → Prop where
  | constant (v : Value) (ty : HostType) : Resets (.constant v ty)
  | newArray {items : List Expr} (h : ∀ e ∈ items, Resets e) (ty : HostType) :
    Resets (.newArray items ty)
  | construct {args : List Expr} {ty : HostType}
    (h : ty.underlying ≠ .geometry → ∀ e ∈ args, Resets e) (members : Option (List Member)) :
    Resets (.construct args members ty)
  | initialised {args : List Expr} {members : List Member} {bindings : List Binding}
    (hagain : ∀ p ∈ members.zip args, ∃ m e, .assign m e ∈ bindings ∧ m.name = p.1.name)
    (h : ∀ m e, .assign m e ∈ bindings → Resets e) (cty ty : HostType) :
    Resets (.memberInit (.construct args (some members) cty) bindings ty)

/-! ## What the interpreter builds -/

namespace Interpreter

variable {i : Interpreter}

theorem evaluateList_eq {es : List Expr} {vs : List Value}
    (h : List.Forall₂ (fun e v => i.evaluate e = .ok v) es vs) : i.evaluateList es = .ok vs := by
  induction h with
  | nil => rfl
  | cons h _ ih =>
    rw [evaluateList, h, ih]
    rfl

theorem evaluate_construct {args : List Expr} {vs : List Value}
    (h : List.Forall₂ (fun e v => i.evaluate e = .ok v) args vs) (members : List Member)
    (ty : HostType) : i.evaluate (.construct args (some members) ty) =
      .ok (.object (Record.ofList ((members.map (·.name)).zip vs))) := by
  rw [evaluate, evaluateList_eq h]
  rfl

/-- An initialiser sets its members one after the other. -/
theorem initialized_eq {sets : List (Member × Expr)} {entries : List (String × Value)}
    (h : List.Forall₂ (fun q f => q.1.name = f.1 ∧ i.evaluate q.2 = .ok f.2) sets entries) :
    ∀ fields, i.initialized fields (sets.map fun q => .assign q.1 q.2) =
      .ok (Record.setAll fields entries) := by
  induction h with
  | nil => exact fun fields => rfl
  | @cons q f sets entries h _ ih =>
    intro fields
    obtain ⟨hname, hv⟩ := h
    rw [List.map_cons, initialized, hv]
    show i.initialized (Record.set fields q.1.name f.2) _ = _
    rw [ih, hname]
    rfl

/-- An initialiser on top of a constructor call builds the record of all that both set. -/
theorem evaluate_initialised {args : List Expr} {vs : List Value} {members : List Member}
    {sets : List (Member × Expr)} {entries : List (String × Value)} {cty ty : HostType}
    (hargs : List.Forall₂ (fun e v => i.evaluate e = .ok v) args vs)
    (hsets : List.Forall₂ (fun q f => q.1.name = f.1 ∧ i.evaluate q.2 = .ok f.2) sets entries) :
    i.evaluate (.memberInit (.construct args (some members) cty)
      (sets.map fun q => .assign q.1 q.2) ty) =
        .ok (.object (Record.ofList ((members.map (·.name)).zip vs ++ entries))) := by
  rw [evaluate, evaluate_construct hargs]
  show (i.initialized (Record.ofList _) _ >>= _ : Except HostError Value) = _
  rw [initialized_eq hsets, Record.setAll_ofList]
  rfl

end Interpreter

/-! ## Values that are sent as they are -/

theorem exists_forall₂ {α β : Type} {r : α → β → Prop} {p : β → Prop} :
    ∀ {as : List α}, (∀ a ∈ as, ∃ b, r a b ∧ p b) →
      ∃ bs, List.Forall₂ r as bs ∧ ∀ b ∈ bs, p b
  | [], _ => ⟨[], .nil, by simp⟩
  | _ :: _, h => by
    obtain ⟨⟨b, hb, hp⟩, has⟩ := List.forall_mem_cons.mp h
    obtain ⟨bs, hbs, hps⟩ := exists_forall₂ has
    exact ⟨b :: bs, .cons hb hbs, List.forall_mem_cons.mpr ⟨hp, hps⟩⟩

theorem Json.float_sent (x : Float) : (Json.float x).Sent (Json.float x) := by
  by_cases hx : x.isFinite = true
  · have hdouble : Scalar.double? x = .ok (.double x) := if_pos hx
    exact ⟨_, Json.toScalar_float hdouble, rfl⟩
  · rw [Json.float, if_neg hx]
    exact ⟨.null, rfl, rfl⟩

namespace Value

/-- The plain JSON of the value becomes a scalar that denotes it. -/
def Sendable (v : Value) : Prop := v.toJson.Sent v.toJson

theorem sendable_integer (n : Int64) : (Value.integer n).Sendable :=
  ⟨_, Json.toScalar_int n, rfl⟩

theorem IsLiteral.sendable {v : Value} (hv : v.IsLiteral) : v.Sendable := by
  cases v with
  | boolean | char | string | guid => exact ⟨_, rfl, rfl⟩
  | integer n => exact sendable_integer n
  | unsigned n =>
    obtain ⟨m, hm⟩ := hv
    have hjson : (Value.unsigned n).toJson = (Value.integer m).toJson := by
      rw [toJson, toJson, Json.int, toInt_of_int64? hm]
      rfl
    rw [Sendable, hjson]
    exact sendable_integer m
  | float x => exact Json.float_sent x
  | decimal d =>
    rw [Sendable, toJson]
    cases d.toInt64? with
    | none => exact Json.float_sent _
    | some n =>
      dsimp only
      split
      · exact sendable_integer n
      · exact Json.float_sent _
  | null | array | object | geometry | query => exact hv.elim

theorem sendable_array {vs : List Value} (h : ∀ v ∈ vs, v.Sendable) :
    (Value.array vs).Sendable := by
  rw [Sendable, toJson]
  refine .arr (List.forall₂_same.mpr ?_)
  induction vs with
  | nil => simp [toJsonItems]
  | cons v vs ih =>
    obtain ⟨hv, hvs⟩ := List.forall_mem_cons.mp h
    exact List.forall_mem_cons.mpr ⟨hv, ih hvs⟩

theorem sendable_record {entries : List (String × Value)} (h : ∀ f ∈ entries, f.2.Sendable) :
    (Value.object (Record.ofList entries)).Sendable := by
  rw [Sendable, toJson_ofList]
  refine .object (List.forall₂_same.mpr fun m hm => ⟨rfl, ?_⟩)
  rw [toJsonFields_eq] at hm
  obtain ⟨f, hf, rfl⟩ := List.mem_map.mp hm
  exact h f hf

end Value

/-- What is built has a value, which is sent as it is. -/
theorem Expr.Built.sendable (i : Interpreter) {e : Expr} (h : e.Built) :
    ∃ v, i.evaluate e = .ok v ∧ v.Sendable := by
  induction h with
  | null ty => exact ⟨.null, rfl, .null, rfl, rfl⟩
  | @literal v hv ty => exact ⟨v, rfl, hv.sendable⟩
  | newArray h ty ih =>
    obtain ⟨vs, hvs, hsendable⟩ := exists_forall₂ ih
    refine ⟨.array vs, ?_, Value.sendable_array hsendable⟩
    rw [Interpreter.evaluate, Interpreter.evaluateList_eq hvs]
    rfl
  | construct h members ty ih =>
    obtain ⟨vs, hvs, hsendable⟩ := exists_forall₂ ih
    exact ⟨_, Interpreter.evaluate_construct hvs members ty,
      Value.sendable_record fun f hf => hsendable _ (List.of_mem_zip hf).2⟩
  | @initialised args hargs members sets hsets cty ty ihargs ihsets =>
    obtain ⟨vs, hvs, hsendable⟩ := exists_forall₂ ihargs
    have hentry : ∀ q ∈ sets, ∃ f : String × Value,
        (q.1.name = f.1 ∧ i.evaluate q.2 = .ok f.2) ∧ f.2.Sendable := fun q hq => by
      obtain ⟨v, hv, hsent⟩ := ihsets q hq
      exact ⟨(q.1.name, v), ⟨rfl, hv⟩, hsent⟩
    obtain ⟨entries, hentries, hsendable'⟩ := exists_forall₂ hentry
    refine ⟨_, Interpreter.evaluate_initialised hvs hentries, Value.sendable_record ?_⟩
    exact List.forall_mem_append.mpr
      ⟨fun f hf => hsendable _ (List.of_mem_zip hf).2, hsendable'⟩

/-! ## What the query builds -/

/-- The scalar denotes the plain JSON of the expression's value. -/
def Scalar.Denotes (i : Interpreter) (e : Expr) (s : Scalar) : Prop :=
  ∃ v, i.evaluate e = .ok v ∧ s.value? = some v.toJson

namespace Scalar.Denotes

variable {i : Interpreter} {es args : List Expr} {ss : List Scalar}

theorem list (h : List.Forall₂ (Scalar.Denotes i) es ss) :
    ∃ vs, List.Forall₂ (fun e v => i.evaluate e = .ok v) es vs ∧
      List.Forall₂ (fun s v => s.value? = some v.toJson) ss vs := by
  induction h with
  | nil => exact ⟨[], .nil, .nil⟩
  | cons h _ ih =>
    obtain ⟨v, hv, hs⟩ := h
    obtain ⟨vs, hvs, hss⟩ := ih
    exact ⟨v :: vs, .cons hv hvs, .cons hs hss⟩

theorem array (h : List.Forall₂ (Scalar.Denotes i) es ss) (ty : HostType) :
    Scalar.Denotes i (.newArray es ty) (.array ss) := by
  obtain ⟨vs, hvs, hss⟩ := list h
  refine ⟨.array vs, ?_, ?_⟩
  · rw [Interpreter.evaluate, Interpreter.evaluateList_eq hvs]
    rfl
  · have hitems : ∀ {ss : List Scalar} {vs : List Value},
        List.Forall₂ (fun s v => s.value? = some v.toJson) ss vs →
          List.Forall₂ (fun s j => s.value? = some j) ss (Value.toJsonItems vs) := by
      intro ss vs h
      induction h with
      | nil => exact .nil
      | cons h _ ih => exact .cons h ih
    rw [Scalar.value?_array (hitems hss), Value.toJson]

/-- The properties of an object and the entries of the record that it is. -/
abbrev Entry (p : String × Scalar) (f : String × Value) : Prop :=
  p.1 = f.1 ∧ p.2.value? = some f.2.toJson

/-- An object of properties denotes the record of the same entries. -/
theorem value?_entries {ps : List (String × Scalar)} {entries : List (String × Value)}
    (h : List.Forall₂ Entry ps entries) :
    (Scalar.object ps).value? = some (Json.object (Value.toJsonFields entries)) := by
  rw [Value.toJsonFields_eq]
  exact Scalar.value?_object (List.forall₂_map_right_iff.mpr h)

theorem zip_entries : ∀ (names : List String) {ss : List Scalar} {vs : List Value},
    List.Forall₂ (fun s v => s.value? = some v.toJson) ss vs →
      List.Forall₂ Entry (names.zip ss) (names.zip vs)
  | [], _, _, _ => .nil
  | _ :: _, _, _, .nil => .nil
  | _ :: names, _, _, .cons h hs => .cons ⟨rfl, h⟩ (zip_entries names hs)

theorem construct (h : List.Forall₂ (Scalar.Denotes i) args ss) (members : List Member)
    (ty : HostType) : Scalar.Denotes i (.construct args (some members) ty)
      (.object ((members.map (·.name)).zip ss)) := by
  obtain ⟨vs, hvs, hss⟩ := list h
  refine ⟨_, Interpreter.evaluate_construct hvs members ty, ?_⟩
  rw [value?_entries (zip_entries _ hss), Value.toJson_ofList]

/-- Members and values are zipped to the names of the members that have an argument. -/
theorem names_zip : ∀ (members : List Member) {args : List Expr} {vs : List Value},
    List.Forall₂ (fun e v => i.evaluate e = .ok v) args vs →
      Record.names ((members.map (·.name)).zip vs) = (members.zip args).map fun p => p.1.name
  | [], _, _, _ => rfl
  | _ :: _, _, _, .nil => rfl
  | m :: members, _, _, .cons _ h => congrArg (m.name :: ·) (names_zip members h)

/-- What an initialiser sets denotes the whole object where it sets all again that is under it. -/
theorem initialised {vs : List Value} {members : List Member} {sets : List (Member × Expr)}
    {ps : List (String × Scalar)} (hargs : List.Forall₂ (fun e v => i.evaluate e = .ok v) args vs)
    (hagain : ∀ p ∈ members.zip args, ∃ q ∈ sets, q.1.name = p.1.name)
    (h : List.Forall₂ (fun q p => p.1 = q.1.name ∧ Scalar.Denotes i q.2 p.2) sets ps)
    (cty ty : HostType) : Scalar.Denotes i (.memberInit (.construct args (some members) cty)
      (sets.map fun q => .assign q.1 q.2) ty) (.object ps) := by
  obtain ⟨entries, hsets, hps⟩ : ∃ entries : List (String × Value),
      List.Forall₂ (fun q f => q.1.name = f.1 ∧ i.evaluate q.2 = .ok f.2) sets entries ∧
        List.Forall₂ Entry ps entries := by
    clear hagain
    induction h with
    | nil => exact ⟨[], .nil, .nil⟩
    | @cons q p sets ps h _ ih =>
      obtain ⟨hname, v, hv, hs⟩ := h
      obtain ⟨entries, hsets, hps⟩ := ih
      exact ⟨(q.1.name, v) :: entries, .cons ⟨rfl, hv⟩ hsets, .cons ⟨hname, hs⟩ hps⟩
  have hnames : Record.names entries = sets.map fun q => q.1.name := by
    clear hagain h hps
    induction hsets with
    | nil => rfl
    | cons h _ ih => exact congrArg₂ List.cons h.1.symm ih
  refine ⟨_, Interpreter.evaluate_initialised hargs hsets, ?_⟩
  rw [value?_entries hps, Value.toJson_ofList, Value.toJsonFields_eq, Value.toJsonFields_eq,
    List.map_append, Json.object_eq, Json.object_eq, Json.entered_append]
  intro name hname
  rw [← Value.toJsonFields_eq, Record.names, Value.names_toJsonFields] at hname ⊢
  rw [names_zip members hargs] at hname
  obtain ⟨p, hp, rfl⟩ := List.mem_map.mp hname
  obtain ⟨q, hq, heq⟩ := hagain p hp
  rw [hnames]
  exact List.mem_map.mpr ⟨q, hq, heq⟩

end Scalar.Denotes

namespace Compilation

variable {env : Environment} {i : Interpreter}

/-- Properties that leave the scope alone are set one after the other. -/
theorem properties_eq_ok {p : Expr → Scalar → Prop} {sets : List (Member × Expr)}
    (hp : ∀ q ∈ sets, ∀ sc s t, scalar env q.2 sc = (.ok s, t) → t = sc ∧ p q.2 s) {sc t : Scope}
    {ps : List (String × Scalar)}
    (h : properties env (sets.map fun q => .assign q.1 q.2) sc = (.ok ps, t)) :
    t = sc ∧
      List.Forall₂ (fun q r => r.1 = env.options.naming.wireName q.1 ∧ p q.2 r.2) sets ps := by
  induction sets generalizing sc ps with
  | nil =>
    rw [List.map_nil, properties, pure_eq_ok] at h
    obtain ⟨rfl, rfl⟩ := h
    exact ⟨rfl, .nil⟩
  | cons q sets ih =>
    obtain ⟨hq, hsets⟩ := List.forall_mem_cons.mp hp
    rw [List.map_cons, properties] at h
    obtain ⟨s, u, hs, h⟩ := bind_eq_ok.mp h
    obtain ⟨ps, v, hps, h⟩ := bind_eq_ok.mp h
    obtain ⟨rfl, rfl⟩ := pure_eq_ok.mp h
    obtain ⟨rfl, hpq⟩ := hq _ _ _ hs
    obtain ⟨rfl, hpsets⟩ := ih hsets hps
    exact ⟨rfl, .cons ⟨rfl, hpq⟩ hpsets⟩

end Compilation

/-- The scalar of a literal denotes its plain JSON. -/
theorem Value.IsLiteral.value?_toScalar {v : Value} (hv : v.IsLiteral) {s : Scalar}
    (h : v.toScalar = .ok s) : s.value? = some v.toJson := by
  obtain ⟨l, rfl, -, hl⟩ := Value.toJson_of_toScalar hv h
  exact congrArg some hl

/-- Without a schema members are spelled as in host code. -/
theorem Naming.wireName_default (m : Member) :
    Naming.wireName ⟨.declared, []⟩ m = m.name := by
  have hinfo : Naming.info? ⟨.declared, []⟩ m = none := by
    unfold Naming.info?
    cases m.owner.modelName? <;> rfl
  rw [Naming.wireName, hinfo]
  rfl

/-- **The query builds the object that the interpreter builds**, under the names of host code and
without parameters. What is built of primitive values, arrays, constructor calls and initialisers
has a value, and if it compiles the scalar is the plain JSON of this value, provided that the
initialisers leave no argument of a constructor call as it is. -/
theorem Expr.Built.denotes_value {env : Environment} {i : Interpreter}
    (hnaming : env.options.naming = ⟨.declared, []⟩) (hfree : env.options.parameters = [])
    (heval : env.evaluator = i.evaluate) {e : Expr} (hbuilt : e.Built) (hresets : e.Resets)
    {sc t : Scope} {s : Scalar} (h : Compilation.scalar env e sc = (.ok s, t)) :
    t = sc ∧ Scalar.Denotes i e s := by
  have hwire : env.options.naming.wireName = Member.name := by
    rw [hnaming]
    exact funext Naming.wireName_default
  induction hbuilt generalizing sc t s with
  | null ty =>
    rw [Compilation.scalar, Compilation.constant_primitive (v := .null) sc hfree trivial] at h
    obtain ⟨hs, rfl⟩ := Compilation.ofExcept_eq_ok.mp (Compilation.eq_ok_of_ite h)
    cases hs
    exact ⟨rfl, .null, rfl, rfl⟩
  | @literal v hv ty =>
    rw [Compilation.scalar, Compilation.constant_primitive sc hfree hv.isPrimitive] at h
    obtain ⟨hs, rfl⟩ := Compilation.ofExcept_eq_ok.mp (Compilation.eq_ok_of_ite h)
    exact ⟨rfl, v, rfl, hv.value?_toScalar hs⟩
  | @newArray items hitems ty ih =>
    cases hresets with
    | newArray hresets =>
      rw [Compilation.scalar] at h
      obtain ⟨ss, u, hss, h⟩ := Compilation.bind_eq_ok.mp h
      obtain ⟨rfl, rfl⟩ := Compilation.pure_eq_ok.mp h
      rw [← List.map_id items] at hss
      obtain ⟨rfl, hdenotes⟩ :=
        Compilation.scalars_eq_ok (fun e he sc s t => ih e he (hresets e he)) hss
      exact ⟨rfl, .array hdenotes ty⟩
  | @construct args hargs members ty ih =>
    cases hresets with
    | construct hresets =>
      rw [Compilation.scalar] at h
      split at h
      · -- the evaluator gives the value of a geometry, of which the scalar is made
        obtain ⟨vs, hvs, hsendable⟩ := exists_forall₂ fun e he => (hargs e he).sendable i
        have hv := Interpreter.evaluate_construct hvs members ty
        have hrecord : (Value.object (Record.ofList ((members.map (·.name)).zip vs))).Sendable :=
          Value.sendable_record fun f hf => hsendable _ (List.of_mem_zip hf).2
        obtain ⟨s', hs', hdenotes⟩ := hrecord
        rw [heval, hv] at h
        obtain ⟨hs, rfl⟩ := Compilation.ofExcept_eq_ok.mp h
        obtain rfl := Except.ok.inj (hs.symm.trans hs')
        exact ⟨rfl, _, hv, hdenotes⟩
      · rename_i hshape
        split at h
        · cases h
        obtain ⟨ss, u, hss, h⟩ := Compilation.bind_eq_ok.mp h
        obtain ⟨rfl, rfl⟩ := Compilation.pure_eq_ok.mp h
        rw [← List.map_id args] at hss
        obtain ⟨rfl, hdenotes⟩ := Compilation.scalars_eq_ok
          (fun e he sc s t => ih e he (hresets hshape e he)) hss
        rw [hwire]
        exact ⟨rfl, .construct hdenotes members ty⟩
  | @initialised args hargs members sets hsets cty ty ihargs ihsets =>
    cases hresets with
    | initialised hagain hresets =>
      rw [Compilation.scalar] at h
      obtain ⟨ps, u, hps, h⟩ := Compilation.bind_eq_ok.mp h
      obtain ⟨rfl, rfl⟩ := Compilation.pure_eq_ok.mp h
      obtain ⟨rfl, hdenotes⟩ := Compilation.properties_eq_ok (fun q hq sc s t => ihsets q hq
        (hresets q.1 q.2 (List.mem_map_of_mem hq))) hps
      rw [hwire] at hdenotes
      obtain ⟨vs, hvs, -⟩ := exists_forall₂ fun e he => (hargs e he).sendable i
      refine ⟨rfl, .initialised hvs (fun p hp => ?_) hdenotes cty ty⟩
      obtain ⟨m, e, hset, hname⟩ := hagain p hp
      obtain ⟨q, hq, heq⟩ := List.mem_map.mp hset
      cases heq
      exact ⟨q, hq, hname⟩

/-- An initialiser that sets a member again, one member twice, and one to an object. -/
theorem Expr.built_denotes_row :
    let env : Environment := ⟨.default, Interpreter.empty.evaluate⟩
    let member := fun name => (⟨.model "Row", name⟩ : Member)
    let five : Expr := .constant (.unsigned 5) .uint64
    let text : Expr := .constant (.string "a") .string
    let tag : Expr := .construct [.newArray [five] (.array .uint64)]
      (some [⟨.anonymous, "Sizes"⟩]) .anonymous
    let sets : List (Member × Expr) :=
      [(member "Tag", text), (member "Size", text), (member "Tag", tag)]
    let row : Expr := .memberInit (.construct [five] (some [member "Size"]) (.model "Row"))
      (sets.map fun q => .assign q.1 q.2) (.model "Row")
    ∃ s v, Compilation.scalar env row .initial = (.ok s, .initial) ∧
      Interpreter.empty.evaluate row = .ok v ∧ s.value? = some v.toJson ∧
        v.toJson = .obj [("Size", .str "a"), ("Tag", .obj [("Sizes", .arr [.int 5])])] := by
  intro env member five text tag sets row
  have hfive : five.Built := .literal (v := .unsigned 5) ⟨5, by decide⟩ _
  have htext : text.Built := .literal (v := .string "a") trivial _
  have htag : tag.Built := .construct (by simpa using .newArray (by simpa using hfive) _) _ _
  have hbuilt : row.Built := .initialised (by simpa using hfive) _
    (by simpa [sets] using ⟨htext, htag⟩) _ _
  have hresets : row.Resets := by
    refine .initialised (fun p hp => ?_) (fun m e he => ?_) _ _
    · obtain rfl := List.mem_singleton.mp hp
      exact ⟨member "Size", text, by simp [sets], rfl⟩
    · simp only [sets, List.map_cons, List.map_nil, List.mem_cons, Binding.assign.injEq,
        List.not_mem_nil, or_false] at he
      obtain ⟨-, rfl⟩ | ⟨-, rfl⟩ | ⟨-, rfl⟩ := he
      · exact .constant _ _
      · exact .constant _ _
      · exact .construct (fun _ => by simpa using .newArray (by simpa using .constant _ _) _) _
  have hs : Compilation.scalar env row .initial = (.ok (.object [("Tag", .string "a"),
      ("Size", .string "a"), ("Tag", .object [("Sizes", .array [.integer 5])])]), .initial) := by
    simp only [row, sets, tag, text, five, member, env]
    cbv
  have hv : Interpreter.empty.evaluate row = .ok (.object [("Size", .string "a"),
      ("Tag", .object [("Sizes", .array [.unsigned 5])])]) := rfl
  obtain ⟨-, v, hv', hdenotes⟩ := Expr.Built.denotes_value rfl rfl rfl hbuilt hresets hs
  obtain rfl := Except.ok.inj (hv.symm.trans hv')
  exact ⟨_, _, hs, hv, hdenotes, rfl⟩

/-- An argument of a constructor call under an initialiser, which the query leaves out. -/
theorem Expr.initialiser_loses_argument :
    let env : Environment := ⟨.default, Interpreter.empty.evaluate⟩
    let row : Expr := .memberInit
      (.construct [.constant (.integer 5) .int32] (some [⟨.model "Row", "X"⟩]) (.model "Row"))
      [.assign ⟨.model "Row", "Y"⟩ (.constant (.integer 1) .int32)] (.model "Row")
    ∃ s v, Compilation.scalar env row .initial = (.ok s, .initial) ∧
      Interpreter.empty.evaluate row = .ok v ∧
        v.toJson = .obj [("X", .int 5), ("Y", .int 1)] ∧
          s.value? = some (.obj [("Y", .int 1)]) ∧ s.value? ≠ some v.toJson := by
  intro env row
  refine ⟨.object [("Y", .integer 1)], .object [("X", .integer 5), ("Y", .integer 1)], ?_, rfl,
    rfl, rfl, ?_⟩
  · simp only [row, env]
    cbv
  · intro h
    injection Option.some.inj h with hm
    exact absurd (congrArg List.length hm) (by decide)

end LambdaQuery
