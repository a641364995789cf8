import LambdaQuery.Command
import LambdaQuery.Proofs.Folding.Rebuild
import LambdaQuery.Proofs.Json.Values
import LambdaQuery.Proofs.Subexpressions

/-!
# Expressions and their JSON

An expression is read back from its JSON (`Expr.decode?_encode`). The step is
`Expr.decode?_encode_node`: a node is read back if its parts are, whatever is read for them.
-/

set_option autoImplicit false

namespace LambdaQuery

/-! ## Types, members and methods -/

theorem HostType.ofJson?_toJson (ty : HostType) : HostType.ofJson? ty.toJson = some ty := by
  induction ty with
  | nullable inner ih | array element ih | documentQuery element ih =>
    rw [toJson, ofJson?]
    simp only [Json.variant?, ih, Option.map_some]
  | _ =>
    rw [toJson, ofJson?]
    rfl

theorem BinaryOp.ofName?_name (op : BinaryOp) : BinaryOp.ofName? op.name = some op := by
  cases op <;> rfl

theorem UnaryOp.ofName?_name (op : UnaryOp) : UnaryOp.ofName? op.name = some op := by
  cases op <;> rfl

theorem Member.decode?_encode (m : Member) : Member.decode? m.encode = some m := by
  have hread : Member.decode? m.encode =
      (HostType.ofJson? m.owner.toJson).bind fun owner => some ⟨owner, m.name⟩ := rfl
  rw [hread, HostType.ofJson?_toJson, Option.bind_some]

theorem Param.decode?_encode (p : Param) : Param.decode? p.encode = some p := by
  have hread : Param.decode? p.encode =
      (HostType.ofJson? p.ty.toJson).bind fun ty => some ⟨p.name, ty⟩ := rfl
  rw [hread, HostType.ofJson?_toJson, Option.bind_some]

theorem Declaring.decode?_encode (d : Declaring) : Declaring.decode? d.encode = some d := by
  cases d <;> rfl

theorem Method.decode?_encode (m : Method) : Method.decode? m.encode = some m := by
  have hread : Method.decode? m.encode =
      (Declaring.decode? m.declaring.encode).bind fun declaring => some ⟨declaring, m.name⟩ := rfl
  rw [hread, Declaring.decode?_encode, Option.bind_some]

/-! ## Nodes -/

section

variable {f : Expr → Expr}

theorem Expr.decodeList?_encodeList {es : List Expr}
    (h : ∀ d ∈ es, Expr.decode? d.encode = some (f d)) :
    Expr.decodeList? (Expr.encodeList es) = some (es.map f) := by
  induction es with
  | nil => rw [Expr.encodeList, Expr.decodeList?, List.map_nil]
  | cons e es ih =>
    rw [List.forall_mem_cons] at h
    rw [Expr.encodeList, Expr.decodeList?, h.1, ih h.2]
    rfl

theorem Json.find?_eq_none {name : String} {ms : List (String × Json)}
    (h : ∀ m ∈ ms, m.1 ≠ name) : Json.find? name ms = some none := by
  induction ms with
  | nil => rfl
  | cons m ms ih =>
    rw [List.forall_mem_cons] at h
    rw [Json.find?, ih h.2]
    exact if_neg h.1

theorem Json.text?_kind {kind : String} {fields : List (String × Json)}
    (h : ∀ m ∈ fields, m.1 ≠ "kind") : (Json.node kind fields).text? "kind" = some kind := by
  simp only [Json.node, Json.text?, Json.required?, Json.member?, Json.find?,
    Json.find?_eq_none h, if_true, Option.map_some]
  rfl

-- the members of a node have literal names, by which they are found
attribute [local simp] Json.node Json.binding Json.text? Json.required? Json.optional?
  Json.requiredItems? Json.member? Json.find? Json.toString? Json.toItems? Json.nodeType?
  Json.choice? Json.variant? HostType.ofJson?_toJson Member.decode?_encode Method.decode?_encode
  BinaryOp.ofName?_name UnaryOp.ofName?_name

mutual

theorem Binding.decode?_encode : ∀ {b : Binding},
    (∀ d ∈ b.children, Expr.decode? d.encode = some (f d)) →
      Binding.decode? b.encode = some (b.rebuild (b.children.map f))
  | .assign m value, h => by
    have hvalue := h value List.mem_cons_self
    rw [Binding.encode, Binding.decode?]
    simp [hvalue, Binding.children, Binding.rebuild]
  | .nested m bindings, h => by
    have hbindings := Binding.decodeList?_encodeList h
    rw [Binding.encode, Binding.decode?]
    simp [hbindings, Binding.children, Binding.rebuild]
  | .collect m items, h => by
    have hitems : Expr.decodeList? (Expr.encodeList items) = some (items.map f) :=
      Expr.decodeList?_encodeList h
    rw [Binding.encode, Binding.decode?]
    simp [hitems, Binding.children, Binding.rebuild]

theorem Binding.decodeList?_encodeList : ∀ {bs : List Binding},
    (∀ d ∈ Binding.childrenOfAll bs, Expr.decode? d.encode = some (f d)) →
      Binding.decodeList? (Binding.encodeList bs) =
        some (Binding.rebuildAll bs ((Binding.childrenOfAll bs).map f))
  | [], _ => by
    rw [Binding.encodeList, Binding.decodeList?]
    rfl
  | b :: bs, h => by
    obtain ⟨hb, hbs⟩ := List.forall_mem_append.mp h
    rw [Binding.encodeList, Binding.decodeList?, Binding.decode?_encode hb,
      Binding.decodeList?_encodeList hbs]
    simp [Binding.childrenOfAll, Binding.rebuildAll]

end

theorem Expr.decode?_encode_constant {value read : Value} {ty : HostType}
    (h : Value.decode? value.encode = some read) :
    Expr.decode? (Expr.constant value ty).encode = some (.constant read ty) := by
  rw [Expr.encode, Expr.decode?, Json.text?_kind (by simp), Option.bind_eq_bind, Option.bind_some]
  dsimp only
  simp [h]

theorem Expr.exists_obj_encode (e : Expr) : ∃ ms, e.encode = .obj ms := by
  cases e <;> exact ⟨_, rfl⟩

/-- A node that is no constant is read back over what is read for its parts. -/
theorem Expr.decode?_encode_node {e : Expr} (hc : e.kind ≠ .constant)
    (h : ∀ d ∈ e.children, Expr.decode? d.encode = some (f d)) :
    Expr.decode? e.encode = some (e.rebuild (e.children.map f)) := by
  cases e with
  | constant => exact absurd rfl hc
  | parameter name ty =>
    rw [Expr.encode, Expr.decode?, Json.text?_kind (by simp), Option.bind_eq_bind, Option.bind_some]
    dsimp only
    simp [Expr.rebuild]
  | member object accessed ty =>
    rw [Expr.encode, Expr.decode?, Json.text?_kind (by simp), Option.bind_eq_bind, Option.bind_some]
    dsimp only
    cases object with
    | none => simp [Expr.encodeOption, Expr.decodeOption?, Expr.rebuild]
    | some object =>
      have hobject := h object List.mem_cons_self
      obtain ⟨ms, hms⟩ := object.exists_obj_encode
      rw [hms] at hobject
      simp [Expr.encodeOption, hms, Expr.decodeOption?, hobject, Expr.rebuild, Expr.children]
  | binary op left right ty =>
    obtain ⟨hleft, hright, -⟩ := List.forall_mem_cons.mp h |>.imp_right List.forall_mem_cons.mp
    rw [Expr.encode, Expr.decode?, Json.text?_kind (by simp), Option.bind_eq_bind, Option.bind_some]
    dsimp only
    simp [hleft, hright, Expr.rebuild, Expr.children]
  | unary op operand ty =>
    have hoperand := h operand List.mem_cons_self
    rw [Expr.encode, Expr.decode?, Json.text?_kind (by simp), Option.bind_eq_bind, Option.bind_some]
    dsimp only
    simp [hoperand, Expr.rebuild, Expr.children]
  | conditional test ifTrue ifFalse ty =>
    simp only [Expr.children, List.forall_mem_cons] at h
    obtain ⟨htest, htrue, hfalse, -⟩ := h
    rw [Expr.encode, Expr.decode?, Json.text?_kind (by simp), Option.bind_eq_bind, Option.bind_some]
    dsimp only
    simp [htest, htrue, hfalse, Expr.rebuild, Expr.children]
  | call target method args ty =>
    obtain ⟨htarget, hargs⟩ := List.forall_mem_append.mp h
    have hargs := Expr.decodeList?_encodeList hargs
    rw [Expr.encode, Expr.decode?, Json.text?_kind (by simp), Option.bind_eq_bind, Option.bind_some]
    dsimp only
    cases target with
    | none => simp [Expr.encodeOption, Expr.decodeOption?, hargs, Expr.rebuild, Expr.children]
    | some target =>
      have htarget := htarget target List.mem_cons_self
      obtain ⟨ms, hms⟩ := target.exists_obj_encode
      rw [hms] at htarget
      simp [Expr.encodeOption, hms, Expr.decodeOption?, htarget, hargs, Expr.rebuild, Expr.children]
  | construct args members ty =>
    have hargs : Expr.decodeList? (Expr.encodeList args) = some (args.map f) :=
      Expr.decodeList?_encodeList h
    simp only [Expr.encode]
    rw [Expr.decode?, Json.text?_kind (by simp), Option.bind_eq_bind, Option.bind_some]
    dsimp only
    cases members with
    | none => simp [hargs, Expr.rebuild, Expr.children]
    | some members =>
      have hmembers := mapM_map_eq_some fun m (_ : m ∈ members) => m.decode?_encode
      simp [hargs, Json.list?, hmembers, Expr.rebuild, Expr.children]
  | memberInit base bindings ty =>
    obtain ⟨hbase, hbindings⟩ := List.forall_mem_cons.mp h
    have hbindings := Binding.decodeList?_encodeList hbindings
    rw [Expr.encode, Expr.decode?, Json.text?_kind (by simp), Option.bind_eq_bind, Option.bind_some]
    dsimp only
    simp [hbase, hbindings, Expr.rebuild, Expr.children]
  | listInit base items ty =>
    obtain ⟨hbase, hitems⟩ := List.forall_mem_cons.mp h
    have hitems := Expr.decodeList?_encodeList hitems
    rw [Expr.encode, Expr.decode?, Json.text?_kind (by simp), Option.bind_eq_bind, Option.bind_some]
    dsimp only
    simp [hbase, hitems, Expr.rebuild, Expr.children]
  | newArray items ty =>
    have hitems : Expr.decodeList? (Expr.encodeList items) = some (items.map f) :=
      Expr.decodeList?_encodeList h
    rw [Expr.encode, Expr.decode?, Json.text?_kind (by simp), Option.bind_eq_bind, Option.bind_some]
    dsimp only
    simp [hitems, Expr.rebuild, Expr.children]
  | lambda params body =>
    have hbody := h body List.mem_cons_self
    have hparams := mapM_map_eq_some fun p (_ : p ∈ params) => p.decode?_encode
    rw [Expr.encode, Expr.decode?, Json.text?_kind (by simp), Option.bind_eq_bind, Option.bind_some]
    dsimp only
    simp [Json.list?, hparams, hbody, Expr.rebuild, Expr.children]
  | invoke target args ty =>
    obtain ⟨htarget, hargs⟩ := List.forall_mem_cons.mp h
    have hargs := Expr.decodeList?_encodeList hargs
    rw [Expr.encode, Expr.decode?, Json.text?_kind (by simp), Option.bind_eq_bind, Option.bind_some]
    dsimp only
    simp [htarget, hargs, Expr.rebuild, Expr.children]

end

/-! ## Expressions -/

namespace Expr

/-- The values in the expression satisfy a condition, and so do the values in them. -/
def ValuesSatisfy (P : Value → Prop) (e : Expr) : Prop :=
  ∀ value ty, (Expr.constant value ty).IsPart e → value.Throughout P

theorem ValuesSatisfy.child {P : Value → Prop} {e d : Expr} (h : e.ValuesSatisfy P)
    (hd : d ∈ e.children) : d.ValuesSatisfy P :=
  fun value ty hpart => h value ty (hpart.trans (.of_child hd))

theorem ValuesSatisfy.constant {P : Value → Prop} {value : Value} (h : value.Throughout P)
    (ty : HostType) : (Expr.constant value ty).ValuesSatisfy P := fun _ _ hpart => by
  cases hpart with
  | self => exact h
  | child _ hc => cases hc

theorem ValuesSatisfy.node {P : Value → Prop} {e : Expr} (hc : e.kind ≠ .constant)
    (h : ∀ d ∈ e.children, d.ValuesSatisfy P) : e.ValuesSatisfy P := fun _ _ hpart => by
  cases hpart with
  | self => exact absurd rfl hc
  | child hpart hd => exact h _ hd _ _ hpart

/-- The expression with positive zeros for the negative zeros among the decimals in it. -/
def dropZeroSigns (e : Expr) : Expr :=
  match e with
  | .constant value ty => .constant value.dropZeroSigns ty
  | e => e.rebuild (e.children.attach.map fun d => d.1.dropZeroSigns)
termination_by sizeOf e
decreasing_by exact sizeOf_child d.2

theorem dropZeroSigns_node {e : Expr} (hc : e.kind ≠ .constant) :
    e.dropZeroSigns = e.rebuild (e.children.map dropZeroSigns) := by
  rw [dropZeroSigns, List.attach_map_val]
  rintro value ty rfl
  exact hc rfl

theorem dropZeroSigns_of_unsigned {e : Expr} (h : e.ValuesSatisfy Value.ZeroUnsigned) :
    e.dropZeroSigns = e := by
  by_cases hc : e.kind = .constant
  · cases e <;> cases hc
    rw [dropZeroSigns, Value.dropZeroSigns_of_unsigned (h _ _ .self)]
  · have hsame : e.children.map dropZeroSigns = e.children := by
      conv_rhs => rw [← List.map_id e.children]
      exact List.map_congr_left fun d hd => dropZeroSigns_of_unsigned (h.child hd)
    rw [dropZeroSigns_node hc, hsame, rebuild_children]
termination_by sizeOf e
decreasing_by exact sizeOf_child hd

theorem decode?_encode {e : Expr} (h : e.ValuesSatisfy Value.WellFormed) :
    decode? e.encode = some e.dropZeroSigns := by
  by_cases hc : e.kind = .constant
  · cases e <;> cases hc
    rw [dropZeroSigns]
    exact decode?_encode_constant (Value.decode?_encode (h _ _ .self))
  · rw [dropZeroSigns_node hc]
    exact decode?_encode_node hc fun d hd => decode?_encode (h.child hd)
termination_by sizeOf e
decreasing_by exact sizeOf_child hd

/-- **An expression is read back from its JSON**: every node, type, member, method and value of it.
Only the sign of a decimal that is zero is not kept, for which the texts of decimals have no
reading; an expression without such signs is read back as it is. -/
theorem json_roundTrip (e : Expr) (h : e.ValuesSatisfy Value.WellFormed) :
    decode? e.encode = some e.dropZeroSigns ∧
      (e.ValuesSatisfy Value.ZeroUnsigned → decode? e.encode = some e) := by
  have hread := decode?_encode h
  exact ⟨hread, fun hz => by rw [hread, dropZeroSigns_of_unsigned hz]⟩

/-- A price, a key and marks in an anonymous object, beside a place on the map. -/
theorem json_roundTrip_row :
    let price : Value := .decimal ⟨true, 150, 2, by decide, by decide⟩
    let key : Value := .guid ⟨0xC0FFEE, by decide⟩
    let place : Value := .geometry
      (.obj [("coordinates", .arr [.num (.int 4), .num (.int 52)]), ("type", .str "Point")])
    let row : Value := .object
      [("Price", price), ("Key", key), ("Marks", .array [.null, .char 'x'])]
    let e : Expr := .newArray [.constant row .anonymous, .constant place .geometry] (.array .object)
    e.ValuesSatisfy Value.WellFormed ∧ e.ValuesSatisfy Value.ZeroUnsigned ∧
      decode? e.encode = some e := by
  intro price key place row e
  have hnames : (Record.names
      [("Price", price), ("Key", key), ("Marks", .array [.null, .char 'x'])]).Nodup := by
    show ["Price", "Key", "Marks"].Nodup
    decide
  have hmembers : ["coordinates", "type"].Pairwise (· < ·) := by decide
  have hplace : place.Throughout Value.WellFormed :=
    ⟨List.pairwise_map.mp hmembers, ⟨trivial, trivial, trivial⟩, trivial, trivial⟩
  have hrow : row.Throughout Value.WellFormed :=
    ⟨hnames, trivial, trivial, ⟨trivial, trivial, trivial, trivial⟩, trivial⟩
  have hwell : e.ValuesSatisfy Value.WellFormed := .node (by decide)
    (List.forall_mem_cons.mpr ⟨.constant hrow _, List.forall_mem_singleton.mpr
      (.constant hplace _)⟩)
  have hprice : price.Throughout Value.ZeroUnsigned := fun h => nomatch h
  have hrow : row.Throughout Value.ZeroUnsigned :=
    ⟨trivial, hprice, trivial, ⟨trivial, trivial, trivial, trivial⟩, trivial⟩
  have hplace : place.Throughout Value.ZeroUnsigned := trivial
  have hzero : e.ValuesSatisfy Value.ZeroUnsigned := .node (by decide)
    (List.forall_mem_cons.mpr ⟨.constant hrow _, List.forall_mem_singleton.mpr
      (.constant hplace _)⟩)
  exact ⟨hwell, hzero, (json_roundTrip e hwell).2 hzero⟩

end Expr

/-- The JSON of an expression, such as a folded one, is the expression of a request. -/
theorem Request.ofJson?_encode {e : Expr} (h : e.ValuesSatisfy Value.WellFormed) :
    Request.ofJson? (.obj [("expression", e.encode)]) = some ⟨e.dropZeroSigns, .default, []⟩ := by
  have hread : Request.ofJson? (.obj [("expression", e.encode)]) =
      (Expr.decode? e.encode).bind fun expression => some ⟨expression, .default, []⟩ := rfl
  rw [hread, Expr.decode?_encode h, Option.bind_some]

end LambdaQuery
