import LambdaQuery.Proofs.Alike.Inlined
import LambdaQuery.Proofs.Folding.Foldable
import LambdaQuery.Proofs.Json.Records
import LambdaQuery.Host.Interpreter

/-!
# Folding and the names of members

A constructed value reaches the query as it is built, or as the constant that folding puts in its
place. The one names a member by what the constructor call says that it is, the other by the types
under which a document stores the value. `Expr.Spelled` says that these names agree, that no
converter stands between, and that the order in which a record keeps its members does not count;
then both denote one JSON value (`Expr.Spelled.denotes_fold`). A member of a record without a name
does not keep the policy when it is folded (`fold_camelCase_ne`).
-/

set_option autoImplicit false

namespace LambdaQuery

/-! ## What a scalar denotes -/

mutual

/-- The JSON value of a scalar that is built of literals. The members of an object count by name. -/
def Scalar.value? : Scalar → Option Json
  | .literal value => some value.toJson
  | .array items => (Scalar.values? items).map .arr
  | .object properties => (Scalar.entries? properties).map Json.object
  | _ => none

def Scalar.values? : List Scalar → Option (List Json)
  | [] => some []
  | s :: ss => do return (← s.value?) :: (← Scalar.values? ss)

def Scalar.entries? : List (String × Scalar) → Option (List (String × Json))
  | [] => some []
  | (name, s) :: ps => do return (name, ← s.value?) :: (← Scalar.entries? ps)

end

theorem Scalar.value?_array {items : List Scalar} {js : List Json}
    (h : List.Forall₂ (fun s j => s.value? = some j) items js) :
    (Scalar.array items).value? = some (.arr js) := by
  have hvalues : Scalar.values? items = some js := by
    induction h with
    | nil => rfl
    | cons h _ ih => simp [Scalar.values?, h, ih]
  rw [Scalar.value?, hvalues]
  rfl

theorem Scalar.value?_object {ps : List (String × Scalar)} {ms : List (String × Json)}
    (h : List.Forall₂ (fun p m => p.1 = m.1 ∧ p.2.value? = some m.2) ps ms) :
    (Scalar.object ps).value? = some (Json.object ms) := by
  have hentries : Scalar.entries? ps = some ms := by
    induction h with
    | nil => rfl
    | @cons p m _ _ h _ ih =>
      obtain ⟨name, s⟩ := p
      obtain ⟨name', j⟩ := m
      obtain ⟨rfl, hs⟩ : name = name' ∧ s.value? = some j := h
      simp [Scalar.entries?, hs, ih]
  rw [Scalar.value?, hentries]
  rfl

/-- The JSON value `j` becomes a scalar that denotes `x`. -/
def Json.Sent (j x : Json) : Prop := ∃ s, j.toScalar = .ok s ∧ s.value? = some x

theorem Json.Sent.arr {js xs : List Json} (h : List.Forall₂ Json.Sent js xs) :
    (Json.arr js).Sent (.arr xs) := by
  have hitems : ∃ ss, Json.toScalars js = .ok ss ∧
      List.Forall₂ (fun s x => Scalar.value? s = some x) ss xs := by
    induction h with
    | nil => exact ⟨[], rfl, .nil⟩
    | cons h _ ih =>
      obtain ⟨s, hs, hx⟩ := h
      obtain ⟨ss, hss, hxs⟩ := ih
      exact ⟨s :: ss, by rw [Json.toScalars, hs, hss]; rfl, .cons hx hxs⟩
  obtain ⟨ss, hss, hxs⟩ := hitems
  exact ⟨.array ss, by rw [Json.toScalar, hss]; rfl, Scalar.value?_array hxs⟩

/-- Entering the members of an object once more changes nothing. -/
theorem Json.Sent.object {ms xs : List (String × Json)} (h : Json.Corresponding Json.Sent ms xs) :
    (Json.object ms).Sent (Json.object xs) := by
  have hmembers : ∀ {ms xs : List (String × Json)}, Json.Corresponding Json.Sent ms xs →
      ∃ ps, Json.toProperties ms = .ok ps ∧
        List.Forall₂ (fun p m => p.1 = m.1 ∧ Scalar.value? p.2 = some m.2) ps xs := by
    intro ms xs h
    induction h with
    | nil => exact ⟨[], rfl, .nil⟩
    | @cons m x _ _ h _ ih =>
      obtain ⟨name, j⟩ := m
      obtain ⟨hname, s, hs, hx⟩ := h
      obtain ⟨ps, hps, hxs⟩ := ih
      exact ⟨(name, s) :: ps, by rw [Json.toProperties, hs, hps]; rfl, .cons ⟨hname, hx⟩ hxs⟩
  obtain ⟨ps, hps, hxs⟩ := hmembers (Json.forall₂_entered h)
  refine ⟨.object ps, ?_, ?_⟩
  · rw [Json.object_eq, Json.toScalar, hps]
    rfl
  · rw [Scalar.value?_object hxs, Json.object_eq, Json.object_eq, Json.entered_entered]

/-- Data denote a JSON value. -/
theorem Scalar.Data.exists_value? {s : Scalar} (h : s.Data) : ∃ x, s.value? = some x := by
  induction h with
  | literal value => exact ⟨_, rfl⟩
  | @array items h ih =>
    refine ⟨.arr (items.map fun s => s.value?.getD .null), Scalar.value?_array ?_⟩
    refine List.forall₂_map_right_iff.mpr (List.forall₂_same.mpr fun s hs => ?_)
    obtain ⟨x, hx⟩ := ih s hs
    rw [hx]
    rfl
  | @object ps h ih =>
    refine ⟨Json.object (ps.map fun p => (p.1, p.2.value?.getD .null)),
      Scalar.value?_object ?_⟩
    refine List.forall₂_map_right_iff.mpr (List.forall₂_same.mpr fun p hp => ⟨rfl, ?_⟩)
    obtain ⟨x, hx⟩ := ih p hp
    rw [hx]
    rfl

/-! ## Documents -/

/-- The type under which a document stores the items of an array of type `ty`. -/
def HostType.itemType (ty : HostType) : HostType :=
  match ty.underlying with
  | .array element => element
  | _ => .object

namespace Naming

variable (n : Naming)

/-- The model member that a field of an object of type `ty` is. -/
def memberIn? (ty : HostType) (name : String) : Option Member :=
  match ty.underlying with
  | .model model => some ⟨.model model, name⟩
  | _ => none

/-- The key under which a document stores a field of an object of type `ty`. -/
def keyIn (ty : HostType) (name : String) : String :=
  ((memberIn? ty name).map n.wireName).getD name

/-- The converter of a field of an object of type `ty`. -/
def converterIn? (ty : HostType) (name : String) : Option Converter :=
  (memberIn? ty name).bind n.converter?

/-- The type under which a document stores a field of an object of type `ty`. -/
def typeIn (ty : HostType) (name : String) : HostType :=
  ((memberIn? ty name).map n.fieldType).getD .object

variable {n}

theorem wireJson_object (v : Value) : n.wireJson .object v = .ok v.toJson := by
  cases v <;> rfl

theorem wireJson_primitive {ty : HostType} {v : Value} (hv : v.IsPrimitive) :
    n.wireJson ty v = .ok v.toJson := by
  cases v <;> first | rfl | exact hv.elim

theorem wireJson_items {ty : HostType} {vs : List Value} {js : List Json}
    (h : List.Forall₂ (fun v j => n.wireJson ty.itemType v = .ok j) vs js) :
    n.wireJson ty (.array vs) = .ok (.arr js) := by
  have hplain : ∀ {vs js}, List.Forall₂ (fun v j => n.wireJson .object v = .ok j) vs js →
      Value.toJsonItems vs = js := by
    intro vs js h
    induction h with
    | nil => rfl
    | cons h _ ih =>
      rw [wireJson_object] at h
      rw [Value.toJsonItems, Except.ok.inj h, ih]
  have hitems : ∀ {element vs js},
      List.Forall₂ (fun v j => n.wireJson element v = .ok j) vs js →
        n.wireItems element vs = .ok js := by
    intro element vs js h
    induction h with
    | nil => rfl
    | cons h _ ih =>
      rw [wireItems, h, ih]
      rfl
  unfold HostType.itemType at h
  unfold wireJson
  cases he : ty.underlying with
  | array element =>
    simp only [he] at h ⊢
    rw [hitems h]
    rfl
  | _ =>
    simp only [he] at h ⊢
    rw [Value.toJson, hplain h]

/-- Without converters an object is stored field by field. -/
theorem wireJson_fields {ty : HostType} {fields : List (String × Value)}
    {ms : List (String × Json)}
    (h : List.Forall₂ (fun f m => m.1 = n.keyIn ty f.1 ∧ n.converterIn? ty f.1 = none ∧
      n.wireJson (n.typeIn ty f.1) f.2 = .ok m.2) fields ms) :
    n.wireJson ty (.object fields) = .ok (Json.object ms) := by
  unfold wireJson
  split
  · rename_i model hty
    have hin : ∀ name, memberIn? ty name = some ⟨.model model, name⟩ := fun name => by
      unfold memberIn?
      rw [hty]
    have hfields : n.wireFields (.model model) fields = .ok ms := by
      induction h with
      | nil => rfl
      | @cons f m _ _ h _ ih =>
        obtain ⟨name, v⟩ := f
        obtain ⟨key, j⟩ := m
        obtain ⟨hkey, hconv, hv⟩ := h
        simp only [keyIn, converterIn?, typeIn, hin, Option.map_some, Option.getD_some,
          Option.bind_some] at hkey hconv hv
        simp only [wireFields, hv, ih, converted, hconv, hkey]
        rfl
    rw [hfields]
    rfl
  · rename_i hne
    have hin : ∀ name, memberIn? ty name = none := fun name => by
      unfold memberIn?
      split
      · rename_i model hty
        exact absurd hty (hne model)
      · rfl
    have hfields : Value.toJsonFields fields = ms := by
      induction h with
      | nil => rfl
      | @cons f m _ _ h _ ih =>
        obtain ⟨name, v⟩ := f
        obtain ⟨key, j⟩ := m
        obtain ⟨hkey, -, hv⟩ := h
        simp only [keyIn, typeIn, hin, Option.map_none, Option.getD_none, wireJson_object]
          at hkey hv
        rw [Value.toJsonFields, ih, hkey, Except.ok.inj hv]
    rw [Value.toJson, hfields]

/-- A record that is built of entries is stored as the entries are. -/
theorem wireJson_ofList {ty : HostType} {entries : List (String × Value)}
    {ms : List (String × Json)} (hs : Record.Separates (n.keyIn ty) (Record.names entries))
    (h : List.Forall₂ (fun f m => m.1 = n.keyIn ty f.1 ∧ n.converterIn? ty f.1 = none ∧
      n.wireJson (n.typeIn ty f.1) f.2 = .ok m.2) entries ms) :
    n.wireJson ty (.object (Record.ofList entries)) = .ok (Json.object ms) := by
  let stored (f : String × Value) : Json :=
    (n.wireJson (n.typeIn ty f.1) f.2).toOption.getD .null
  have hstored : ms = entries.map (fun f => (n.keyIn ty f.1, stored f)) ∧
      ∀ f ∈ entries, n.converterIn? ty f.1 = none ∧
        n.wireJson (n.typeIn ty f.1) f.2 = .ok (stored f) := by
    clear hs
    induction h with
    | nil => exact ⟨rfl, List.forall_mem_nil _⟩
    | @cons f m _ _ h _ ih =>
      obtain ⟨hkey, hconverter, hv⟩ := h
      have hj : stored f = m.2 := by
        show (n.wireJson (n.typeIn ty f.1) f.2).toOption.getD .null = m.2
        rw [hv]
        rfl
      refine ⟨?_, List.forall_mem_cons.mpr ⟨⟨hconverter, hj ▸ hv⟩, ih.2⟩⟩
      rw [List.map_cons, ← ih.1, ← hkey, hj]
  obtain ⟨rfl, hall⟩ := hstored
  have hfields : List.Forall₂ (fun f m => m.1 = n.keyIn ty f.1 ∧ n.converterIn? ty f.1 = none ∧
      n.wireJson (n.typeIn ty f.1) f.2 = .ok m.2) (Record.ofList entries)
        ((Record.ofList entries).map fun f => (n.keyIn ty f.1, stored f)) := by
    refine List.forall₂_map_right_iff.mpr (List.forall₂_same.mpr fun f hf => ⟨rfl, ?_⟩)
    exact hall f (Record.mem_of_mem_ofList hf)
  rw [wireJson_fields hfields, Json.object_eq, Json.object_eq, Json.entered_map_ofList hs]

end Naming

/-! ## Constructed values -/

/-- A value that is built of primitive values, arrays and constructor calls, to be stored under the
type `ty`. Every call names its members as the document does. A member that it sets again shares
its key with no other one, which would come behind it in the record. -/
inductive Expr.Stored (n : Naming) : HostType → Expr → Prop where
  | constant {ty vty : HostType} {v : Value} (hv : v.IsPrimitive) :
    Expr.Stored n ty (.constant v vty)
  | newArray {ty aty : HostType} {items : List Expr} (haty : aty.isDocumentQuery = false)
    (h : ∀ e ∈ items, Expr.Stored n ty.itemType e) : Expr.Stored n ty (.newArray items aty)
  | construct {ty cty : HostType} {args : List Expr} {members : List Member}
    (hcty : cty.isDocumentQuery = false) (hshape : cty.underlying ≠ .geometry)
    (hlength : members.length = args.length)
    (hseparate : Record.Separates (n.keyIn ty) (members.map (·.name)))
    (hkey : ∀ m ∈ members, n.wireName m = n.keyIn ty m.name)
    (hconverter : ∀ m ∈ members, n.converterIn? ty m.name = none)
    (h : ∀ p ∈ members.zip args, Expr.Stored n (n.typeIn ty p.1.name) p.2) :
    Expr.Stored n ty (.construct args (some members) cty)

/-- The same for a value that is a constant of type `ty` itself, or an item of one. -/
inductive Expr.Spelled (n : Naming) : HostType → Expr → Prop where
  | constant {ty vty : HostType} {v : Value} (hty : ty.isDocumentQuery = false)
    (hv : v.IsPrimitive) :
    Expr.Spelled n ty (.constant v vty)
  | newArray {ty aty : HostType} {items : List Expr} (hty : ty.isDocumentQuery = false)
    (haty : aty.isDocumentQuery = false)
    (h : ∀ e ∈ items, Expr.Spelled n (ty.element?.getD .object) e) :
    Expr.Spelled n ty (.newArray items aty)
  | construct {ty cty : HostType} {args : List Expr} {members : List Member}
    (hty : ty.isDocumentQuery = false) (h : Expr.Stored n ty (.construct args (some members) cty)) :
    Expr.Spelled n ty (.construct args (some members) cty)

/-! ## The two ways to a query -/

namespace Compilation

/-- Scalars that leave the scope alone do so one after the other. -/
theorem scalars_eq_ok {α : Type} {env : Environment} {as : List α} {f : α → Expr}
    {p : α → Scalar → Prop}
    (hp : ∀ a ∈ as, ∀ sc s t, scalar env (f a) sc = (.ok s, t) → t = sc ∧ p a s) {sc t : Scope}
    {ss : List Scalar} (h : scalars env (as.map f) sc = (.ok ss, t)) :
    t = sc ∧ List.Forall₂ p as ss := by
  induction as generalizing ss with
  | nil =>
    rw [List.map_nil, scalars, pure_eq_ok] at h
    obtain ⟨rfl, rfl⟩ := h
    exact ⟨rfl, .nil⟩
  | cons a as ih =>
    obtain ⟨ha, has⟩ := List.forall_mem_cons.mp hp
    rw [List.map_cons, scalars, bind_eq_ok] at h
    obtain ⟨s, u, hs, h⟩ := h
    obtain ⟨ss, v, hss, h⟩ := bind_eq_ok.mp h
    obtain ⟨rfl, rfl⟩ := pure_eq_ok.mp h
    obtain ⟨rfl, hpa⟩ := ha _ _ _ hs
    obtain ⟨rfl, hpas⟩ := ih has hss
    exact ⟨rfl, .cons hpa hpas⟩

end Compilation

section

variable {env : Environment} {i : Interpreter}

/-- The value of `e`, stored under the type `ty`, is sent as what `s` denotes. -/
def Scalar.Sends (env : Environment) (i : Interpreter) (ty : HostType) (e : Expr) (s : Scalar) :
    Prop :=
  ∃ v j x, i.evaluate e = .ok v ∧ env.options.naming.wireJson ty v = .ok j ∧ s.value? = some x ∧
    j.Sent x

theorem Scalar.Sends.array {ty aty : HostType} {items : List Expr} {ss : List Scalar}
    (h : List.Forall₂ (Scalar.Sends env i ty.itemType) items ss) :
    Scalar.Sends env i ty (.newArray items aty) (.array ss) := by
  have hitems : ∃ vs js xs, i.evaluateList items = .ok vs ∧
      List.Forall₂ (fun v j => env.options.naming.wireJson ty.itemType v = .ok j) vs js ∧
        List.Forall₂ (fun s x => Scalar.value? s = some x) ss xs ∧
          List.Forall₂ Json.Sent js xs := by
    induction h with
    | nil => exact ⟨[], [], [], rfl, .nil, .nil, .nil⟩
    | cons h _ ih =>
      obtain ⟨v, j, x, hv, hj, hx, hsent⟩ := h
      obtain ⟨vs, js, xs, hvs, hjs, hxs, hsents⟩ := ih
      refine ⟨v :: vs, j :: js, x :: xs, ?_, .cons hj hjs, .cons hx hxs, .cons hsent hsents⟩
      rw [Interpreter.evaluateList, hv, hvs]
      rfl
  obtain ⟨vs, js, xs, hvs, hjs, hxs, hsents⟩ := hitems
  refine ⟨.array vs, .arr js, .arr xs, ?_, Naming.wireJson_items hjs, Scalar.value?_array hxs,
    .arr hsents⟩
  rw [Interpreter.evaluate, hvs]
  rfl

/-- An argument of a constructor call and the member that it sets. -/
def Scalar.Sets (env : Environment) (i : Interpreter) (ty : HostType) (p : Member × Expr)
    (s : Scalar) : Prop :=
  env.options.naming.wireName p.1 = env.options.naming.keyIn ty p.1.name ∧
    env.options.naming.converterIn? ty p.1.name = none ∧
      Scalar.Sends env i (env.options.naming.typeIn ty p.1.name) p.2 s

theorem Scalar.Sends.object (cty : HostType) {ty : HostType} {ps : List (Member × Expr)}
    {ss : List Scalar}
    (hseparate : Record.Separates (env.options.naming.keyIn ty) (ps.map (·.1.name)))
    (h : List.Forall₂ (Scalar.Sets env i ty) ps ss) :
    Scalar.Sends env i ty (.construct (ps.map (·.2)) (some (ps.map (·.1))) cty)
      (.object (((ps.map (·.1)).map env.options.naming.wireName).zip ss)) := by
  have hfields : ∃ vs ms xs, i.evaluateList (ps.map (·.2)) = .ok vs ∧
      (((ps.map (·.1)).map (·.name)).zip vs).map (·.1) = ps.map (·.1.name) ∧
        List.Forall₂ (fun f m => m.1 = env.options.naming.keyIn ty f.1 ∧
          env.options.naming.converterIn? ty f.1 = none ∧
            env.options.naming.wireJson (env.options.naming.typeIn ty f.1) f.2 = .ok m.2)
          (((ps.map (·.1)).map (·.name)).zip vs) ms ∧
          List.Forall₂ (fun p m => p.1 = m.1 ∧ Scalar.value? p.2 = some m.2)
            (((ps.map (·.1)).map env.options.naming.wireName).zip ss) xs ∧
              Json.Corresponding Json.Sent ms xs := by
    clear hseparate
    induction h with
    | nil => exact ⟨[], [], [], rfl, rfl, .nil, .nil, .nil⟩
    | @cons p s ps ss h _ ih =>
      obtain ⟨hkey, hconverter, v, j, x, hv, hj, hx, hsent⟩ := h
      obtain ⟨vs, ms, xs, hvs, hnames, hms, hxs, hsents⟩ := ih
      refine ⟨v :: vs, (env.options.naming.keyIn ty p.1.name, j) :: ms,
        (env.options.naming.keyIn ty p.1.name, x) :: xs, ?_, ?_, .cons ⟨rfl, hconverter, hj⟩ hms,
        .cons ⟨hkey, hx⟩ hxs, .cons ⟨rfl, hsent⟩ hsents⟩
      · rw [List.map_cons, Interpreter.evaluateList, hv, hvs]
        rfl
      · exact congrArg (p.1.name :: ·) hnames
  obtain ⟨vs, ms, xs, hvs, hnames, hms, hxs, hsents⟩ := hfields
  rw [← hnames] at hseparate
  refine ⟨_, _, _, ?_, Naming.wireJson_ofList hseparate hms, Scalar.value?_object hxs,
    .object hsents⟩
  rw [Interpreter.evaluate, hvs]
  rfl

section

variable (hoptions : env.options.parameters = [])

include hoptions

/-- **A stored value is sent as what its scalar denotes.** -/
theorem Expr.Stored.sends {ty : HostType} {e : Expr} (h : e.Stored env.options.naming ty)
    (sc : Scope)
    (s : Scalar) (t : Scope) (hs : Compilation.scalar env e sc = (.ok s, t)) :
    t = sc ∧ Scalar.Sends env i ty e s := by
  induction h generalizing sc s t with
  | @constant ty vty v hv =>
    rw [Compilation.scalar, Compilation.constant_primitive sc hoptions hv] at hs
    split at hs
    · cases hs
    · obtain ⟨hscalar, rfl⟩ := Compilation.ofExcept_eq_ok.mp hs
      obtain ⟨x, hx⟩ := (Value.toScalar_data hscalar).exists_value?
      exact ⟨rfl, v, v.toJson, x, rfl, Naming.wireJson_primitive hv, hx, s,
        Value.toScalar_toJson hv hscalar, hx⟩
  | @newArray ty aty items haty h ih =>
    rw [Compilation.scalar] at hs
    obtain ⟨ss, u, hss, hs⟩ := Compilation.bind_eq_ok.mp hs
    obtain ⟨rfl, rfl⟩ := Compilation.pure_eq_ok.mp hs
    rw [← List.map_id items] at hss
    obtain ⟨rfl, hsends⟩ := Compilation.scalars_eq_ok (fun e he => ih e he) hss
    exact ⟨rfl, .array hsends⟩
  | @construct ty cty args members hcty hshape hlength hseparate hkey hconverter h ih =>
    rw [Compilation.scalar, if_neg hshape] at hs
    split at hs
    · cases hs
    obtain ⟨ss, u, hss, hs⟩ := Compilation.bind_eq_ok.mp hs
    obtain ⟨rfl, rfl⟩ := Compilation.pure_eq_ok.mp hs
    have hargs : (members.zip args).map (·.2) = args := List.map_snd_zip hlength.ge
    have hmembers : (members.zip args).map (·.1) = members := List.map_fst_zip hlength.le
    rw [← hargs] at hss
    obtain ⟨rfl, hsets⟩ := Compilation.scalars_eq_ok
      (p := Scalar.Sets env i ty) (fun p hp sc s t hs => by
        obtain ⟨rfl, hsends⟩ := ih p hp sc s t hs
        have hm : p.1 ∈ members := (List.of_mem_zip hp).1
        exact ⟨rfl, hkey _ hm, hconverter _ hm, hsends⟩) hss
    have hobject := Scalar.Sends.object cty (by
      rw [← hmembers, List.map_map] at hseparate
      exact hseparate) hsets
    rw [hargs, hmembers] at hobject
    exact ⟨rfl, hobject⟩

/-- The value of `e`, as a constant of type `ty`, becomes a scalar that denotes what `s` does. -/
def Scalar.Matched (env : Environment) (i : Interpreter) (ty : HostType) (e : Expr) (s : Scalar) :
    Prop :=
  ∃ v s' x, i.evaluate e = .ok v ∧
    (∀ sc, Compilation.constant env.options ty v sc = (.ok s', sc)) ∧
      s.value? = some x ∧ s'.value? = some x

theorem Scalar.Matched.array {ty aty : HostType} (hty : ty.isDocumentQuery = false)
    {items : List Expr} {ss : List Scalar}
    (h : List.Forall₂ (Scalar.Matched env i (ty.element?.getD .object)) items ss) :
    Scalar.Matched env i ty (.newArray items aty) (.array ss) := by
  have hitems : ∃ vs ss' xs, i.evaluateList items = .ok vs ∧
      (∀ sc, Compilation.constants env.options (ty.element?.getD .object) vs sc = (.ok ss', sc)) ∧
        List.Forall₂ (fun s x => Scalar.value? s = some x) ss xs ∧
          List.Forall₂ (fun s x => Scalar.value? s = some x) ss' xs := by
    induction h with
    | nil => exact ⟨[], [], [], rfl, fun _ => rfl, .nil, .nil⟩
    | cons h _ ih =>
      obtain ⟨v, s', x, hv, hs', hx, hx'⟩ := h
      obtain ⟨vs, ss', xs, hvs, hss', hxs, hxs'⟩ := ih
      refine ⟨v :: vs, s' :: ss', x :: xs, ?_, fun sc => ?_, .cons hx hxs, .cons hx' hxs'⟩
      · rw [Interpreter.evaluateList, hv, hvs]
        rfl
      · rw [Compilation.constants, Compilation.run_bind, hs']
        dsimp only
        rw [Compilation.run_bind, hss']
        rfl
  obtain ⟨vs, ss', xs, hvs, hss', hxs, hxs'⟩ := hitems
  refine ⟨.array vs, .array ss', .arr xs, ?_, fun sc => ?_, Scalar.value?_array hxs,
    Scalar.value?_array hxs'⟩
  · rw [Interpreter.evaluate, hvs]
    rfl
  · rw [Compilation.constant_items sc (Compilation.find?_unbound hoptions _), hty, ← bind_pure_comp]
    show (_ >>= _ : Compilation Scalar) sc = _
    rw [Compilation.run_bind, hss']
    rfl

/-- **A constant is sent as what the scalar of the expression denotes.** -/
theorem Expr.Spelled.sends {ty : HostType} {e : Expr} (h : e.Spelled env.options.naming ty)
    (sc : Scope)
    (s : Scalar) (t : Scope) (hs : Compilation.scalar env e sc = (.ok s, t)) :
    t = sc ∧ Scalar.Matched env i ty e s := by
  induction h generalizing sc s t with
  | @constant ty vty v hty hv =>
    rw [Compilation.scalar, Compilation.constant_primitive sc hoptions hv] at hs
    split at hs
    · cases hs
    · obtain ⟨hscalar, rfl⟩ := Compilation.ofExcept_eq_ok.mp hs
      obtain ⟨x, hx⟩ := (Value.toScalar_data hscalar).exists_value?
      refine ⟨rfl, v, s, x, rfl, fun sc' => ?_, hx, hx⟩
      rw [Compilation.constant_primitive sc' hoptions hv, hty, hscalar]
      rfl
  | @newArray ty aty items hty haty h ih =>
    rw [Compilation.scalar] at hs
    obtain ⟨ss, u, hss, hs⟩ := Compilation.bind_eq_ok.mp hs
    obtain ⟨rfl, rfl⟩ := Compilation.pure_eq_ok.mp hs
    rw [← List.map_id items] at hss
    obtain ⟨rfl, hitems⟩ := Compilation.scalars_eq_ok (fun e he => ih e he) hss
    exact ⟨rfl, .array hoptions hty hitems⟩
  | @construct ty cty args members hty h =>
    obtain ⟨rfl, v, j, x, hv, hj, hx, s', hs', hx'⟩ := h.sends (i := i) hoptions sc s t hs
    refine ⟨rfl, v, s', x, hv, fun sc' => ?_, hx, hx'⟩
    obtain ⟨fields, rfl⟩ : ∃ fields, v = .object fields := by
      rw [Interpreter.evaluate] at hv
      obtain ⟨vs, -, hv⟩ := LambdaQuery.bind_eq_ok.mp hv
      cases hv
      exact ⟨_, rfl⟩
    rw [Compilation.constant_inlined sc' (Compilation.find?_unbound hoptions _) (by simp), hty]
    show (Compilation.ofHost _ >>= _ : Compilation Scalar) sc' = _
    rw [hj, Compilation.run_bind]
    show (ofExcept j.toScalar : Compilation Scalar) sc' = _
    rw [hs']
    rfl

end

end

/-! ## Folding -/

theorem Expr.Stored.isFoldable {n : Naming} {ty : HostType} {e : Expr} (h : e.Stored n ty) :
    e.isFoldable := by
  induction h with
  | constant => exact Expr.isFoldable_of_constant rfl
  | newArray haty h ih =>
    rw [Expr.isFoldable_eq, Bool.and_eq_true, List.all_eq_true]
    exact ⟨ih, by simp [Expr.isLocal, Expr.ty, haty]⟩
  | @construct ty cty args members hcty hshape hlength hseparate hkey hconverter h ih =>
    have hargs : (members.zip args).map (·.2) = args := List.map_snd_zip hlength.ge
    rw [Expr.isFoldable_eq, Bool.and_eq_true, List.all_eq_true]
    refine ⟨fun e he => ?_, by simp [Expr.isLocal, Expr.ty, hcty]⟩
    obtain ⟨p, hp, rfl⟩ := List.mem_map.mp (hargs.symm ▸ he : e ∈ (members.zip args).map (·.2))
    exact ih p hp

theorem Expr.Spelled.isFoldable {n : Naming} {ty : HostType} {e : Expr} (h : e.Spelled n ty) :
    e.isFoldable := by
  induction h with
  | constant => exact Expr.isFoldable_of_constant rfl
  | newArray hty haty h ih =>
    rw [Expr.isFoldable_eq, Bool.and_eq_true, List.all_eq_true]
    exact ⟨ih, by simp [Expr.isLocal, Expr.ty, haty]⟩
  | construct hty h => exact h.isFoldable

/-- Where the names agree, a constructed value and the constant that it folds to denote the same
JSON value. -/
theorem Expr.Spelled.denotes_fold {env : Environment} (i : Interpreter)
    (hoptions : env.options.parameters = []) {e : Expr} (h : e.Spelled env.options.naming e.ty)
    {sc t : Scope} {s : Scalar} (hs : Compilation.scalar env e sc = (.ok s, t)) :
    ∃ v s' x, e.fold i.evaluate = .ok (.constant v e.ty) ∧
      Compilation.scalar env (.constant v e.ty) sc = (.ok s', sc) ∧
        s.value? = some x ∧ s'.value? = some x := by
  obtain ⟨-, v, s', x, hv, hs', hx, hx'⟩ := h.sends (i := i) hoptions sc s t hs
  refine ⟨v, s', x, ?_, ?_, hx, hx'⟩
  · by_cases hc : e.kind = .constant
    · rw [Expr.fold_constant _ hc]
      cases h with
      | constant =>
        cases hv
        rfl
      | newArray => cases hc
      | construct => cases hc
    · rw [Expr.fold_foldable _ hc h.isFoldable, hv]
      rfl
  · rw [Compilation.scalar]
    exact hs' sc

/-- A model with a renamed field, whose own model is named by its schema. -/
theorem Expr.Spelled.denotes_fold_nested :
    let schema : Schema :=
      [("Row", [("Tag", ⟨some "label", none, none⟩), ("Size", ⟨none, some (.model "Size"), none⟩)])]
    let env : Environment := ⟨⟨⟨.camelCase, schema⟩, [], false⟩, Interpreter.empty.evaluate⟩
    let size := Expr.construct [.constant (.unsigned 7) .uint64]
      (some [⟨.model "Size", "Width"⟩]) (.model "Size")
    let row := Expr.construct [size, .constant (.string "new") .string]
      (some [⟨.model "Row", "Size"⟩, ⟨.model "Row", "Tag"⟩]) (.model "Row")
    let e := Expr.newArray [row] (.array (.model "Row"))
    env.options.parameters = [] ∧ e.Spelled env.options.naming e.ty ∧
      ∃ s t, Compilation.scalar env e .initial = (.ok s, t) ∧
        ∃ v s' x, e.fold Interpreter.empty.evaluate = .ok (.constant v e.ty) ∧
          Compilation.scalar env (.constant v e.ty) .initial = (.ok s', .initial) ∧
            s.value? = some x ∧ s'.value? = some x := by
  intro schema env size row e
  have hsize : size.Stored env.options.naming (.model "Size") :=
    .construct rfl (by decide) rfl (by decide) (by decide) (by decide)
      (by simpa using .constant trivial)
  have hrow : row.Stored env.options.naming (.model "Row") :=
    .construct rfl (by decide) rfl (by decide) (by decide) (by decide)
      (by simpa using ⟨hsize, .constant trivial⟩)
  have he : e.Spelled env.options.naming e.ty :=
    .newArray rfl rfl (by simpa using .construct rfl hrow)
  have hs : Compilation.scalar env e .initial = (.ok (.array [.object
      [("size", .object [("width", .integer 7)]), ("label", .string "new")]]), .initial) := by
    simp only [e, row, size, Compilation.scalar, Compilation.scalars]
    rfl
  exact ⟨rfl, he, _, _, hs, denotes_fold Interpreter.empty rfl he hs⟩

/-- A member of a record without a name is named by the policy, but not when it is folded. -/
theorem fold_camelCase_ne :
    let env : Environment := ⟨⟨⟨.camelCase, []⟩, [], false⟩, Interpreter.empty.evaluate⟩
    let e := Expr.construct [.constant (.integer 5) .int32] (some [⟨.anonymous, "Price"⟩])
      .anonymous
    ∃ c s s', e.fold Interpreter.empty.evaluate = .ok c ∧
      (Compilation.scalar env e .initial).1 = .ok s ∧
        (Compilation.scalar env c .initial).1 = .ok s' ∧
          s.value? = some (.obj [("price", .int 5)]) ∧
            s'.value? = some (.obj [("Price", .int 5)]) ∧ s.value? ≠ s'.value? := by
  intro env e
  refine ⟨.constant (.object [("Price", .integer 5)]) .anonymous,
    .object [("price", .integer 5)], .object [("Price", .integer 5)], by cbv, ?_, ?_, rfl, rfl, ?_⟩
  · simp only [e, Compilation.scalar, Compilation.scalars]
    rfl
  · simp only [Compilation.scalar]
    rfl
  · intro h
    injection Option.some.inj h with hm
    exact absurd (congrArg (·.map (·.1)) hm) (by decide)

end LambdaQuery
