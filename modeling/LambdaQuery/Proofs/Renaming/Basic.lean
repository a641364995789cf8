import LambdaQuery.Compilation.Operators
import LambdaQuery.Proofs.Alike.Basic
import LambdaQuery.Proofs.Folding.Stability
import LambdaQuery.Proofs.Subexpressions

/-!
# Renamed parameters

`Expr.Renamed` relates expressions that differ only in the names of parameters, as `Binders` say
which names correspond. The compilation resolves a name in two ways: a parameter stands for a
scalar, and the source of an operator for the group in scope if it has the name of this group's
parameter, so that there are two correspondences. Folding keeps expressions renamed
(`Expr.Renamed.fold`).
-/

set_option autoImplicit false

namespace LambdaQuery

/-! ## Corresponding names -/

structure Binders where
  /-- Parameters that are bound by the same lambda. -/
  names : String → String → Prop
  /-- Names that are both or neither that of the group in scope. -/
  sources : String → String → Prop
  /-- Whether the group in scope is told apart. -/
  strict : Prop

namespace Binders

/-- With parameters that stand for each other. -/
def bind (B : Binders) (n m : String) : Binders :=
  { B with names := fun x y => x = n ∧ y = m ∨ x ≠ n ∧ y ≠ m ∧ B.names x y }

/-- With parameters of lambdas that correspond in order; the first ones are innermost. -/
def bindAll (B : Binders) : List Param → List Param → Binders
  | p :: ps, q :: qs => (B.bindAll ps qs).bind p.name q.name
  | _, _ => B

/-- Within the results of groups with these parameters. -/
def group (B : Binders) (n m : String) : Binders :=
  { B with sources := fun x y => B.strict → (x = n ↔ y = m) }

/-- Inside of lambdas. Those with two parameters are the results of groups. -/
def enter (B : Binders) (ps qs : List Param) : Binders :=
  match ps, qs with
  | [_, g], [_, g'] => (B.bindAll ps qs).group g.name g'.name
  | _, _ => B.bindAll ps qs

/-- Every name corresponds to itself. -/
structure Refl (B : Binders) : Prop where
  names : ∀ x, B.names x x
  sources : ∀ x, B.sources x x

/-- What corresponds in `B` does so in `C`. -/
structure Le (B C : Binders) : Prop where
  names : ∀ x y, B.names x y → C.names x y
  sources : ∀ x y, B.sources x y → C.sources x y
  strict : C.strict → B.strict

def same : Binders := ⟨Eq, Eq, True⟩

/-- Names correspond in the given way; groups are not told apart. -/
def lexical (names : String → String → Prop) : Binders := ⟨names, fun _ _ => True, False⟩

def flip (B : Binders) : Binders :=
  ⟨fun x y => B.names y x, fun x y => B.sources y x, B.strict⟩

variable {B C : Binders}

theorem same_refl : same.Refl := ⟨fun _ => rfl, fun _ => rfl⟩

theorem le_lexical (B : Binders) : B.Le (.lexical B.names) :=
  ⟨fun _ _ => id, fun _ _ _ => trivial, False.elim⟩

theorem bind_self (h : ∀ x, B.names x x) (n x : String) : (B.bind n n).names x x := by
  by_cases hx : x = n
  · exact .inl ⟨hx, hx⟩
  · exact .inr ⟨hx, hx, h x⟩

theorem Refl.group (h : B.Refl) (n : String) : (B.group n n).Refl :=
  ⟨h.names, fun _ _ => Iff.rfl⟩

theorem Le.bind (h : B.Le C) (n m : String) : (B.bind n m).Le (C.bind n m) :=
  ⟨fun _ _ => Or.imp_right fun ⟨hx, hy, hxy⟩ => ⟨hx, hy, h.names _ _ hxy⟩, h.sources, h.strict⟩

theorem Le.group (h : B.Le C) (n m : String) : (B.group n m).Le (C.group n m) :=
  ⟨h.names, fun _ _ hxy hs => hxy (h.strict hs), h.strict⟩

theorem flip_bind (B : Binders) (n m : String) : (B.bind n m).flip = B.flip.bind m n := by
  unfold flip bind
  congr 1
  funext x y
  exact propext ⟨Or.imp And.symm fun ⟨hy, hx, h⟩ => ⟨hx, hy, h⟩,
    Or.imp And.symm fun ⟨hx, hy, h⟩ => ⟨hy, hx, h⟩⟩

theorem flip_group (B : Binders) (n m : String) : (B.group n m).flip = B.flip.group m n := by
  unfold flip group
  congr 1
  funext x y
  exact propext (imp_congr_right fun _ => Iff.comm)

theorem enter_eq_bindAll (B : Binders) {ps qs : List Param} (h : ps.length ≠ 2) :
    B.enter ps qs = B.bindAll ps qs := by
  unfold enter
  split
  · exact absurd rfl h
  · rfl

/-- What binding parameters keeps is kept inside of lambdas. -/
theorem enter_induction {P : Binders → Prop} {R : Param → Param → Prop} {ps qs : List Param}
    (h : List.Forall₂ R ps qs) (hB : P B)
    (hbind : ∀ {C p q}, R p q → P C → P (C.bind p.name q.name))
    (hgroup : ∀ {C p q}, R p q → P C → P (C.group p.name q.name)) : P (B.enter ps qs) := by
  have hall : ∀ {ps qs}, List.Forall₂ R ps qs → P (B.bindAll ps qs) := fun h => by
    induction h with
    | nil => exact hB
    | cons hpq _ ih => exact hbind hpq ih
  unfold enter
  split
  · have hg := h
    obtain _ | ⟨-, _ | ⟨hg, _⟩⟩ := hg
    exact hgroup hg (hall h)
  · exact hall h

theorem Le.enter (h : B.Le C) (ps qs : List Param) : (B.enter ps qs).Le (C.enter ps qs) := by
  have hall : ∀ ps qs, (B.bindAll ps qs).Le (C.bindAll ps qs) := fun ps => by
    induction ps with
    | nil => exact fun _ => h
    | cons p ps ih =>
      rintro (_ | ⟨q, qs⟩)
      · exact h
      · exact (ih qs).bind _ _
  unfold Binders.enter
  split
  · exact (hall _ _).group _ _
  · exact hall ps qs

theorem flip_enter (B : Binders) (ps qs : List Param) :
    (B.enter ps qs).flip = B.flip.enter qs ps := by
  have hall : ∀ ps qs, (B.bindAll ps qs).flip = B.flip.bindAll qs ps := fun ps => by
    induction ps with
    | nil => rintro (_ | _) <;> rfl
    | cons p ps ih =>
      rintro (_ | ⟨q, qs⟩)
      · rfl
      · rw [bindAll, flip_bind, ih, bindAll]
  by_cases h : ∃ k g k' g', ps = [k, g] ∧ qs = [k', g']
  · obtain ⟨k, g, k', g', rfl, rfl⟩ := h
    rw [enter, enter, flip_group, hall]
  · rw [enter.eq_2 _ _ _ fun k g k' g' hp hq => h ⟨k, g, k', g', hp, hq⟩,
      enter.eq_2 _ _ _ fun k g k' g' hp hq => h ⟨k', g', k, g, hq, hp⟩, hall]

end Binders

/-! ## Renamed expressions -/

/-- Whether the node has names of parameters. -/
def Expr.hasParams : Expr → Bool
  | .parameter .. | .lambda .. => true
  | _ => false

/-- Whether the node is a call of the operator that groups. -/
def Expr.isGrouping : Expr → Bool
  | .call _ method _ _ => method.isOperator && method.name == "GroupBy"
  | _ => false

/-- The parameter that is the source of an operator. -/
def Expr.source? : Expr → Option String
  | .call _ method (.parameter name _ :: _) _ => if method.isOperator then some name else none
  | _ => none

/-- Expressions that differ in the names of parameters, except for those of lambdas where names are
`exact`. -/
inductive Expr.Renamed (exact : Prop) : Binders → Expr → Expr → Prop
  | parameter {B : Binders} {x y : String} (ty : HostType) : B.names x y →
      Renamed exact B (.parameter x ty) (.parameter y ty)
  | lambda {B : Binders} {ps qs : List Param} {body body' : Expr} :
      List.Forall₂ (fun p q => p.ty = q.ty ∧ (exact → p.name = q.name)) ps qs →
      Renamed exact (B.enter ps qs) body body' →
        Renamed exact B (.lambda ps body) (.lambda qs body')
  | node {B : Binders} {e : Expr} {ds : List Expr} : e.hasParams = false →
      Option.Rel B.sources e.source? (e.rebuild ds).source? → e.children.length = ds.length →
      (∀ p ∈ e.children.zip ds, Renamed exact B p.1 p.2) → Renamed exact B e (e.rebuild ds)

@[simp] theorem Expr.hasParams_rebuild (e : Expr) (ds : List Expr) :
    (e.rebuild ds).hasParams = e.hasParams := by
  unfold Expr.rebuild
  split <;> rfl

@[simp] theorem Expr.kind_rebuild (e : Expr) (ds : List Expr) : (e.rebuild ds).kind = e.kind := by
  unfold Expr.rebuild
  split <;> rfl

mutual

theorem Binding.rebuild_rebuild : ∀ (b : Binding) (ds es : List Expr),
    b.children.length = ds.length → b.children.length = es.length →
      (b.rebuild ds).rebuild es = b.rebuild es
  | .assign _ _, ds, es, _, h => by
    obtain ⟨d, rfl⟩ := List.length_eq_one_iff.mp h.symm
    rfl
  | .nested _ bs, ds, es, hd, he => congrArg _ (Binding.rebuildAll_rebuildAll bs ds es hd he)
  | .collect _ _, _, _, _, _ => rfl

theorem Binding.rebuildAll_rebuildAll : ∀ (bs : List Binding) (ds es : List Expr),
    (Binding.childrenOfAll bs).length = ds.length → (Binding.childrenOfAll bs).length = es.length →
      Binding.rebuildAll (Binding.rebuildAll bs ds) es = Binding.rebuildAll bs es
  | [], _, _, _, _ => rfl
  | b :: bs, ds, es, hd, he => by
    rw [Binding.childrenOfAll, List.length_append] at hd he
    have hb : (b.rebuild (ds.take b.children.length)).children = ds.take b.children.length :=
      Binding.children_rebuild b _ (by rw [List.length_take]; omega)
    have hlength : (ds.take b.children.length).length = b.children.length := by
      rw [List.length_take]
      omega
    simp only [Binding.rebuildAll, hb, hlength]
    rw [Binding.rebuild_rebuild b _ _ hlength.symm (by rw [List.length_take]; omega),
      Binding.rebuildAll_rebuildAll bs _ _ (by rw [List.length_drop]; omega)
        (by rw [List.length_drop]; omega)]

end

/-- Of parts that are exchanged twice the last ones count. -/
theorem Expr.rebuild_rebuild {e : Expr} {ds es : List Expr} (hd : e.children.length = ds.length)
    (he : e.children.length = es.length) : (e.rebuild ds).rebuild es = e.rebuild es := by
  cases e with
  | constant => rfl
  | parameter => rfl
  | member object =>
    cases object with
    | none => rfl
    | some =>
      obtain ⟨_, rfl⟩ := List.length_eq_one_iff.mp hd.symm
      obtain ⟨_, rfl⟩ := List.length_eq_one_iff.mp he.symm
      rfl
  | binary =>
    obtain ⟨_, _, rfl⟩ := List.length_eq_two.mp hd.symm
    obtain ⟨_, _, rfl⟩ := List.length_eq_two.mp he.symm
    rfl
  | conditional =>
    obtain ⟨_, _, _, rfl⟩ := List.length_eq_three.mp hd.symm
    obtain ⟨_, _, _, rfl⟩ := List.length_eq_three.mp he.symm
    rfl
  | call target =>
    cases target with
    | none => rfl
    | some =>
      obtain ⟨_, _, rfl⟩ := List.exists_cons_of_length_eq_add_one hd.symm
      obtain ⟨_, _, rfl⟩ := List.exists_cons_of_length_eq_add_one he.symm
      rfl
  | memberInit base bindings =>
    obtain ⟨_, ds, rfl⟩ := List.exists_cons_of_length_eq_add_one hd.symm
    obtain ⟨d, es, rfl⟩ := List.exists_cons_of_length_eq_add_one he.symm
    exact congrArg (Expr.memberInit d · _) (Binding.rebuildAll_rebuildAll bindings ds es
      (Nat.succ.inj hd) (Nat.succ.inj he))
  | construct => rfl
  | newArray => rfl
  | unary | lambda =>
    obtain ⟨_, rfl⟩ := List.length_eq_one_iff.mp hd.symm
    obtain ⟨_, rfl⟩ := List.length_eq_one_iff.mp he.symm
    rfl
  | listInit | invoke =>
    obtain ⟨_, _, rfl⟩ := List.exists_cons_of_length_eq_add_one hd.symm
    obtain ⟨_, _, rfl⟩ := List.exists_cons_of_length_eq_add_one he.symm
    rfl

namespace Expr

/-- A node whose parts are renamed. -/
theorem Renamed.rebuild {exact : Prop} {B : Binders} {e : Expr} {ds : List Expr}
    (h : e.hasParams = false) (hs : Option.Rel B.sources e.source? (e.rebuild ds).source?)
    (hds : List.Forall₂ (Renamed exact B) e.children ds) : Renamed exact B e (e.rebuild ds) :=
  have ⟨hlength, hzip⟩ := List.forall₂_iff_zip.mp hds
  .node h hs hlength fun _ hp => hzip hp

/-- An expression is one of its own renamings where its sources, all in `S`, correspond to
themselves. -/
theorem Renamed.refl_of_sources {exact : Prop} {S : String → Prop} {B : Binders}
    (hB : (∀ x, B.names x x) ∧ ∀ x, S x → B.sources x x) {e : Expr}
    (he : ∀ d : Expr, d.IsPart e → ∀ x, d.source? = some x → S x) : Renamed exact B e e := by
  induction hn : sizeOf e using Nat.strongRecOn generalizing e B with
  | ind n ih =>
    subst hn
    have hchild : ∀ {C : Binders}, ((∀ x, C.names x x) ∧ ∀ x, S x → C.sources x x) →
        ∀ d ∈ e.children, Renamed exact C d d := fun hC d hd =>
      ih _ (sizeOf_child hd) hC (fun d' hd' => he d' (hd'.trans (.of_child hd))) rfl
    cases hp : e.hasParams with
    | false =>
      have hsource : Option.Rel B.sources e.source? (e.rebuild e.children).source? := by
        rw [rebuild_children]
        cases hs : e.source? with
        | none => exact .none
        | some x => exact .some (hB.2 x (he e .self x hs))
      have h := Renamed.rebuild hp hsource (List.forall₂_same.mpr (hchild hB))
      rwa [rebuild_children] at h
    | true =>
      cases e with
      | parameter x ty => exact .parameter ty (hB.1 x)
      | lambda ps body =>
        refine .lambda (List.forall₂_same.mpr fun _ _ => ⟨rfl, fun _ => rfl⟩)
          (hchild ?_ body (List.mem_singleton_self body))
        refine Binders.enter_induction (R := Eq)
          (P := fun B => (∀ x, B.names x x) ∧ ∀ x, S x → B.sources x x)
          (List.forall₂_same.mpr fun _ _ => rfl) hB ?_ ?_
        · rintro C p _ rfl hC
          exact ⟨Binders.bind_self hC.1 p.name, hC.2⟩
        · rintro C p _ rfl hC
          exact ⟨hC.1, fun _ _ _ => Iff.rfl⟩
      | _ => cases hp

theorem Renamed.refl {exact : Prop} {B : Binders} (hB : B.Refl) (e : Expr) :
    Renamed exact B e e :=
  Renamed.refl_of_sources (S := fun _ => True) ⟨hB.names, fun x _ => hB.sources x⟩
    fun _ _ _ _ => trivial

variable {exact : Prop} {B C : Binders} {e e' : Expr} {ds : List Expr}

namespace Renamed

theorem mono (h : Renamed exact B e e') (hBC : B.Le C) : Renamed exact C e e' := by
  induction h generalizing C with
  | parameter ty hxy => exact .parameter ty (hBC.names _ _ hxy)
  | lambda hps _ ih => exact .lambda hps (ih (hBC.enter _ _))
  | node hp hs hlength _ ih =>
    exact .node hp (optionRel_mono (fun _ _ => hBC.sources _ _) hs) hlength fun p hmem =>
      ih p hmem hBC

/-- Where names need not be exact, they may be so. -/
theorem inexact (h : Renamed exact B e e') : Renamed False B e e' := by
  induction h with
  | parameter ty hxy => exact .parameter ty hxy
  | lambda hps _ ih => exact .lambda (hps.imp fun _ _ hp => hp.imp_right fun _ => False.elim) ih
  | node hp hs hlength _ ih => exact .node hp hs hlength ih

theorem symm (h : Renamed exact B e e') : Renamed exact B.flip e' e := by
  induction h with
  | parameter ty hxy => exact .parameter ty hxy
  | lambda hps _ ih =>
    refine .lambda (hps.flip.imp fun _ _ ⟨ht, hn⟩ => ⟨ht.symm, fun he => (hn he).symm⟩) ?_
    rwa [← Binders.flip_enter]
  | @node B e ds hp hs hlength _ ih =>
    have hback : (e.rebuild ds).rebuild e.children = e := by
      rw [rebuild_rebuild hlength rfl, rebuild_children]
    have hparts : List.Forall₂ (Renamed exact B.flip) ds e.children :=
      (List.forall₂_iff_zip.mpr ⟨hlength, fun hp => ih _ hp⟩).flip
    have h : Renamed exact B.flip (e.rebuild ds) ((e.rebuild ds).rebuild e.children) := by
      refine .rebuild ((hasParams_rebuild e ds).trans hp) ?_ ?_
      · rw [hback]
        rcases optionRel_cases hs with ⟨h, h'⟩ | ⟨x, y, h, h', hxy⟩ <;> rw [h, h']
        · exact .none
        · exact .some hxy
      · rwa [children_rebuild hlength.symm]
    rwa [hback] at h

/-- Where names are exact, nothing is renamed. -/
theorem eq_of_exact (h : Renamed exact B e e') (he : exact) (hB : ∀ x y, B.names x y → x = y) :
    e = e' := by
  induction h with
  | parameter ty hxy => rw [hB _ _ hxy]
  | @lambda B ps qs body body' hps _ ih =>
    have hsame : List.Forall₂ Eq ps qs := hps.imp fun p q ⟨ht, hn⟩ => by
      obtain ⟨n, ty⟩ := p
      obtain ⟨m, ty'⟩ := q
      exact congrArg₂ Param.mk (hn he) ht
    obtain rfl := List.forall₂_eq_eq_eq ▸ hsame
    rw [ih]
    refine Binders.enter_induction (P := fun B => ∀ x y, B.names x y → x = y) hsame hB ?_ ?_
    · rintro C p _ rfl hC x y (⟨rfl, rfl⟩ | ⟨-, -, h⟩)
      · rfl
      · exact hC x y h
    · exact fun _ hC => hC
  | @node B e ds hp hs hlength hds ih =>
    have hsame : List.Forall₂ Eq e.children ds :=
      List.forall₂_iff_zip.mpr ⟨hlength, fun h => ih _ h hB⟩
    rw [← (List.forall₂_eq_eq_eq ▸ hsame : e.children = ds), rebuild_children]

/-! ## Nodes of renamed expressions -/

theorem parts (h : Renamed exact B e e') (hp : e.hasParams = false) :
    ∃ ds, e' = e.rebuild ds ∧ List.Forall₂ (Renamed exact B) e.children ds ∧
      Option.Rel B.sources e.source? e'.source? := by
  cases h with
  | parameter => cases hp
  | lambda => cases hp
  | node _ hs hlength hds =>
    exact ⟨_, rfl, List.forall₂_iff_zip.mpr ⟨hlength, fun h => hds _ h⟩, hs⟩

theorem ty (h : Renamed exact B e e') : e.ty = e'.ty := by
  cases h with
  | parameter => rfl
  | lambda => rfl
  | node => rw [ty_rebuild]

theorem kind (h : Renamed exact B e e') : e.kind = e'.kind := by
  cases h with
  | parameter => rfl
  | lambda => rfl
  | node => rw [kind_rebuild]

theorem constant {v : Value} {ty : HostType} (h : Renamed exact B (.constant v ty) e') :
    e' = .constant v ty := by
  obtain ⟨ds, rfl, -⟩ := h.parts rfl
  rfl

theorem of_constant {v : Value} {ty : HostType} (h : Renamed exact B e (.constant v ty)) :
    e = .constant v ty := h.symm.constant

theorem newArray {items : List Expr} {ty : HostType} (h : Renamed exact B (.newArray items ty) e') :
    ∃ ds, e' = .newArray ds ty ∧ List.Forall₂ (Renamed exact B) items ds := by
  obtain ⟨ds, rfl, hds, -⟩ := h.parts rfl
  exact ⟨ds, rfl, hds⟩

theorem of_newArray {items : List Expr} {ty : HostType}
    (h : Renamed exact B e (.newArray items ty)) :
    ∃ ds, e = .newArray ds ty := by
  obtain ⟨ds, rfl, -⟩ := h.symm.newArray
  exact ⟨ds, rfl⟩

theorem construct {args : List Expr} {members : Option (List Member)} {ty : HostType}
    (h : Renamed exact B (.construct args members ty) e') :
    ∃ ds, e' = .construct ds members ty ∧ List.Forall₂ (Renamed exact B) args ds := by
  obtain ⟨ds, rfl, hds, -⟩ := h.parts rfl
  exact ⟨ds, rfl, hds⟩

theorem memberInit {base : Expr} {bindings : List Binding} {ty : HostType}
    (h : Renamed exact B (.memberInit base bindings ty) e') :
    ∃ d ds, e' = .memberInit d (Binding.rebuildAll bindings ds) ty ∧
      List.Forall₂ (Renamed exact B) (Binding.childrenOfAll bindings) ds := by
  obtain ⟨ds, rfl, hds, -⟩ := h.parts rfl
  obtain ⟨d, ds, hd, hrest, rfl⟩ := List.forall₂_cons_left_iff.mp hds
  exact ⟨d, ds, rfl, hrest⟩

theorem binary {op : BinaryOp} {left right : Expr} {ty : HostType}
    (h : Renamed exact B (.binary op left right ty) e') :
    ∃ l r, e' = .binary op l r ty ∧ Renamed exact B left l ∧ Renamed exact B right r := by
  obtain ⟨ds, rfl, hds, -⟩ := h.parts rfl
  obtain ⟨l, _, hl, hrest, rfl⟩ := List.forall₂_cons_left_iff.mp hds
  obtain ⟨r, _, hr, -, rfl⟩ := List.forall₂_cons_left_iff.mp hrest
  exact ⟨l, r, rfl, hl, hr⟩

theorem conditional {test ifTrue ifFalse : Expr} {ty : HostType}
    (h : Renamed exact B (.conditional test ifTrue ifFalse ty) e') :
    ∃ t a b, e' = .conditional t a b ty ∧ Renamed exact B test t ∧ Renamed exact B ifTrue a ∧
      Renamed exact B ifFalse b := by
  obtain ⟨ds, rfl, hds, -⟩ := h.parts rfl
  obtain ⟨t, _, ht, hbranches, rfl⟩ := List.forall₂_cons_left_iff.mp hds
  obtain ⟨a, _, ha, hlast, rfl⟩ := List.forall₂_cons_left_iff.mp hbranches
  obtain ⟨b, _, hb, -, rfl⟩ := List.forall₂_cons_left_iff.mp hlast
  exact ⟨t, a, b, rfl, ht, ha, hb⟩

theorem unary {op : UnaryOp} {operand : Expr} {ty : HostType}
    (h : Renamed exact B (.unary op operand ty) e') :
    ∃ d, e' = .unary op d ty ∧ Renamed exact B operand d := by
  obtain ⟨ds, rfl, hds, -⟩ := h.parts rfl
  obtain ⟨d, _, hd, hnil, rfl⟩ := List.forall₂_cons_left_iff.mp hds
  exact ⟨d, rfl, hd⟩

theorem member {target : Option Expr} {m : Member} {ty : HostType}
    (h : Renamed exact B (.member target m ty) e') :
    ∃ target', e' = .member target' m ty ∧ Option.Rel (Renamed exact B) target target' := by
  obtain ⟨ds, rfl, hds, -⟩ := h.parts rfl
  cases target with
  | none => exact ⟨none, rfl, .none⟩
  | some target =>
    obtain ⟨d, _, hd, hnil, rfl⟩ := List.forall₂_cons_left_iff.mp hds
    exact ⟨some d, rfl, .some hd⟩

/-- The parts of a renamed call. -/
theorem call {target : Option Expr} {method : Method} {args : List Expr} {ty : HostType}
    (h : Renamed exact B (.call target method args ty) e') :
    ∃ target' args', e' = .call target' method args' ty ∧
      Option.Rel (Renamed exact B) target target' ∧
      List.Forall₂ (Renamed exact B) args args' := by
  obtain ⟨ds, rfl, hds, -⟩ := h.parts rfl
  cases target with
  | none => exact ⟨none, ds, rfl, .none, hds⟩
  | some target =>
    obtain ⟨d, ds, hd, hrest, rfl⟩ := List.forall₂_cons_left_iff.mp hds
    exact ⟨some d, ds, rfl, .some hd, hrest⟩

theorem asConstant? (h : Renamed exact B e e') : e.asConstant? = e'.asConstant? := by
  cases e with
  | constant => rw [h.constant]
  | _ =>
    have hk := h.kind
    cases e' <;> first | rfl | cases hk

end Renamed

end Expr

/-- The same values are given for expressions that differ in the names of parameters. -/
def Evaluator.Nameless (ask : Evaluator) : Prop :=
  ∀ names e e' v, Expr.Renamed False (.lexical names) e e' → ask e' = .ok v → ask e = .ok v

end LambdaQuery
