import LambdaQuery.Proofs.Kept.Unreachable
import LambdaQuery.Proofs.Meaning.Alike

/-!
# Values beside a group

Where rows are grouped, the aggregates in a scalar are of the rows of a group, and all else is read
on one row of it (`Scalar.evalOver`). What a scalar reads of rows at all are its atoms; without
aggregates among them it has the value that it has on the row alone. All else in a scalar is built
of atoms, so that two runs whose atoms have the same values come out with the same value
(`Database.Homomorphic.congruence`).
-/

set_option autoImplicit false

namespace LambdaQuery

open Compilation

variable {V : Type}

/-! ## Atoms -/

mutual

/-- The names, the aggregates and the nested queries in a scalar, outside of one another. -/
def Scalar.atoms : Scalar → List Scalar
  | .literal _ | .parameter _ => []
  | .ref name => [.ref name]
  | .index base key => base.atoms ++ key.atoms
  | .binary _ left right => left.atoms ++ right.atoms
  | .unary _ operand => operand.atoms
  | .call name args udf =>
    if !udf && Scalar.aggregates.contains name then [.call name args udf]
    else Scalar.atomsAll args
  | .array items => Scalar.atomsAll items
  | .object properties => Scalar.atomsProperties properties
  | .conditional test ifTrue ifFalse => test.atoms ++ (ifTrue.atoms ++ ifFalse.atoms)
  | .isIn item items _ => item.atoms ++ Scalar.atomsAll items
  | .exists query => [.exists query]
  | .arrayOf query => [.arrayOf query]
  | .subquery query => [.subquery query]

def Scalar.atomsAll : List Scalar → List Scalar
  | [] => []
  | s :: ss => s.atoms ++ Scalar.atomsAll ss

def Scalar.atomsProperties : List (String × Scalar) → List Scalar
  | [] => []
  | (_, s) :: ps => s.atoms ++ Scalar.atomsProperties ps

end

namespace Scalar

theorem mem_atomsAll {b : Scalar} {ss : List Scalar} :
    b ∈ atomsAll ss ↔ ∃ s ∈ ss, b ∈ s.atoms := by
  induction ss with
  | nil => simp [atomsAll]
  | cons s ss ih => rw [atomsAll, List.mem_append, ih, List.exists_mem_cons_iff]

theorem mem_atomsProperties {b : Scalar} {ps : List (String × Scalar)} :
    b ∈ atomsProperties ps ↔ ∃ p ∈ ps, b ∈ p.2.atoms := by
  induction ps with
  | nil => simp [atomsProperties]
  | cons p ps ih =>
    obtain ⟨name, s⟩ := p
    rw [atomsProperties, List.mem_append, ih, List.exists_mem_cons_iff]

theorem atoms_aggregate {name : String} (h : aggregates.contains name = true)
    (args : List Scalar) : (builtin name args).atoms = [builtin name args] := by
  rw [builtin, atoms, h]
  rfl

theorem atoms_function {name : String} {udf : Bool}
    (h : udf = true ∨ aggregates.contains name = false) (args : List Scalar) :
    (call name args udf).atoms = atomsAll args := by
  have hno : (!udf && aggregates.contains name) = false := by
    rcases h with rfl | h
    · rfl
    · rw [h, Bool.and_false]
  rw [atoms, hno]
  rfl

theorem Data.atoms {s : Scalar} (h : s.Data) : s.atoms = [] := by
  induction h with
  | literal value => rfl
  | array _ ih =>
    refine List.eq_nil_iff_forall_not_mem.mpr fun b hb => ?_
    obtain ⟨s, hs, hb⟩ := mem_atomsAll.mp hb
    rw [ih s hs] at hb
    cases hb
  | object _ ih =>
    refine List.eq_nil_iff_forall_not_mem.mpr fun b hb => ?_
    obtain ⟨p, hp, hb⟩ := mem_atomsProperties.mp hb
    rw [ih p hp] at hb
    cases hb

end Scalar

/-! ## Invariants of atoms -/

/-- What is asked of the atoms of a scalar. -/
def ScalarInvariant.ofAtoms (P : Scope → Scalar → Prop)
    (mono : ∀ {s t a}, t.Knows s → P s a → P t a)
    (aggregate : ∀ {s : Scope} {name args}, Scalar.aggregates.contains name = true →
      s.group ≠ none → P s (.builtin name args)) : ScalarInvariant where
  holds s a := ∀ b ∈ a.atoms, P s b
  mono hk h b hb := mono hk (h b hb)
  data h b hb := by
    rw [h.atoms] at hb
    cases hb
  parameter _ _ hb := nomatch hb
  index ha hb := List.forall_mem_append.mpr ⟨ha, hb⟩
  binary _ ha hb := List.forall_mem_append.mpr ⟨ha, hb⟩
  unary _ ha := ha
  conditional ha hb hc :=
    List.forall_mem_append.mpr ⟨ha, List.forall_mem_append.mpr ⟨hb, hc⟩⟩
  call {s args} name udf hargs h := by
    have hfunction : udf = true ∨ Scalar.aggregates.contains name = false →
        ∀ b ∈ (Scalar.call name args udf).atoms, P s b := by
      intro h b hb
      rw [Scalar.atoms_function h] at hb
      obtain ⟨a, ha, hb⟩ := Scalar.mem_atomsAll.mp hb
      exact hargs a ha b hb
    rcases h with h | h | hgroup
    · exact hfunction (.inl h)
    · exact hfunction (.inr h)
    cases udf with
    | true => exact hfunction (.inl rfl)
    | false =>
      cases hname : Scalar.aggregates.contains name with
      | false => exact hfunction (.inr hname)
      | true =>
        have hatoms := Scalar.atoms_aggregate hname args
        rw [Scalar.builtin] at hatoms
        rw [hatoms]
        exact List.forall_mem_singleton.mpr (aggregate hname hgroup)
  array h b hb := by
    obtain ⟨a, ha, hb⟩ := Scalar.mem_atomsAll.mp hb
    exact h a ha b hb
  object h b hb := by
    obtain ⟨p, hp, hb⟩ := Scalar.mem_atomsProperties.mp hb
    exact h p hp b hb
  spread name hname h b hb := by
    rw [Scalar.builtin, Scalar.atoms_function (.inr hname)] at hb
    exact h b hb
  isIn _ ha h := List.forall_mem_append.mpr ⟨ha, h⟩
  negated h := h

/-- Where no group is in scope, nothing is aggregated. -/
def Invariant.perRow : Invariant where
  toScalarInvariant := .ofAtoms (fun s b => s.group = none → b.isAggregate = false)
    (fun hk h => single.mono hk h) fun _ hg h => absurd h hg
  count _ _ := True
  count_mono _ _ := ⟨⟩
  grouped _ _ _ _ h := nomatch h
  ref _ := List.forall_mem_singleton.mpr fun _ => rfl
  nested method _ _ := by
    unfold nestedScalar
    split <;> exact List.forall_mem_singleton.mpr fun _ => rfl
  literal_count _ := ⟨⟩
  parameter_count _ := ⟨⟩

/-! ## Values -/

section

variable (D : Database V) [DecidableEq V] (group : List (Valuation V))

mutual

/-- The value of a scalar on a row of a group. -/
def Scalar.evalOver : Scalar → Valuation V → V
  | .literal value, _ => D.literal value
  | .ref name, ρ => ρ name
  | .index base key, ρ => D.index (base.evalOver ρ) (key.evalOver ρ)
  | .binary op left right, ρ => D.binary op (left.evalOver ρ) (right.evalOver ρ)
  | .unary op operand, ρ => D.unary op (operand.evalOver ρ)
  | .call name args udf, ρ =>
    if !udf && Scalar.aggregates.contains name then
      (D.aggregated name (group.map fun ρ => Scalar.evalAll D args ρ)).getD (D.literal .undefined)
    else D.call name udf (Scalar.evalAllOver args ρ)
  | .array items, ρ => D.array (Scalar.evalAllOver items ρ)
  | .object properties, ρ => D.object (Scalar.evalPropertiesOver properties ρ)
  | .conditional test ifTrue ifFalse, ρ =>
    D.conditional (test.evalOver ρ) (ifTrue.evalOver ρ) (ifFalse.evalOver ρ)
  | .isIn item items negated, ρ => D.isIn (item.evalOver ρ) (Scalar.evalAllOver items ρ) negated
  | .parameter name, _ => D.parameter name
  | .exists query, ρ => D.literal (.boolean !(query.rows D ρ).isEmpty)
  | .arrayOf query, ρ => D.array (query.rows D ρ)
  | .subquery query, ρ => (query.rows D ρ).headD (D.literal .undefined)

def Scalar.evalAllOver : List Scalar → Valuation V → List V
  | [], _ => []
  | s :: ss, ρ => s.evalOver ρ :: Scalar.evalAllOver ss ρ

def Scalar.evalPropertiesOver : List (String × Scalar) → Valuation V → List (String × V)
  | [], _ => []
  | (name, s) :: ps, ρ => (name, s.evalOver ρ) :: Scalar.evalPropertiesOver ps ρ

end

variable {D group}

mutual

/-- What aggregates nothing has the value that it has on the row alone. -/
theorem Scalar.evalOver_single {ρ : Valuation V} : ∀ {s : Scalar},
    (∀ b ∈ s.atoms, b.isAggregate = false) → s.evalOver D group ρ = s.eval D ρ none
  | .index base key, h => by
    obtain ⟨hb, hk⟩ := List.forall_mem_append.mp h
    rw [evalOver, eval, base.evalOver_single hb, key.evalOver_single hk]
  | .binary op left right, h => by
    obtain ⟨hl, hr⟩ := List.forall_mem_append.mp h
    rw [evalOver, eval, left.evalOver_single hl, right.evalOver_single hr]
  | .unary op operand, h => by rw [evalOver, eval, operand.evalOver_single h]
  | .call name args udf, h => by
    cases hagg : !udf && Scalar.aggregates.contains name with
    | true =>
      rw [atoms, hagg] at h
      have hsingle : (!udf && Scalar.aggregates.contains name) = false :=
        h _ (List.mem_singleton_self _)
      rw [hagg] at hsingle
      cases hsingle
    | false =>
      rw [atoms, hagg] at h
      rw [evalOver, eval, hagg, evalAllOver_single h]
      rfl
  | .array items, h => by rw [evalOver, eval, evalAllOver_single h]
  | .object properties, h => by rw [evalOver, eval, evalPropertiesOver_single h]
  | .conditional test ifTrue ifFalse, h => by
    obtain ⟨ht, h⟩ := List.forall_mem_append.mp h
    obtain ⟨hi, he⟩ := List.forall_mem_append.mp h
    rw [evalOver, eval, test.evalOver_single ht, ifTrue.evalOver_single hi,
      ifFalse.evalOver_single he]
  | .isIn item items negated, h => by
    obtain ⟨hi, hs⟩ := List.forall_mem_append.mp h
    rw [evalOver, eval, item.evalOver_single hi, evalAllOver_single hs]
  | .literal _, _ | .ref _, _ | .parameter _, _ | .exists _, _ | .arrayOf _, _
  | .subquery _, _ => rfl

theorem Scalar.evalAllOver_single {ρ : Valuation V} : ∀ {ss : List Scalar},
    (∀ b ∈ Scalar.atomsAll ss, b.isAggregate = false) →
      Scalar.evalAllOver D group ss ρ = Scalar.evalAll D ss ρ
  | [], _ => rfl
  | s :: ss, h => by
    obtain ⟨hs, hss⟩ := List.forall_mem_append.mp h
    rw [evalAllOver, evalAll, s.evalOver_single hs, evalAllOver_single hss]

theorem Scalar.evalPropertiesOver_single {ρ : Valuation V} : ∀ {ps : List (String × Scalar)},
    (∀ b ∈ Scalar.atomsProperties ps, b.isAggregate = false) →
      Scalar.evalPropertiesOver D group ps ρ = Scalar.evalProperties D ps ρ
  | [], _ => rfl
  | (name, s) :: ps, h => by
    obtain ⟨hs, hps⟩ := List.forall_mem_append.mp h
    rw [evalPropertiesOver, evalProperties, s.evalOver_single hs, evalPropertiesOver_single hps]

end

theorem Scalar.evalOver_aggregate {function : String}
    (h : Scalar.aggregates.contains function = true) (operand : Scalar) (ρ : Valuation V) :
    (Scalar.builtin function [operand]).evalOver D group ρ =
      (D.aggregated function (group.map fun ρ => [operand.eval D ρ none])).getD
        (D.literal .undefined) := by
  rw [builtin, evalOver, h]
  rfl

end

/-! ## Readings -/

/-- Values of scalars that go through the operators of the query language, aggregates aside. -/
structure Database.Homomorphic (D : Database V) (f : Scalar → V) : Prop where
  literal : ∀ value, f (.literal value) = D.literal value
  index : ∀ base key, f (.index base key) = D.index (f base) (f key)
  binary : ∀ op left right, f (.binary op left right) = D.binary op (f left) (f right)
  unary : ∀ op operand, f (.unary op operand) = D.unary op (f operand)
  call : ∀ name args udf, udf = true ∨ Scalar.aggregates.contains name = false →
    f (.call name args udf) = D.call name udf (args.map f)
  array : ∀ items, f (.array items) = D.array (items.map f)
  object : ∀ properties, f (.object properties) = D.object (properties.map fun p => (p.1, f p.2))
  conditional : ∀ test ifTrue ifFalse,
    f (.conditional test ifTrue ifFalse) = D.conditional (f test) (f ifTrue) (f ifFalse)
  isIn : ∀ item items negated, f (.isIn item items negated) = D.isIn (f item) (items.map f) negated

variable [DecidableEq V] {D : Database V}

theorem Database.homomorphic_eval (values ρ : Valuation V) :
    D.Homomorphic fun s => s.eval (D.withParameters values) ρ none := by
  have hall : ∀ ss, Scalar.evalAll (D.withParameters values) ss ρ =
      ss.map fun s => s.eval (D.withParameters values) ρ none := by
    intro ss
    induction ss with
    | nil => rfl
    | cons s ss ih => rw [Scalar.evalAll, ih, List.map_cons]
  have hproperties : ∀ ps, Scalar.evalProperties (D.withParameters values) ps ρ =
      ps.map fun p => (p.1, p.2.eval (D.withParameters values) ρ none) := by
    intro ps
    induction ps with
    | nil => rfl
    | cons p ps ih => rw [Scalar.evalProperties, ih, List.map_cons]
  constructor
  case call => exact fun name args udf _ => congrArg (D.call name udf) (hall args)
  case array => exact fun items => congrArg D.array (hall items)
  case object => exact fun ps => congrArg D.object (hproperties ps)
  case isIn => exact fun item items negated => congrArg (D.isIn _ · negated) (hall items)
  all_goals intros; rfl

theorem Database.homomorphic_evalOver (group : List (Valuation V)) (ρ : Valuation V) :
    D.Homomorphic fun s => s.evalOver D group ρ := by
  have hall : ∀ ss, Scalar.evalAllOver D group ss ρ = ss.map fun s => s.evalOver D group ρ := by
    intro ss
    induction ss with
    | nil => rfl
    | cons s ss ih => rw [Scalar.evalAllOver, ih, List.map_cons]
  have hproperties : ∀ ps, Scalar.evalPropertiesOver D group ps ρ =
      ps.map fun p => (p.1, p.2.evalOver D group ρ) := by
    intro ps
    induction ps with
    | nil => rfl
    | cons p ps ih => rw [Scalar.evalPropertiesOver, ih, List.map_cons]
  constructor
  case call =>
    intro name args udf h
    have hsingle : (!udf && Scalar.aggregates.contains name) = false := by
      rcases h with rfl | h
      · rfl
      · rw [h, Bool.and_false]
    rw [Scalar.evalOver, hsingle, if_neg Bool.false_ne_true, hall]
  case array => exact fun items => congrArg D.array (hall items)
  case object => exact fun ps => congrArg D.object (hproperties ps)
  case isIn => exact fun item items negated => congrArg (D.isIn _ · negated) (hall items)
  all_goals intros; rfl

omit [DecidableEq V] in
/-- Having the same value in two readings is kept by all ways to build scalars. -/
theorem Database.Homomorphic.congruence {f g : Scalar → V} (hf : D.Homomorphic f)
    (hg : D.Homomorphic g) (hD : D.Lawful) (κ : Setting) :
    κ.Congruence fun _ _ a b => f a = g b := by
  have hmap : ∀ {as bs : List Scalar}, List.Forall₂ (fun a b => f a = g b) as bs →
      as.map f = bs.map g := fun h =>
    List.forall₂_eq_eq_eq ▸ List.forall₂_map_left_iff.mpr (List.forall₂_map_right_iff.mpr h)
  -- A membership test takes its negation in.
  have hnot : ∀ {f : Scalar → V}, D.Homomorphic f → ∀ s,
      f (unaryOf .not s) = D.unary .not (f s) := by
    intro f hf s
    cases s with
    | isIn item items negated =>
      rw [hf.isIn, hD.not]
      exact hf.isIn item items !negated
    | _ => exact hf.unary .not _
  constructor
  case step => exact fun h _ => h
  case literal => exact fun value => (hf.literal value).trans (hg.literal value).symm
  case index => exact fun h h₁ => by rw [hf.index, hg.index, h, h₁]
  case binary => exact fun op h h₁ => by rw [hf.binary, hg.binary, h, h₁]
  case unary => exact fun op h => by rw [hf.unary, hg.unary, h]
  case not => exact fun h => by rw [hnot hf, hnot hg, h]
  case call =>
    intro _ _ as bs name udf hname h
    rw [hf.call name as udf hname, hg.call name bs udf hname, hmap h]
  case array => exact fun h => by rw [hf.array, hg.array, hmap h]
  case object =>
    intro _ _ ps qs h
    rw [hf.object, hg.object]
    refine congrArg D.object ?_
    induction h with
    | nil => rfl
    | cons hpq _ ih => rw [List.map_cons, List.map_cons, hpq.1, hpq.2, ih]
  case conditional => exact fun h h₁ h₂ => by rw [hf.conditional, hg.conditional, h, h₁, h₂]
  case isIn => exact fun negated h hs => by rw [hf.isIn, hg.isIn, h, hmap hs]

end LambdaQuery
