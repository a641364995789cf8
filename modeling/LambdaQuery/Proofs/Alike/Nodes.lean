import LambdaQuery.Proofs.Alike.Builtins
import LambdaQuery.Proofs.Renaming.Shapes

/-!
# Two runs of nodes

The scalar of a node is built of those of its parts. Where the parts of two nodes of one form
correspond (`Setting.Parts`), so that the compilation sees the same of them and their scalars come
out related by a congruence, the scalars of the nodes come out related too.
-/

set_option autoImplicit false

namespace LambdaQuery

/-- Nodes other than calls whose scalars are built of those of their parts. -/
def Expr.IsComposite : Expr → Prop
  | .constant .. | .parameter .. | .lambda .. | .call .. => False
  | .construct _ _ ty => ty.underlying ≠ .geometry
  | _ => True

namespace Setting

open Compilation

variable (κ : Setting) (Q : Scope → Scope → Scalar → Scalar → Prop)

/-- A correspondence of expressions: to the compilation they look alike, and the scalars of those
smaller than `size` come out related from the given scopes on. -/
structure Parts (R : Expr → Expr → Prop) (size : Nat) (s s' : Scope) : Prop where
  ty : ∀ {e e'}, R e e' → e.ty = e'.ty
  looks : ∀ {e e'}, R e e' → LooksAlike e e'
  items : ∀ {items items' ty ty'}, R (.newArray items ty) (.newArray items' ty') →
    List.Forall₂ R items items'
  compared : ∀ {e e'}, R e e' → Option.Rel
    (fun p q => (R p.1.1 q.1.1 ∧ R p.1.2 q.1.2) ∧ κ.apart p.1.1 p.1.2)
    (comparedStrings? e) (comparedStrings? e')
  runs : ∀ {e e'}, R e e' → sizeOf e < size → ∀ {t t'}, κ.Step s s' t t' →
    κ.Runs t t' (scalar κ.left e) (scalar κ.right e') Q
  listed : ∀ {items ty}, R (.constant (.array items) ty) (.constant (.array items) ty) →
    ∀ {t t'}, κ.Step s s' t t' → κ.Runs t t' (constant κ.left.options ty (.array items))
      (constant κ.right.options ty (.array items)) (κ.Listed Q)
  arguments : ∀ {items ty}, R (.constant (.array items) ty) (.constant (.array items) ty) →
    ∀ {t t'}, κ.Step s s' t t' → κ.Runs t t' (constants κ.left.options .object items)
      (constants κ.right.options .object items) fun t t' => List.Forall₂ (Q t t')
  matched : ∀ {left left' right right' a a' b b'}, R left left' → R right right' →
    κ.apart left right → ∀ {t t'}, κ.Step s s' t t' → Q t t' a a' → Q t t' b b' →
      (scalar κ.right left').Reaches a' → (scalar κ.right right').Reaches b' →
      κ.Runs t t' (matched κ.left.options.naming left right a b)
        (matched κ.right.options.naming left' right' a' b')
          fun t t' p q => Q t t' p.1 q.1 ∧ Q t t' p.2 q.2

variable {κ Q} {R : Expr → Expr → Prop} {size : Nat} {s s' t t' : Scope}

/-! ## Scalars of parts -/

namespace Congruence

variable (hQ : κ.Congruence Q) {a b a' b' : Scalar}

include hQ

theorem memberOf (h : Q t t' a b) (ty : HostType) (m : Member) :
    Q t t' (memberOf κ.left.options.naming ty m a) (memberOf κ.right.options.naming ty m b) := by
  unfold Compilation.memberOf
  rw [κ.naming]
  split
  · exact h
  · split
    · exact hQ.function rfl (.cons h .nil)
    · split
      · exact hQ.function rfl (.cons h .nil)
      · exact hQ.function rfl (.cons h .nil)
      · exact hQ.function rfl (.cons h .nil)
      · exact hQ.index h (hQ.literal _)

theorem unaryOf (h : Q t t' a b) (op : UnaryOp) : Q t t' (unaryOf op a) (unaryOf op b) := by
  cases op with
  | negate => exact hQ.unary .minus h
  | unaryPlus => exact hQ.unary .plus h
  | not => exact hQ.not h
  | onesComplement => exact hQ.unary .bitwiseNot h
  | convert => exact h
  | quote => exact h
  | typeAs => exact h
  | arrayLength => exact hQ.function rfl (.cons h .nil)

theorem combine (op : BinaryOp) (text : Bool) (h : Q s s' a a') (h' : Q s s' b b') :
    κ.Runs s s' (ofExcept (combine op text a b)) (ofExcept (combine op text a' b')) Q := by
  refine .ofExcept fun c hc => .inl ?_
  unfold Compilation.combine at hc ⊢
  split at hc
  · obtain rfl := Except.ok.inj hc
    exact ⟨_, rfl, hQ.index h h'⟩
  · cases ho : operator? op text with
    | none =>
      rw [ho] at hc
      cases hc
    | some operator =>
      rw [ho] at hc
      obtain rfl := Except.ok.inj hc
      exact ⟨_, rfl, hQ.binary operator h h'⟩

/-- Properties with the given names. -/
theorem zip {as bs : List Scalar} (h : List.Forall₂ (Q t t') as bs) (names : List String) :
    Q t t' (.object (names.zip as)) (.object (names.zip bs)) := by
  refine hQ.object ?_
  induction h generalizing names with
  | nil =>
    rw [List.zip_nil_right]
    exact .nil
  | cons hab _ ih =>
    cases names with
    | nil => exact .nil
    | cons name names => exact .cons ⟨rfl, hab⟩ (ih names)

end Congruence

/-! ## Parts -/

namespace Parts

theorem step (h : κ.Parts Q R size s s') (hs : κ.Step s s' t t') : κ.Parts Q R size t t' :=
  { h with
    runs := fun hr hd _ _ hu => h.runs hr hd (hs.trans hu)
    listed := fun hr _ _ hu => h.listed hr (hs.trans hu)
    arguments := fun hr _ _ hu => h.arguments hr (hs.trans hu)
    matched := fun hl hr hapart _ _ hu => h.matched hl hr hapart (hs.trans hu) }

variable {e e' : Expr} {es es' : List Expr}

theorem scalar (h : κ.Parts Q R size s s') (hr : R e e') (hsize : sizeOf e < size) :
    κ.Runs s s' (scalar κ.left e) (scalar κ.right e') Q :=
  h.runs hr hsize (.refl κ s s')

theorem constant (h : κ.Parts Q R size s s') {v : Value} {ty : HostType}
    (hr : R (.constant v ty) e') : e' = .constant v ty := by
  have hlooks := (h.looks hr).constant
  have hty := h.ty hr
  cases e' with
  | constant v' ty' =>
    obtain rfl := Option.some.inj hlooks
    obtain rfl : ty = ty' := hty
    rfl
  | _ => cases hlooks

theorem of_constant (h : κ.Parts Q R size s s') {v : Value} {ty : HostType}
    (hr : R e (.constant v ty)) : e = .constant v ty := by
  have hlooks := (h.looks hr).constant
  have hty := h.ty hr
  cases e with
  | constant v' ty' =>
    obtain rfl := Option.some.inj hlooks
    obtain rfl : ty' = ty := hty
    rfl
  | _ => cases hlooks

variable (hQ : κ.Congruence Q)

include hQ

theorem scalars (h : κ.Parts Q R size s s') (hr : List.Forall₂ R es es')
    (hsize : ∀ e ∈ es, sizeOf e < size) :
    κ.Runs s s' (scalars κ.left es) (scalars κ.right es') fun t t' => List.Forall₂ (Q t t') := by
  induction hr generalizing s s' with
  | nil =>
    rw [Compilation.scalars, Compilation.scalars]
    exact .pure .nil
  | cons he _ ih =>
    obtain ⟨hhead, htail⟩ := List.forall_mem_cons.mp hsize
    rw [Compilation.scalars, Compilation.scalars]
    refine .bind (h.scalar he hhead) fun t t' a b hst hab => ?_
    refine .bind (ih (h.step hst) htail) fun u u' as bs hsu has => ?_
    exact .pure (.cons (hQ.step hab hsu) has)

theorem properties (h : κ.Parts Q R size s s') {bindings : List Binding} {ds : List Expr}
    (hr : List.Forall₂ R (Binding.childrenOfAll bindings) ds)
    (hsize : ∀ e ∈ Binding.childrenOfAll bindings, sizeOf e < size) :
    κ.Runs s s' (properties κ.left bindings)
      (properties κ.right (Binding.rebuildAll bindings ds))
        fun t t' => List.Forall₂ fun p q => p.1 = q.1 ∧ Q t t' p.2 q.2 := by
  induction bindings generalizing s s' ds with
  | nil =>
    rw [Binding.rebuildAll, Compilation.properties, Compilation.properties]
    exact .pure .nil
  | cons binding bindings ih =>
    cases binding with
    | assign m value =>
      obtain ⟨d, ds, hd, hrest, rfl⟩ := List.forall₂_cons_left_iff.mp hr
      obtain ⟨hvalue, hvalues⟩ := List.forall_mem_cons.mp hsize
      show κ.Runs s s' (Compilation.properties κ.left (.assign m value :: bindings))
        (Compilation.properties κ.right (.assign m d :: Binding.rebuildAll bindings ds)) _
      rw [Compilation.properties, Compilation.properties, κ.naming]
      refine .bind (h.scalar hd hvalue) fun t t' a b hst hab => ?_
      refine .bind (ih (h.step hst) hrest hvalues) fun u u' ps qs hsu hps => ?_
      exact .pure (.cons ⟨rfl, hQ.step hab hsu⟩ hps)
    | nested m bs =>
      rw [Binding.rebuildAll, Binding.rebuild, Compilation.properties, Compilation.properties]
      exact .throw _ _
    | collect m es =>
      rw [Binding.rebuildAll, Binding.rebuild, Compilation.properties, Compilation.properties]
      exact .throw _ _

/-! ## Operations -/

theorem binary (h : κ.Parts Q R size s s') (op : BinaryOp) {left right left' right' : Expr}
    (hl : R left left') (hr : R right right') (hapart : κ.apart left right) (ty : HostType)
    (hsize : sizeOf left + sizeOf right ≤ size) :
    κ.Runs s s' (binary κ.left op left right ty) (binary κ.right op left' right' ty) Q := by
  rw [Compilation.binary, Compilation.binary]
  have hlpos := left.sizeOf_pos
  have hrpos := right.sizeOf_pos
  rcases optionRel_cases (stringComparison?_rel
      (R := fun p q => (R p.1 q.1 ∧ R p.2 q.2) ∧ κ.apart p.1 p.2) (h.compared hl) (h.compared hr)
      (h.looks hl).constant (h.looks hr).constant op) with
    ⟨h₁, h₂⟩ |
    ⟨⟨⟨⟨a, b⟩, hab⟩, op₁⟩, ⟨⟨⟨a', b'⟩, hab'⟩, op₂⟩, h₁, h₂, ⟨⟨hra, hrb⟩, hapart'⟩, hop⟩
  · rw [h₁, h₂]
    refine .bind (h.scalar hl (by omega)).reached fun t t' a a' hst ha => ?_
    refine .bind ((h.step hst).scalar hr (by omega)).reached fun u u' b b' hsu hb => ?_
    refine .bind (h.matched hl hr hapart (hst.trans hsu) (hQ.step ha.1 hsu) hb.1 ha.2 hb.2)
      fun v v' p q hsv hpq => ?_
    rw [← h.ty hl, ← h.ty hr]
    exact hQ.combine _ _ hpq.1 hpq.2
  · rw [h₁, h₂]
    obtain rfl : op₁ = op₂ := hop
    dsimp only at hab hra hrb hapart' ⊢
    split
    · exact binary h op₁ hra hrb hapart' .boolean (Nat.le_of_lt (Nat.lt_of_lt_of_le hab hsize))
    · exact .throw _ _
termination_by sizeOf left + sizeOf right

/-! ## Calls -/

theorem userFunction (h : κ.Parts Q R size s s') (hr : List.Forall₂ R es es')
    (hsize : ∀ e ∈ es, sizeOf e < size) :
    κ.Runs s s' (userFunction κ.left es) (userFunction κ.right es') Q := by
  have hcall : ∀ (name : String) {t t' : Scope} {as bs : List Scalar},
      List.Forall₂ (Q t t') as bs →
        κ.Runs t t' (pure (.call name as true)) (pure (.call name bs true)) Q :=
    fun name _ _ _ _ has => .pure (hQ.call name true (.inl rfl) has)
  have hname : functionName? es.head? = functionName? es'.head? := by
    cases hr with
    | nil => rfl
    | cons hd _ =>
      unfold functionName?
      rw [List.head?_cons, List.head?_cons, Option.bind_some, Option.bind_some,
        (h.looks hd).constant]
  rw [Compilation.userFunction, Compilation.userFunction, hname]
  refine .bind (.same _) fun t t' name name' hst hn => ?_
  obtain ⟨rfl, -⟩ := hn
  replace h := h.step hst
  split
  · rename_i head items ty
    obtain ⟨_, _, -, hrest, rfl⟩ := List.forall₂_cons_left_iff.mp hr
    obtain ⟨_, _, hra, hnil, rfl⟩ := List.forall₂_cons_left_iff.mp hrest
    cases hnil
    obtain ⟨items', ty', rfl⟩ := (h.looks hra).newArray.mp ⟨items, ty, rfl⟩
    have harray : sizeOf (Expr.newArray items ty) < size := hsize _ (by simp)
    exact .bind (h.scalars hQ (h.items hra) fun e he =>
      Nat.lt_trans (Expr.sizeOf_child (e := .newArray items ty) he) harray)
        fun u u' as bs _ has => hcall name has
  · rename_i head items ty
    obtain ⟨_, _, -, hrest, rfl⟩ := List.forall₂_cons_left_iff.mp hr
    obtain ⟨_, _, hra, hnil, rfl⟩ := List.forall₂_cons_left_iff.mp hrest
    cases hnil
    obtain rfl := h.constant hra
    exact .bind (h.arguments hra (.refl κ _ _)) fun u u' as bs _ has => hcall name has
  · rename_i head rest hnewArray hconstant
    obtain ⟨head', rest', -, hrest, rfl⟩ := List.forall₂_cons_left_iff.mp hr
    have hplain : κ.Runs t t' (do return .call name (← Compilation.scalars κ.left rest) true)
        (do return .call name (← Compilation.scalars κ.right rest') true) Q :=
      .bind (h.scalars hQ hrest fun e he => hsize e (List.mem_cons_of_mem _ he))
        fun u u' as bs _ has => hcall name has
    split
    · rename_i items ty heq
      cases heq
      obtain ⟨_, _, hra, hnil, rfl⟩ := List.forall₂_cons_right_iff.mp hrest
      cases hnil
      obtain ⟨ds, ty', rfl⟩ := (h.looks hra).newArray.mpr ⟨items, ty, rfl⟩
      exact (hnewArray _ _ rfl).elim
    · rename_i items ty heq
      cases heq
      obtain ⟨_, _, hra, hnil, rfl⟩ := List.forall₂_cons_right_iff.mp hrest
      cases hnil
      obtain rfl := h.of_constant hra
      exact (hconstant _ _ rfl).elim
    · rename_i heq
      cases heq
      exact hplain
    · rename_i heq
      cases heq
  · cases hr
    exact hcall name .nil

/-- An argument of a builtin function. -/
theorem operand (h : κ.Parts Q R size s s') (hr : R e e') (hsize : sizeOf e < size) :
    κ.Operands Q s s' ⟨e, Compilation.scalar κ.left e⟩ ⟨e', Compilation.scalar κ.right e'⟩ := by
  have harrays : (∃ items ty, e = .newArray items ty) → ∀ {t t'}, κ.Step s s' t t' →
      κ.Runs t t' (Compilation.scalar κ.left e) (Compilation.scalar κ.right e') (Arrays Q) := by
    rintro ⟨items, ty, rfl⟩ t t' hst
    obtain ⟨items', ty', rfl⟩ := (h.looks hr).newArray.mp ⟨items, ty, rfl⟩
    rw [Compilation.scalar, Compilation.scalar]
    exact .bind ((h.step hst).scalars hQ (h.items hr) fun d hd =>
      Nat.lt_trans (Expr.sizeOf_child (e := .newArray items ty) hd) hsize)
        fun u u' as bs _ has => .pure ⟨as, bs, rfl, rfl, has⟩
  refine ⟨h.looks hr, fun hst => h.runs hr hsize hst, harrays, fun hl t t' hst => ?_⟩
  change Builtin.isInlineList e = true at hl
  unfold Builtin.isInlineList at hl
  split at hl
  · obtain rfl := h.constant hr
    show κ.Runs t t' (Compilation.scalar κ.left _) (Compilation.scalar κ.right _) (κ.Listed Q)
    rw [Compilation.scalar, Compilation.scalar]
    exact h.listed hr hst
  · exact (harrays ⟨_, _, rfl⟩ hst).imp fun u u' a b _ hab => .inl hab
  · cases hl

/-- A call that is neither an aggregate of a group nor a nested query. -/
theorem call (h : κ.Parts Q R size s s') {target target' : Option Expr} {method : Method}
    {args args' : List Expr} (ty : HostType) (ht : Option.Rel R target target')
    (hr : List.Forall₂ R args args') (hsize : ∀ e ∈ target.toList ++ args, sizeOf e < size)
    (hlists : method.name = "Contains" → κ.lists)
    (hgroup : groupSource? s method args = none) (hgroup' : groupSource? s' method args' = none)
    (hnested : isNestedQuery target method args = false)
    (hnested' : isNestedQuery target' method args' = false) :
    κ.Runs s s' (Compilation.scalar κ.left (.call target method args ty))
      (Compilation.scalar κ.right (.call target' method args' ty)) Q := by
  obtain ⟨htarget, hargs⟩ := List.forall_mem_append.mp hsize
  rw [Compilation.scalar, Compilation.scalar]
  split
  · exact h.userFunction hQ hr hargs
  refine .get_bind ?_
  rw [hgroup, hgroup']
  dsimp only
  rw [hnested, hnested', if_neg Bool.false_ne_true, if_neg Bool.false_ne_true]
  have hall : List.Forall₂ (κ.Operands Q s s')
      (args.map fun arg => Operand.mk arg (Compilation.scalar κ.left arg))
      (args'.map fun arg => Operand.mk arg (Compilation.scalar κ.right arg)) := by
    rw [List.forall₂_map_left_iff, List.forall₂_map_right_iff]
    obtain ⟨hlength, hzip⟩ := List.forall₂_iff_zip.mp hr
    exact List.forall₂_iff_zip.mpr ⟨hlength, fun hp =>
      h.operand hQ (hzip hp) (hargs _ (List.of_mem_zip hp).1)⟩
  cases ht with
  | none => exact .builtin hQ method hlists hall .none
  | some ht =>
    exact .builtin hQ method hlists hall
      (.some (h.operand hQ ht (htarget _ (List.mem_singleton_self _))))

/-! ## Nodes -/

/-- **The scalar of a node comes out related** when those of its parts do. -/
theorem node (h : κ.Parts Q R (sizeOf e) s s') (he : e.IsComposite) (hadm : κ.admits e)
    {ds : List Expr} (hr : List.Forall₂ R e.children ds) :
    κ.Runs s s' (Compilation.scalar κ.left e) (Compilation.scalar κ.right (e.rebuild ds)) Q := by
  have hsize : ∀ d ∈ e.children, sizeOf d < sizeOf e := fun d hd => Expr.sizeOf_child hd
  cases e with
  | constant | parameter | lambda | call => exact he.elim
  | listInit base items ty =>
    obtain ⟨d, ds, -, -, rfl⟩ := List.forall₂_cons_left_iff.mp hr
    show κ.Runs s s' (Compilation.scalar κ.left _)
      (Compilation.scalar κ.right (.listInit d ds ty)) Q
    rw [Compilation.scalar, Compilation.scalar]
    exact .throw _ _
  | invoke target args ty =>
    obtain ⟨d, ds, -, -, rfl⟩ := List.forall₂_cons_left_iff.mp hr
    show κ.Runs s s' (Compilation.scalar κ.left _) (Compilation.scalar κ.right (.invoke d ds ty)) Q
    rw [Compilation.scalar, Compilation.scalar]
    exact .throw _ _
  | member object m ty =>
    cases object with
    | none =>
      show κ.Runs s s' (Compilation.scalar κ.left _)
        (Compilation.scalar κ.right (.member none m ty)) Q
      rw [Compilation.scalar, Compilation.scalar]
      exact .throw _ _
    | some object =>
      obtain ⟨d, _, hd, hnil, rfl⟩ := List.forall₂_cons_left_iff.mp hr
      show κ.Runs s s' (Compilation.scalar κ.left _)
        (Compilation.scalar κ.right (.member (some d) m ty)) Q
      rw [Compilation.scalar, Compilation.scalar, ← h.ty hd]
      exact .bind (h.scalar hd (hsize _ List.mem_cons_self)) fun t t' a b _ hab =>
        .pure (hQ.memberOf hab object.ty m)
  | binary op left right ty =>
    obtain ⟨l, _, hl, hrest, rfl⟩ := List.forall₂_cons_left_iff.mp hr
    obtain ⟨r, _, hright, -, rfl⟩ := List.forall₂_cons_left_iff.mp hrest
    show κ.Runs s s' (Compilation.scalar κ.left _)
      (Compilation.scalar κ.right (.binary op l r ty)) Q
    rw [Compilation.scalar, Compilation.scalar]
    refine h.binary hQ op hl hright (κ.admits_binary hadm) ty ?_
    simp only [Expr.binary.sizeOf_spec]
    omega
  | unary op operand ty =>
    obtain ⟨d, _, hd, -, rfl⟩ := List.forall₂_cons_left_iff.mp hr
    show κ.Runs s s' (Compilation.scalar κ.left _) (Compilation.scalar κ.right (.unary op d ty)) Q
    rw [Compilation.scalar, Compilation.scalar]
    exact .bind (h.scalar hd (hsize _ List.mem_cons_self)) fun t t' a b _ hab =>
      .pure (hQ.unaryOf hab op)
  | conditional test ifTrue ifFalse ty =>
    obtain ⟨hsize₁, hsize₂⟩ := List.forall_mem_cons.mp hsize
    obtain ⟨hsize₂, hsize₃⟩ := List.forall_mem_cons.mp hsize₂
    obtain ⟨c, _, h₁, hbranches, rfl⟩ := List.forall₂_cons_left_iff.mp hr
    obtain ⟨d, _, h₂, hlast, rfl⟩ := List.forall₂_cons_left_iff.mp hbranches
    obtain ⟨d', _, h₃, -, rfl⟩ := List.forall₂_cons_left_iff.mp hlast
    show κ.Runs s s' (Compilation.scalar κ.left _)
      (Compilation.scalar κ.right (Expr.conditional c d d' ty)) Q
    rw [Compilation.scalar, Compilation.scalar]
    refine .bind (h.scalar h₁ hsize₁) fun t t' a b hst hab => ?_
    refine .bind ((h.step hst).scalar h₂ hsize₂) fun u u' c d hsu hcd => ?_
    refine .bind ((h.step (hst.trans hsu)).scalar h₃ (hsize₃ _ List.mem_cons_self))
      fun v v' i j hsv hij => ?_
    exact .pure (hQ.conditional (hQ.step hab (hsu.trans hsv)) (hQ.step hcd hsv) hij)
  | construct args members ty =>
    have hplain : ty.underlying ≠ .geometry := he
    have hscalars := h.scalars hQ hr hsize
    show κ.Runs s s' (Compilation.scalar κ.left _)
      (Compilation.scalar κ.right (.construct ds members ty)) Q
    cases members with
    | some members =>
      rw [Compilation.scalar, Compilation.scalar, if_neg hplain, if_neg hplain, κ.naming,
        show args.length = ds.length from hr.length_eq]
      split
      · exact .throw _ _
      · exact .bind hscalars fun t t' as bs _ has => .pure (hQ.zip has _)
    | none =>
      rw [Compilation.scalar, Compilation.scalar, if_neg hplain, if_neg hplain]
      cases hr with
      | nil => exact .pure (hQ.object .nil)
      | cons => exact .throw _ _
  | memberInit base bindings ty =>
    obtain ⟨d, ds, -, hrest, rfl⟩ := List.forall₂_cons_left_iff.mp hr
    show κ.Runs s s' (Compilation.scalar κ.left _)
      (Compilation.scalar κ.right (.memberInit d (Binding.rebuildAll bindings ds) ty)) Q
    rw [Compilation.scalar, Compilation.scalar]
    exact .bind (h.properties hQ hrest fun d hd => hsize d (List.mem_cons_of_mem _ hd))
      fun t t' ps qs _ hps => .pure (hQ.object hps)
  | newArray items ty =>
    show κ.Runs s s' (Compilation.scalar κ.left _) (Compilation.scalar κ.right (.newArray ds ty)) Q
    rw [Compilation.scalar, Compilation.scalar]
    exact .bind (h.scalars hQ hr hsize) fun t t' as bs _ has => .pure (hQ.array has)

end Parts

end Setting

end LambdaQuery
