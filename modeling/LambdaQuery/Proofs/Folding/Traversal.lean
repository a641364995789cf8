import LambdaQuery.Proofs.Folding.Rebuild

/-!
# Visiting the parts of a node

`Expr.mapChildren` visits what `Expr.children` lists. The action on the parts may have a state and
may fail; `logged` writes down what it is called on. `Expr.mapChildren_visits`: the action is
called on the children, in order, up to the first that it fails on, and where it fails on none the
results are the children of a node of the same form (`Expr.SameForm`). Both follow from what the
action does on a list (`mapM_logged`), since `mapChildren` is the action on the list of the
children (`Expr.mapChildren_eq`).
-/

set_option autoImplicit false

namespace LambdaQuery

/-! ## Forms -/

mutual

/-- The same member, and as many expressions in the same places. -/
inductive Binding.SameForm : Binding → Binding → Prop where
  | assign {member : Member} {value value' : Expr} :
    Binding.SameForm (.assign member value) (.assign member value')
  | nested {member : Member} {bs bs' : List Binding} (h : Binding.AllSameForm bs bs') :
    Binding.SameForm (.nested member bs) (.nested member bs')
  | collect {member : Member} {items items' : List Expr} (h : items'.length = items.length) :
    Binding.SameForm (.collect member items) (.collect member items')

inductive Binding.AllSameForm : List Binding → List Binding → Prop where
  | nil : Binding.AllSameForm [] []
  | cons {b b' : Binding} {bs bs' : List Binding} (h : Binding.SameForm b b')
    (hbs : Binding.AllSameForm bs bs') : Binding.AllSameForm (b :: bs) (b' :: bs')

end

/-- Nodes that differ in their parts alone: all else that the node holds is the same, and so is the
number of parts in each place. -/
inductive Expr.SameForm : Expr → Expr → Prop where
  | constant {value : Value} {ty : HostType} :
    Expr.SameForm (.constant value ty) (.constant value ty)
  | parameter {name : String} {ty : HostType} :
    Expr.SameForm (.parameter name ty) (.parameter name ty)
  | member {object object' : Option Expr} {accessed : Member} {ty : HostType}
    (h : object'.isSome = object.isSome) :
    Expr.SameForm (.member object accessed ty) (.member object' accessed ty)
  | binary {op : BinaryOp} {l r l' r' : Expr} {ty : HostType} :
    Expr.SameForm (.binary op l r ty) (.binary op l' r' ty)
  | unary {op : UnaryOp} {d d' : Expr} {ty : HostType} :
    Expr.SameForm (.unary op d ty) (.unary op d' ty)
  | conditional {t a b t' a' b' : Expr} {ty : HostType} :
    Expr.SameForm (.conditional t a b ty) (.conditional t' a' b' ty)
  | call {target target' : Option Expr} {method : Method} {args args' : List Expr} {ty : HostType}
    (htarget : target'.isSome = target.isSome) (hargs : args'.length = args.length) :
    Expr.SameForm (.call target method args ty) (.call target' method args' ty)
  | construct {args args' : List Expr} {members : Option (List Member)} {ty : HostType}
    (hargs : args'.length = args.length) :
    Expr.SameForm (.construct args members ty) (.construct args' members ty)
  | memberInit {base base' : Expr} {bs bs' : List Binding} {ty : HostType}
    (hbs : Binding.AllSameForm bs bs') :
    Expr.SameForm (.memberInit base bs ty) (.memberInit base' bs' ty)
  | listInit {base base' : Expr} {items items' : List Expr} {ty : HostType}
    (hitems : items'.length = items.length) :
    Expr.SameForm (.listInit base items ty) (.listInit base' items' ty)
  | newArray {items items' : List Expr} {ty : HostType} (hitems : items'.length = items.length) :
    Expr.SameForm (.newArray items ty) (.newArray items' ty)
  | lambda {params : List Param} {body body' : Expr} :
    Expr.SameForm (.lambda params body) (.lambda params body')
  | invoke {target target' : Expr} {args args' : List Expr} {ty : HostType}
    (hargs : args'.length = args.length) :
    Expr.SameForm (.invoke target args ty) (.invoke target' args' ty)

mutual

theorem Binding.sameForm_rebuild : ∀ (b : Binding) (ds : List Expr),
    ds.length = b.children.length → b.SameForm (b.rebuild ds)
  | .assign _ _, _, _ => .assign
  | .nested _ bs, ds, h => .nested (Binding.sameForm_rebuildAll bs ds h)
  | .collect _ _, _, h => .collect h

theorem Binding.sameForm_rebuildAll : ∀ (bs : List Binding) (ds : List Expr),
    ds.length = (Binding.childrenOfAll bs).length →
    Binding.AllSameForm bs (Binding.rebuildAll bs ds)
  | [], _, _ => .nil
  | b :: bs, ds, h => by
    simp only [Binding.childrenOfAll, List.length_append] at h
    exact .cons (Binding.sameForm_rebuild b _ (by simp; omega))
      (Binding.sameForm_rebuildAll bs _ (by simp; omega))

end

/-- A node with as many other parts has the form of the node. -/
theorem Expr.sameForm_rebuild {e : Expr} {ds : List Expr} (h : ds.length = e.children.length) :
    e.SameForm (e.rebuild ds) := by
  cases e with
  | constant => exact .constant
  | parameter => exact .parameter
  | member object =>
    cases object with
    | none => exact .member rfl
    | some => obtain ⟨d, rfl⟩ := List.length_eq_one_iff.mp h; exact .member rfl
  | binary => obtain ⟨l, r, rfl⟩ := List.length_eq_two.mp h; exact .binary
  | unary => obtain ⟨d, rfl⟩ := List.length_eq_one_iff.mp h; exact .unary
  | conditional => obtain ⟨t, a, b, rfl⟩ := List.length_eq_three.mp h; exact .conditional
  | call target =>
    cases target with
    | none => exact .call rfl h
    | some =>
      obtain ⟨t, ds, rfl⟩ := List.exists_cons_of_length_eq_add_one h
      exact .call rfl (Nat.succ.inj h)
  | construct => exact .construct h
  | memberInit base bindings =>
    obtain ⟨b, ds, rfl⟩ := List.exists_cons_of_length_eq_add_one h
    exact .memberInit (Binding.sameForm_rebuildAll bindings ds (Nat.succ.inj h))
  | listInit =>
    obtain ⟨b, ds, rfl⟩ := List.exists_cons_of_length_eq_add_one h
    exact .listInit (Nat.succ.inj h)
  | newArray => exact .newArray h
  | lambda => obtain ⟨b, rfl⟩ := List.length_eq_one_iff.mp h; exact .lambda
  | invoke =>
    obtain ⟨t, ds, rfl⟩ := List.exists_cons_of_length_eq_add_one h
    exact .invoke (Nat.succ.inj h)

/-! ## Calls -/

section

variable {α ε σ : Type}

/-- The action `f` succeeds on all items, one after another: what it gives for them, and the state
that it leaves. -/
inductive Succeeds (f : α → ExceptT ε (StateM σ) α) : σ → List α → List α → σ → Prop where
  | nil {s : σ} : Succeeds f s [] [] s
  | cons {s t u : σ} {a b : α} {as bs : List α} (h : f a s = (.ok b, t))
    (hrest : Succeeds f t as bs u) : Succeeds f s (a :: as) (b :: bs) u

/-- The action `f`, which writes down what it is called on. -/
def logged (f : α → ExceptT ε (StateM σ) α) (a : α) : ExceptT ε (StateM (List α × σ)) α :=
  ExceptT.mk fun s => ((f a s.2).1, (s.1 ++ [a], (f a s.2).2))

variable {f : α → ExceptT ε (StateM σ) α}

theorem Succeeds.length_eq {s t : σ} {as bs : List α} (h : Succeeds f s as bs t) :
    bs.length = as.length := by
  induction h with
  | nil => rfl
  | cons _ _ ih => rw [List.length_cons, List.length_cons, ih]

theorem bind_ok_run {β γ τ : Type} {x : ExceptT ε (StateM τ) β} {k : β → ExceptT ε (StateM τ) γ}
    {s t : τ} {b : β} (h : x s = (.ok b, t)) : (x >>= k) s = k b t := by
  simp only [Bind.bind, ExceptT.bind, ExceptT.mk, ExceptT.bindCont, StateT.bind, h]

theorem bind_error_run {β γ τ : Type} {x : ExceptT ε (StateM τ) β}
    {k : β → ExceptT ε (StateM τ) γ} {s t : τ} {error : ε} (h : x s = (.error error, t)) :
    (x >>= k) s = (.error error, t) := by
  simp only [Bind.bind, ExceptT.bind, ExceptT.mk, ExceptT.bindCont, StateT.bind, h]
  rfl

theorem map_ok_run {β γ τ : Type} {x : ExceptT ε (StateM τ) β} (k : β → γ) {s t : τ} {b : β}
    (h : x s = (.ok b, t)) : (k <$> x) s = (.ok (k b), t) := by
  rw [map_eq_pure_bind, bind_ok_run h]
  rfl

theorem map_error_run {β γ τ : Type} {x : ExceptT ε (StateM τ) β} (k : β → γ) {s t : τ}
    {error : ε} (h : x s = (.error error, t)) : (k <$> x) s = (.error error, t) := by
  rw [map_eq_pure_bind, bind_error_run h]

theorem logged_run {a : α} {r : Except ε α} {s t : σ} (h : f a s = (r, t)) (calls : List α) :
    logged f a (calls, s) = (r, (calls ++ [a], t)) := by
  show ((f a s).1, (calls ++ [a], (f a s).2)) = _
  rw [h]

/-- An action on a list is called on the items in order, up to the first on which it fails. -/
theorem mapM_logged (as calls : List α) (s : σ) :
    (∃ bs t, Succeeds f s as bs t ∧ as.mapM f s = (.ok bs, t) ∧
        as.mapM (logged f) (calls, s) = (.ok bs, (calls ++ as, t))) ∨
      ∃ before a after bs t error u, as = before ++ a :: after ∧ Succeeds f s before bs t ∧
        f a t = (.error error, u) ∧ as.mapM f s = (.error error, u) ∧
        as.mapM (logged f) (calls, s) = (.error error, (calls ++ (before ++ [a]), u)) := by
  induction as generalizing calls s with
  | nil => exact .inl ⟨[], s, .nil, rfl, by rw [List.append_nil]; rfl⟩
  | cons a as ih =>
    rw [List.mapM_cons, List.mapM_cons]
    rcases hf : f a s with ⟨_ | b, t⟩
    · refine .inr ⟨[], a, as, [], s, _, t, rfl, .nil, hf, bind_error_run hf, ?_⟩
      exact bind_error_run (logged_run hf calls)
    · rw [bind_ok_run hf, bind_ok_run (logged_run hf calls)]
      rcases ih (calls ++ [a]) t with ⟨bs, u, hbs, hrun, hlogged⟩ |
        ⟨before, c, after, bs, u, error, v, rfl, hbs, hc, hrun, hlogged⟩
      · refine .inl ⟨b :: bs, u, .cons hf hbs, bind_ok_run hrun, ?_⟩
        rw [bind_ok_run hlogged, List.append_assoc]
        rfl
      · refine .inr ⟨a :: before, c, after, b :: bs, u, error, v, rfl, .cons hf hbs, hc,
          bind_error_run hrun, ?_⟩
        rw [bind_error_run hlogged, List.append_assoc]
        rfl

end

/-! ## Nodes -/

/-- **The children are what is visited.** An action that may fail is called on the children of a
node, in order, and on no others. Where it succeeds on all of them, its results are the children of
the node that is built, which has the form of the first; otherwise it is called up to the first
child that it fails on, and fails with the error that it has there. What does nothing gives the
node itself. -/
theorem Expr.mapChildren_visits {ε σ : Type} (f : Expr → ExceptT ε (StateM σ) Expr) (e : Expr)
    (s : σ) :
    ((∃ ds t e', Succeeds f s e.children ds t ∧ e.mapChildren f s = (.ok e', t) ∧
          e.mapChildren (logged f) ([], s) = (.ok e', (e.children, t)) ∧
          e'.children = ds ∧ e.SameForm e') ∨
        ∃ before c after ds t error u, e.children = before ++ c :: after ∧
          Succeeds f s before ds t ∧ f c t = (.error error, u) ∧
          e.mapChildren f s = (.error error, u) ∧
          e.mapChildren (logged f) ([], s) = (.error error, (before ++ [c], u))) ∧
      e.mapChildren (m := ExceptT ε (StateM σ)) pure s = (.ok e, s) := by
  refine ⟨?_, ?_⟩
  · rw [Expr.mapChildren_eq, Expr.mapChildren_eq]
    rcases mapM_logged (f := f) e.children [] s with ⟨ds, t, hds, hrun, hlogged⟩ |
      ⟨before, c, after, ds, t, error, u, hchildren, hds, hc, hrun, hlogged⟩
    · exact .inl ⟨ds, t, e.rebuild ds, hds, map_ok_run _ hrun, map_ok_run _ hlogged,
        Expr.children_rebuild hds.length_eq, Expr.sameForm_rebuild hds.length_eq⟩
    · exact .inr ⟨before, c, after, ds, t, error, u, hchildren, hds, hc, map_error_run _ hrun,
        map_error_run _ hlogged⟩
  · rw [Expr.mapChildren_eq, List.mapM_pure, map_pure, List.map_id', Expr.rebuild_children]
    rfl

end LambdaQuery
