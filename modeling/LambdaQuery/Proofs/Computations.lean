import LambdaQuery.Proofs.Alike.Runs
import LambdaQuery.Proofs.Edits

/-!
# Computations that succeeded

What the parts of a computation have done that came to a result, and what holds of the result
(`Compilation.Gives`, or `Compilation.GivesIn` among scopes of one kind): one rule for each
combinator, and from them that the stage after grouping is grouped (`hasGroupBy_of_rows`).
-/

set_option autoImplicit false

namespace LambdaQuery

namespace Compilation

section

variable {α β : Type} {sc t : Scope} {a : α} {b : β}

theorem bind_eq_ok {x : Compilation α} {f : α → Compilation β} :
    (x >>= f) sc = (.ok b, t) ↔ ∃ a u, x sc = (.ok a, u) ∧ f a u = (.ok b, t) := by
  rw [Compilation.run_bind]
  rcases x sc with ⟨_ | a, u⟩
  · exact ⟨fun h => (nomatch h), fun ⟨_, _, h, _⟩ => (nomatch h)⟩
  · exact ⟨fun h => ⟨a, u, rfl, h⟩, fun ⟨_, _, h, h'⟩ => by cases h; exact h'⟩

theorem ofExcept_eq_ok {x : Except CompileError α} :
    (ofExcept x : Compilation α) sc = (.ok a, t) ↔ x = .ok a ∧ t = sc := by
  cases x with
  | error => exact ⟨fun h => (nomatch h), fun h => (nomatch h.1)⟩
  | ok b => exact ⟨fun h => by cases h; exact ⟨rfl, rfl⟩, fun ⟨h, ht⟩ => by cases h; cases ht; rfl⟩

theorem pure_eq_ok {a b : α} : (pure a : Compilation α) sc = (.ok b, t) ↔ b = a ∧ t = sc :=
  ⟨fun h => by cases h; exact ⟨rfl, rfl⟩, fun ⟨h, h'⟩ => by rw [h, h']; rfl⟩

theorem bind_ofExcept_ok {f : β → Compilation α}
    (h : (ofExcept (Except.ok b) >>= f) sc = (.ok a, t)) : f b sc = (.ok a, t) := by
  rw [Compilation.run_bind] at h
  exact h

theorem edit_eq_ok {stage u : Stage} {change : Stage.Edit Unit}
    (h : edit stage change sc = (.ok u, t)) : change stage = (.ok (), u) ∧ t = sc := by
  unfold edit at h
  rcases hc : change stage with ⟨_ | _, u'⟩
  · rw [hc] at h
    cases h
  · rw [hc] at h
    cases h
    exact ⟨rfl, rfl⟩

/-- The query of a nested chain is that of its stage. -/
theorem flattened_eq_ok {stage : Stage} {q : Query} (h : flattened stage sc = (.ok q, t)) :
    stage.toQuery = .ok q := by
  obtain ⟨_, _, hok, hset⟩ := bind_eq_ok.mp h
  obtain ⟨_, _, -, hq⟩ := bind_eq_ok.mp hset
  rw [(pure_eq_ok.mp hq).1]
  exact (ofExcept_eq_ok.mp hok).1

theorem within_eq_ok {enter : Scope → Scope} {leave : Scope → Scope → Scope} {act : Compilation α}
    (h : within enter leave act sc = (.ok a, t)) :
    ∃ u, act (enter sc) = (.ok a, u) ∧ t = leave sc u := by
  unfold within at h
  rcases hu : act (enter sc) with ⟨r, u⟩
  rw [hu] at h
  cases h
  exact ⟨u, rfl, rfl⟩

variable {name : String} {stage : Stage} {act : Stage → Compilation α}

theorem withRow_outer_eq_ok {n : String} {cs : List Collection}
    (hc : sc.collections = .outer n :: cs) (h : withRow name stage act sc = (.ok a, t)) :
    ∃ u, act stage (sc.bindTo name stage.layer.row) = (.ok a, u) ∧
      t = u.unbind := by
  have hbind : sc.bind name stage = (stage.layer.row, sc.bindTo name stage.layer.row, stage) := by
    unfold Scope.bind
    rw [hc]
  unfold withRow at h
  rw [hbind] at h
  have hwithin : within (·.bindTo name stage.layer.row) (fun _ u => u.unbind) (act stage) sc =
    (.ok a, t) := h
  exact within_eq_ok hwithin

theorem withRow_inner_eq_ok {path : Scalar} {cs : List Collection}
    (hc : sc.collections = .inner path :: cs) (h : withRow name stage act sc = (.ok a, t)) :
    ∃ u, act (stage.addJoin (sc.fresh name).1 path)
        ((sc.fresh name).2.bindTo name (.ref (sc.fresh name).1)) = (.ok a, u) ∧
      t = u.unbind := by
  have hbind : sc.bind name stage = (.ref (sc.fresh name).1,
      (sc.fresh name).2.bindTo name (.ref (sc.fresh name).1),
      stage.addJoin (sc.fresh name).1 path) := by
    unfold Scope.bind
    rw [hc]
  unfold withRow at h
  rw [hbind] at h
  have hwithin : within (fun s => (s.fresh name).2.bindTo name (.ref (s.fresh name).1))
    (fun _ u => u.unbind) (act (stage.addJoin (sc.fresh name).1 path)) sc = (.ok a, t) := h
  exact within_eq_ok hwithin

end

/-! ## What computations give -/

section

variable {α β : Type}

/-- What the computation comes to, if it does, satisfies `P`. -/
def Gives (x : Compilation α) (P : α → Prop) : Prop := ∀ s a t, x s = (.ok a, t) → P a

namespace Gives

variable {x : Compilation α} {P Q : α → Prop} {R : β → Prop}

protected theorem pure {a : α} (h : P a) : (pure a : Compilation α).Gives P := by
  rintro s b t ⟨⟩
  exact h

protected theorem throw {e : CompileError} : (throw e : Compilation α).Gives P := by
  rintro s b t ⟨⟩

protected theorem bind {f : α → Compilation β} (h : x.Gives P) (hf : ∀ a, P a → (f a).Gives R) :
    (x >>= f).Gives R := by
  intro s b t hrun
  obtain ⟨a, u, hx, hrest⟩ := bind_eq_ok.mp hrun
  exact hf a (h s a u hx) u b t hrest

theorem of_reaches {a : α} (h : x.Gives P) (ha : x.Reaches a) : P a :=
  let ⟨s, t, hx⟩ := ha
  h s a t hx

theorem imp (h : x.Gives P) (hpq : ∀ a, P a → Q a) : x.Gives Q := fun s a t hx => hpq a (h s a t hx)

theorem and (h : x.Gives P) (h' : x.Gives Q) : x.Gives fun a => P a ∧ Q a :=
  fun s a t hx => ⟨h s a t hx, h' s a t hx⟩

protected theorem trivial : x.Gives fun _ => True := fun _ _ _ _ => trivial

/-- What is known once the first of two computations has come to a result. -/
theorem first {p : Prop} {f : α → Compilation β} (h : x.Gives fun _ => p) :
    (x >>= f).Gives fun _ => p := h.bind fun _ hp _ _ _ _ => hp

/-- What the second of two computations gives, whatever the first comes to. -/
theorem second {f : α → Compilation β} (h : ∀ a, (f a).Gives R) : (x >>= f).Gives R :=
  Gives.trivial.bind fun a _ => h a

protected theorem ofExcept {r : Except CompileError α} :
    (ofExcept r : Compilation α).Gives (r = .ok ·) := fun _ _ _ h => (ofExcept_eq_ok.mp h).1

/-- A condition that is refused. -/
theorem refuse {c : Prop} [Decidable c] {e : CompileError} {f : PUnit → Compilation α}
    (h : ¬c → (f ⟨⟩).Gives P) : (if c then throw e >>= f else f ⟨⟩).Gives P := by
  split
  · exact fun _ _ _ h => nomatch h
  · exact h ‹_›

theorem within {enter : Scope → Scope} {leave : Scope → Scope → Scope} (h : x.Gives P) :
    (within enter leave x).Gives P := by
  intro s a t hrun
  obtain ⟨u, hx, -⟩ := within_eq_ok hrun
  exact h (enter s) a u hx

theorem withRow {name : String} {stage : Stage} {act : Stage → Compilation α}
    (h : ∀ stage, (act stage).Gives P) : (withRow name stage act).Gives P := by
  intro s a t hrun
  have hact : (act (s.bind name stage).2.2 (s.bind name stage).2.1).1 = .ok a :=
    congrArg Prod.fst hrun
  exact h _ _ a _ (Prod.ext hact rfl)

end Gives

/-- Begun where `S` holds, the computation leaves it so, and what it comes to satisfies `P`. -/
def GivesIn (S : Scope → Prop) (x : Compilation α) (P : α → Prop) : Prop :=
  ∀ s a t, S s → x s = (.ok a, t) → S t ∧ P a

namespace GivesIn

variable {S : Scope → Prop} {x : Compilation α} {P Q : α → Prop} {R : β → Prop}

protected theorem pure {a : α} (h : P a) : (pure a : Compilation α).GivesIn S P := by
  rintro s b t hs ⟨⟩
  exact ⟨hs, h⟩

protected theorem throw {e : CompileError} : (throw e : Compilation α).GivesIn S P := by
  rintro s b t hs ⟨⟩

protected theorem bind {f : α → Compilation β} (h : x.GivesIn S P)
    (hf : ∀ a, P a → (f a).GivesIn S R) : (x >>= f).GivesIn S R := by
  intro s b t hs hrun
  obtain ⟨a, u, hx, hrest⟩ := bind_eq_ok.mp hrun
  obtain ⟨hu, ha⟩ := h s a u hs hx
  exact hf a ha u b t hu hrest

theorem imp (h : x.GivesIn S P) (hpq : ∀ a, P a → Q a) : x.GivesIn S Q :=
  fun s a t hs hx => (h s a t hs hx).imp_right (hpq a)

protected theorem ofExcept {r : Except CompileError α} :
    (ofExcept r : Compilation α).GivesIn S (r = .ok ·) := by
  intro s a t hs h
  obtain ⟨hr, rfl⟩ := ofExcept_eq_ok.mp h
  exact ⟨hs, hr⟩

end GivesIn

theorem Gives.givesIn {x : Compilation α} {P : α → Prop} (h : x.Gives P) :
    x.GivesIn (fun _ => True) P := fun s a t _ hx => ⟨trivial, h s a t hx⟩

theorem GivesIn.gives {x : Compilation α} {P : α → Prop} (h : x.GivesIn (fun _ => True) P) :
    x.Gives P := fun s a t hx => (h s a t trivial hx).2

end

/-! ## Operators -/

variable {env : Environment} {s t : Scope} {st st' : Stage}

/-- A call of an operator as a source. -/
theorem rows_call {target : Option Expr} {m : Method} {args : List Expr} {ty : HostType}
    (hm : m.isOperator = true) (h : rows env (.call target m args ty) s = (.ok st, t)) :
    ∃ u, operator env m.name args (s.pushMethod m.name) = (.ok st, u) ∧
      t = u.popMethod := by
  rw [rows, if_pos hm] at h
  exact within_eq_ok h

/-- What an operator is applied to. -/
theorem operator_eq_ok {method : String} {args : List Expr}
    (h : operator env method args s = (.ok st, t)) :
    ∃ source rest input u x v w, args = source :: rest ∧ rows env source s = (.ok input, u) ∧
      checkOrder input method = .ok () ∧ layered input method args.length u = (.ok x, v) ∧
        apply env method rest x (v.pushCollection (.outer x.layer.name)) = (.ok st, w) ∧
          t = w.popCollection := by
  cases args with
  | nil =>
    rw [operator] at h
    cases h
  | cons source rest =>
    rw [operator] at h
    obtain ⟨input, u, hrows, hchecked⟩ := bind_eq_ok.mp h
    obtain ⟨_, u', horder, hrest⟩ := bind_eq_ok.mp hchecked
    obtain ⟨hcheck, rfl⟩ := ofExcept_eq_ok.mp horder
    obtain ⟨x, v, hlayered, hwithin⟩ := bind_eq_ok.mp hrest
    obtain ⟨w, happly, ht⟩ := within_eq_ok hwithin
    exact ⟨source, rest, input, u', x, v, w, rfl, hrows, hcheck, hlayered, happly, ht⟩

/-- A call of an operator that needs no layer of its own. -/
theorem rows_step {target : Option Expr} {m : Method} {source : Expr} {rest : List Expr}
    {ty : HostType} {input : Stage} {u v : Scope} (hm : m.isOperator = true)
    (hrows : rows env source (s.pushMethod m.name) = (.ok input, u))
    (hcheck : checkOrder input m.name = .ok ())
    (hlayer : input.needsLayer m.name (rest.length + 1) = false)
    (happly : apply env m.name rest input (u.pushCollection (.outer input.layer.name)) =
      (.ok st, v))
    (ht : v.popCollection.popMethod = t) :
    rows env (.call target m (source :: rest) ty) s = (.ok st, t) := by
  have hlayered : layered input m.name (rest.length + 1) u = (.ok input, u) := by
    unfold layered
    rw [hlayer]
    rfl
  have hwithin : withCollection (.outer input.layer.name) (apply env m.name rest input) u =
      (.ok st, v.popCollection) := by
    unfold withCollection within
    rw [happly]
  have hoperator : operator env m.name (source :: rest) (s.pushMethod m.name) =
      (.ok st, v.popCollection) := by
    rw [operator]
    exact bind_eq_ok.mpr ⟨input, u, hrows, bind_eq_ok.mpr ⟨(), u, ofExcept_eq_ok.mpr ⟨hcheck, rfl⟩,
      bind_eq_ok.mpr ⟨input, u, hlayered, hwithin⟩⟩⟩
  rw [rows, if_pos hm, withMethod, within, hoperator, ← ht]

theorem hasGroupBy_of_grouped {rest : List Expr} (h : grouped env rest st s = (.ok st', t)) :
    st'.layer.hasGroupBy = true := by
  rw [grouped.eq_def] at h
  split at h
  · obtain ⟨l, u, -, hresult⟩ := bind_eq_ok.mp h
    obtain ⟨r, v, -, hkey⟩ := bind_eq_ok.mp hresult
    obtain ⟨⟨key, stage⟩, w, -, hvalue⟩ := bind_eq_ok.mp hkey
    dsimp only at hvalue
    split at hvalue
    · cases hvalue
    · obtain ⟨value, x, -, hedits⟩ := bind_eq_ok.mp hvalue
      obtain ⟨stage', y, hgroup, hselect⟩ := bind_eq_ok.mp hedits
      obtain ⟨-, rfl⟩ := Stage.addGroupBy_eq_ok.mp (edit_eq_ok hgroup).1
      obtain ⟨-, rfl⟩ := Stage.addSelect_eq_ok.mp (edit_eq_ok hselect).1
      rfl
  · cases h

end Compilation

/-- The stage of a call that groups is grouped, so that no operator may follow. -/
theorem Compilation.hasGroupBy_of_rows {env : Environment} {s t : Scope} {st : Stage} {e : Expr}
    (he : e.isGrouping = true) (h : rows env e s = (.ok st, t)) : st.layer.hasGroupBy = true := by
  cases e with
  | call target method args ty =>
    obtain ⟨hop, hname⟩ := Bool.and_eq_true_iff.mp he
    obtain ⟨u, hoperator, -⟩ := rows_call hop h
    obtain ⟨source, rest, input, u, x, v, w, -, -, -, -, happly, -⟩ := operator_eq_ok hoperator
    rw [beq_iff_eq.mp hname, apply.eq_17] at happly
    exact hasGroupBy_of_grouped happly
  | _ => cases he

end LambdaQuery
