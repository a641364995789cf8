import LambdaQuery.Proofs.Alike.Basic

/-!
# Well-scoped queries

A query is `WellScoped` when every reference in it is to a name that is bound where it stands and no
source binds a name that is bound already. What is well-scoped is alike to itself
(`Scalar.WellScoped.alike`).
-/

set_option autoImplicit false

namespace LambdaQuery

/-! ## Well-scoped queries -/

/-- The names that are bound after sources. -/
def Source.bound : List String → List Source → List String
  | names, [] => names
  | names, s :: ss => Source.bound (s.name :: names) ss

mutual

/-- Every reference is to one of the bound names, or to what a source around it binds. -/
def Scalar.WellScoped (bound : List String) : Scalar → Prop
  | .literal _ | .parameter _ => True
  | .ref name => name ∈ bound
  | .index object key => object.WellScoped bound ∧ key.WellScoped bound
  | .binary _ left right => left.WellScoped bound ∧ right.WellScoped bound
  | .unary _ operand => operand.WellScoped bound
  | .call _ args _ => Scalar.AllWellScoped bound args
  | .array items => Scalar.AllWellScoped bound items
  | .object properties => Scalar.PropertiesWellScoped bound properties
  | .conditional test ifTrue ifFalse =>
    test.WellScoped bound ∧ ifTrue.WellScoped bound ∧ ifFalse.WellScoped bound
  | .isIn item items _ => item.WellScoped bound ∧ Scalar.AllWellScoped bound items
  | .exists query | .arrayOf query | .subquery query => query.WellScoped bound

def Scalar.AllWellScoped (bound : List String) : List Scalar → Prop
  | [] => True
  | s :: ss => s.WellScoped bound ∧ Scalar.AllWellScoped bound ss

def Scalar.PropertiesWellScoped (bound : List String) : List (String × Scalar) → Prop
  | [] => True
  | (_, s) :: ps => s.WellScoped bound ∧ Scalar.PropertiesWellScoped bound ps

def Projection.WellScoped (bound : List String) : Projection → Prop
  | .star => True
  | .value value => value.WellScoped bound

def Selection.WellScoped (bound : List String) : Selection → Prop
  | ⟨projection, _, _⟩ => projection.WellScoped bound

/-- A source sees the names that are bound before it, and binds a new one. -/
def Source.WellScoped (bound : List String) : Source → Prop
  | .container name => name ∉ bound
  | .items name path => path.WellScoped bound ∧ name ∉ bound
  | .subquery name query => query.WellScoped bound ∧ name ∉ bound

/-- Every source sees the names of those before it. -/
def Source.AllWellScoped : List String → List Source → Prop
  | _, [] => True
  | bound, s :: ss => s.WellScoped bound ∧ Source.AllWellScoped (s.name :: bound) ss

def SortKey.WellScoped (bound : List String) : SortKey → Prop
  | ⟨value, _⟩ => value.WellScoped bound

def SortKey.AllWellScoped (bound : List String) : List SortKey → Prop
  | [] => True
  | k :: ks => k.WellScoped bound ∧ SortKey.AllWellScoped bound ks

def Scalar.OptionWellScoped (bound : List String) : Option Scalar → Prop
  | none => True
  | some s => s.WellScoped bound

/-- The clauses of a query see what its sources bind besides the names bound around it. -/
def Query.WellScoped (bound : List String) : Query → Prop
  | ⟨selection, sources, filter, groupBy, orderBy, _, _⟩ =>
    Source.AllWellScoped bound sources ∧ selection.WellScoped (Source.bound bound sources) ∧
      Scalar.OptionWellScoped (Source.bound bound sources) filter ∧
        Scalar.AllWellScoped (Source.bound bound sources) groupBy ∧
          SortKey.AllWellScoped (Source.bound bound sources) orderBy

end

/-! ## Parts of well-scoped queries -/

variable {bound : List String}

theorem Source.AllWellScoped.nodup {ss : List Source} (h : Source.AllWellScoped bound ss) :
    (ss.map Source.name).Nodup ∧ ∀ n ∈ ss.map Source.name, n ∉ bound := by
  induction ss generalizing bound with
  | nil => exact ⟨List.nodup_nil, fun _ hn => nomatch hn⟩
  | cons s ss ih =>
    obtain ⟨hs, hss⟩ := h
    obtain ⟨hnodup, hnew⟩ := ih hss
    have hname : s.name ∉ bound := by
      cases s with
      | container name => exact hs
      | items name path => exact hs.2
      | subquery name query => exact hs.2
    refine ⟨List.nodup_cons.mpr ⟨fun hn => hnew _ hn List.mem_cons_self, hnodup⟩, fun n hn => ?_⟩
    rcases List.mem_cons.mp hn with rfl | hn
    · exact hname
    · exact fun hb => hnew n hn (List.mem_cons_of_mem _ hb)

theorem Selection.wellScoped_iff {s : Selection} :
    s.WellScoped bound ↔ Scalar.AllWellScoped bound s.value?.toList := by
  obtain ⟨projection, distinct, top⟩ := s
  cases projection with
  | star => exact Iff.rfl
  | value v => exact ⟨fun h => ⟨h, trivial⟩, fun h => h.1⟩

theorem Scalar.optionWellScoped_iff {s : Option Scalar} :
    Scalar.OptionWellScoped bound s ↔ Scalar.AllWellScoped bound s.toList := by
  cases s with
  | none => exact Iff.rfl
  | some s => exact ⟨fun h => ⟨h, trivial⟩, fun h => h.1⟩

theorem SortKey.allWellScoped_iff {ks : List SortKey} :
    SortKey.AllWellScoped bound ks ↔ Scalar.AllWellScoped bound (ks.map (·.value)) := by
  induction ks with
  | nil => exact Iff.rfl
  | cons k ks ih =>
    obtain ⟨value, descending⟩ := k
    exact and_congr_right fun _ => ih

/-! ## Well-scoped scalars are alike to themselves -/

/-- Only the names that sources bind differ, and none of them is one of the given names. -/
def Likeness.verbatim (taken : List String) : Likeness :=
  { Likeness.names with
    left := taken
    right := taken
    leaf_names := fun a b h => by
      obtain ⟨name, rfl, rfl⟩ := h
      exact ⟨List.nil_subset _, List.nil_subset _⟩ }

/-- The names stand for themselves. -/
def Context.ofNames (names : List String) : Context := names.map fun n => (n, n)

variable {taken : List String}

theorem Likeness.fresh_verbatim {n : String} (h : n ∉ bound) (h' : n ∉ bound ++ taken) :
    (Likeness.verbatim taken).Fresh (.ofNames bound) n n where
  left hn := h' (List.mem_append_right _ hn)
  right hn := h' (List.mem_append_right _ hn)
  unbound p hp := by
    obtain ⟨m, hm, rfl⟩ := List.mem_map.mp hp
    exact ⟨fun he => h (he ▸ hm), fun he => h (he ▸ hm)⟩
  named := False.elim

theorem optionRel_refl {α : Type} (x : Option α) : Option.Rel Eq x x := by
  cases x with
  | none => exact .none
  | some a => exact .some rfl

theorem Source.bound_append (ss : List Source) (names taken : List String) :
    Source.bound (names ++ taken) ss = Source.bound names ss ++ taken := by
  induction ss generalizing names with
  | nil => rfl
  | cons s ss ih => exact ih (s.name :: names)

mutual

/-- **A scalar is alike to itself** if its references are to bound names and its sources bind none
of the names that are taken. -/
theorem Scalar.WellScoped.alike : ∀ {bound : List String} (s : Scalar), s.WellScoped bound →
    s.WellScoped (bound ++ taken) → Scalar.Alike (.verbatim taken) (.ofNames bound) s s
  | _, .literal value, _, _ => .literal value
  | _, .parameter name, _, _ => .leaf ⟨name, rfl, rfl⟩
  | _, .ref _, h, _ => .ref (List.mem_map_of_mem h)
  | _, .index object key, h, h' =>
    .index (Scalar.WellScoped.alike object h.1 h'.1) (Scalar.WellScoped.alike key h.2 h'.2)
  | _, .binary op left right, h, h' =>
    .binary op (Scalar.WellScoped.alike left h.1 h'.1) (Scalar.WellScoped.alike right h.2 h'.2)
  | _, .unary op operand, h, h' => .unary op (Scalar.WellScoped.alike operand h h')
  | _, .call name args udf, h, h' => .call name udf (Scalar.AllWellScoped.alike args h h')
  | _, .array items, h, h' => .array (Scalar.AllWellScoped.alike items h h')
  | _, .object properties, h, h' => .object (Scalar.PropertiesWellScoped.alike properties h h')
  | _, .conditional test ifTrue ifFalse, h, h' =>
    .conditional (Scalar.WellScoped.alike test h.1 h'.1)
      (Scalar.WellScoped.alike ifTrue h.2.1 h'.2.1) (Scalar.WellScoped.alike ifFalse h.2.2 h'.2.2)
  | _, .isIn item items negated, h, h' =>
    .isIn negated (Scalar.WellScoped.alike item h.1 h'.1)
      (Scalar.AllWellScoped.alike items h.2 h'.2)
  | _, .exists query, h, h' => .exists (Query.WellScoped.alike query h h')
  | _, .arrayOf query, h, h' => .arrayOf (Query.WellScoped.alike query h h')
  | _, .subquery query, h, h' => .subquery (Query.WellScoped.alike query h h')

theorem Scalar.AllWellScoped.alike : ∀ {bound : List String} (ss : List Scalar),
    Scalar.AllWellScoped bound ss → Scalar.AllWellScoped (bound ++ taken) ss →
      Scalar.AllAlike (.verbatim taken) (.ofNames bound) ss ss
  | _, [], _, _ => .nil
  | _, s :: ss, h, h' =>
    .cons (Scalar.WellScoped.alike s h.1 h'.1) (Scalar.AllWellScoped.alike ss h.2 h'.2)

theorem Scalar.PropertiesWellScoped.alike : ∀ {bound : List String}
    (ps : List (String × Scalar)), Scalar.PropertiesWellScoped bound ps →
      Scalar.PropertiesWellScoped (bound ++ taken) ps →
        Scalar.PropertiesAlike (.verbatim taken) (.ofNames bound) ps ps
  | _, [], _, _ => .nil
  | _, (name, s) :: ps, h, h' =>
    .cons name (Scalar.WellScoped.alike s h.1 h'.1) (Scalar.PropertiesWellScoped.alike ps h.2 h'.2)

theorem Source.AllWellScoped.alike : ∀ {bound : List String} (ss : List Source),
    Source.AllWellScoped bound ss → Source.AllWellScoped (bound ++ taken) ss →
      Source.AllAlike (.verbatim taken) (.ofNames bound) ss ss (.ofNames (Source.bound bound ss))
  | _, [], _, _ => .nil
  | _, .container _ :: ss, h, h' =>
    .container (Likeness.fresh_verbatim h.1 h'.1) (Source.AllWellScoped.alike ss h.2 h'.2)
  | _, .items _ path :: ss, h, h' =>
    .items (Scalar.WellScoped.alike path h.1.1 h'.1.1) (Likeness.fresh_verbatim h.1.2 h'.1.2)
      (Source.AllWellScoped.alike ss h.2 h'.2)
  | _, .subquery _ query :: ss, h, h' =>
    .subquery (Query.WellScoped.alike query h.1.1 h'.1.1) (Likeness.fresh_verbatim h.1.2 h'.1.2)
      (Source.AllWellScoped.alike ss h.2 h'.2)

theorem Scalar.OptionWellScoped.alike : ∀ {bound : List String} (s : Option Scalar),
    Scalar.OptionWellScoped bound s → Scalar.OptionWellScoped (bound ++ taken) s →
      Scalar.AllAlike (.verbatim taken) (.ofNames bound) s.toList s.toList
  | _, none, _, _ => .nil
  | _, some s, h, h' => .cons (Scalar.WellScoped.alike s h h') .nil

theorem SortKey.AllWellScoped.alike : ∀ {bound : List String} (ks : List SortKey),
    SortKey.AllWellScoped bound ks → SortKey.AllWellScoped (bound ++ taken) ks →
      Scalar.AllAlike (.verbatim taken) (.ofNames bound) (ks.map (·.value)) (ks.map (·.value))
  | _, [], _, _ => .nil
  | _, ⟨value, _⟩ :: ks, h, h' =>
    .cons (Scalar.WellScoped.alike value h.1 h'.1) (SortKey.AllWellScoped.alike ks h.2 h'.2)

theorem Query.WellScoped.alike : ∀ {bound : List String} (q : Query), q.WellScoped bound →
    q.WellScoped (bound ++ taken) → Query.Alike (.verbatim taken) (.ofNames bound) q q
  | _, ⟨⟨projection, distinct, top⟩, sources, filter, groupBy, orderBy, offset, limit⟩, h, h' => by
    obtain ⟨hs, hv, hf, hg, ho⟩ := h
    obtain ⟨hs', hv', hf', hg', ho'⟩ := h'
    rw [Source.bound_append] at hv' hf' hg' ho'
    refine .mk (Source.AllWellScoped.alike sources hs hs') ?_ rfl
      (Scalar.OptionWellScoped.alike filter hf hf') (Scalar.AllWellScoped.alike groupBy hg hg')
      (SortKey.AllWellScoped.alike orderBy ho ho') rfl (optionRel_refl top) (optionRel_refl offset)
      (optionRel_refl limit)
    cases projection with
    | star => exact .nil
    | value value => exact .cons (Scalar.WellScoped.alike value hv hv') .nil

end

end LambdaQuery
