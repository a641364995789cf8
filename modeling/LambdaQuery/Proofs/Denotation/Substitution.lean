import LambdaQuery.Proofs.Denotation.Basic
import LambdaQuery.Proofs.Denotation.Names
import LambdaQuery.Proofs.Meaning.Names
import LambdaQuery.Proofs.Meaning.Numbers
import LambdaQuery.Proofs.Scoping

/-!
# Substitution and values

A scalar after a substitution has the value that it has where the replaced name stands for the value
of the replacement (`Scalar.denote_substitute`). One induction shows that valuations which agree
through the substitution (`Substitution.Related`) give the same values; that a scalar depends on its
free names alone (`Scalar.denote_congr`) is the case of a substitution that changes nothing.
-/

set_option autoImplicit false

namespace LambdaQuery

/-! ## Related rows -/

section

variable {V : Type}

/-- Rows with the same keys are grouped alike. -/
theorem Rows.forall₂_groups {α κ : Type} [DecidableEq κ] {R : α → α → Prop} {key key' : α → κ}
    (hkey : ∀ a a', R a a' → key a = key' a') {l l' : List α} (hl : List.Forall₂ R l l') :
    List.Forall₂ (List.Forall₂ R) (Rows.groups key l) (Rows.groups key' l') := by
  have hkeys : l.map key = l'.map key' :=
    List.forall₂_eq_eq_eq ▸ List.rel_map (R := R) (P := Eq) (fun a a' h => hkey a a' h) hl
  unfold Rows.groups
  rw [hkeys]
  refine List.forall₂_map_left_iff.mpr (List.forall₂_map_right_iff.mpr
    (List.forall₂_same.mpr fun k _ => List.rel_filter (fun a a' h => ?_) hl))
  show decide (key a = k) = true ↔ decide (key' a' = k) = true
  rw [hkey a a' h]

theorem Rows.getElem?_getD_of_forall₂ {α : Type} {R : α → α → Prop} {a a' : α} (ha : R a a')
    {l l' : List α} (hl : List.Forall₂ R l l') (i : Nat) :
    R (l[i]?.getD a) (l'[i]?.getD a') := by
  induction hl generalizing i with
  | nil => exact ha
  | cons h _ ih =>
    cases i with
    | zero => exact h
    | succ i => exact ih i

/-- Related entries: related rows, that are aggregated with related rows or not at all. -/
def Entry.Related (R : Valuation V → Valuation V → Prop) (a b : Entry V) : Prop :=
  R a.1 b.1 ∧ Option.Rel (List.Forall₂ R) a.2 b.2

variable [DecidableEq V] {I : Interpretation V} {R : Valuation V → Valuation V → Prop}

theorem Interpretation.forall₂_entries {blank blank' : Valuation V} (hblank : R blank blank')
    {key key' : Valuation V → List V} (hkey : ∀ ρ ρ', R ρ ρ' → key ρ = key' ρ')
    (groups aggregates : Bool) {rows rows' : List (Valuation V)}
    (hrows : List.Forall₂ R rows rows') :
    List.Forall₂ (Entry.Related R) (I.entries blank key groups aggregates rows)
      (I.entries blank' key' groups aggregates rows') := by
  unfold Interpretation.entries
  split
  · refine List.rel_map (fun group group' hgroup => ?_) (Rows.forall₂_groups hkey hrows)
    rw [hgroup.length_eq]
    exact ⟨Rows.getElem?_getD_of_forall₂ hblank hgroup _, .some hgroup⟩
  split
  · exact .cons ⟨hblank, .some hrows⟩ .nil
  · exact List.rel_map (fun ρ ρ' h => ⟨h, .none⟩) hrows

theorem Interpretation.selected_congr {keys keys' : List ((Entry V → V) × Bool)}
    (hkeys : List.Forall₂ (fun k k' => k.2 = k'.2 ∧ ∀ a b, Entry.Related R a b → k.1 a = k'.1 b)
      keys keys')
    {value value' : Entry V → V} (hvalue : ∀ a b, Entry.Related R a b → value a = value' b)
    (isDistinct : Bool) (top offset limit : Option Count) {entries entries' : List (Entry V)}
    (hentries : List.Forall₂ (Entry.Related R) entries entries') :
    I.selected keys value isDistinct top offset limit entries =
      I.selected keys' value' isDistinct top offset limit entries' := by
  have hsorted : List.Forall₂ (Entry.Related R) (I.sorted keys entries) (I.sorted keys' entries') :=
    Rows.forall₂_insertionSort
      (fun _ _ _ _ hab hab' => by rw [Database.before_congr hkeys hab hab']) hentries
  have hvalues : (I.sorted keys entries).map value = (I.sorted keys' entries').map value' :=
    List.forall₂_eq_eq_eq ▸ List.rel_map (fun a b h => hvalue a b h) hsorted
  rw [Interpretation.selected, Interpretation.selected, hvalues]

end

/-! ## Scalars that aggregate nothing -/

section

variable {V : Type} {I : Interpretation V}

section

variable [DecidableEq V] {ρ : Valuation V}

mutual

/-- Without an aggregate it makes no difference which rows are aggregated. -/
theorem Scalar.denote_of_single : ∀ {s : Scalar}, s.aggregatesIn I = false →
    ∀ g, s.denote I ρ g = s.denote I ρ none
  | .literal _, _, _ | .ref _, _, _ | .parameter _, _, _ | .exists _, _, _ | .arrayOf _, _, _
  | .subquery _, _, _ => by simp only [Scalar.denote]
  | .index target key, h, g => by
    obtain ⟨htarget, hkey⟩ := Bool.or_eq_false_iff.mp h
    rw [Scalar.denote, Scalar.denote, Scalar.denote_of_single htarget g,
      Scalar.denote_of_single hkey g]
  | .binary _ left right, h, g => by
    obtain ⟨hleft, hright⟩ := Bool.or_eq_false_iff.mp h
    rw [Scalar.denote, Scalar.denote, Scalar.denote_of_single hleft g,
      Scalar.denote_of_single hright g]
  | .unary _ operand, h, g => by
    rw [Scalar.denote, Scalar.denote, Scalar.denote_of_single (s := operand) h g]
  | .call _ args _, _, none => rfl
  | .call name args udf, h, some rows => by
    obtain ⟨hname, hargs⟩ := Bool.or_eq_false_iff.mp h
    have hnone : I.aggregation name udf = none := by simpa using hname
    rw [Scalar.denote, Scalar.denote, hnone]
    exact congrArg _ (Scalar.denoteAll_of_single hargs _)
  | .array items, h, g => by
    have hitems : Scalar.anyAggregatesIn I items = false := h
    rw [Scalar.denote, Scalar.denote, Scalar.denoteAll_of_single hitems g]
  | .object properties, h, g => by
    have hproperties : Scalar.propertiesAggregateIn I properties = false := h
    rw [Scalar.denote, Scalar.denote, Scalar.denoteProperties_of_single hproperties g]
  | .conditional test ifTrue ifFalse, h, g => by
    obtain ⟨htest, hrest⟩ := Bool.or_eq_false_iff.mp h
    obtain ⟨htrue, hfalse⟩ := Bool.or_eq_false_iff.mp hrest
    rw [Scalar.denote, Scalar.denote, Scalar.denote_of_single htest g,
      Scalar.denote_of_single htrue g, Scalar.denote_of_single hfalse g]
  | .isIn item items _, h, g => by
    obtain ⟨hitem, hitems⟩ := Bool.or_eq_false_iff.mp h
    rw [Scalar.denote, Scalar.denote, Scalar.denote_of_single hitem g,
      Scalar.denoteAll_of_single hitems g]

theorem Scalar.denoteAll_of_single : ∀ {ss : List Scalar}, Scalar.anyAggregatesIn I ss = false →
    ∀ g, Scalar.denoteAll I ss ρ g = Scalar.denoteAll I ss ρ none
  | [], _, _ => rfl
  | s :: ss, h, g => by
    obtain ⟨hs, hss⟩ := Bool.or_eq_false_iff.mp h
    rw [Scalar.denoteAll, Scalar.denoteAll, Scalar.denote_of_single hs g,
      Scalar.denoteAll_of_single hss g]

theorem Scalar.denoteProperties_of_single : ∀ {ps : List (String × Scalar)},
    Scalar.propertiesAggregateIn I ps = false →
      ∀ g, Scalar.denoteProperties I ps ρ g = Scalar.denoteProperties I ps ρ none
  | [], _, _ => rfl
  | (_, s) :: ps, h, g => by
    obtain ⟨hs, hps⟩ := Bool.or_eq_false_iff.mp h
    rw [Scalar.denoteProperties, Scalar.denoteProperties, Scalar.denote_of_single hs g,
      Scalar.denoteProperties_of_single hps g]

end

end

section

mutual

/-- Where no function aggregates, no scalar does. -/
theorem Scalar.aggregatesIn_of_plain (h : ∀ name udf, I.aggregation name udf = none) :
    ∀ s : Scalar, s.aggregatesIn I = false
  | .literal _ | .ref _ | .parameter _ | .exists _ | .arrayOf _ | .subquery _ => rfl
  | .index object key => by
    rw [Scalar.aggregatesIn, object.aggregatesIn_of_plain h, key.aggregatesIn_of_plain h]
    rfl
  | .binary _ left right => by
    rw [Scalar.aggregatesIn, left.aggregatesIn_of_plain h, right.aggregatesIn_of_plain h]
    rfl
  | .unary _ operand => operand.aggregatesIn_of_plain h
  | .call name args udf => by
    rw [Scalar.aggregatesIn, h name udf, Scalar.anyAggregatesIn_of_plain h args]
    rfl
  | .array items => Scalar.anyAggregatesIn_of_plain h items
  | .object properties => Scalar.propertiesAggregateIn_of_plain h properties
  | .conditional test ifTrue ifFalse => by
    rw [Scalar.aggregatesIn, test.aggregatesIn_of_plain h, ifTrue.aggregatesIn_of_plain h,
      ifFalse.aggregatesIn_of_plain h]
    rfl
  | .isIn item items _ => by
    rw [Scalar.aggregatesIn, item.aggregatesIn_of_plain h,
      Scalar.anyAggregatesIn_of_plain h items]
    rfl

theorem Scalar.anyAggregatesIn_of_plain (h : ∀ name udf, I.aggregation name udf = none) :
    ∀ ss : List Scalar, Scalar.anyAggregatesIn I ss = false
  | [] => rfl
  | s :: ss => by
    rw [Scalar.anyAggregatesIn, s.aggregatesIn_of_plain h, Scalar.anyAggregatesIn_of_plain h ss]
    rfl

theorem Scalar.propertiesAggregateIn_of_plain (h : ∀ name udf, I.aggregation name udf = none) :
    ∀ ps : List (String × Scalar), Scalar.propertiesAggregateIn I ps = false
  | [] => rfl
  | (_, s) :: ps => by
    rw [Scalar.propertiesAggregateIn, s.aggregatesIn_of_plain h,
      Scalar.propertiesAggregateIn_of_plain h ps]
    rfl

theorem Projection.aggregatesIn_of_plain (h : ∀ name udf, I.aggregation name udf = none) :
    ∀ p : Projection, p.aggregatesIn I = false
  | .star => rfl
  | .value value => value.aggregatesIn_of_plain h

end

variable {σ : Substitution}

mutual

theorem Scalar.aggregatesIn_substitute (hσ : σ.replacement.aggregatesIn I = false) :
    ∀ s : Scalar, (s.substitute σ).aggregatesIn I = s.aggregatesIn I
  | .literal _ | .parameter _ | .exists _ | .arrayOf _ | .subquery _ => rfl
  | .ref name => by
    rw [Scalar.substitute]
    split
    · exact hσ
    · rfl
  | .index object key =>
    congrArg₂ or (object.aggregatesIn_substitute hσ) (key.aggregatesIn_substitute hσ)
  | .binary _ left right =>
    congrArg₂ or (left.aggregatesIn_substitute hσ) (right.aggregatesIn_substitute hσ)
  | .unary _ operand => operand.aggregatesIn_substitute hσ
  | .call _ args _ => congrArg (_ || ·) (Scalar.anyAggregatesIn_substitute hσ args)
  | .array items => Scalar.anyAggregatesIn_substitute hσ items
  | .object properties => Scalar.propertiesAggregateIn_substitute hσ properties
  | .conditional test ifTrue ifFalse =>
    congrArg₂ or (test.aggregatesIn_substitute hσ)
      (congrArg₂ or (ifTrue.aggregatesIn_substitute hσ) (ifFalse.aggregatesIn_substitute hσ))
  | .isIn item items _ =>
    congrArg₂ or (item.aggregatesIn_substitute hσ) (Scalar.anyAggregatesIn_substitute hσ items)

theorem Scalar.anyAggregatesIn_substitute (hσ : σ.replacement.aggregatesIn I = false) :
    ∀ ss : List Scalar,
      Scalar.anyAggregatesIn I (Scalar.substituteAll σ ss) = Scalar.anyAggregatesIn I ss
  | [] => rfl
  | s :: ss =>
    congrArg₂ or (s.aggregatesIn_substitute hσ) (Scalar.anyAggregatesIn_substitute hσ ss)

theorem Scalar.propertiesAggregateIn_substitute (hσ : σ.replacement.aggregatesIn I = false) :
    ∀ ps : List (String × Scalar),
      Scalar.propertiesAggregateIn I (Scalar.substituteProperties σ ps) =
        Scalar.propertiesAggregateIn I ps
  | [] => rfl
  | (_, s) :: ps =>
    congrArg₂ or (s.aggregatesIn_substitute hσ) (Scalar.propertiesAggregateIn_substitute hσ ps)

theorem Projection.aggregatesIn_substitute (hσ : σ.replacement.aggregatesIn I = false) :
    ∀ p : Projection, (p.substitute σ).aggregatesIn I = p.aggregatesIn I
  | .star => rfl
  | .value value => value.aggregatesIn_substitute hσ

end

end

end

/-! ## Valuations through a substitution -/

namespace Substitution

variable {V : Type} [DecidableEq V] (σ : Substitution) (I : Interpretation V)

/-- What the names stand for where they are replaced, and what they stand for otherwise. -/
def Related (names : List String) (ρ ρ' : Valuation V) : Prop :=
  ∀ n ∈ names, ((Scalar.ref n).substitute σ).denote I ρ none = ρ' n

/-- The sources of a query neither bind the replaced name nor change the replacement, and it makes
no difference to the replacement which rows the query aggregates. -/
structure Passes (q : Query) : Prop where
  sources : ∀ s ∈ q.sources, s.name ≠ σ.name ∧ ∀ ρ v,
    σ.replacement.denote I (Function.update ρ s.name v) none = σ.replacement.denote I ρ none
  single : σ.replacement.aggregatesIn I = false

/-- Related rows are aggregated, or none are. -/
inductive Grouped (names : List String) :
    Option (List (Valuation V)) → Option (List (Valuation V)) → Prop
  | none : Grouped names none none
  | some (single : σ.replacement.aggregatesIn I = false) {rows rows' : List (Valuation V)}
      (h : List.Forall₂ (σ.Related I names) rows rows') : Grouped names (some rows) (some rows')

variable {σ I} {names : List String} {ρ ρ' : Valuation V}

theorem Related.update (h : σ.Related I names ρ ρ') {name : String} (hname : name ≠ σ.name)
    (hr : ∀ ρ v,
      σ.replacement.denote I (Function.update ρ name v) none = σ.replacement.denote I ρ none)
    (v : V) :
    σ.Related I (name :: names) (Function.update ρ name v) (Function.update ρ' name v) := by
  intro n hn
  by_cases he : n = name
  · subst he
    rw [Scalar.substitute, if_neg hname, Scalar.denote, Function.update_self,
      Function.update_self]
  · have hmem : n ∈ names := (List.mem_cons.mp hn).resolve_left he
    rw [Function.update_of_ne he, ← h n hmem, Scalar.substitute]
    split
    · exact hr ρ v
    · rw [Scalar.denote, Scalar.denote, Function.update_of_ne he]

theorem Passes.ne {q : Query} (h : σ.Passes I q) {name : String}
    (hname : name ∈ q.sources.map Source.name) : name ≠ σ.name := by
  obtain ⟨s, hs, rfl⟩ := List.mem_map.mp hname
  exact (h.sources s hs).1

theorem Grouped.of_rel (single : σ.replacement.aggregatesIn I = false)
    {g g' : Option (List (Valuation V))}
    (h : Option.Rel (List.Forall₂ (σ.Related I names)) g g') : σ.Grouped I names g g' := by
  cases h with
  | none => exact .none
  | some h => exact .some single h

theorem Related.blank {ss : List Source} (hss : ∀ s ∈ ss, s.name ≠ σ.name ∧ ∀ ρ v,
      σ.replacement.denote I (Function.update ρ s.name v) none = σ.replacement.denote I ρ none)
    (h : σ.Related I names ρ ρ') :
    σ.Related I (Source.bound names ss) (Source.blank I.toDatabase (Source.substituteAll σ ss) ρ)
      (Source.blank I.toDatabase ss ρ') := by
  induction ss generalizing names ρ ρ' with
  | nil => exact h
  | cons s ss ih =>
    obtain ⟨hs, hss⟩ := List.forall_mem_cons.mp hss
    have hname : (s.substitute σ).name = s.name := by cases s <;> rfl
    rw [Source.substituteAll, Source.blank, Source.blank, hname]
    exact ih hss (h.update hs.1 hs.2 _)

end Substitution

theorem Source.name_substituteAll (σ : Substitution) (ss : List Source) :
    (Source.substituteAll σ ss).map Source.name = ss.map Source.name := by
  induction ss with
  | nil => rfl
  | cons s ss ih =>
    rw [Source.substituteAll, List.map_cons, List.map_cons, ih]
    cases s <;> rfl

theorem Scalar.isEmpty_substituteAll (σ : Substitution) (ss : List Scalar) :
    (Scalar.substituteAll σ ss).isEmpty = ss.isEmpty := by
  cases ss <;> rfl

theorem subset_cons_of_filter {l names : List String} {name : String}
    (h : l.filter (· ≠ name) ⊆ names) : l ⊆ name :: names := fun n hn => by
  by_cases he : n = name
  · exact he ▸ List.mem_cons_self
  · exact List.mem_cons_of_mem _ (h (List.mem_filter.mpr ⟨hn, by simpa using he⟩))

theorem Source.subset_bound (ss : List Source) (names : List String) :
    names ⊆ Source.bound names ss := by
  induction ss generalizing names with
  | nil => exact List.Subset.refl _
  | cons s ss ih => exact List.Subset.trans (List.subset_cons_self _ _) (ih _)

theorem Source.names_subset_bound {ss : List Source} {names : List String} :
    ss.map Source.name ⊆ Source.bound names ss := by
  induction ss generalizing names with
  | nil => exact List.nil_subset _
  | cons s ss ih =>
    exact List.cons_subset.mpr ⟨Source.subset_bound ss _ List.mem_cons_self, ih⟩

theorem Source.subset_bound_of_freeBefore {ss : List Source} {rest names : List String}
    (h : Source.freeBefore ss rest ⊆ names) : rest ⊆ Source.bound names ss := by
  induction ss generalizing names with
  | nil => exact h
  | cons s ss ih =>
    refine ih (subset_cons_of_filter ?_)
    cases s with
    | container name => exact h
    | items name path => exact subset_of_append_right h
    | subquery name query => exact subset_of_append_right h

section

variable {V : Type} [DecidableEq V] {σ : Substitution} {I : Interpretation V}
  {N : List String}

mutual

/-- Where valuations agree through the substitution, so do the values. -/
theorem Scalar.denote_related : ∀ (s : Scalar) {N : List String} {ρ ρ' : Valuation V}
    {g g' : Option (List (Valuation V))}, s.free ⊆ N → (∀ q ∈ s.queries, σ.Passes I q) →
      σ.Related I N ρ ρ' → σ.Grouped I N g g' → (s.substitute σ).denote I ρ g = s.denote I ρ' g'
  | .literal _, _, _, _, _, _, _, _, _, _ | .parameter _, _, _, _, _, _, _, _, _, _ => by
    simp only [Scalar.substitute, Scalar.denote]
  | .ref n, _, _, _, _, _, hs, _, hρ, hg => by
    have hn := hρ n (hs (List.mem_singleton_self n))
    cases hg with
    | none => exact hn
    | some single h =>
      rw [Scalar.denote, ← hn]
      rw [Scalar.substitute]
      split
      · exact Scalar.denote_of_single single _
      · rw [Scalar.denote, Scalar.denote]
  | .index object key, _, _, _, _, _, hs, hq, hρ, hg => by
    rw [Scalar.substitute, Scalar.denote, Scalar.denote,
      object.denote_related (subset_of_append_left hs) (forall_mem_left hq) hρ hg,
      key.denote_related (subset_of_append_right hs) (forall_mem_right hq) hρ hg]
  | .binary op left right, _, _, _, _, _, hs, hq, hρ, hg => by
    rw [Scalar.substitute, Scalar.denote, Scalar.denote,
      left.denote_related (subset_of_append_left hs) (forall_mem_left hq) hρ hg,
      right.denote_related (subset_of_append_right hs) (forall_mem_right hq) hρ hg]
  | .unary op operand, _, _, _, _, _, hs, hq, hρ, hg => by
    rw [Scalar.substitute, Scalar.denote, Scalar.denote, operand.denote_related hs hq hρ hg]
  | .call name args udf, _, _, _, _, _, hs, hq, hρ, hg => by
    have hargs := Scalar.denoteAll_related args hs hq hρ hg
    cases hg with
    | none => rw [Scalar.substitute, Scalar.denote, Scalar.denote, hargs]
    | some single h =>
      have hrows := List.forall₂_eq_eq_eq ▸ List.rel_map (P := Eq)
        (fun ρ ρ' hρ => Scalar.denoteAll_related args hs hq hρ .none) h
      rw [Scalar.substitute, Scalar.denote, Scalar.denote, hargs, hrows]
  | .array items, _, _, _, _, _, hs, hq, hρ, hg => by
    rw [Scalar.substitute, Scalar.denote, Scalar.denote,
      Scalar.denoteAll_related items hs hq hρ hg]
  | .object properties, _, _, _, _, _, hs, hq, hρ, hg => by
    rw [Scalar.substitute, Scalar.denote, Scalar.denote,
      Scalar.denoteProperties_related properties hs hq hρ hg]
  | .conditional test ifTrue ifFalse, _, _, _, _, _, hs, hq, hρ, hg => by
    have hrest := subset_of_append_right hs
    have hqrest := forall_mem_right hq
    rw [Scalar.substitute, Scalar.denote, Scalar.denote,
      test.denote_related (subset_of_append_left hs) (forall_mem_left hq) hρ hg,
      ifTrue.denote_related (subset_of_append_left hrest) (forall_mem_left hqrest) hρ hg,
      ifFalse.denote_related (subset_of_append_right hrest) (forall_mem_right hqrest) hρ hg]
  | .isIn item items negated, _, _, _, _, _, hs, hq, hρ, hg => by
    rw [Scalar.substitute, Scalar.denote, Scalar.denote,
      item.denote_related (subset_of_append_left hs) (forall_mem_left hq) hρ hg,
      Scalar.denoteAll_related items (subset_of_append_right hs) (forall_mem_right hq) hρ hg]
  | .exists query, _, _, _, _, _, hs, hq, hρ, _ => by
    obtain ⟨hquery, hinner⟩ := List.forall_mem_cons.mp hq
    rw [Scalar.substitute, Scalar.denote, Scalar.denote,
      query.denote_related hs hquery hinner hρ]
  | .arrayOf query, _, _, _, _, _, hs, hq, hρ, _ => by
    obtain ⟨hquery, hinner⟩ := List.forall_mem_cons.mp hq
    rw [Scalar.substitute, Scalar.denote, Scalar.denote,
      query.denote_related hs hquery hinner hρ]
  | .subquery query, _, _, _, _, _, hs, hq, hρ, _ => by
    obtain ⟨hquery, hinner⟩ := List.forall_mem_cons.mp hq
    rw [Scalar.substitute, Scalar.denote, Scalar.denote,
      query.denote_related hs hquery hinner hρ]

theorem Scalar.denoteAll_related : ∀ (ss : List Scalar) {N : List String} {ρ ρ' : Valuation V}
    {g g' : Option (List (Valuation V))}, Scalar.freeAll ss ⊆ N →
      (∀ q ∈ Scalar.queriesAll ss, σ.Passes I q) → σ.Related I N ρ ρ' → σ.Grouped I N g g' →
        Scalar.denoteAll I (Scalar.substituteAll σ ss) ρ g = Scalar.denoteAll I ss ρ' g'
  | [], _, _, _, _, _, _, _, _, _ => by simp only [Scalar.substituteAll, Scalar.denoteAll]
  | s :: ss, _, _, _, _, _, hs, hq, hρ, hg => by
    rw [Scalar.substituteAll, Scalar.denoteAll, Scalar.denoteAll,
      s.denote_related (subset_of_append_left hs) (forall_mem_left hq) hρ hg,
      Scalar.denoteAll_related ss (subset_of_append_right hs) (forall_mem_right hq) hρ hg]

theorem Scalar.denoteProperties_related : ∀ (ps : List (String × Scalar)) {N : List String}
    {ρ ρ' : Valuation V} {g g' : Option (List (Valuation V))}, Scalar.freeProperties ps ⊆ N →
      (∀ q ∈ Scalar.queriesProperties ps, σ.Passes I q) → σ.Related I N ρ ρ' →
        σ.Grouped I N g g' →
          Scalar.denoteProperties I (Scalar.substituteProperties σ ps) ρ g =
            Scalar.denoteProperties I ps ρ' g'
  | [], _, _, _, _, _, _, _, _, _ => by
    simp only [Scalar.substituteProperties, Scalar.denoteProperties]
  | (name, s) :: ps, _, _, _, _, _, hs, hq, hρ, hg => by
    rw [Scalar.substituteProperties, Scalar.denoteProperties, Scalar.denoteProperties,
      s.denote_related (subset_of_append_left hs) (forall_mem_left hq) hρ hg,
      Scalar.denoteProperties_related ps (subset_of_append_right hs) (forall_mem_right hq) hρ hg]

theorem Scalar.denoteFilter_related : ∀ (s : Option Scalar) {N : List String}
    {ρ ρ' : Valuation V}, Scalar.freeOption s ⊆ N →
      (∀ q ∈ Scalar.queriesOption s, σ.Passes I q) → σ.Related I N ρ ρ' →
        Scalar.denoteFilter I (Scalar.substituteOption σ s) ρ = Scalar.denoteFilter I s ρ'
  | none, _, _, _, _, _, _ => by simp only [Scalar.substituteOption, Scalar.denoteFilter]
  | some s, _, _, _, hs, hq, hρ => by
    rw [Scalar.substituteOption, Scalar.denoteFilter, Scalar.denoteFilter,
      s.denote_related hs hq hρ .none]

theorem SortKey.denoteAll_related : ∀ (ks : List SortKey) {N : List String},
    SortKey.freeAll ks ⊆ N → (∀ q ∈ SortKey.queriesAll ks, σ.Passes I q) →
      List.Forall₂ (fun k k' => k.2 = k'.2 ∧ ∀ a b : Entry V, σ.Related I N a.1 b.1 →
        σ.Grouped I N a.2 b.2 → k.1 a = k'.1 b)
          (SortKey.denoteAll I (SortKey.substituteAll σ ks)) (SortKey.denoteAll I ks)
  | [], _, _, _ => by
    rw [SortKey.substituteAll, SortKey.denoteAll]
    exact .nil
  | ⟨value, descending⟩ :: ks, _, hs, hq => by
    rw [SortKey.substituteAll, SortKey.substitute, SortKey.denoteAll, SortKey.denoteAll]
    exact .cons ⟨rfl, fun a b hρ hg =>
        value.denote_related (subset_of_append_left hs) (forall_mem_left hq) hρ hg⟩
      (SortKey.denoteAll_related ks (subset_of_append_right hs) (forall_mem_right hq))

theorem Source.denoteAll_related : ∀ (ss : List Source) {N rest : List String}
    {ρ ρ' : Valuation V}, Source.freeBefore ss rest ⊆ N →
      (∀ s ∈ ss, s.name ≠ σ.name ∧ ∀ ρ v,
        σ.replacement.denote I (Function.update ρ s.name v) none =
          σ.replacement.denote I ρ none) →
        (∀ q ∈ Source.queriesAll ss, σ.Passes I q) → σ.Related I N ρ ρ' →
          List.Forall₂ (σ.Related I (Source.bound N ss))
            (Source.denoteAll I (Source.substituteAll σ ss) ρ) (Source.denoteAll I ss ρ')
  | [], _, _, _, _, _, _, _, hρ => by
    rw [Source.substituteAll, Source.denoteAll, Source.denoteAll]
    exact .cons hρ .nil
  | .container name :: ss, _, _, _, _, hs, hss, hq, hρ => by
    obtain ⟨hname, hss⟩ := List.forall_mem_cons.mp hss
    rw [Source.substituteAll, Source.substitute, Source.denoteAll, Source.denoteAll]
    exact Rows.forall₂_flatMap_same _ fun v =>
      Source.denoteAll_related ss (subset_cons_of_filter hs) hss hq (hρ.update hname.1 hname.2 v)
  | .items name path :: ss, _, _, _, _, hs, hss, hq, hρ => by
    obtain ⟨hname, hss⟩ := List.forall_mem_cons.mp hss
    rw [Source.substituteAll, Source.substitute, Source.denoteAll, Source.denoteAll,
      path.denote_related (subset_of_append_left hs) (forall_mem_left hq) hρ .none]
    exact Rows.forall₂_flatMap_same _ fun v =>
      Source.denoteAll_related ss (subset_cons_of_filter (subset_of_append_right hs)) hss
        (forall_mem_right hq) (hρ.update hname.1 hname.2 v)
  | .subquery name query :: ss, _, _, _, _, hs, hss, hq, hρ => by
    obtain ⟨hname, hss⟩ := List.forall_mem_cons.mp hss
    obtain ⟨hquery, hinner⟩ := List.forall_mem_cons.mp hq
    rw [Source.substituteAll, Source.substitute, Source.denoteAll, Source.denoteAll,
      query.denote_related (subset_of_append_left hs) hquery (forall_mem_left hinner) hρ]
    exact Rows.forall₂_flatMap_same _ fun v =>
      Source.denoteAll_related ss (subset_cons_of_filter (subset_of_append_right hs)) hss
        (forall_mem_right hinner) (hρ.update hname.1 hname.2 v)

theorem Query.denote_related : ∀ (q : Query) {N : List String} {ρ ρ' : Valuation V},
    q.free ⊆ N → σ.Passes I q → (∀ q' ∈ q.queries, σ.Passes I q') → σ.Related I N ρ ρ' →
      (q.substitute σ).denote I ρ = q.denote I ρ'
  | ⟨⟨projection, isDistinct, top⟩, sources, filter, groupBy, orderBy, offset, limit⟩,
    N, ρ, ρ', hs, hpasses, hq, hρ => by
    have hclauses := Source.subset_bound_of_freeBefore hs
    have hselected := forall_mem_right hq
    have hfree := subset_of_append_right hclauses
    have hfiltered := forall_mem_right hselected
    have hgrouped := forall_mem_right hfiltered
    have hsources := Source.denoteAll_related sources hs hpasses.sources (forall_mem_left hq) hρ
    have hrows := List.rel_filter (fun ρ ρ' h => iff_of_eq (congrArg (· = true)
      (Scalar.denoteFilter_related filter (subset_of_append_left hfree)
        (forall_mem_left hfiltered) h))) hsources
    have hkeys : ∀ ρ ρ', σ.Related I (Source.bound N sources) ρ ρ' →
        Scalar.denoteAll I (Scalar.substituteAll σ groupBy) ρ none =
          Scalar.denoteAll I groupBy ρ' none := fun ρ ρ' h =>
      Scalar.denoteAll_related groupBy (subset_of_append_left (subset_of_append_right hfree))
        (forall_mem_left hgrouped) h .none
    have horder := SortKey.denoteAll_related orderBy
      (subset_of_append_right (subset_of_append_right hfree)) (forall_mem_right hgrouped)
    rw [Query.substitute, Selection.substitute, Query.denote, Query.denote,
      Source.name_substituteAll, Scalar.isEmpty_substituteAll,
      projection.aggregatesIn_substitute hpasses.single]
    refine Interpretation.selected_congr
      (horder.imp fun k k' h => ⟨h.1, fun a b hab => h.2 a b hab.1 (.of_rel hpasses.single hab.2)⟩)
      (fun a b hab => ?_) isDistinct top offset limit
      (Interpretation.forall₂_entries (hρ.blank hpasses.sources) hkeys _ _ hrows)
    exact projection.denote_related (subset_of_append_left hclauses) (forall_mem_left hselected)
      (fun n hn => ⟨Source.names_subset_bound hn, hpasses.ne hn⟩) hab.1
      (.of_rel hpasses.single hab.2)

theorem Projection.denote_related : ∀ (p : Projection) {N names : List String} {a b : Entry V},
    p.free ⊆ N → (∀ q ∈ p.queries, σ.Passes I q) → (∀ n ∈ names, n ∈ N ∧ n ≠ σ.name) →
      σ.Related I N a.1 b.1 → σ.Grouped I N a.2 b.2 →
        (p.substitute σ).denote I names a = p.denote I names b
  | .star, _, _, a, b, _, _, hnames, hρ, _ => by
    rw [Projection.substitute, Projection.denote, Projection.denote]
    refine congrArg I.star (List.map_congr_left fun n hn => ?_)
    obtain ⟨hmem, hne⟩ := hnames n hn
    rw [← hρ n hmem, Scalar.substitute, if_neg hne, Scalar.denote]
  | .value value, _, _, _, _, hs, hq, _, hρ, hg => by
    rw [Projection.substitute, Projection.denote, Projection.denote,
      value.denote_related hs hq hρ hg]

end

/-- **A value depends on the free names alone.** -/
theorem Scalar.denote_congr {s : Scalar} {ρ ρ' : Valuation V} (h : ∀ n ∈ s.free, ρ n = ρ' n) :
    s.denote I ρ none = s.denote I ρ' none := by
  -- A substitution that puts a name in its own place changes nothing.
  obtain ⟨k, -, hk⟩ := Scope.exists_number
    (s.names ++ s.queries.flatMap fun q => q.sources.map Source.name) "" 0
  generalize "" ++ toString (0 + k) = x at hk
  obtain ⟨hnames, hbinders⟩ := not_or.mp (mt List.mem_append.mpr hk)
  have href : ∀ n, (Scalar.ref n).substitute ⟨x, .ref x⟩ = .ref n := fun n => by
    rw [Scalar.substitute]
    split
    · rename_i he
      rw [he]
    · rfl
  have hpasses : ∀ q ∈ s.queries, (⟨x, .ref x⟩ : Substitution).Passes I q := fun q hq => by
    refine ⟨fun source hsource => ?_, rfl⟩
    have hne : source.name ≠ x := fun he =>
      hbinders (List.mem_flatMap.mpr ⟨q, hq, List.mem_map.mpr ⟨source, hsource, he⟩⟩)
    refine ⟨hne, fun ρ v => ?_⟩
    rw [Scalar.denote, Scalar.denote, Function.update_of_ne hne.symm]
  have hvalue : (⟨x, .ref x⟩ : Substitution).Related I s.free ρ ρ' := fun n hn => by
    rw [href, Scalar.denote]
    exact h n hn
  have hrelated := s.denote_related (List.Subset.refl _) hpasses hvalue .none
  rwa [s.substitute_of_not_mem hnames] at hrelated

end

/-- **Substitution lemma.** If no source inside of a scalar binds the replaced name or a free name
of the replacement, then the scalar has after the substitution the value that it has where the name
stands for the value of the replacement; and its free names are those before without the replaced
one, and the free names of the replacement if the replaced one was free. The operators and functions
are arbitrary. A replacement that calls an aggregate has no value apart from the rows of a query,
and so may not come into nested ones. -/
theorem Scalar.denote_substitute {s : Scalar} {σ : Substitution}
    (h : ∀ q ∈ s.queries, ∀ source ∈ q.sources,
      source.name ≠ σ.name ∧ source.name ∉ σ.replacement.free) :
    (∀ {V : Type} [DecidableEq V] (I : Interpretation V),
      (s.queries = [] ∨ σ.replacement.aggregatesIn I = false) → ∀ ρ : Valuation V,
        (s.substitute σ).denote I ρ none =
          s.denote I (Function.update ρ σ.name (σ.replacement.denote I ρ none)) none) ∧
    ∀ n, n ∈ (s.substitute σ).free ↔
      n ∈ s.free ∧ n ≠ σ.name ∨ σ.name ∈ s.free ∧ n ∈ σ.replacement.free := by
  refine ⟨fun I hsingle ρ => ?_, s.renews_free h⟩
  have hpasses : ∀ q ∈ s.queries, σ.Passes I q := fun q hq => by
    refine ⟨fun source hsource => ?_, hsingle.resolve_left (List.ne_nil_of_mem hq)⟩
    obtain ⟨hname, hfree⟩ := h q hq source hsource
    refine ⟨hname, fun ρ v => Scalar.denote_congr fun n hn => Function.update_of_ne ?_ _ _⟩
    exact fun he => hfree (he ▸ hn)
  refine s.denote_related (List.Subset.refl _) hpasses (fun n _ => ?_) .none
  rw [Scalar.substitute]
  split
  · rename_i he
    rw [he, Function.update_self]
  · rename_i he
    rw [Scalar.denote, Function.update_of_ne he]

/-- An array that is grouped, once its path is known. -/
theorem Scalar.denote_substitute_groups :
    let sum (rows : List (List Datum)) : Datum := .number (rows.map fun row =>
      (row.map Datum.toInt).sum).sum
    let I : Interpretation Datum :=
      { Database.ofNumbers [] with
        aggregation := fun name udf => if name = "SUM" ∧ udf = false then some sum else none
        star := fun _ => .nil
        missing := fun _ => false
        pick := fun _ => 0 }
    let big : Scalar := .binary .greaterThan (.ref "v") (.ref "least")
    let s : Scalar := .arrayOf ⟨.ofValue (.builtin "SUM" [.ref "v"]), [.items "v" (.ref "x")],
      some big, [.ref "v"], [], none, none⟩
    let σ : Substitution := ⟨"x", .property (.ref "r") "Sizes"⟩
    let sizes := Datum.ofList [.number 1, .number 3, .number 5, .number 3]
    let ρ := Function.update (fun _ => Datum.number 2) "r" sizes
    (s.substitute σ).denote I ρ none = .ofList [.number 6, .number 5] ∧
      "r" ∈ (s.substitute σ).free ∧ "x" ∉ (s.substitute σ).free := by
  intro sum I big s σ sizes ρ
  have hsources : ∀ q ∈ s.queries, ∀ source ∈ q.sources,
      source.name ≠ σ.name ∧ source.name ∉ σ.replacement.free := by decide
  obtain ⟨hvalue, hfree⟩ := Scalar.denote_substitute hsources
  refine ⟨(hvalue I (.inr rfl) ρ).trans ?_, (hfree "r").mpr (.inr (by decide)), fun hx => ?_⟩
  · decide
  · exact ((hfree "x").mp hx).elim (fun h => h.2 rfl) (by decide)

end LambdaQuery
