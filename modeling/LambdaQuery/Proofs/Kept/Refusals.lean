import LambdaQuery.Proofs.Alike.Flatten
import LambdaQuery.Proofs.Kept.Computations
import LambdaQuery.Proofs.Kept.Stages

/-!
# What flattening refuses

`Stage.Settled` says of the layers of a stage that none filters, orders or skips what the layers
below bound. The operators of a chain build such stages (`Stage.Ended.settled`), and flattening them
refuses two orders, and bounds one of which is a parameter (`Layer.Clash`), and layers over an
aggregate (`Layer.flattenAll_eq_error`).
-/

set_option autoImplicit false

namespace LambdaQuery

namespace Layer

/-- The bounds of the number of rows. -/
def bounds (l : Layer) : List Count := l.top.toList ++ l.limit.toList

/-- Why layers that are settled have no common clauses: two of them order the rows, or bounds or
offsets are combined of which one is a parameter. -/
inductive Clash (ls : List Layer) : CompileError → Prop
  | orders : Clash ls (.structural .secondOrderBy)
  | bounds {l : Layer} {name : String} : l ∈ ls → .parameter name ∈ l.bounds →
      Clash ls (.unsupported .combinedLimits)
  | offsets {l : Layer} {name : String} : l ∈ ls → l.offset = some (.parameter name) →
      Clash ls (.unsupported .combinedOffsets)

/-- What one layer has, some of the layers `ls` has. -/
structure Gathers (m : Layer) (ls : List Layer) : Prop where
  top : m.hasTop = true → ∃ l ∈ ls, l.hasTop = true
  offset : m.offset.isSome = true → ∃ l ∈ ls, l.offset.isSome = true
  bounds : ∀ name, .parameter name ∈ m.bounds → ∃ l ∈ ls, .parameter name ∈ l.bounds
  offsets : ∀ name, m.offset = some (.parameter name) → ∃ l ∈ ls, l.offset = some (.parameter name)
  single : (∀ l ∈ ls, l.selection.any (·.hasAggregate) = false) →
    m.selection.any (·.hasAggregate) = false

end Layer

namespace Layer

variable {l b m : Layer} {ls : List Layer} {e : CompileError}

theorem mergedOrderBy_eq_error (h : l.mergedOrderBy b = .error e) :
    e = .structural .secondOrderBy := by
  unfold mergedOrderBy at h
  split at h <;> cases h
  rfl

theorem mem_bounds {c : Count} : c ∈ l.bounds ↔ l.top = some c ∨ l.limit = some c := by
  simp [bounds]

theorem merge_eq_error (h : l.merge b = .error e) : Clash [l, b] e := by
  have hbound : ∀ {x y : Option Count}, (∀ c, x = some c → c ∈ b.bounds) →
      (∀ c, y = some c → c ∈ l.bounds) → Count.min? x y = .error e → Clash [l, b] e := by
    intro x y hx hy h
    obtain ⟨rfl, name, hn⟩ := Count.min?_combines.eq_error h
    rcases hn with hn | hn
    · exact .bounds (List.mem_cons_of_mem _ List.mem_cons_self) (hx _ hn)
    · exact .bounds List.mem_cons_self (hy _ hn)
  rw [merge_eq] at h
  cases ho : l.mergedOrderBy b with
  | error e' =>
    rw [ho] at h
    cases h
    obtain rfl := mergedOrderBy_eq_error ho
    exact .orders
  | ok orderBy =>
    rw [ho] at h
    cases ht : Count.min? b.top l.top with
    | error e' =>
      rw [ht] at h
      cases h
      exact hbound (fun c hc => mem_bounds.mpr (.inl hc)) (fun c hc => mem_bounds.mpr (.inl hc)) ht
    | ok top =>
      rw [ht] at h
      cases hs : Count.sum? b.offset l.offset with
      | error e' =>
        rw [hs] at h
        cases h
        obtain ⟨rfl, name, hn⟩ := Count.sum?_combines.eq_error hs
        rcases hn with hn | hn
        · exact .offsets (List.mem_cons_of_mem _ List.mem_cons_self) hn
        · exact .offsets List.mem_cons_self hn
      | ok offset =>
        rw [hs] at h
        cases hl : Count.min? b.limit l.limit with
        | error e' =>
          rw [hl] at h
          cases h
          exact hbound (fun c hc => mem_bounds.mpr (.inr hc))
            (fun c hc => mem_bounds.mpr (.inr hc)) hl
        | ok limit =>
          rw [hl] at h
          cases h

/-- What is refused of a layer over another one: it is not settled over it, it reads an aggregate,
or their clauses clash. -/
theorem flattenOnto_eq_error (h : l.flattenOnto b = .error e) :
    (e = .unsupported .composedAggregate ∧ b.selection.any (·.hasAggregate) = true) ∨
      (e = .unsupported (if b.hasTop then .afterTake else .afterSkip) ∧
        (b.hasTop = true ∨ b.offset.isSome = true) ∧ ¬(l.filter = none ∧ l.orderBy = [])) ∨
      (e = .unsupported .afterTake ∧ b.hasTop = true ∧ l.offset ≠ none) ∨ Clash [l, b] e := by
  unfold flattenOnto at h
  cases hagg : b.selection.any (·.hasAggregate) with
  | true =>
    rw [hagg] at h
    cases h
    exact .inl ⟨rfl, rfl⟩
  | false =>
    cases hlim : ((b.hasTop || b.offset.isSome) && (l.filter.isSome || !l.orderBy.isEmpty)) with
    | true =>
      rw [hagg, hlim] at h
      cases h
      rw [Bool.and_eq_true, Bool.or_eq_true] at hlim
      refine .inr (.inl ⟨rfl, hlim.1, fun hnone => ?_⟩)
      simp [hnone.1, hnone.2] at hlim
    | false =>
      cases hoff : (b.hasTop && l.offset.isSome) with
      | true =>
        rw [hagg, hlim, hoff] at h
        cases h
        rw [Bool.and_eq_true] at hoff
        exact .inr (.inr (.inl ⟨rfl, hoff.1, fun hnone => by simp [hnone] at hoff⟩))
      | false =>
        rw [hagg, hlim, hoff] at h
        cases hsub : l.needsSubquery b with
        | true =>
          rw [hsub] at h
          cases h
        | false =>
          rw [hsub] at h
          exact .inr (.inr (.inr (merge_eq_error h)))

theorem Clash.external (h : Clash ls e) : e.isInternal = false := by
  cases h <;> rfl

theorem flattenOnto_external (h : l.flattenOnto b = .error e) : e.isInternal = false := by
  rcases flattenOnto_eq_error h with ⟨rfl, -⟩ | ⟨rfl, -, -⟩ | ⟨rfl, -, -⟩ | h
  · rfl
  · split <;> rfl
  · rfl
  · exact h.external

theorem flattenAll_external {ls : List Layer} (h : l.flattenAll ls = .error e) :
    e.isInternal = false := by
  induction ls generalizing l with
  | nil => cases h
  | cons next rest ih =>
    rw [flattenAll] at h
    cases hb : next.flattenAll rest with
    | error e' =>
      rw [hb] at h
      cases h
      exact ih hb
    | ok b =>
      rw [hb] at h
      exact flattenOnto_external h

theorem Gathers.self (l : Layer) : l.Gathers [l] where
  top h := ⟨l, List.mem_singleton_self l, h⟩
  offset h := ⟨l, List.mem_singleton_self l, h⟩
  bounds _ h := ⟨l, List.mem_singleton_self l, h⟩
  offsets _ h := ⟨l, List.mem_singleton_self l, h⟩
  single h := h l (List.mem_singleton_self l)

theorem hasAggregate_substitute {σ : Substitution} (hσ : σ.replacement.isAggregate = false)
    (s : Selection) : (s.substitute σ).hasAggregate = s.hasAggregate := by
  obtain ⟨_ | value, distinct, top⟩ := s
  · rfl
  · exact Scalar.isAggregate_substitute hσ value

theorem hasAggregate_mergedSelection (hl : l.selection.any (·.hasAggregate) = false)
    (hb : b.selection.any (·.hasAggregate) = false) :
    (l.mergedSelection b).any (·.hasAggregate) = false := by
  have hrow : (l.onto b).replacement.isAggregate = false := row_isAggregate hb
  have houter : ∀ s, l.outerSelection = some s → s.hasAggregate = false := by
    intro s hs
    unfold outerSelection at hs
    split at hs
    · cases hs
      rfl
    · rw [hs] at hl
      exact hl
  unfold mergedSelection
  cases ho : l.outerSelection with
  | none => simpa using hb
  | some s =>
    have hs := (hasAggregate_substitute hrow s).trans (houter s ho)
    cases b.selection with
    | none => simpa using hs
    | some inner => exact hs

/-- The bounds of merged layers are those of one of them. -/
theorem bounds_merge {name : String} (h : l.merge b = .ok m) (hn : .parameter name ∈ m.bounds) :
    .parameter name ∈ b.bounds ∨ .parameter name ∈ l.bounds := by
  obtain ⟨ks, top, offset, limit, -, ht, -, hl, rfl⟩ := merge_eq_ok.mp h
  simp only [mem_bounds] at hn ⊢
  rcases hn with rfl | rfl
  · exact ((Count.min?_combines.parameter ht name).mp rfl).imp .inl .inl
  · exact ((Count.min?_combines.parameter hl name).mp rfl).imp .inr .inr

theorem hasTop_merge (h : l.merge b = .ok m) : m.hasTop = (b.hasTop || l.hasTop) := by
  obtain ⟨ks, top, offset, limit, -, ht, -, hl, rfl⟩ := merge_eq_ok.mp h
  simp only [hasTop, Count.min?_combines.isSome ht, Count.min?_combines.isSome hl]
  cases b.top.isSome <;> cases b.limit.isSome <;> cases l.top.isSome <;> rfl

theorem isSome_offset_merge (h : l.merge b = .ok m) :
    m.offset.isSome = (b.offset.isSome || l.offset.isSome) := by
  obtain ⟨ks, top, offset, limit, -, -, ho, -, rfl⟩ := merge_eq_ok.mp h
  exact Count.sum?_combines.isSome ho

theorem Gathers.flattenOnto (hb : b.Gathers ls) (h : l.flattenOnto b = .ok m) :
    m.Gathers (l :: ls) := by
  obtain ⟨-, h⟩ := flattenOnto_eq_ok.mp h
  have hbelow : ∀ {p : Layer → Prop}, (∃ l' ∈ ls, p l') → ∃ l' ∈ l :: ls, p l' :=
    fun ⟨l', hl', hp⟩ => ⟨l', List.mem_cons_of_mem _ hl', hp⟩
  split at h
  · subst h
    exact ⟨fun ht => ⟨l, List.mem_cons_self, ht⟩, fun ho => ⟨l, List.mem_cons_self, ho⟩,
      fun _ hn => ⟨l, List.mem_cons_self, hn⟩, fun _ hn => ⟨l, List.mem_cons_self, hn⟩,
      fun h => h l List.mem_cons_self⟩
  · refine ⟨fun ht => ?_, fun ho => ?_, fun name hn => ?_, fun name hn => ?_, fun hs => ?_⟩
    · rw [hasTop_merge h, Bool.or_eq_true] at ht
      exact ht.elim (fun ht => hbelow (hb.top ht)) fun ht => ⟨l, List.mem_cons_self, ht⟩
    · rw [isSome_offset_merge h, Bool.or_eq_true] at ho
      exact ho.elim (fun ho => hbelow (hb.offset ho)) fun ho => ⟨l, List.mem_cons_self, ho⟩
    · exact (bounds_merge h hn).elim (fun hn => hbelow (hb.bounds name hn))
        fun hn => ⟨l, List.mem_cons_self, hn⟩
    · obtain ⟨ks, top, offset, limit, -, -, ho, -, rfl⟩ := merge_eq_ok.mp h
      obtain rfl : offset = some (.parameter name) := hn
      exact ((Count.sum?_combines.parameter ho name).mp rfl).elim
        (fun hn => hbelow (hb.offsets name hn)) fun hn => ⟨l, List.mem_cons_self, hn⟩
    · obtain ⟨ks, top, offset, limit, -, -, -, -, rfl⟩ := merge_eq_ok.mp h
      exact hasAggregate_mergedSelection (hs l List.mem_cons_self)
        (hb.single fun l' hl' => hs l' (List.mem_cons_of_mem _ hl'))

theorem flattenAll_gathers {ls : List Layer} (h : l.flattenAll ls = .ok m) :
    m.Gathers (l :: ls) := by
  induction ls generalizing l m with
  | nil =>
    cases h
    exact .self l
  | cons next rest ih =>
    obtain ⟨b, hb, h⟩ := bind_eq_ok.mp h
    exact (ih hb).flattenOnto h

/-! ## Settled layers -/

/-- No layer filters, orders or skips the rows that are bounded below it. -/
def Settled : List Layer → Prop
  | [] => True
  | l :: ls =>
    (∀ b ∈ ls, b.hasTop = true ∨ b.offset.isSome = true → l.filter = none ∧ l.orderBy = []) ∧
      (∀ b ∈ ls, b.hasTop = true → l.offset = none) ∧ Settled ls

/-- Settled layers are refused for an aggregate below others, or because their clauses clash. -/
theorem flattenAll_eq_error {ls : List Layer} (hs : Settled (l :: ls))
    (h : l.flattenAll ls = .error e) : Clash (l :: ls) e ∨
      e = .unsupported .composedAggregate ∧ ∃ b ∈ ls, b.selection.any (·.hasAggregate) = true := by
  induction ls generalizing l with
  | nil => cases h
  | cons next rest ih =>
    obtain ⟨hfilter, hoffset, hs⟩ := hs
    rw [flattenAll] at h
    cases hb : next.flattenAll rest with
    | error e' =>
      rw [hb] at h
      cases h
      rcases ih hs hb with h | ⟨he, b, hm, hagg⟩
      · refine .inl ?_
        cases h with
        | orders => exact .orders
        | bounds hm hn => exact .bounds (List.mem_cons_of_mem _ hm) hn
        | offsets hm hn => exact .offsets (List.mem_cons_of_mem _ hm) hn
      · exact .inr ⟨he, b, List.mem_cons_of_mem _ hm, hagg⟩
    | ok b =>
      rw [hb] at h
      have hgathers := flattenAll_gathers hb
      rcases flattenOnto_eq_error h with ⟨he, hagg⟩ | ⟨-, hbound, hl⟩ | ⟨-, htop, hl⟩ | h
      · refine .inr ⟨he, ?_⟩
        by_contra hnone
        have := hgathers.single fun l hl => Bool.eq_false_iff.mpr fun h => hnone ⟨l, hl, h⟩
        rw [this] at hagg
        cases hagg
      · rcases hbound with h | h
        · obtain ⟨l', hl', h⟩ := hgathers.top h
          exact absurd (hfilter l' hl' (.inl h)) hl
        · obtain ⟨l', hl', h⟩ := hgathers.offset h
          exact absurd (hfilter l' hl' (.inr h)) hl
      · obtain ⟨l', hl', h⟩ := hgathers.top htop
        exact absurd (hoffset l' hl' h) hl
      · refine .inl ?_
        cases h with
        | orders => exact .orders
        | bounds hm hn =>
          rcases List.mem_pair.mp hm with rfl | rfl
          · exact .bounds List.mem_cons_self hn
          · obtain ⟨l', hl', hn⟩ := hgathers.bounds _ hn
            exact .bounds (List.mem_cons_of_mem _ hl') hn
        | offsets hm hn =>
          rcases List.mem_pair.mp hm with rfl | rfl
          · exact .offsets List.mem_cons_self hn
          · obtain ⟨l', hl', hn⟩ := hgathers.offsets _ hn
            exact .offsets (List.mem_cons_of_mem _ hl') hn

end Layer

namespace Stage

variable {P G : Scalar → Prop} {C : Count → Prop} {last : Prop} {st : Stage} {e : CompileError}

theorem flatten_external (h : st.toQuery = .error e) : e.isInternal = false := by
  unfold toQuery at h
  cases hf : st.flatten with
  | error e' =>
    rw [hf] at h
    cases h
    exact Layer.flattenAll_external hf
  | ok l =>
    rw [hf] at h
    cases h

theorem hasTop_eq_false : st.hasTop = false ↔ ∀ l ∈ st.layers, l.hasTop = false := by
  simp [hasTop]

theorem hasOffset_eq_false : st.hasOffset = false ↔ ∀ l ∈ st.layers, l.offset = none := by
  simp [hasOffset]

theorem Unbounded.settled {l : Layer} (h : st.Unbounded) (hs : Layer.Settled st.layers) :
    Layer.Settled (l :: st.below) := by
  have ht := hasTop_eq_false.mp h.top
  have ho := hasOffset_eq_false.mp h.offset
  refine ⟨fun b hb h' => ?_, fun b hb h' => ?_, hs.2.2⟩ <;>
    simp [ht b (List.mem_cons_of_mem _ hb), ho b (List.mem_cons_of_mem _ hb)] at h'

/-- The layers of what operators build are settled. -/
theorem Built.settled (h : Built P C st) : Layer.Settled st.layers := by
  induction h with
  | root | overItems => exact ⟨fun _ hb => (nomatch hb), fun _ hb => (nomatch hb), trivial⟩
  | package name _ ih => exact ⟨fun _ _ _ => ⟨rfl, rfl⟩, fun _ _ _ => rfl, ih⟩
  | join name _ hu _ _ ih => exact hu.settled ih
  | filter _ hu _ ih => exact hu.settled ih
  | select _ _ _ ih => exact ih
  | replaceSelect _ hu _ ih => exact hu.settled ih
  | distinct _ hu ih => exact hu.settled ih
  | orderBy _ hu _ ih => exact hu.settled ih
  | thenBy _ hu _ hok ih =>
    obtain ⟨-, rfl⟩ := thenBy_eq_ok.mp hok
    exact hu.settled ih
  | top _ _ hok ih =>
    obtain ⟨_, _, rfl⟩ := addTop_ok hok
    exact ih
  | @offset c st u _ ht _ hok ih =>
    obtain ⟨_, -, rfl⟩ := addOffset_eq_ok.mp hok
    refine ⟨ih.1, fun b hb htop => ?_, ih.2.2⟩
    rw [hasTop_eq_false.mp ht b (List.mem_cons_of_mem _ hb)] at htop
    cases htop

theorem Ended.settled (h : Ended P G C last st) : Layer.Settled st.layers := by
  cases h with
  | middle h => exact h.settled
  | aggregate _ h hu => exact hu.settled h.settled
  | grouped h hu => exact hu.settled h.settled

end Stage

end LambdaQuery
