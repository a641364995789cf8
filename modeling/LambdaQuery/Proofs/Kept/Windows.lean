import LambdaQuery.Proofs.Kept.Unreachable
import LambdaQuery.Proofs.Parts

/-!
# Bounds and parameters of compiled queries

A query has a `TOP` only where it has neither `OFFSET` nor `LIMIT`, and no bound is negative
(`Expr.toQuery_windows`); the parameters in it are in use (`Compilation.query_parameters`). Both
hold at any depth, since they hold of all that operators put into the layers of a stage
(`Stage.Ended.sound`): a chain has no layer with a `TOP` once it skips rows, and no layer with a
`LIMIT` before (`Stage.Apart`).
-/

set_option autoImplicit false

namespace LambdaQuery

/-! ## Sound parts -/

/-- A count that is not negative, or one of the parameters `names`. -/
def Count.Sound (names : List String) : Count → Prop
  | .literal n => 0 ≤ n.toInt
  | .parameter name => name ∈ names

/-- Sound bounds. Rows are bounded in one way. -/
structure Window.Sound (names : List String) (w : Window) : Prop where
  counts : ∀ c ∈ w.counts, c.Sound names
  apart : w.top ≠ none → w.offset = none ∧ w.limit = none

def Part.Sound (names : List String) : Part → Prop
  | .parameter name => name ∈ names
  | .window w => w.Sound names

def Scalar.Sound (names : List String) (a : Scalar) : Prop := ∀ p ∈ a.parts, p.Sound names

section

variable {names names' : List String} (h : names ⊆ names')

include h

theorem Count.Sound.mono {c : Count} (hc : c.Sound names) : c.Sound names' := by
  cases c with
  | literal => exact hc
  | parameter => exact h hc

theorem Part.Sound.mono {p : Part} (hp : p.Sound names) : p.Sound names' := by
  cases p with
  | parameter => exact h hp
  | window => exact ⟨fun c hc => (hp.counts c hc).mono h, hp.apart⟩

end

/-! ### Combined bounds -/

section

variable {names : List String} {a b z : Option Count}
  (ha : ∀ c ∈ a, c.Sound names) (hb : ∀ c ∈ b, c.Sound names)

include ha hb

theorem Count.sound_min? (h : Count.min? a b = .ok z) : ∀ c ∈ z, c.Sound names := by
  rcases Count.min?_eq_ok h with ⟨-, rfl⟩ | ⟨-, rfl⟩ | ⟨m, n, rfl, rfl, k, rfl, hk⟩
  · exact hb
  · exact ha
  · have hm : 0 ≤ m.toInt := ha _ rfl
    have hn : 0 ≤ n.toInt := hb _ rfl
    rintro _ ⟨⟩
    show 0 ≤ k.toInt
    omega

/-- A sum that exceeds all counts is the largest of them. -/
theorem Count.sound_sum? (h : Count.sum? a b = .ok z) : ∀ c ∈ z, c.Sound names := by
  rcases Count.sum?_eq_ok h with ⟨-, rfl⟩ | ⟨-, rfl⟩ | ⟨m, n, rfl, rfl, k, rfl, hk⟩
  · exact hb
  · exact ha
  · have hm : 0 ≤ m.toInt := ha _ rfl
    have hn : 0 ≤ n.toInt := hb _ rfl
    rintro _ ⟨⟩
    show 0 ≤ k.toInt
    have := hk (by omega)
    omega

end

/-! ## Sound stages -/

namespace Stage

variable {names : List String} {st u : Stage}

/-- A chain that skips rows bounds them by `LIMIT`, any other one by `TOP`. -/
def Apart (st : Stage) : Prop :=
  if st.hasOffset then ∀ l ∈ st.layers, l.top = none else ∀ l ∈ st.layers, l.limit = none

/-- All parts and bounds of the layers are sound, and bounds do not conflict. -/
structure Sound (names : List String) (st : Stage) : Prop where
  made : ∀ l ∈ st.layers, l.Made (·.Sound names)
  counts : ∀ l ∈ st.layers, ∀ c ∈ l.window.counts, c.Sound names
  apart : st.Apart

/-- Combined bounds of layers that do not conflict are sound, and do not conflict. -/
theorem Sound.combines (h : st.Sound names) : ∃ W : Window → Prop,
    Layer.Combines W ∧ (∀ w, W w → w.Sound names) ∧ ∀ l ∈ st.layers, W l.window := by
  have hcounts : ∀ {v w : Window} {top offset limit : Option Count},
      (∀ c ∈ v.counts, c.Sound names) → (∀ c ∈ w.counts, c.Sound names) →
        Count.min? v.top w.top = .ok top → Count.sum? v.offset w.offset = .ok offset →
          Count.min? v.limit w.limit = .ok limit →
            ∀ c ∈ (⟨top, offset, limit⟩ : Window).counts, c.Sound names := by
    intro v w top offset limit hv hw htop hoffset hlimit c hc
    simp only [Window.mem_counts] at hv hw hc
    rcases hc with hc | hc | hc
    · exact Count.sound_min? (fun c hc => hv c (.inl hc)) (fun c hc => hw c (.inl hc)) htop c hc
    · exact Count.sound_sum? (fun c hc => hv c (.inr (.inl hc)))
        (fun c hc => hw c (.inr (.inl hc))) hoffset c hc
    · exact Count.sound_min? (fun c hc => hv c (.inr (.inr hc)))
        (fun c hc => hw c (.inr (.inr hc))) hlimit c hc
  have hapart := h.apart
  unfold Apart at hapart
  split at hapart
  · refine ⟨fun w => (∀ c ∈ w.counts, c.Sound names) ∧ w.top = none, ?_, ?_, ?_⟩
    · rintro v w top offset limit ⟨hv, hv'⟩ ⟨hw, hw'⟩ htop hoffset hlimit
      refine ⟨hcounts hv hw htop hoffset hlimit, ?_⟩
      rw [hv', hw'] at htop
      exact (Except.ok.inj htop).symm
    · exact fun w hw => ⟨hw.1, fun htop => absurd hw.2 htop⟩
    · exact fun l hl => ⟨h.counts l hl, hapart l hl⟩
  · rename_i hoffset
    have hnone : ∀ l ∈ st.layers, l.offset = none := by
      simpa [hasOffset, List.any_eq_true] using hoffset
    refine ⟨fun w => (∀ c ∈ w.counts, c.Sound names) ∧ w.offset = none ∧ w.limit = none, ?_, ?_, ?_⟩
    · rintro v w top offset limit ⟨hv, hvo, hvl⟩ ⟨hw, hwo, hwl⟩ htop hoffset hlimit
      refine ⟨hcounts hv hw htop hoffset hlimit, ?_, ?_⟩
      · rw [hvo, hwo] at hoffset
        exact (Except.ok.inj hoffset).symm
      · rw [hvl, hwl] at hlimit
        exact (Except.ok.inj hlimit).symm
    · exact fun w hw => ⟨hw.1, fun _ => hw.2⟩
    · exact fun l hl => ⟨h.counts l hl, hnone l hl, hapart l hl⟩

/-- The query of a sound stage has sound parts. -/
theorem Sound.toQuery (h : st.Sound names) {q : Query} (hq : st.toQuery = .ok q) :
    ∀ p ∈ q.parts, p.Sound names := by
  obtain ⟨W, hW, hsound, hlayers⟩ := h.combines
  exact made_toQuery hW hsound (fun l hl => ⟨(h.made l hl).parts, hlayers l hl⟩) hq

/-! ### What operators do to sound stages -/

/-- A change of the upper layer that leaves its bounds alone. -/
theorem Sound.edit (h : st.Sound names) {l : Layer} (hl : l.Made (·.Sound names))
    (hw : l.window = st.layer.window) : (⟨l, st.below⟩ : Stage).Sound names where
  made := List.forall_mem_cons.mpr ⟨hl, fun b hb => h.made b (List.mem_cons_of_mem _ hb)⟩
  counts := List.forall_mem_cons.mpr
    ⟨hw ▸ h.counts _ List.mem_cons_self, fun b hb => h.counts b (List.mem_cons_of_mem _ hb)⟩
  apart := by
    obtain ⟨htop, hoffset, hlimit⟩ : l.top = st.layer.top ∧ l.offset = st.layer.offset ∧
        l.limit = st.layer.limit := by simpa [Layer.window] using hw
    have hapart := h.apart
    simp only [Apart, hasOffset, layers, List.any_cons, List.forall_mem_cons] at hapart ⊢
    rwa [htop, hoffset, hlimit]

theorem Sound.upper (h : st.Sound names) : st.layer.Made (·.Sound names) :=
  h.made _ List.mem_cons_self

theorem sound_ofSource {name : String} {source : LayerSource}
    (h : ∀ p ∈ (Layer.ofSource name source).toSource.parts, p.Sound names) :
    Sound names ⟨.ofSource name source, []⟩ where
  made := List.forall_mem_singleton.mpr (Layer.made_ofSource h)
  counts := List.forall_mem_singleton.mpr nofun
  apart := by simp [Apart, hasOffset, layers, Layer.ofSource]

theorem Sound.package (h : st.Sound names) (name : String) : (st.package name).Sound names where
  made := List.forall_mem_cons.mpr ⟨Layer.made_ofSource nofun, h.made⟩
  counts := List.forall_mem_cons.mpr ⟨nofun, h.counts⟩
  apart := by
    have hapart := h.apart
    have hlayers : (st.package name).layers = .ofSource name .container :: st.layers := rfl
    unfold Apart at hapart ⊢
    rw [hasOffset_package, hlayers]
    simpa [Layer.ofSource] using hapart

theorem Sound.addWhere (h : st.Sound names) {test : Scalar} (ht : test.Sound names) :
    (st.addWhere test).Sound names := by
  refine h.edit { h.upper with filter := ?_ } rfl
  rintro _ ⟨⟩
  split
  · rename_i existing hf
    exact List.forall_mem_append.mpr ⟨h.upper.filter existing hf, ht⟩
  · exact ht

theorem Sound.select (h : st.Sound names) {selection : Selection}
    (hs : ∀ v ∈ selection.value?, v.Sound names) :
    (st.mapLayer ({ · with selection := some selection })).Sound names :=
  h.edit { h.upper with selection := hs } rfl

theorem Sound.replaceSelect (h : st.Sound names) {value : Scalar} (hv : value.Sound names) :
    (st.replaceSelect value).Sound names := by
  refine h.select fun v hmem => ?_
  cases hs : st.layer.selection <;> rw [hs] at hmem <;> cases hmem <;> exact hv

theorem Sound.setDistinct (h : st.Sound names) : st.setDistinct.Sound names := by
  refine h.select fun v hmem => ?_
  cases hs : st.layer.selection with
  | some selection =>
    rw [hs] at hmem
    exact h.upper.selection v (by rw [hs]; exact hmem)
  | none =>
    rw [hs] at hmem
    obtain rfl : st.layer.row = v := Option.some.inj hmem
    exact h.upper.row

/-- A change of the bounds of the upper layer. -/
theorem Sound.bounded (h : st.Sound names) {w : Window} (hw : ∀ c ∈ w.counts, c.Sound names)
    (hapart : Apart ⟨{ st.layer with top := w.top, offset := w.offset, limit := w.limit },
      st.below⟩) :
    Sound names ⟨{ st.layer with top := w.top, offset := w.offset, limit := w.limit },
      st.below⟩ where
  made := List.forall_mem_cons.mpr
    ⟨{ h.upper with }, fun b hb => h.made b (List.mem_cons_of_mem _ hb)⟩
  counts := List.forall_mem_cons.mpr
    ⟨hw, fun b hb => h.counts b (List.mem_cons_of_mem _ hb)⟩
  apart := hapart

section

variable {c : Count}

/-- A bound is set as `LIMIT` where rows are skipped, and as `TOP` elsewhere. -/
theorem Sound.addTop (h : st.Sound names) (hc : c.Sound names)
    (hok : Stage.addTop c st = (.ok (), u)) : u.Sound names := by
  replace hc : ∀ n ∈ some c, n.Sound names := fun n hn => Option.mem_some.mp hn ▸ hc
  have hold := h.counts _ List.mem_cons_self
  have hapart := h.apart
  simp only [Window.mem_counts] at hold
  unfold Apart at hapart
  rw [addTop_eq_ok] at hok
  split at hok
  · rename_i hoffset
    obtain ⟨limit, hlimit, rfl⟩ := addLimit_eq_ok.mp hok
    rw [if_pos hoffset] at hapart
    refine h.bounded (w := ⟨st.layer.top, st.layer.offset, limit⟩) (fun n hn => ?_) ?_
    · rcases Window.mem_counts.mp hn with hn | hn | hn
      · exact hold n (.inl hn)
      · exact hold n (.inr (.inl hn))
      · exact Count.sound_min? (fun c hc => hold c (.inr (.inr hc))) hc hlimit n hn
    · rw [Apart, if_pos (by exact hoffset)]
      exact List.forall_mem_cons.mpr (List.forall_mem_cons.mp hapart)
  · rename_i hoffset
    obtain ⟨top, htop, rfl⟩ := hok
    rw [if_neg hoffset] at hapart
    refine h.bounded (w := ⟨top, st.layer.offset, st.layer.limit⟩) (fun n hn => ?_) ?_
    · rcases Window.mem_counts.mp hn with hn | hn | hn
      · exact Count.sound_min? (fun c hc => hold c (.inl hc)) hc htop n hn
      · exact hold n (.inr (.inl hn))
      · exact hold n (.inr (.inr hn))
    · rw [Apart, if_neg (by exact hoffset)]
      exact List.forall_mem_cons.mpr (List.forall_mem_cons.mp hapart)

/-- Rows are only skipped where none are bounded. -/
theorem Sound.addOffset (h : st.Sound names) (htop : st.hasTop = false)
    (hc : c.Sound names) (hok : Stage.addOffset c st = (.ok (), u)) :
    u.Sound names := by
  replace hc : ∀ n ∈ some c, n.Sound names := fun n hn => Option.mem_some.mp hn ▸ hc
  obtain ⟨offset, hoffset, rfl⟩ := addOffset_eq_ok.mp hok
  have hold := h.counts _ List.mem_cons_self
  simp only [Window.mem_counts] at hold
  have hnone : ∀ l ∈ st.layers, l.top = none ∧ l.limit = none := by
    simpa [hasTop, Layer.hasTop, List.any_eq_false] using htop
  refine h.bounded (w := ⟨st.layer.top, offset, st.layer.limit⟩) (fun n hn => ?_) ?_
  · rcases Window.mem_counts.mp hn with hn | hn | hn
    · exact hold n (.inl hn)
    · exact Count.sound_sum? (fun c hc => hold c (.inr (.inl hc))) hc hoffset n hn
    · exact hold n (.inr (.inr hn))
  · have hupper := List.forall_mem_cons.mp hnone
    unfold Apart
    split
    · exact List.forall_mem_cons.mpr ⟨hupper.1.1, fun b hb => (hupper.2 b hb).1⟩
    · exact List.forall_mem_cons.mpr ⟨hupper.1.2, fun b hb => (hupper.2 b hb).2⟩

end

/-- **What operators build of sound scalars and counts is sound.** -/
theorem Built.sound {P : Scalar → Prop} {C : Count → Prop} (hP : ∀ a, P a → a.Sound names)
    (hC : ∀ c, C c → c.Sound names) (h : Built P C st) : st.Sound names := by
  induction h with
  | root => exact sound_ofSource nofun
  | overItems name hp => exact sound_ofSource (hP _ hp)
  | package name _ ih => exact ih.package name
  | join name _ _ _ hp ih =>
    refine ih.edit { ih.upper with joins := List.forall_mem_append.mpr ⟨ih.upper.joins, ?_⟩ } rfl
    exact List.forall_mem_singleton.mpr (hP _ hp)
  | filter _ _ hp ih => exact ih.addWhere (hP _ hp)
  | select _ _ hp ih =>
    refine ih.select ?_
    rintro _ ⟨⟩
    exact hP _ hp
  | replaceSelect _ _ hp ih => exact ih.replaceSelect (hP _ hp)
  | distinct _ _ ih => exact ih.setDistinct
  | orderBy _ _ hp ih =>
    exact ih.edit { ih.upper with orderBy := List.forall_mem_singleton.mpr (hP _ hp) } rfl
  | thenBy _ _ hp hok ih =>
    obtain ⟨-, rfl⟩ := thenBy_eq_ok.mp hok
    refine ih.edit { ih.upper with
      orderBy := List.forall_mem_append.mpr ⟨ih.upper.orderBy, ?_⟩ } rfl
    exact List.forall_mem_singleton.mpr (hP _ hp)
  | top _ hc hok ih => exact ih.addTop (hC _ hc) hok
  | offset _ ht hc hok ih => exact ih.addOffset ht (hC _ hc) hok

theorem Ended.sound {P G : Scalar → Prop} {C : Count → Prop} {last : Prop}
    (hP : ∀ a, P a → a.Sound names) (hG : ∀ a, G a → a.Sound names)
    (hC : ∀ c, C c → c.Sound names) (h : Ended P G C last st) : st.Sound names := by
  cases h with
  | middle h => exact h.sound hP hC
  | aggregate _ h _ _ ha =>
    refine (h.sound hP hC).select ?_
    rintro _ ⟨⟩
    cases ha with
    | count | any => exact nofun
    | of _ hp => exact List.forall_mem_append.mpr ⟨hP _ hp, nofun⟩
  | grouped h _ _ _ hk hg =>
    have hst := h.sound hP hC
    refine hst.edit { hst.upper with groupBy := ?_, selection := ?_ } rfl
    · rintro _ ⟨⟩
      exact hG _ hg
    · exact List.forall_mem_singleton.mpr (hP _ hk)

end Stage

/-! ## Sound scalars -/

namespace Scalar

variable {names : List String}

theorem sound_all {as : List Scalar} (h : ∀ a ∈ as, a.Sound names) :
    ∀ p ∈ partsAll as, p.Sound names := fun p hp =>
  have ⟨a, ha, hp⟩ := mem_partsAll.mp hp
  h a ha p hp

theorem sound_properties {ps : List (String × Scalar)} (h : ∀ q ∈ ps, q.2.Sound names) :
    ∀ p ∈ partsProperties ps, p.Sound names := fun p hp =>
  have ⟨q, hq, hp⟩ := mem_partsProperties.mp hp
  h q hq p hp

theorem Data.sound {a : Scalar} (h : a.Data) : a.Sound names := by
  induction h with
  | literal => exact nofun
  | array _ ih => exact sound_all ih
  | object _ ih => exact sound_properties ih

theorem sound_nestedScalar {q : Query} (h : ∀ p ∈ q.parts, p.Sound names) (method : String) :
    (Compilation.nestedScalar method q).Sound names := by
  unfold Compilation.nestedScalar
  split
  · exact h
  · exact h
  · exact h
  · exact List.forall_mem_append.mpr ⟨h, List.forall_mem_nil _⟩
  · exact List.forall_mem_append.mpr ⟨h, List.forall_mem_nil _⟩
  · exact List.forall_mem_append.mpr ⟨h, List.forall_mem_nil _⟩
  · exact h

end Scalar

namespace Scope

/-- The names of the parameters that are in use. -/
def reported (s : Scope) : List String := s.parameters.map (·.name)

theorem Knows.reported {s t : Scope} (h : t.Knows s) : s.reported ⊆ t.reported :=
  List.map_subset _ h.parameters.subset

end Scope

/-- All parts of scalars are sound. -/
def Invariant.sound : Invariant where
  holds s a := a.Sound s.reported
  count s c := c.Sound s.reported
  mono hk h p hp := (h p hp).mono hk.reported
  count_mono hk h := h.mono hk.reported
  grouped _ h := h
  data h := h.sound
  ref _ := nofun
  parameter hp := List.forall_mem_singleton.mpr (List.mem_map_of_mem hp)
  index ha hb := List.forall_mem_append.mpr ⟨ha, hb⟩
  binary _ ha hb := List.forall_mem_append.mpr ⟨ha, hb⟩
  unary _ ha := ha
  conditional ha hb hc :=
    List.forall_mem_append.mpr ⟨ha, List.forall_mem_append.mpr ⟨hb, hc⟩⟩
  call _ _ h _ := Scalar.sound_all h
  array h := Scalar.sound_all h
  object h := Scalar.sound_properties h
  spread _ _ h := h
  isIn _ ha h := List.forall_mem_append.mpr ⟨ha, h⟩
  negated h := h
  nested method h hq := Scalar.sound_nestedScalar
    (Stage.Sound.toQuery (h.sound (fun _ h => h) (fun _ ⟨_, h⟩ => h) fun _ h => h) hq) method
  literal_count h := h
  parameter_count hp := List.mem_map_of_mem hp

/-! ## Compiled queries -/

variable {env : Environment}

theorem Compilation.query_sound {e : Expr} {q : Query} {t : Scope}
    (h : query env e .initial = (.ok q, t)) : ∀ p ∈ q.parts, p.Sound t.reported := by
  obtain ⟨st, last, hst, hq⟩ := (Invariant.sound.query env e).result h
  exact Stage.Sound.toQuery (hst.sound (fun _ h => h) (fun _ ⟨_, h⟩ => h) fun _ h => h) hq

/-- **Bounds never conflict.** In the query of an expression and in all queries nested in it, rows
are bounded by `TOP` or by `OFFSET` and `LIMIT`, but not by both, and no literal bound is negative.
-/
theorem Expr.toQuery_windows {e : Expr} {q : Query} (h : e.toQuery env = .ok q) :
    ∀ w ∈ q.windows, (w.top ≠ none → w.offset = none ∧ w.limit = none) ∧
      ∀ n, .literal n ∈ w.counts → 0 ≤ n.toInt := by
  intro w hw
  have hsound : w.Sound _ :=
    Compilation.query_sound (Prod.ext h rfl) _ (Query.mem_windows.mp hw)
  exact ⟨hsound.apart, fun n hn => hsound.counts _ hn⟩

/-- Some rows of the container are skipped, and the next ones bounded. -/
theorem Expr.toQuery_windows_page :
    let env : Environment := ⟨.default, Interpreter.empty.evaluate⟩
    let e := (((Queryable.root (.model "Row")).skip 3).take 7).expr
    ∃ q, e.toQuery env = .ok q ∧
      q.windows = [⟨none, some (.literal 3), some (.literal 7)⟩] ∧
      ∀ w ∈ q.windows, (w.top ≠ none → w.offset = none ∧ w.limit = none) ∧
        ∀ n, .literal n ∈ w.counts → 0 ≤ n.toInt := by
  intro env e
  let root := (Queryable.root (.model "Row")).expr
  let skipped : Stage := Stage.root.mapLayer ({ · with offset := some (.literal 3) })
  let paged : Stage := skipped.mapLayer ({ · with limit := some (.literal 7) })
  let s := Scope.initial.pushMethod "Take"
  have hroot : Compilation.rows env root (s.pushMethod "Skip") =
      (.ok .root, s.pushMethod "Skip") := by
    rw [Compilation.rows.eq_def]
    rfl
  have hskipped : Compilation.apply env "Skip" [.int 3] .root
      ((s.pushMethod "Skip").pushCollection (.outer "root")) =
        (.ok skipped, (s.pushMethod "Skip").pushCollection (.outer "root")) := by
    subst s skipped env
    cbv
  have hpaged : Compilation.apply env "Take" [.int 7] skipped
      (s.pushCollection (.outer "root")) = (.ok paged, s.pushCollection (.outer "root")) := by
    subst s paged skipped env
    cbv
  have hsource : Compilation.rows env ((Queryable.root (.model "Row")).skip 3).expr s =
      (.ok skipped, s) :=
    Compilation.rows_step rfl hroot (by rfl) (by rfl) hskipped rfl
  have hrows : Compilation.rows env e .initial = (.ok paged, .initial) :=
    Compilation.rows_step rfl hsource (by rfl) (by rfl) hpaged rfl
  have hfold : e.fold env.evaluator = .ok e := by
    subst e env
    cbv
  have hdeclare : Scope.initial.declare e = .initial := by
    subst e
    cbv
  have hq : e.toQuery env = .ok paged.layer.toQuery := by
    unfold toQuery Compilation.query
    rw [hfold]
    show ((Compilation.rows env e >>= Compilation.flattened) (Scope.initial.declare e)).1 = _
    rw [hdeclare, Compilation.run_bind, hrows]
    rfl
  exact ⟨_, hq, rfl, toQuery_windows hq⟩

end LambdaQuery
