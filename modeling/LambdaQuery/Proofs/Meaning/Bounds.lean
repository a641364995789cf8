import LambdaQuery.Proofs.Edits
import LambdaQuery.Proofs.Meaning.Layers
import Mathlib.Algebra.Group.Nat.Defs

/-!
# Bounds of rows

Taking, then skipping and taking again may be combined: of two bounds the smaller one counts, and
offsets are added up (`Rows.atMost_min`, `Rows.behind_sum`). So the bounds of two layers are those
of the merged one (`Layer.bounded_merge`), unless one of them skips what the other has taken.
-/

set_option autoImplicit false

namespace LambdaQuery

variable {V W : Type} {D : Database V}

/-! ## Counts -/

/-- A number of rows that is written out and not negative. -/
def Count.Natural (count : Count) : Prop := ∃ n : Int64, count = .literal n ∧ 0 ≤ n.toInt

section

variable {a b z : Option Count}

theorem Count.sum?_natural (ha : ∀ n, a = some n → n.Natural) (hb : ∀ n, b = some n → n.Natural)
    (h : Count.sum? a b = .ok z) : ∀ n, z = some n → n.Natural := by
  rcases Count.sum?_eq_ok h with ⟨rfl, rfl⟩ | ⟨rfl, rfl⟩ | ⟨m, n, rfl, rfl, k, rfl, hk⟩
  · exact hb
  · exact ha
  · obtain ⟨_, ⟨⟩, hm⟩ := ha _ rfl
    obtain ⟨_, ⟨⟩, hn⟩ := hb _ rfl
    rintro _ ⟨⟩
    exact ⟨k, rfl, by omega⟩

end

/-! ## Bounded rows -/

namespace Rows

variable {a b z : Option Count}

theorem atMost_map (f : V → W) (n : Option Nat) (rows : List V) :
    (atMost n rows).map f = atMost n (rows.map f) := by
  cases n with
  | none => rfl
  | some n => exact List.map_take

theorem behind_map (f : V → W) (n : Option Nat) (rows : List V) :
    (behind n rows).map f = behind n (rows.map f) := by
  cases n with
  | none => rfl
  | some n => exact List.map_drop

theorem atMost_comm (m n : Option Nat) (rows : List V) :
    atMost m (atMost n rows) = atMost n (atMost m rows) := by
  cases m <;> cases n <;> simp [atMost, List.take_take, Nat.min_comm]

theorem atMost_sublist (n : Option Nat) (rows : List V) : (atMost n rows).Sublist rows := by
  cases n with
  | none => exact List.Sublist.refl _
  | some n => exact List.take_sublist n rows

theorem behind_sublist (n : Option Nat) (rows : List V) : (behind n rows).Sublist rows := by
  cases n with
  | none => exact List.Sublist.refl _
  | some n => exact List.drop_sublist n rows

theorem length_atMost_le (n : Option Nat) (rows : List V) :
    (atMost n rows).length ≤ rows.length := (atMost_sublist n rows).length_le

/-- The smaller bound counts. -/
theorem atMost_min (h : Count.min? a b = .ok z) (rows : List V) :
    atMost (z.map D.size) rows = atMost (b.map D.size) (atMost (a.map D.size) rows) := by
  rcases Count.min?_eq_ok h with ⟨rfl, rfl⟩ | ⟨rfl, rfl⟩ | ⟨m, n, rfl, rfl, k, rfl, hk⟩
  · rfl
  · rfl
  · simp only [Option.map_some, atMost, Database.size, List.take_take, hk]
    congr 1
    omega

/-- Offsets are added up. A sum that is no count is more than there are rows. -/
theorem behind_sum (ha : ∀ n, a = some n → n.Natural) (hb : ∀ n, b = some n → n.Natural)
    (h : Count.sum? a b = .ok z) {rows : List V} (hrows : a.isSome → rows.length < 2 ^ 63) :
    behind (z.map D.size) rows = behind (b.map D.size) (behind (a.map D.size) rows) := by
  rcases Count.sum?_eq_ok h with ⟨rfl, rfl⟩ | ⟨rfl, rfl⟩ | ⟨m, n, rfl, rfl, k, rfl, hk⟩
  · rfl
  · rfl
  · obtain ⟨_, ⟨⟩, hm⟩ := ha _ rfl
    obtain ⟨_, ⟨⟩, hn⟩ := hb _ rfl
    have hlength := hrows rfl
    have hk := hk (by omega)
    simp only [Option.map_some, behind, Database.size, List.drop_drop]
    by_cases hmax : m.toInt + n.toInt < 2 ^ 63
    · congr 1
      omega
    · rw [List.drop_eq_nil_iff.mpr (by omega), List.drop_eq_nil_iff.mpr (by omega)]

end Rows

/-! ## Bounds of merged layers -/

namespace Layer

variable [DecidableEq V] {l b m : Layer}

/-- Whether a layer leaves out rows by their number. -/
def isBounded (l : Layer) : Bool := l.hasTop || l.offset.isSome

/-- What operators leave of a layer over one that is bounded. -/
structure Follows (l b : Layer) : Prop where
  joins : b.isBounded = true → l.joins = []
  distinct : b.isBounded = true → l.isDistinct = false
  single : b.isBounded = true → l.row.isAggregate = false
  top : b.offset.isSome = true → l.top = none

/-- Offsets are natural numbers, and they skip some of so many rows as can be counted. -/
structure Sized (D : Database V) (l : Layer) (rows : List V) : Prop where
  offset : ∀ n, l.offset = some n → n.Natural
  free : l.offset.isSome = true → (l.free D rows).length < 2 ^ 63

theorem bounded_of_not_isBounded (h : l.isBounded = false) (rows : List V) :
    (l.meaning D).bounded rows = rows := by
  simp only [isBounded, hasTop, Bool.or_eq_false_iff, Option.isSome_eq_false_iff,
    Option.isNone_iff_eq_none] at h
  obtain ⟨⟨htop, hlimit⟩, hoffset⟩ := h
  simp [ClauseSemantics.bounded, meaning, htop, hlimit, hoffset, Rows.atMost, Rows.behind]

theorem bounded_sublist (rows : List V) : ((l.meaning D).bounded rows).Sublist rows :=
  (Rows.atMost_sublist _ _).trans ((Rows.behind_sublist _ _).trans (Rows.atMost_sublist _ _))

theorem bounded_map (f : V → V) (rows : List V) :
    ((l.meaning D).bounded rows).map f = (l.meaning D).bounded (rows.map f) := by
  rw [ClauseSemantics.bounded, ClauseSemantics.bounded, Rows.atMost_map, Rows.behind_map,
    Rows.atMost_map]

/-- **The bounds of a merged layer are those of both layers, one after the other.** -/
theorem bounded_merge (hm : l.merge b = .ok m) (hf : b.offset.isSome = true → l.top = none)
    (hoffset : (b.hasTop && l.offset.isSome) = false) (hl : ∀ n, l.offset = some n → n.Natural)
    (hb : ∀ n, b.offset = some n → n.Natural) {rows : List V}
    (hrows : b.offset.isSome = true → rows.length < 2 ^ 63) :
    (m.meaning D).bounded rows = (l.meaning D).bounded ((b.meaning D).bounded rows) := by
  obtain ⟨ks, top, offset, limit, -, htop, hsum, hlimit, rfl⟩ := merge_eq_ok.mp hm
  simp only [ClauseSemantics.bounded, meaning]
  rw [Rows.atMost_min hlimit, Rows.atMost_min htop, Rows.behind_sum hb hl hsum fun ho =>
    Nat.lt_of_le_of_lt ((Rows.length_atMost_le _ _).trans (Rows.length_atMost_le _ _)) (hrows ho)]
  congr 1
  cases ho : l.offset with
  | none =>
    simp only [Option.map_none, Rows.behind]
    cases hbo : b.offset with
    | none => simp only [Option.map_none, Rows.atMost_comm (l.top.map D.size)]
    | some n =>
      rw [hf (by rw [hbo]; rfl)]
      rfl
  | some n =>
    have hnone : b.top = none ∧ b.limit = none := by
      rw [ho] at hoffset
      simpa [hasTop] using hoffset
    simp only [hnone.1, hnone.2, Option.map_none, Rows.atMost]
    cases hbo : b.offset with
    | none => rfl
    | some k =>
      rw [hf (by rw [hbo]; rfl)]
      rfl

end Layer

end LambdaQuery
