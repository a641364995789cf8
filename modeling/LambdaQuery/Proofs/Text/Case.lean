import LambdaQuery.Text.Case
import Mathlib.Data.List.Chain

/-!
# Capitals and lower case

What the case data keeps apart. No capital is lower case (`isLower_of_isUpper`), and the lower case
of a character is the character itself or starts with one that is no capital (`lowerOf_cases`). Both
say that runs have no code point in common with the capitals: the runs of the lower case, and those
that the mapping leads to (`Shift.target`). Since the capitals are in ascending order, a run is
compared with those alone that begin before it ends (`Run.clear`).
-/

set_option autoImplicit false

namespace LambdaQuery.Text

/-! ## Runs -/

namespace Run

variable {r s : Run} {n : Nat}

def points (r : Run) : List Nat := List.range' r.first ((r.last - r.first) / r.step + 1) r.step

/-- Whether a run has no code point of the runs `ss`, which are in ascending order. The points are
looked up where the bounds overlap. -/
def clear (r : Run) : List Run → Bool
  | [] => true
  | s :: ss =>
    match s.last.blt r.first, r.last.blt s.first with
    | true, _ => r.clear ss
    | false, true => true
    | false, false => (r.points.all fun n => !s.has n) && r.clear ss

theorem has_iff : r.has n = true ↔ (r.first ≤ n ∧ n ≤ r.last) ∧ (n - r.first) % r.step = 0 := by
  simp only [has, Bool.and_eq_true, decide_eq_true_eq, beq_iff_eq]

theorem mem_points (h : r.has n = true) : n ∈ r.points := by
  obtain ⟨⟨hfirst, hlast⟩, hstep⟩ := has_iff.mp h
  refine List.mem_range'.mpr ⟨(n - r.first) / r.step, ?_, ?_⟩
  · exact Nat.lt_succ_of_le (Nat.div_le_div_right (Nat.sub_le_sub_right hlast _))
  · have hdiv := Nat.div_add_mod (n - r.first) r.step
    rw [hstep] at hdiv
    omega

theorem not_has_of_lt_first (h : n < s.first) : s.has n = false :=
  Bool.eq_false_iff.mpr fun hs => by
    have := (has_iff.mp hs).1.1
    omega

theorem not_has_of_last_lt (h : s.last < n) : s.has n = false :=
  Bool.eq_false_iff.mpr fun hs => by
    have := (has_iff.mp hs).1.2
    omega

theorem not_has_of_clear {ss : List Run} (hss : ss.Pairwise fun s t => s.first ≤ t.first)
    (h : r.clear ss = true) (hr : r.has n = true) (hs : s ∈ ss) : s.has n = false := by
  obtain ⟨⟨hfirst, hlast⟩, -⟩ := has_iff.mp hr
  induction ss with
  | nil => cases hs
  | cons t ss ih =>
    obtain ⟨ht, hss⟩ := List.pairwise_cons.mp hss
    unfold clear at h
    split at h
    · rename_i hbefore
      rw [Nat.blt_eq] at hbefore
      rcases List.mem_cons.mp hs with rfl | hs
      · exact not_has_of_last_lt (by omega)
      · exact ih hss h hs
    · rename_i hafter
      rw [Nat.blt_eq] at hafter
      -- All runs from here on begin after this one has ended.
      have hbegin : t.first ≤ s.first := by
        rcases List.mem_cons.mp hs with rfl | hs
        · exact Nat.le_refl _
        · exact ht s hs
      exact not_has_of_lt_first (by omega)
    · rw [Bool.and_eq_true, List.all_eq_true] at h
      rcases List.mem_cons.mp hs with rfl | hs
      · simpa using h.1 n (mem_points hr)
      · exact ih hss h.2 hs

end Run

/-- The run of the other cases of a run. -/
def Shift.target (s : Shift) : Run :=
  ⟨(s.run.first + s.distance).toNat, (s.run.last + s.distance).toNat, s.run.step⟩

theorem Shift.target_has {s : Shift} {n : Nat} (hs : 0 ≤ s.run.first + s.distance)
    (h : s.run.has n = true) : s.target.has (n + s.distance).toNat = true := by
  obtain ⟨⟨hfirst, hlast⟩, hstep⟩ := Run.has_iff.mp h
  refine Run.has_iff.mpr ⟨⟨?_, ?_⟩, ?_⟩
  · exact Int.toNat_le_toNat (by omega)
  · exact Int.toNat_le_toNat (by omega)
  · have hoffset :
        (n + s.distance).toNat - (s.run.first + s.distance).toNat = n - s.run.first := by omega
    show ((n + s.distance).toNat - (s.run.first + s.distance).toNat) % s.run.step = 0
    rw [hoffset, hstep]

/-! ## Tables -/

theorem upperRuns_ascending : upperRuns.Pairwise fun r s => r.first ≤ s.first := by
  have hchain : (upperRuns.map (·.first)).IsChain (· ≤ ·) := by decide +kernel
  exact List.pairwise_map.mp hchain.pairwise

theorem lowerRuns_clear : (lowerRuns.all fun r => r.clear upperRuns) = true := by decide +kernel

theorem lowerShifts_clear :
    (lowerShifts.all fun s =>
      decide (0 ≤ s.run.first + s.distance) && s.target.clear upperRuns) = true := by
  decide +kernel

theorem lowerExpansions_clear :
    ∀ e ∈ lowerExpansions,
      ∃ code codes, e.2 = code :: codes ∧ isUpper (Char.ofNat code) = false := by
  intro e he
  obtain rfl := List.mem_singleton.mp he
  exact ⟨_, _, rfl, by decide⟩

/-! ## Characters -/

theorem isUpper_iff {c : Char} : isUpper c = true ↔ ∃ u ∈ upperRuns, u.has c.toNat = true :=
  List.any_eq_true

theorem isLower_of_isUpper {c : Char} (h : isUpper c = true) : isLower c = false := by
  refine Bool.eq_false_iff.mpr fun hlower => ?_
  obtain ⟨u, hu, huc⟩ := isUpper_iff.mp h
  obtain ⟨l, hl, hlc⟩ := List.any_eq_true.mp hlower
  have hclear := List.all_eq_true.mp lowerRuns_clear l hl
  rw [Run.not_has_of_clear upperRuns_ascending hclear hlc hu] at huc
  cases huc

/-- A number that is no code point stands for the character zero, which is no capital. -/
theorem isUpper_ofNat {n : Nat} (h : isUpper (Char.ofNat n) = true) :
    ∃ u ∈ upperRuns, u.has n = true := by
  obtain ⟨u, hu, hn⟩ := isUpper_iff.mp h
  by_cases hvalid : n.isValidChar
  · rw [Char.ofNat, dif_pos hvalid] at hn
    exact ⟨u, hu, hn⟩
  · rw [Char.ofNat, dif_neg hvalid] at hn
    have hzero : (upperRuns.all fun u => !u.has 0) = true := by decide
    have hnot : u.has 0 = false := by simpa using List.all_eq_true.mp hzero u hu
    exact absurd (hn.symm.trans hnot) (by decide)

/-- What a character is lowered to starts with no capital, unless it is the character itself. -/
theorem lowerOf_cases (c : Char) :
    lowerOf c = [c] ∨ ∃ d ds, lowerOf c = d :: ds ∧ isUpper d = false := by
  unfold lowerOf mapCase
  cases hcodes : lowerExpansions.lookup c.toNat with
  | some codes =>
    obtain ⟨before, after, htable, -⟩ := List.lookup_eq_some_iff.mp hcodes
    have hmem : (c.toNat, codes) ∈ lowerExpansions := by rw [htable]; simp
    obtain ⟨code, codes, rfl, hcode⟩ := lowerExpansions_clear _ hmem
    exact .inr ⟨_, _, rfl, hcode⟩
  | none =>
    cases hshift : lowerShifts.find? (·.run.has c.toNat) with
    | none => exact .inl rfl
    | some s =>
      have hclear := List.all_eq_true.mp lowerShifts_clear s (List.mem_of_find?_eq_some hshift)
      rw [Bool.and_eq_true, decide_eq_true_eq] at hclear
      have hrun : s.run.has c.toNat = true := by simpa using List.find?_some hshift
      have htarget := s.target_has hclear.1 hrun
      refine .inr ⟨_, [], rfl, Bool.eq_false_iff.mpr fun hupper => ?_⟩
      obtain ⟨u, hu, hun⟩ := isUpper_ofNat hupper
      rw [Run.not_has_of_clear upperRuns_ascending hclear.2 htarget hu] at hun
      cases hun

end LambdaQuery.Text
