import LambdaQuery.Number.Decimal.Reader
import LambdaQuery.Proofs.Text.Quoted
import LambdaQuery.Proofs.Text.Words
import Mathlib.Tactic.Ring

/-!
# Values that JSON holds as texts

A decimal is read back from its text with its scale and its sign, the sign of a zero apart
(`Decimal.read?_text`), and an identifier from its five groups of digits (`Guid.read?_text`).
-/

set_option autoImplicit false

namespace LambdaQuery

/-! ## Decimals -/

namespace Decimal

theorem digitValue?_of_isDigit {c : Char} (h : c.isDigit = true) :
    digitValue? c = some (c.toNat - '0'.toNat) := if_pos h

theorem le_ofDigitChars (cs : List Char) (m : Nat) : m ≤ Nat.ofDigitChars 10 cs m := by
  induction cs generalizing m with
  | nil => exact Nat.le_refl m
  | cons c cs ih =>
    rw [Nat.ofDigitChars_cons]
    exact Nat.le_trans (by omega) (ih _)

/-- Digits that leave room for themselves are all taken. -/
theorem readDigits?_append (negative started point : Bool) {m scale : Nat} {ds : List Char}
    (rest : List Char) (hds : ∀ c ∈ ds, c.isDigit = true)
    (hsize : Nat.ofDigitChars 10 ds m < size) (hplaces : point = true → scale + ds.length ≤ 28) :
    readDigits? negative started point m scale (ds ++ rest) =
      readDigits? negative (started || !ds.isEmpty) point (Nat.ofDigitChars 10 ds m)
        (if point then scale + ds.length else scale) rest := by
  induction ds generalizing started m scale with
  | nil => simp
  | cons c ds ih =>
    obtain ⟨hc, hds⟩ := List.forall_mem_cons.mp hds
    rw [Nat.ofDigitChars_cons, Nat.mul_comm] at hsize
    rw [List.length_cons] at hplaces
    have hroom : m * 10 + (c.toNat - '0'.toNat) < size :=
      Nat.lt_of_le_of_lt (le_ofDigitChars ds _) hsize
    have hlast : ¬(point && decide (28 ≤ scale)) = true := fun h => by
      simp only [Bool.and_eq_true, decide_eq_true_eq] at h
      have := hplaces h.1
      omega
    rw [List.cons_append, readDigits?, if_neg hlast, digitValue?_of_isDigit hc]
    simp only
    rw [if_pos hroom, ih true hds hsize]
    · rw [Nat.ofDigitChars_cons, Nat.mul_comm 10]
      cases point with
      | false => simp
      | true =>
        have hscale : scale + 1 + ds.length = scale + (ds.length + 1) := by omega
        simp [hscale]
    · rintro rfl
      have := hplaces rfl
      rw [if_pos rfl]
      omega

theorem readPlain?_of_isDigit {c : Char} (h : c.isDigit = true) (cs : List Char) :
    readPlain? (c :: cs) = readDigits? false false false 0 0 (c :: cs) := by
  refine readPlain?.eq_3 _ ?_ ?_
  · rintro rest hrest
    cases hrest
    cases h
  · rintro rest hrest
    cases hrest
    cases h

theorem ofSigned?_significand (d : Decimal) :
    ofSigned? d.negative d.significand d.scale = some d.dropZeroSign := by
  rw [ofSigned?, ofParts?, dif_pos ⟨d.significand_lt, d.scale_le⟩]
  rfl

/-- Digits that write the significand, of which those behind the point are the places. -/
theorem readDigits?_written (d : Decimal) {whole fraction : List Char}
    (hds : ∀ c ∈ whole ++ fraction, c.isDigit = true) (hwhole : whole ≠ [])
    (hplaces : fraction.length = d.scale)
    (hvalue : Nat.ofDigitChars 10 (whole ++ fraction) 0 = d.significand) :
    readDigits? d.negative false false 0 0
      (whole ++ ((if d.scale = 0 then [] else ['.']) ++ fraction)) = some d.dropZeroSign := by
  rw [List.forall_mem_append] at hds
  rw [Nat.ofDigitChars_append] at hvalue
  have hlt : Nat.ofDigitChars 10 whole 0 < size :=
    Nat.lt_of_le_of_lt (hvalue ▸ le_ofDigitChars fraction _) d.significand_lt
  have hstarted : (false || !whole.isEmpty) = true := by simpa using hwhole
  rw [readDigits?_append _ _ false _ hds.1 hlt (fun h => nomatch h), hstarted,
    ← ofSigned?_significand]
  by_cases hscale : d.scale = 0
  · obtain rfl : fraction = [] := List.length_eq_zero_iff.mp (hplaces.trans hscale)
    rw [if_pos hscale, hscale, ← hvalue]
    rfl
  · have hpoint : ∀ m rest, readDigits? d.negative true false m 0 ('.' :: rest) =
        readDigits? d.negative true true m 0 rest := fun m rest => rfl
    have hrest : ∀ m, Nat.ofDigitChars 10 fraction m < size →
        readDigits? d.negative true true m 0 fraction =
          ofSigned? d.negative (Nat.ofDigitChars 10 fraction m) d.scale := fun m hm => by
      have hroom : 0 + fraction.length ≤ 28 := by
        rw [hplaces, Nat.zero_add]
        exact d.scale_le
      have h := readDigits?_append d.negative true true [] hds.2 hm fun _ => hroom
      rw [List.append_nil, if_pos rfl, hplaces, Nat.zero_add] at h
      exact h
    rw [if_neg hscale, if_neg (by decide)]
    refine (hpoint _ _).trans ((hrest _ (hvalue ▸ d.significand_lt)).trans ?_)
    rw [hvalue]

/-- A decimal is read back from its text; only the sign of a zero is lost. -/
theorem read?_text (d : Decimal) : read? d.text = some d.dropZeroSign := by
  set ds := List.replicate (d.scale + 1 - (Nat.toDigits 10 d.significand).length) '0' ++
    Nat.toDigits 10 d.significand with hpadded
  have hdigits : ∀ c ∈ ds, c.isDigit = true := by
    intro c hc
    rcases List.mem_append.mp hc with hc | hc
    · rw [List.eq_of_mem_replicate hc]
      rfl
    · exact Reader.isDigit_toDigits _ c hc
  have hlength : d.scale < ds.length := by
    rw [hpadded, List.length_append, List.length_replicate]
    omega
  have hvalue : Nat.ofDigitChars 10 ds 0 = d.significand := by
    rw [hpadded, Nat.ofDigitChars_append, Nat.ofDigitChars_replicate_zero, Nat.mul_zero,
      Nat.ofDigitChars_ten_toDigits]
  have htext : d.text.toList = (if d.negative then ['-'] else []) ++
      (ds.take (ds.length - d.scale) ++ ((if d.scale = 0 then [] else ['.']) ++
        ds.drop (ds.length - d.scale))) := by
    simp only [text, String.toList_ofList, List.append_assoc, ← hpadded]
  have hsplit := List.take_append_drop (ds.length - d.scale) ds
  have hwhole : ds.take (ds.length - d.scale) ≠ [] := by
    rw [← List.length_pos_iff, List.length_take]
    omega
  have hread := d.readDigits?_written (by rwa [hsplit]) hwhole
    (by rw [List.length_drop]; omega) (by rwa [hsplit])
  have hplain : readPlain? d.text.toList = some d.dropZeroSign := by
    rw [htext]
    cases hnegative : d.negative with
    | true =>
      rw [hnegative] at hread
      exact hread
    | false =>
      obtain ⟨c, cs, hcs⟩ := List.exists_cons_of_ne_nil hwhole
      have hc : c.isDigit = true :=
        hdigits c (List.mem_of_mem_take (hcs ▸ List.mem_cons_self))
      rw [hnegative, hcs] at hread
      rw [hcs]
      exact (readPlain?_of_isDigit hc _).trans hread
  rw [read?, hplain]

end Decimal

/-! ## Identifiers -/

namespace Guid

theorem length_hexDigits (value n : Nat) : (hexDigits value n).length = n := by
  induction n generalizing value with
  | zero => rfl
  | succ n ih => rw [hexDigits, List.length_append, ih, List.length_singleton]

/-- Reading the last digits of a number behind other digits. -/
theorem foldlM_hexDigits (value n acc : Nat) :
    (hexDigits value n).foldlM
        (fun n c => (Text.Quoted.hexValue c).map (n * 16 + ·)) acc =
      some (acc * 16 ^ n + value % 16 ^ n) := by
  induction n generalizing value acc with
  | zero => simp [hexDigits, Nat.mod_one]
  | succ n ih =>
    have hmod : value % 16 ^ (n + 1) = value % 16 + 16 * (value / 16 % 16 ^ n) := by
      rw [pow_succ, Nat.mul_comm, Nat.mod_mul]
    rw [hexDigits, List.foldlM_append, ih]
    simp only [List.foldlM_cons, List.foldlM_nil, Option.bind_eq_bind, Option.bind_some,
      Text.Quoted.hexValue_hexDigit (Nat.mod_lt value (by decide : 0 < 16)), Option.map_some, hmod]
    congr 1
    ring

theorem ofDigits?_hexDigits (g : Guid) : ofDigits? (hexDigits g.value 32) = some g := by
  have hsize : 0 * 16 ^ 32 + g.value % 16 ^ 32 = g.value := by
    rw [Nat.zero_mul, Nat.zero_add]
    exact Nat.mod_eq_of_lt g.value_lt
  unfold ofDigits?
  rw [foldlM_hexDigits, hsize]
  exact dif_pos ⟨g.value_lt, length_hexDigits _ _⟩

/-- Groups with hyphens between them are put together again. -/
theorem dehyphenate?_hyphenate {ns : List Nat} {cs : List Char} (hns : ns ≠ [])
    (h : cs.length = ns.sum) : dehyphenate? ns (hyphenate ns cs) = some cs := by
  induction ns generalizing cs with
  | nil => exact absurd rfl hns
  | cons n ns ih =>
    cases ns with
    | nil => simp [hyphenate, dehyphenate?, h]
    | cons m ns =>
      have hlength : (cs.take n).length = n := by
        simp only [List.length_take, h, List.sum_cons]
        omega
      have hrest : dehyphenate? (m :: ns) (hyphenate (m :: ns) (cs.drop n)) = some (cs.drop n) :=
        ih (List.cons_ne_nil m ns) (by simp [h])
      simp only [hyphenate, dehyphenate?]
      rw [List.drop_left' hlength, List.take_left' hlength]
      simp [hrest]

/-- A hexadecimal digit opens neither a brace nor the name of a scheme. -/
theorem unwrap_hexDigit {n : Nat} (h : n < 16) (cs : List Char) :
    unwrap (Text.Quoted.hexDigit n :: cs) = Text.Quoted.hexDigit n :: cs := by
  interval_cases n <;> rfl

theorem exists_hexDigit_cons (value n : Nat) :
    ∃ d cs, d < 16 ∧ hexDigits value (n + 1) = Text.Quoted.hexDigit d :: cs := by
  induction n generalizing value with
  | zero => exact ⟨value % 16, [], Nat.mod_lt _ (by decide), rfl⟩
  | succ n ih =>
    obtain ⟨d, cs, hd, hcs⟩ := ih (value / 16)
    exact ⟨d, _, hd, by rw [hexDigits, hcs, List.cons_append]⟩

/-- An identifier is read back from its text. -/
theorem read?_text (g : Guid) : read? g.text = some g := by
  have hlength := length_hexDigits g.value 32
  obtain ⟨d, cs, hd, hcs⟩ := exists_hexDigit_cons g.value 31
  have htext : g.text.toList = hyphenate groups (hexDigits g.value 32) := String.toList_ofList
  have hgroups : (hyphenate groups (hexDigits g.value 32)).length = 36 := by
    simp [groups, hyphenate, hlength]
  have hunwrap : unwrap (hyphenate groups (hexDigits g.value 32)) =
      hyphenate groups (hexDigits g.value 32) := by
    rw [hcs]
    exact unwrap_hexDigit hd _
  rw [read?, htext, if_neg (by rw [hgroups]; decide), hunwrap,
    dehyphenate?_hyphenate (by decide) (hlength.trans rfl), Option.bind_some, ofDigits?_hexDigits]

end Guid

end LambdaQuery
