import LambdaQuery.Proofs.Alike.Inlined
import LambdaQuery.Proofs.Json.Equality
import LambdaQuery.Proofs.Json.Texts

/-!
# Values and their JSON

A value is read back from the JSON that tells its kind (`Value.decode?_encode`). Of the value it is
asked what its representation promises (`Value.WellFormed`): that a double is a finite number, that
no two fields of an object have one name, and that the members of JSON objects in it are in order.
What is read has no negative zeros among its decimals (`Value.dropZeroSigns`).
-/

set_option autoImplicit false

namespace LambdaQuery

/-! ## JSON in order -/

mutual

/-- The members of every object are sorted by name, and their names are distinct. -/
def Json.Arranged : Json → Prop
  | .arr items => Json.AllArranged items
  | .obj members => Json.Ascending members ∧ Json.MembersArranged members
  | _ => True

def Json.AllArranged : List Json → Prop
  | [] => True
  | j :: js => j.Arranged ∧ Json.AllArranged js

def Json.MembersArranged : List (String × Json) → Prop
  | [] => True
  | (_, j) :: ms => j.Arranged ∧ Json.MembersArranged ms

end

mutual

theorem Json.sorted_of_arranged : ∀ {j : Json}, j.Arranged → j.sorted = j
  | .null, _ | .bool _, _ | .num _, _ | .str _, _ => by rw [Json.sorted] <;> nofun
  | .arr items, h => by rw [Json.sorted, Json.sortedItems_of_arranged h]
  | .obj members, h => by
    rw [Json.sorted, Json.sortedMembers_of_arranged h.2, Json.object_eq,
      Json.entered_of_pairwise h.1]

theorem Json.sortedItems_of_arranged : ∀ {js : List Json}, Json.AllArranged js →
    Json.sortedItems js = js
  | [], _ => rfl
  | j :: js, h => by
    rw [Json.sortedItems, Json.sorted_of_arranged h.1, Json.sortedItems_of_arranged h.2]

theorem Json.sortedMembers_of_arranged : ∀ {ms : List (String × Json)}, Json.MembersArranged ms →
    Json.sortedMembers ms = ms
  | [], _ => rfl
  | (n, j) :: ms, h => by
    rw [Json.sortedMembers, Json.sorted_of_arranged h.1, Json.sortedMembers_of_arranged h.2]

end

/-! ## Prepared queries -/

theorem mapM_map_eq_some {α β : Type} {encode : α → β} {decode : β → Option α} {as : List α}
    (h : ∀ a ∈ as, decode (encode a) = some a) : (as.map encode).mapM decode = some as := by
  induction as with
  | nil => rfl
  | cons a as ih =>
    rw [List.forall_mem_cons] at h
    simp [h.1, ih h.2]

theorem QueryParameter.ofJson?_toJson {p : QueryParameter} (h : p.value.Arranged) :
    QueryParameter.ofJson? p.toJson = some p := by
  have hread : QueryParameter.ofJson? p.toJson = some ⟨p.name, p.value.sorted⟩ := rfl
  rw [hread, Json.sorted_of_arranged h]

theorem PreparedQuery.ofJson?_toJson {q : PreparedQuery}
    (h : ∀ p ∈ q.parameters, p.value.Arranged) : PreparedQuery.ofJson? q.toJson = some q := by
  have hread : PreparedQuery.ofJson? q.toJson =
      ((q.parameters.map (·.toJson)).mapM QueryParameter.ofJson?).bind
        fun ps => some ⟨q.text, ps⟩ := rfl
  rw [hread, mapM_map_eq_some fun p hp => QueryParameter.ofJson?_toJson (h p hp), Option.bind_some]

/-! ## Values -/

namespace Value

mutual

/-- The value and the values in it satisfy a condition. -/
def Throughout (P : Value → Prop) : Value → Prop
  | .array items => P (.array items) ∧ AllThroughout P items
  | .object fields => P (.object fields) ∧ FieldsThroughout P fields
  | v => P v

def AllThroughout (P : Value → Prop) : List Value → Prop
  | [] => True
  | v :: vs => v.Throughout P ∧ AllThroughout P vs

def FieldsThroughout (P : Value → Prop) : List (String × Value) → Prop
  | [] => True
  | (_, v) :: fs => v.Throughout P ∧ FieldsThroughout P fs

end

/-- A double is finite, the names of fields are distinct, and JSON is in order. -/
def WellFormed : Value → Prop
  | .float x => x.isFinite = true
  | .object fields => (Record.names fields).Nodup
  | .geometry shape => shape.Arranged
  | .query q => ∀ p ∈ q.parameters, p.value.Arranged
  | _ => True

/-- A decimal that is zero is a positive zero. -/
def ZeroUnsigned : Value → Prop
  | .decimal d => d.isZero = true → d.negative = false
  | _ => True

mutual

/-- The value with positive zeros for the negative zeros among its decimals, which equal them. -/
def dropZeroSigns : Value → Value
  | .decimal d => .decimal d.dropZeroSign
  | .array items => .array (dropItemSigns items)
  | .object fields => .object (dropFieldSigns fields)
  | v => v

def dropItemSigns : List Value → List Value
  | [] => []
  | v :: vs => v.dropZeroSigns :: dropItemSigns vs

def dropFieldSigns : List (String × Value) → List (String × Value)
  | [] => []
  | (name, v) :: fs => (name, v.dropZeroSigns) :: dropFieldSigns fs

end

mutual

theorem dropZeroSigns_of_unsigned : ∀ {v : Value}, v.Throughout ZeroUnsigned → v.dropZeroSigns = v
  | .decimal d, h => by
    have hd : d.dropZeroSign = d := by
      unfold Decimal.dropZeroSign
      cases hzero : d.isZero with
      | true => rw [Bool.not_true, Bool.and_false, ← h hzero]
      | false => rw [Bool.not_false, Bool.and_true]
    rw [dropZeroSigns, hd]
  | .array items, h => by rw [dropZeroSigns, dropItemSigns_of_unsigned h.2]
  | .object fields, h => by rw [dropZeroSigns, dropFieldSigns_of_unsigned h.2]
  | .null, _ | .boolean _, _ | .integer _, _ | .unsigned _, _ | .float _, _ | .char _, _
  | .string _, _ | .guid _, _ | .geometry _, _ | .query _, _ => by rw [dropZeroSigns] <;> nofun

theorem dropItemSigns_of_unsigned : ∀ {vs : List Value}, AllThroughout ZeroUnsigned vs →
    dropItemSigns vs = vs
  | [], _ => rfl
  | v :: vs, h => by
    rw [dropItemSigns, dropZeroSigns_of_unsigned h.1, dropItemSigns_of_unsigned h.2]

theorem dropFieldSigns_of_unsigned : ∀ {fs : List (String × Value)},
    FieldsThroughout ZeroUnsigned fs → dropFieldSigns fs = fs
  | [], _ => rfl
  | (name, v) :: fs, h => by
    rw [dropFieldSigns, dropZeroSigns_of_unsigned h.1, dropFieldSigns_of_unsigned h.2]

end

theorem names_dropFieldSigns (fields : List (String × Value)) :
    Record.names (dropFieldSigns fields) = Record.names fields := by
  induction fields with
  | nil => rfl
  | cons f fields ih => exact congrArg (f.1 :: ·) ih

/-! ## Reading a kind and its content -/

theorem text?_tagged (tag : String) (content : Json) :
    (tagged tag content).text? "type" = some tag := rfl

theorem member?_tagged (tag : String) (content : Json) :
    ∃ h, (tagged tag content).member? "value" = some (some ⟨content, h⟩) := ⟨_, rfl⟩

theorem decode?_leaf {tag : String} (htag : tag ∉ ["null", "array", "object"]) (content : Json) :
    decode? (tagged tag content) = decodeLeaf? tag content := by
  simp only [List.mem_cons, List.not_mem_nil, or_false, not_or] at htag
  obtain ⟨h, hmember⟩ := member?_tagged tag content
  rw [decode?, text?_tagged, hmember]
  split
  case h_6 =>
    rename_i htag' hcontent
    cases htag'
    cases hcontent
    rfl
  all_goals simp_all

theorem decode?_array (items : List Json) :
    decode? (tagged "array" (.arr items)) = (decodeItems? items).map .array := by
  obtain ⟨h, hmember⟩ := member?_tagged "array" (.arr items)
  rw [decode?, text?_tagged, hmember]
  rfl

theorem decode?_object (ms : List (String × Json)) :
    decode? (tagged "object" (.obj ms)) =
      (decodeFields? ms).map fun fields => .object (Record.ofList fields) := by
  obtain ⟨h, hmember⟩ := member?_tagged "object" (.obj ms)
  rw [decode?, text?_tagged, hmember]
  rfl

theorem uint64?_toNat (n : UInt64) : uint64? n.toNat = some n := by
  have h := n.toNat_lt
  rw [uint64?, if_pos ⟨Int.natCast_nonneg _, by exact_mod_cast h⟩]
  simp

mutual

/-- A value is read back from its JSON, where zeros have no sign. -/
theorem decode?_encode : ∀ {v : Value}, v.Throughout WellFormed →
    decode? v.encode = some v.dropZeroSigns
  | .null, _ => by
    rw [encode, decode?]
    rfl
  | .boolean b, _ => decode?_leaf (by decide) _
  | .integer n, _ => by
    rw [encode, decode?_leaf (by decide)]
    simp only [decodeLeaf?, Json.int, Json.toInt64?, Json.Number.toInt64?, int64?_toInt,
      Option.map_some, dropZeroSigns]
  | .unsigned n, _ => by
    rw [encode, decode?_leaf (by decide)]
    simp only [decodeLeaf?, Json.unsigned, Json.toUInt64?, uint64?_toNat, Option.map_some,
      dropZeroSigns]
  | .float x, h => by
    have hx : Json.float x = .num (.float x) := if_pos h
    rw [encode, decode?_leaf (by decide), hx]
    simp only [decodeLeaf?, Json.toFloat?, Json.Number.toFloat, Option.map_some, dropZeroSigns]
  | .decimal d, _ => by
    rw [encode, decode?_leaf (by decide)]
    simp only [decodeLeaf?, decimalOfJson?, Decimal.read?_text, Option.map_some, dropZeroSigns]
  | .char c, _ => by
    rw [encode, decode?_leaf (by decide)]
    simp only [decodeLeaf?, charOfJson?, String.toList_singleton, Option.map_some, dropZeroSigns]
  | .string s, _ => decode?_leaf (by decide) _
  | .guid g, _ => by
    rw [encode, decode?_leaf (by decide)]
    simp only [decodeLeaf?, Json.toString?, Option.bind_some, Guid.read?_text, Option.map_some,
      dropZeroSigns]
  | .geometry shape, h => by
    rw [encode, decode?_leaf (by decide)]
    simp only [decodeLeaf?, Json.sorted_of_arranged h, dropZeroSigns]
  | .query q, h => by
    rw [encode, decode?_leaf (by decide)]
    simp only [decodeLeaf?, PreparedQuery.ofJson?_toJson h, Option.map_some, dropZeroSigns]
  | .array items, h => by
    rw [encode, decode?_array, decodeItems?_encodeItems h.2]
    rfl
  | .object fields, h => by
    rw [encode, decode?_object, decodeFields?_encodeFields h.2, Option.map_some,
      Record.ofList_of_nodup _ (by rw [names_dropFieldSigns]; exact h.1)]
    rfl

theorem decodeItems?_encodeItems : ∀ {vs : List Value}, AllThroughout WellFormed vs →
    decodeItems? (encodeItems vs) = some (dropItemSigns vs)
  | [], _ => by rw [encodeItems, decodeItems?, dropItemSigns]
  | v :: vs, h => by
    rw [encodeItems, decodeItems?, decode?_encode h.1, decodeItems?_encodeItems h.2]
    rfl

theorem decodeFields?_encodeFields : ∀ {fs : List (String × Value)},
    FieldsThroughout WellFormed fs →
    decodeFields? (encodeFields fs) = some (dropFieldSigns fs)
  | [], _ => by rw [encodeFields, decodeFields?, dropFieldSigns]
  | (name, v) :: fs, h => by
    rw [encodeFields, decodeFields?, decode?_encode h.1, decodeFields?_encodeFields h.2]
    rfl

end

end Value

end LambdaQuery
