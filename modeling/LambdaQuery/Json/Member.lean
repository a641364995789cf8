import LambdaQuery.Json.Basic

/-!
# Members of objects

Access to the members of an object that is read as a record: a member that the record does not know
is passed over, and one that it knows must not come twice. What is found is smaller than the object,
so that readers of nested records end.
-/

set_option autoImplicit false

namespace LambdaQuery.Json

/-- A value inside of `j`. -/
abbrev Part (j : Json) := { v : Json // sizeOf v < sizeOf j }

/-- The member called `name`, if there is one; `none` if there are several. -/
def find? (name : String) :
    (ms : List (String × Json)) → Option (Option { v : Json // sizeOf v < sizeOf ms })
  | [] => some none
  | (n, v) :: rest =>
    match find? name rest with
    | none => none
    | some none =>
      if n = name then
        some (some ⟨v, by simp only [List.cons.sizeOf_spec, Prod.mk.sizeOf_spec]; omega⟩)
      else some none
    | some (some w) =>
      if n = name then none
      else some (some ⟨w.1, by have := w.2; simp only [List.cons.sizeOf_spec]; omega⟩)

/-- The member of an object, or nothing where it is missing. -/
def member? (j : Json) (name : String) : Option (Option (Part j)) :=
  match j with
  | .obj ms =>
    (find? name ms).map fun found =>
      found.map fun v => ⟨v.1, by have := v.2; simp only [Json.obj.sizeOf_spec]; omega⟩
  | _ => none

/-- A member that must be there. -/
def required? (j : Json) (name : String) : Option (Part j) :=
  match member? j name with
  | some (some v) => some v
  | _ => none

/-- A member that may be missing or null. -/
def optional? (j : Json) (name : String) : Option (Option (Part j)) :=
  match member? j name with
  | some (some ⟨.null, _⟩) => some none
  | found => found

/-- A member that may be missing, but not null. -/
def defaulted? {α : Type} (j : Json) (name : String) (default : α) (read : Json → Option α) :
    Option α :=
  match member? j name with
  | some (some v) => read v.1
  | some none => some default
  | none => none

def toString? : Json → Option String
  | .str s => some s
  | _ => none

def toBool? : Json → Option Bool
  | .bool b => some b
  | _ => none

def toInt64? : Json → Option Int64
  | .num n => n.toInt64?
  | _ => none

def toUInt64? : Json → Option UInt64
  | .num (.int n) => uint64? n
  | _ => none

/-- A number as a double; integers count as numbers. -/
def toFloat? : Json → Option Float
  | .num n => some n.toFloat
  | _ => none

def toItems? (j : Json) : Option { items : List Json // sizeOf items < sizeOf j } :=
  match j with
  | .arr items => some ⟨items, by simp only [Json.arr.sizeOf_spec]; omega⟩
  | _ => none

/-- A choice among alternatives: a name alone, or an object with the name and its content. -/
def variant? (j : Json) : Option (String × Option (Part j)) :=
  match j with
  | .str name => some (name, none)
  | .obj [(name, v)] =>
    some (name, some ⟨v, by
      simp only [Json.obj.sizeOf_spec, List.cons.sizeOf_spec, Prod.mk.sizeOf_spec]; omega⟩)
  | _ => none

/-- An alternative without content, by its name. -/
def choice? {α : Type} (ofName? : String → Option α) (j : Json) : Option α :=
  match j.variant? with
  | some (name, none) => ofName? name
  | some (name, some ⟨.null, _⟩) => ofName? name
  | _ => none

/-- Reads every item of an array. -/
def list? {α : Type} (read : Json → Option α) (j : Json) : Option (List α) :=
  match j with
  | .arr items => items.mapM read
  | _ => none

/-- Reads every member of an object as an entry of a record. -/
def record? {α : Type} (read : Json → Option α) (j : Json) : Option (Record α) :=
  match j with
  | .obj ms => (ms.mapM fun m => (read m.2).map (m.1, ·)).map Record.ofList
  | _ => none

/-- Reads a string member that must be there. -/
def text? (j : Json) (name : String) : Option String := do
  toString? (← required? j name).1

end LambdaQuery.Json
