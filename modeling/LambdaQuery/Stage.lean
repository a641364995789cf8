import LambdaQuery.Query.Substitution
import LambdaQuery.Compilation.Error

/-!
# Stages of a query

A `Layer` holds at most one of each clause. A `Stage` is a layer over the layers whose rows it
reads: where an operator would set a clause anew, the stage is packaged under a fresh layer that
knows its rows by one name. `Stage.flatten` merges the layers into one, by putting the rows of the
lower layer in the place of that name, and keeps the lower layers as a subquery where merging would
change the rows.
-/

set_option autoImplicit false

namespace LambdaQuery

/-- Where the rows of a layer come from, unless they come from the layer below. -/
inductive LayerSource where
  | container
  | items (path : Scalar)
  | subquery (query : Query)

structure Layer where
  /-- The name of the rows of the source. -/
  name : String
  source : LayerSource
  /-- Arrays that are iterated within each row, and the names of their items. -/
  joins : List (String × Scalar)
  selection : Option Selection
  filter : Option Scalar
  groupBy : List Scalar
  orderBy : List SortKey
  top : Option Count
  offset : Option Count
  limit : Option Count

/-- A layer and the layers below it, nearest first. -/
structure Stage where
  layer : Layer
  below : List Layer

namespace Layer

/-- A layer without clauses. -/
def ofSource (name : String) (source : LayerSource) : Layer :=
  ⟨name, source, [], none, none, [], [], none, none, none⟩

/-- The name of the rows when nothing is selected: that of the last source. -/
def lastName (l : Layer) : String :=
  match l.joins.getLast? with
  | some (name, _) => name
  | none => l.name

/-- The scalar of a row. -/
def row (l : Layer) : Scalar :=
  match l.selection.bind (·.value?) with
  | some value => value
  | none => .ref l.lastName

def hasGroupBy (l : Layer) : Bool := !l.groupBy.isEmpty

/-- Whether the layer bounds the number of its rows. -/
def hasTop (l : Layer) : Bool := l.top.isSome || l.limit.isSome

def isDistinct (l : Layer) : Bool := l.selection.any (·.distinct)

def toSource (l : Layer) : Source :=
  match l.source with
  | .container => .container l.name
  | .items path => .items l.name path
  | .subquery query => .subquery l.name query

/-- The query of a layer that reads no other layer. -/
def toQuery (l : Layer) : Query where
  selection := { l.selection.getD (.ofValue l.row) with top := l.top }
  sources := l.toSource :: l.joins.map fun (name, path) => .items name path
  filter := l.filter
  groupBy := l.groupBy
  orderBy := l.orderBy
  offset := l.offset
  limit := l.limit

end Layer

/-! ## Counts -/

/-- The smaller of two row limits. A parameter can be compared with nothing. -/
def Count.min? (a b : Option Count) : Except CompileError (Option Count) :=
  match a, b with
  | some (.literal m), some (.literal n) => .ok (some (.literal (min m n)))
  | some _, some _ => .error (.unsupported .combinedLimits)
  | a, b => .ok (a.or b)

/-- The sum of two offsets, or the largest count if that is less. -/
def Count.sum? (a b : Option Count) : Except CompileError (Option Count) :=
  match a, b with
  | some (.literal m), some (.literal n) =>
    let sum := m.toInt + n.toInt
    let clamped :=
      if sum < Int64.minValue.toInt then Int64.minValue
      else if Int64.maxValue.toInt < sum then Int64.maxValue
      else Int64.ofInt sum
    .ok (some (.literal clamped))
  | some _, some _ => .error (.unsupported .combinedOffsets)
  | a, b => .ok (a.or b)

namespace Stage

def rootName : String := "root"

/-- The rows of the container. -/
def root : Stage := ⟨.ofSource rootName .container, []⟩

/-- The items of an array. -/
def overItems (name : String) (path : Scalar) : Stage := ⟨.ofSource name (.items path), []⟩

/-- The number of layers. -/
def depth (s : Stage) : Nat := s.below.length + 1

/-- A layer without clauses over the stage. -/
def package (s : Stage) (name : String) : Stage :=
  ⟨.ofSource name .container, s.layer :: s.below⟩

def layers (s : Stage) : List Layer := s.layer :: s.below

def hasTop (s : Stage) : Bool := s.layers.any (·.hasTop)

def hasOffset (s : Stage) : Bool := s.layers.any (·.offset.isSome)

/-- Whether an operator with `argCount` arguments, the source among them, needs a layer of its
own. -/
def needsLayer (s : Stage) (method : String) (argCount : Nat) : Bool :=
  let l := s.layer
  let selected := l.selection.isSome
  let plain := l.selection.any (!·.distinct)
  match method with
  | "Select" | "SelectMany" => selected
  | "Min" | "Max" | "Sum" | "Average" | "Any" => selected || l.offset.isSome
  | "Count" => (argCount == 2 && plain) || selected || l.offset.isSome
  | "Where" | "OrderBy" | "OrderByDescending" | "Distinct" => plain
  | "GroupBy" =>
    selected || l.top.isSome || l.offset.isSome || l.limit.isSome || !l.orderBy.isEmpty
  | _ => false

/-! ## Setting clauses -/

/-- A change of a stage that may be refused; what it did before stays. -/
abbrev Edit := ExceptT CompileError (StateM Stage)

/-- Changes the upper layer. -/
def mapLayer (s : Stage) (f : Layer → Layer) : Stage := { s with layer := f s.layer }

def addJoin (s : Stage) (name : String) (path : Scalar) : Stage :=
  s.mapLayer fun l => { l with joins := l.joins ++ [(name, path)] }

def addSelect (selection : Selection) : Edit Unit := do
  let s ← get
  if s.layer.selection.isSome then throw (.structural .selectSet)
  set (s.mapLayer fun l => { l with selection := some selection })

/-- Selects a value, in place of the one selected before. -/
def replaceSelect (s : Stage) (value : Scalar) : Stage :=
  s.mapLayer fun l =>
    { l with
      selection := some (match l.selection with
        | some selection => { selection with projection := .value value }
        | none => .ofValue value) }

def setDistinct (s : Stage) : Stage :=
  s.mapLayer fun l =>
    { l with selection := some { l.selection.getD (.ofValue l.row) with distinct := true } }

def addWhere (s : Stage) (filter : Scalar) : Stage :=
  s.mapLayer fun l =>
    { l with
      filter := some (match l.filter with
        | some existing => .and existing filter
        | none => filter) }

def addGroupBy (key : Scalar) : Edit Unit := do
  let s ← get
  if s.layer.hasGroupBy then throw (.structural .groupBySet)
  set (s.mapLayer fun l => { l with groupBy := [key] })

/-- Orders by a key alone. -/
def addOrderBy (s : Stage) (key : SortKey) : Stage := s.mapLayer ({ · with orderBy := [key] })

def thenBy (key : SortKey) : Edit Unit := do
  let s ← get
  if s.layer.orderBy.isEmpty then throw (.structural .thenByAlone)
  set (s.mapLayer fun l => { l with orderBy := l.orderBy ++ [key] })

/-- Bounds the rows after the offset. A count that cannot be combined leaves none behind. -/
def addLimit (count : Count) : Edit Unit := do
  let old := (← get).layer.limit
  modify (·.mapLayer ({ · with limit := none }))
  let limit ← Count.min? old (some count)
  modify (·.mapLayer ({ · with limit := limit }))

/-- Bounds the rows. A count that cannot be combined leaves none behind. -/
def addTop (count : Count) : Edit Unit := do
  if (← get).hasOffset then addLimit count
  else
    let old := (← get).layer.top
    modify (·.mapLayer ({ · with top := none }))
    let top ← Count.min? old (some count)
    modify (·.mapLayer ({ · with top := top }))

/-- Skips rows. A count that cannot be combined leaves none behind. -/
def addOffset (count : Count) : Edit Unit := do
  let old := (← get).layer.offset
  modify (·.mapLayer ({ · with offset := none }))
  let offset ← Count.sum? old (some count)
  modify (·.mapLayer ({ · with offset := offset }))

end Stage

/-! ## Flattening -/

namespace Layer

/-- Whether `below` must stay a query of its own under `l`: when `l` groups, and when `below` drops
duplicates that `l` would see again. -/
def needsSubquery (l below : Layer) : Bool :=
  l.hasGroupBy ||
    (below.isDistinct &&
      (!l.joins.isEmpty ||
        l.selection.any fun outer =>
          outer.hasAggregate || !outer.value?.any (·.isRef l.name)))

/-- The selection of a layer over another one: its own, or the last of its joins. -/
def outerSelection (l : Layer) : Option Selection :=
  match l.selection, l.joins.getLast? with
  | none, some (name, _) => some (.ofValue (.ref name))
  | selection, _ => selection

/-- Merges a layer with the one below it. -/
def merge (l below : Layer) : Except CompileError Layer := do
  let σ : Substitution := ⟨l.name, below.row⟩
  let selection :=
    match below.selection, l.outerSelection.map (·.substitute σ) with
    | inner, none => inner
    | none, some outer => some outer
    | some inner, some outer => some { outer with distinct := outer.distinct || inner.distinct }
  let filter :=
    match below.filter, l.filter.map (·.substitute σ) with
    | some inner, some outer => some (.and inner outer)
    | inner, outer => inner.or outer
  let orderBy ←
    match below.orderBy, l.orderBy with
    | _ :: _, _ :: _ => throw (.structural .secondOrderBy)
    | [], keys => pure (keys.map (·.substitute σ))
    | keys, [] => pure keys
  return {
    name := below.name
    source := below.source
    joins := below.joins ++ l.joins.map fun (name, path) => (name, path.substitute σ)
    selection := selection
    filter := filter
    groupBy := below.groupBy
    orderBy := orderBy
    top := ← Count.min? below.top l.top
    offset := ← Count.sum? below.offset l.offset
    limit := ← Count.min? below.limit l.limit }

/-- The one layer that gives the rows of `l` over `below`. -/
def flattenOnto (l below : Layer) : Except CompileError Layer := do
  if below.selection.any (·.hasAggregate) then throw (.unsupported .composedAggregate)
  if (below.hasTop || below.offset.isSome) && (l.filter.isSome || !l.orderBy.isEmpty) then
    throw (.unsupported (if below.hasTop then .afterTake else .afterSkip))
  if below.hasTop && l.offset.isSome then throw (.unsupported .afterTake)
  if l.needsSubquery below then return { l with source := .subquery below.toQuery }
  else l.merge below

end Layer

/-- The one layer that gives the rows of a layer over others. -/
def Layer.flattenAll (l : Layer) : List Layer → Except CompileError Layer
  | [] => .ok l
  | next :: rest => do l.flattenOnto (← next.flattenAll rest)

/-- The names of the layers for which flattening puts the rows of the layer below. -/
def Layer.mergedAll (l : Layer) : List Layer → List String
  | [] => []
  | next :: rest =>
    match next.flattenAll rest with
    | .error _ => []
    | .ok below =>
      if l.needsSubquery below then next.mergedAll rest else l.name :: next.mergedAll rest

namespace Stage

/-- The one layer that gives the rows of the stage. -/
def flatten (s : Stage) : Except CompileError Layer := s.layer.flattenAll s.below

/-- The names of the layers that are no layers of their own any more once the stage is flat. -/
def merged (s : Stage) : List String := s.layer.mergedAll s.below

/-- The query of the stage. -/
def toQuery (s : Stage) : Except CompileError Query := do return (← s.flatten).toQuery

end Stage

end LambdaQuery
