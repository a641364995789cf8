import LambdaQuery.Compilation.Scope
import LambdaQuery.Query.Printer

/-!
# Reading query texts

`Reader.query` reads back what `Query.text` writes. Every alternative of the grammar is chosen by
the next word or character, so the reader never goes back. The depth of the recursion is bounded by
a number that only has to be large enough.

What the text does not tell apart is a missing part of a window and the default that is written in
its place; `Query.completed` puts the defaults in. The names that are read back as names are those
of `isName`: identifiers that are no words of the syntax.
-/

set_option autoImplicit false

namespace LambdaQuery

/-! ## Names -/

/-- The words of the syntax. -/
def keywords : List String :=
  ["SELECT", "DISTINCT", "TOP", "VALUE", "FROM", "IN", "JOIN", "AS", "WHERE", "GROUP", "ORDER",
   "BY", "ASC", "DESC", "OFFSET", "LIMIT", "AND", "OR", "NOT", "EXISTS", "ARRAY", "udf", "null",
   "undefined", "true", "false"]

/-- An identifier that is no word of the syntax. -/
def isName (name : String) : Bool := isIdentifier name.toList && !keywords.contains name

def Count.Readable : Count → Prop
  | .literal n => 0 ≤ n.toInt
  | .parameter name => isParameterName name

def Literal.isExact : Literal → Bool
  | .double _ => false
  | _ => true

mutual

/-- All names are names, all numbers integers, and all lists of sources have an entry. -/
def Scalar.Readable : Scalar → Prop
  | .literal value => value.isExact
  | .ref name => isName name
  | .index object key => object.Readable ∧ key.Readable
  | .binary _ left right => left.Readable ∧ right.Readable
  | .unary _ operand => operand.Readable
  | .call name args _ => isName name ∧ Scalar.AllReadable args
  | .array items => Scalar.AllReadable items
  | .object properties => Scalar.PropertiesReadable properties
  | .conditional test ifTrue ifFalse => test.Readable ∧ ifTrue.Readable ∧ ifFalse.Readable
  | .isIn item items _ => item.Readable ∧ Scalar.AllReadable items
  | .parameter name => isParameterName name
  | .exists query | .arrayOf query | .subquery query => query.Readable

def Scalar.AllReadable : List Scalar → Prop
  | [] => True
  | s :: ss => s.Readable ∧ Scalar.AllReadable ss

def Scalar.PropertiesReadable : List (String × Scalar) → Prop
  | [] => True
  | (_, s) :: ps => s.Readable ∧ Scalar.PropertiesReadable ps

def Projection.Readable : Projection → Prop
  | .star => True
  | .value value => value.Readable

def Selection.Readable : Selection → Prop
  | ⟨projection, _, top⟩ => projection.Readable ∧ ∀ count ∈ top, count.Readable

def Source.Readable : Source → Prop
  | .container name => isName name
  | .items name path => isName name ∧ path.Readable
  | .subquery name query => isName name ∧ query.Readable

def Source.AllReadable : List Source → Prop
  | [] => True
  | s :: ss => s.Readable ∧ Source.AllReadable ss

def SortKey.Readable : SortKey → Prop
  | ⟨value, _⟩ => value.Readable

def SortKey.AllReadable : List SortKey → Prop
  | [] => True
  | k :: ks => k.Readable ∧ SortKey.AllReadable ks

def Scalar.OptionReadable : Option Scalar → Prop
  | none => True
  | some s => s.Readable

def Query.Readable : Query → Prop
  | ⟨selection, sources, filter, groupBy, orderBy, offset, limit⟩ =>
    selection.Readable ∧ sources ≠ [] ∧ Source.AllReadable sources ∧
      Scalar.OptionReadable filter ∧ Scalar.AllReadable groupBy ∧
      SortKey.AllReadable orderBy ∧ (∀ count ∈ offset, count.Readable) ∧
      ∀ count ∈ limit, count.Readable

end

/-! ## Windows -/

/-- Both parts of a window that has one, with the defaults that are written. -/
def Query.windowOf (offset limit : Option Count) : Option Count × Option Count :=
  match offset, limit with
  | none, none => (none, none)
  | _, _ => (some (offset.getD (.literal 0)), some (limit.getD (.literal Query.unlimited)))

mutual

/-- The same scalar with both parts of every window. -/
def Scalar.completed : Scalar → Scalar
  | .literal value => .literal value
  | .ref name => .ref name
  | .index object key => .index object.completed key.completed
  | .binary op left right => .binary op left.completed right.completed
  | .unary op operand => .unary op operand.completed
  | .call name args udf => .call name (Scalar.allCompleted args) udf
  | .array items => .array (Scalar.allCompleted items)
  | .object properties => .object (Scalar.propertiesCompleted properties)
  | .conditional test ifTrue ifFalse =>
    .conditional test.completed ifTrue.completed ifFalse.completed
  | .isIn item items negated => .isIn item.completed (Scalar.allCompleted items) negated
  | .parameter name => .parameter name
  | .exists query => .exists query.completed
  | .arrayOf query => .arrayOf query.completed
  | .subquery query => .subquery query.completed

def Scalar.allCompleted : List Scalar → List Scalar
  | [] => []
  | s :: ss => s.completed :: Scalar.allCompleted ss

def Scalar.propertiesCompleted : List (String × Scalar) → List (String × Scalar)
  | [] => []
  | (name, s) :: ps => (name, s.completed) :: Scalar.propertiesCompleted ps

def Projection.completed : Projection → Projection
  | .star => .star
  | .value value => .value value.completed

def Selection.completed : Selection → Selection
  | ⟨projection, distinct, top⟩ => ⟨projection.completed, distinct, top⟩

def Source.completed : Source → Source
  | .container name => .container name
  | .items name path => .items name path.completed
  | .subquery name query => .subquery name query.completed

def Source.allCompleted : List Source → List Source
  | [] => []
  | s :: ss => s.completed :: Source.allCompleted ss

def SortKey.completed : SortKey → SortKey
  | ⟨value, descending⟩ => ⟨value.completed, descending⟩

def SortKey.allCompleted : List SortKey → List SortKey
  | [] => []
  | k :: ks => k.completed :: SortKey.allCompleted ks

def Scalar.optionCompleted : Option Scalar → Option Scalar
  | none => none
  | some s => some s.completed

/-- The same query with both parts of every window, at every depth. -/
def Query.completed : Query → Query
  | ⟨selection, sources, filter, groupBy, orderBy, offset, limit⟩ =>
    ⟨selection.completed, Source.allCompleted sources, Scalar.optionCompleted filter,
      Scalar.allCompleted groupBy, SortKey.allCompleted orderBy,
      (Query.windowOf offset limit).1, (Query.windowOf offset limit).2⟩

end

/-! ## The reader -/

namespace Reader

def isWordChar (c : Char) : Bool := isNameStart c || c.isDigit

/-- The word at the front, which may be empty. -/
def word (cs : List Char) : String := String.ofList (cs.takeWhile isWordChar)

/-- What follows the word at the front. -/
def afterWord (cs : List Char) : List Char := cs.dropWhile isWordChar

/-- What follows a given text at the front. -/
def strip (t : String) (cs : List Char) : Option (List Char) := t.toList.isPrefixOf? cs

def binaryOps : List QueryBinaryOp :=
  [.add, .and, .bitwiseAnd, .bitwiseOr, .bitwiseXor, .coalesce, .divide, .equal, .greaterThan,
   .greaterThanOrEqual, .lessThan, .lessThanOrEqual, .modulo, .multiply, .notEqual, .or,
   .stringConcat, .subtract]

def binaryOp? (symbol : String) : Option QueryBinaryOp :=
  binaryOps.find? (·.symbol == symbol)

/-- A unary operator and the blank after it. -/
def unaryOp? (cs : List Char) : Option (QueryUnaryOp × List Char) :=
  if word cs = "NOT" then (strip "NOT " cs).map (.not, ·)
  else
    match cs with
    | '~' :: ' ' :: rest => some (.bitwiseNot, rest)
    | '-' :: ' ' :: rest => some (.minus, rest)
    | '+' :: ' ' :: rest => some (.plus, rest)
    | _ => none

def natural (cs : List Char) : Nat := Nat.ofDigitChars 10 (cs.takeWhile Char.isDigit) 0

def integer : List Char → Int64 × List Char
  | '-' :: cs => (Int64.ofInt (-natural cs), cs.dropWhile Char.isDigit)
  | cs => (Int64.ofInt (natural cs), cs.dropWhile Char.isDigit)

def count : List Char → Count × List Char
  | '@' :: cs => (.parameter (String.ofList ('@' :: cs.takeWhile isWordChar)), afterWord cs)
  | cs => (.literal (integer cs).1, (integer cs).2)

def distinct (cs : List Char) : Bool × List Char :=
  match strip "DISTINCT " cs with
  | some cs => (true, cs)
  | none => (false, cs)

def top (cs : List Char) : Option (Option Count × List Char) :=
  match strip "TOP " cs with
  | some cs => do
    let (n, cs) := count cs
    some (some n, ← strip " " cs)
  | none => some (none, cs)

def window (cs : List Char) : Option ((Option Count × Option Count) × List Char) :=
  match strip " OFFSET " cs with
  | some cs => do
    let (offset, cs) := count cs
    let (limit, cs) := count (← strip " LIMIT " cs)
    some ((some offset, some limit), cs)
  | none => some ((none, none), cs)

/-- A word that stands alone. -/
def bare (w : String) : Scalar :=
  if w = "null" then .null
  else if w = "undefined" then .literal .undefined
  else if w = "true" then .boolean true
  else if w = "false" then .boolean false
  else .ref w

mutual

/-- A scalar: what stands before the first bracket, and the keys in brackets. -/
def scalar : Nat → List Char → Option (Scalar × List Char)
  | 0, _ => none
  | n + 1, cs => do
    let (s, cs) ← atom n cs
    keys n s cs

def keys : Nat → Scalar → List Char → Option (Scalar × List Char)
  | 0, _, _ => none
  | n + 1, s, cs =>
    match strip "[" cs with
    | some cs => do
      let (key, cs) ← scalar n cs
      keys n (.index s key) (← strip "]" cs)
    | none => some (s, cs)

def atom : Nat → List Char → Option (Scalar × List Char)
  | 0, _ => none
  | _, [] => none
  | n + 1, c :: cs =>
    if c = '"' then (Text.Quoted.read cs).map fun (s, cs) => (.string (String.ofList s), cs)
    else if c = '@' then
      some (.parameter (String.ofList ('@' :: cs.takeWhile isWordChar)), afterWord cs)
    else if c = '[' then do
      let (items, cs) ← closed n ']' cs
      some (.array items, cs)
    else if c = '\x7b' then do
      let (properties, cs) ← members n cs
      some (.object properties, cs)
    else if c = '(' then group n cs
    else if c = '-' || c.isDigit then
      some (.integer (integer (c :: cs)).1, (integer (c :: cs)).2)
    else named n (word (c :: cs)) (afterWord (c :: cs))

/-- A scalar that starts with a word, from behind the word on. -/
def named : Nat → String → List Char → Option (Scalar × List Char)
  | 0, _, _ => none
  | n + 1, w, cs =>
    if w = "udf" then do
      let cs ← strip "." cs
      let (args, rest) ← closed n ')' (← strip "(" (afterWord cs))
      some (.call (word cs) args true, rest)
    else
      match strip "(" cs with
      | none => some (bare w, cs)
      | some cs =>
        if w = "EXISTS" then do
          let (q, cs) ← query n cs
          some (.exists q, ← strip ")" cs)
        else if w = "ARRAY" then do
          let (q, cs) ← query n cs
          some (.arrayOf q, ← strip ")" cs)
        else do
          let (args, cs) ← closed n ')' cs
          some (.call w args false, cs)

/-- What stands in parentheses, from behind the opening one on. -/
def group : Nat → List Char → Option (Scalar × List Char)
  | 0, _ => none
  | n + 1, cs =>
    if word cs = "SELECT" then do
      let (q, cs) ← query n cs
      some (.subquery q, ← strip ")" cs)
    else
      match unaryOp? cs with
      | some (op, cs) => do
        let (operand, cs) ← scalar n cs
        some (.unary op operand, ← strip ")" cs)
      | none => do
        let (left, cs) ← scalar n cs
        operation n left (← strip " " cs)

/-- What follows the first operand in parentheses. -/
def operation : Nat → Scalar → List Char → Option (Scalar × List Char)
  | 0, _, _ => none
  | n + 1, left, cs => do
    let symbol := String.ofList (cs.takeWhile (· != ' '))
    let cs ← strip " " (cs.dropWhile (· != ' '))
    if symbol = "?" then
      let (ifTrue, cs) ← scalar n cs
      let (ifFalse, cs) ← scalar n (← strip " : " cs)
      some (.conditional left ifTrue ifFalse, ← strip ")" cs)
    else if symbol = "IN" then
      let (items, cs) ← closed n ')' (← strip "(" cs)
      some (.isIn left items false, ← strip ")" cs)
    else if symbol = "NOT" then
      let (items, cs) ← closed n ')' (← strip "IN (" cs)
      some (.isIn left items true, ← strip ")" cs)
    else
      let op ← binaryOp? symbol
      let (right, cs) ← scalar n cs
      some (.binary op left right, ← strip ")" cs)

/-- Scalars up to a closing character, which may follow at once. -/
def closed : Nat → Char → List Char → Option (List Scalar × List Char)
  | 0, _, _ => none
  | n + 1, close, cs =>
    match strip (String.singleton close) cs with
    | some cs => some ([], cs)
    | none => do
      let (items, cs) ← scalars n cs
      some (items, ← strip (String.singleton close) cs)

/-- One scalar or more. -/
def scalars : Nat → List Char → Option (List Scalar × List Char)
  | 0, _ => none
  | n + 1, cs => do
    let (s, cs) ← scalar n cs
    match strip ", " cs with
    | none => some ([s], cs)
    | some cs =>
      let (ss, cs) ← scalars n cs
      some (s :: ss, cs)

/-- The properties of an object, from behind the opening brace on. -/
def members : Nat → List Char → Option (List (String × Scalar) × List Char)
  | 0, _ => none
  | n + 1, cs =>
    match strip "\x7d" cs with
    | some cs => some ([], cs)
    | none => do
      let (properties, cs) ← properties n cs
      some (properties, ← strip "\x7d" cs)

def properties : Nat → List Char → Option (List (String × Scalar) × List Char)
  | 0, _ => none
  | n + 1, cs => do
    let (name, cs) ← Text.Quoted.read (← strip "\"" cs)
    let (s, cs) ← scalar n (← strip ": " cs)
    match strip ", " cs with
    | none => some ([(String.ofList name, s)], cs)
    | some cs =>
      let (ps, cs) ← properties n cs
      some ((String.ofList name, s) :: ps, cs)

def projection : Nat → List Char → Option (Projection × List Char)
  | 0, _ => none
  | n + 1, cs =>
    match strip "*" cs with
    | some cs => some (.star, cs)
    | none => do
      let (s, cs) ← scalar n (← strip "VALUE " cs)
      some (.value s, cs)

def source : Nat → List Char → Option (Source × List Char)
  | 0, _ => none
  | n + 1, cs =>
    match strip "(" cs with
    | some cs => do
      let (q, cs) ← query n cs
      let cs ← strip ") AS " cs
      some (.subquery (word cs) q, afterWord cs)
    | none =>
      match strip " IN " (afterWord cs) with
      | none => some (.container (word cs), afterWord cs)
      | some rest => do
        let (path, rest) ← scalar n rest
        some (.items (word cs) path, rest)

def sources : Nat → List Char → Option (List Source × List Char)
  | 0, _ => none
  | n + 1, cs => do
    let (s, cs) ← source n cs
    match strip " JOIN " cs with
    | none => some ([s], cs)
    | some cs =>
      let (ss, cs) ← sources n cs
      some (s :: ss, cs)

def filter : Nat → List Char → Option (Option Scalar × List Char)
  | 0, _ => none
  | n + 1, cs =>
    match strip " WHERE " cs with
    | none => some (none, cs)
    | some cs => do
      let (s, cs) ← scalar n cs
      some (some s, cs)

def groupBy : Nat → List Char → Option (List Scalar × List Char)
  | 0, _ => none
  | n + 1, cs =>
    match strip " GROUP BY " cs with
    | none => some ([], cs)
    | some cs => scalars n cs

def sortKeys : Nat → List Char → Option (List SortKey × List Char)
  | 0, _ => none
  | n + 1, cs => do
    let (s, cs) ← scalar n cs
    let (descending, cs) ←
      match strip " DESC" cs with
      | some cs => some (true, cs)
      | none => (strip " ASC" cs).map (false, ·)
    match strip ", " cs with
    | none => some ([⟨s, descending⟩], cs)
    | some cs =>
      let (ks, cs) ← sortKeys n cs
      some (⟨s, descending⟩ :: ks, cs)

def orderBy : Nat → List Char → Option (List SortKey × List Char)
  | 0, _ => none
  | n + 1, cs =>
    match strip " ORDER BY " cs with
    | none => some ([], cs)
    | some cs => sortKeys n cs

def query : Nat → List Char → Option (Query × List Char)
  | 0, _ => none
  | n + 1, cs => do
    let cs ← strip "SELECT " cs
    let (distinct, cs) := distinct cs
    let (top, cs) ← top cs
    let (projection, cs) ← projection n cs
    let (sources, cs) ← sources n (← strip " FROM " cs)
    let (filter, cs) ← filter n cs
    let (groupBy, cs) ← groupBy n cs
    let (orderBy, cs) ← orderBy n cs
    let ((offset, limit), cs) ← window cs
    some (⟨⟨projection, distinct, top⟩, sources, filter, groupBy, orderBy, offset, limit⟩, cs)

end

end Reader

end LambdaQuery
