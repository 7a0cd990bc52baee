import TensorGraph.Json.Token
import TensorGraph.Keyed

/-!
# JSON documents

`Document.parse` builds the tree of a JSON text and checks its grammar only. Leaves without a value,
and nesting of any depth, are kept: a reader that looks at such a place fails, a reader that passes
over it does not. `Document.value?` looks at everything, up to a nesting of 127 arrays and objects.

A record type is read by `Document.fieldsOf?`: from an object, where unknown fields are passed over
and a known field may stand only once, or from an array that gives the fields in order.
-/

namespace TensorGraph.Json

/-- The tree of a JSON text. -/
inductive Document where
  | leaf (value : Option Json)
  | list (items : List Document)
  | record (fields : List (Option String × Document))
  deriving Inhabited

namespace Document

/-- An array or object that is being read. Its items or fields come last first. -/
inductive Frame where
  | list (items : List Document)
  | record (fields : List (Option String × Document)) (key : Option String)

/-- What may come next. -/
inductive Next where
  | value
  | firstItem
  | afterItem
  | firstField
  | field
  | colon
  | afterField
  | done (document : Document)

/-- Put a finished value where it belongs. -/
def place (d : Document) : List Frame → Next × List Frame
  | [] => (.done d, [])
  | .list items :: rest => (.afterItem, .list (d :: items) :: rest)
  | .record fields key :: rest => (.afterField, .record ((key, d) :: fields) none :: rest)

/-- Close the innermost array or object. -/
def close : List Frame → Option (Next × List Frame)
  | [] => none
  | .list items :: rest => some (place (.list items.reverse) rest)
  | .record fields _ :: rest => some (place (.record fields.reverse) rest)

/-- Begin a value. -/
def begin (token : Token) (frames : List Frame) : Option (Next × List Frame) :=
  match token with
  | .scalar value => some (place (.leaf value) frames)
  | .text value => some (place (.leaf (value.map .str)) frames)
  | .mark c =>
    if c == '[' then some (.firstItem, .list [] :: frames)
    else if c == '\x7b' then some (.firstField, .record [] none :: frames)
    else none

/-- Take the key of a field. -/
def takeKey (key : Option String) : List Frame → Option (Next × List Frame)
  | .record fields _ :: rest => some (.colon, .record fields key :: rest)
  | _ => none

/-- Read one token. -/
def step : Next × List Frame → Token → Option (Next × List Frame)
  | (.value, frames), token => begin token frames
  | (.firstItem, frames), .mark ']' => close frames
  | (.firstItem, frames), token => begin token frames
  | (.afterItem, frames), .mark ',' => some (.value, frames)
  | (.afterItem, frames), .mark ']' => close frames
  | (.firstField, frames), .mark '\x7d' => close frames
  | (.firstField, frames), .text key => takeKey key frames
  | (.field, frames), .text key => takeKey key frames
  | (.colon, frames), .mark ':' => some (.value, frames)
  | (.afterField, frames), .mark ',' => some (.field, frames)
  | (.afterField, frames), .mark '\x7d' => close frames
  | _, _ => none

/-- The tree of a text that is one well-written value. -/
def parse (s : String) : Option Document := do
  let tokens ← Token.scan s.toList
  match ← tokens.foldlM step (.value, []) with
  | (.done d, _) => some d
  | _ => none

mutual
/-- The value of a document with at most `depth` arrays and objects inside each other. Fields come
in the order of their keys, and of two with one key the later counts. -/
def value? (depth : Nat) : Document → Option Json
  | .leaf value => value
  | .list items => if depth = 0 then none else (values? (depth - 1) items).map .arr
  | .record fields =>
    if depth = 0 then none else (entries? (depth - 1) fields).map (.obj ∘ Keyed.ofList)

/-- The values of the items of an array. -/
def values? (depth : Nat) : List Document → Option (List Json)
  | [] => some []
  | d :: rest =>
    match value? depth d, values? depth rest with
    | some v, some vs => some (v :: vs)
    | _, _ => none

/-- The values of the fields of an object. -/
def entries? (depth : Nat) : List (Option String × Document) → Option (List (String × Json))
  | [] => some []
  | (key, d) :: rest =>
    match key, value? depth d, entries? depth rest with
    | some k, some v, some vs => some ((k, v) :: vs)
    | _, _, _ => none
end

/-- The deepest nesting of a value. -/
def depthLimit : Nat := 127

/-! ## Reading typed values -/

/-- A text. -/
def text? : Document → Option String
  | .leaf (some (.str s)) => some s
  | _ => none

/-- A truth value. -/
def bool? : Document → Option Bool
  | .leaf (some (.bool b)) => some b
  | _ => none

/-- A whole number between `lo` and `hi`. -/
def int? (lo hi : Int) : Document → Option Int
  | .leaf (some (.int n)) => if lo ≤ n ∧ n ≤ hi then some n else none
  | _ => none

/-- A natural number up to `bound`. -/
def nat? (bound : Nat) (d : Document) : Option Nat :=
  (d.int? 0 bound).map Int.toNat

/-- A number, whole or not. -/
def real? : Document → Option Binary64
  | .leaf (some (.int n)) => some (Binary64.ofInt n)
  | .leaf (some (.real x)) => some x
  | _ => none

/-- A list whose items are read by `item`. -/
def list? {α : Type} (item : Document → Option α) : Document → Option (List α)
  | .list items => items.mapM item
  | _ => none

/-- A text, or null. -/
def optionalText? : Document → Option (Option String)
  | .leaf (some .null) => some none
  | d => d.text?.map some

/-- The fields of an object with free keys, in the order of the text. -/
def entriesWith? {α : Type} (item : Document → Option α) : Document → Option (List (String × α))
  | .record fields => fields.mapM fun (key, d) => do return (← key, ← item d)
  | _ => none

/-- The known fields of a record that has the given field names. -/
def fieldsOf? (names : List String) : Document → Option (List (String × Document))
  | .record fields => do
    let named ← fields.mapM fun (key, d) => key.map (·, d)
    let known := named.filter fun (key, _) => names.contains key
    if (known.map Prod.fst).eraseDups.length == known.length then some known else none
  | .list items => if items.length ≤ names.length then some (names.zip items) else none
  | .leaf _ => none

/-- A name of an alternative, with its value if it carries one. -/
def alternative? : Document → Option (String × Option Document)
  | .leaf (some (.str s)) => some (s, none)
  | .record [(some key, d)] => some (key, some d)
  | _ => none

/-- The name of an alternative that carries nothing. -/
def bareName? (d : Document) : Option String :=
  match d.alternative? with
  | some (name, none) => some name
  | some (name, some (.leaf (some .null))) => some name
  | _ => none

end Document

/-- A required field of a record. -/
def required? {α : Type} (fields : List (String × Document)) (name : String)
    (read : Document → Option α) :
    Option α :=
  (fields.lookup name).bind read

/-- A field of a record that takes a default when it is missing. -/
def defaulted? {α : Type} (fields : List (String × Document)) (name : String)
    (read : Document → Option α) (fallback : α) : Option α :=
  match fields.lookup name with
  | none => some fallback
  | some d => read d

/-- The value of a text. -/
def parse (s : String) : Option Json :=
  (Document.parse s).bind (Document.value? Document.depthLimit)

end TensorGraph.Json
