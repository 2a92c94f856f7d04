import RootLake.Reader.LogicalPath

/-!
# Values and paths of the production scripts

The scripts exchange JSON files and take their members without a schema: a missing member
reads as `None`, and what is done to a value of the wrong type raises.
-/

namespace RootLake.Production

/-- A loaded JSON value, up to `==`: numbers compare by value, `True` is 1, and an object has
    its members in key order, each key once. -/
inductive Value where
  | null
  | number (value : Rat)
  | string (value : String)
  | array (items : List Value)
  | object (members : List (String × Value))

abbrev Record := List (String × Value)

namespace Value

mutual

/-- `==`. -/
def equal : Value → Value → Bool
  | .null, .null => true
  | .number a, .number b => a = b
  | .string a, .string b => a = b
  | .array a, .array b => equalItems a b
  | .object a, .object b => equalMembers a b
  | _, _ => false

def equalItems : List Value → List Value → Bool
  | [], [] => true
  | a :: as, b :: bs => equal a b && equalItems as bs
  | _, _ => false

def equalMembers : List (String × Value) → List (String × Value) → Bool
  | [], [] => true
  | (key, a) :: as, (key', b) :: bs => key = key' && equal a b && equalMembers as bs
  | _, _ => false

end

def truthy : Value → Bool
  | .null => false
  | .number value => value ≠ 0
  | .string value => value ≠ ""
  | .array items => !items.isEmpty
  | .object members => !members.isEmpty

def hashable : Value → Bool
  | .array _ | .object _ => false
  | _ => true

def asString : Value → Option String
  | .string value => some value
  | _ => none

/-- `get` is a method of an object alone. -/
def asRecord : Value → Except String Record
  | .object members => .ok members
  | _ => .error "AttributeError"

/-- `set(...)`. -/
def asSet : Value → Except String (List Value)
  | .array items => if items.all hashable then .ok items else .error "TypeError"
  | .string value => .ok (value.toList.map fun c => .string (String.singleton c))
  | .object members => .ok (members.map fun member => .string member.1)
  | _ => .error "TypeError"

theorem equal_string_iff {value : Value} {text : String} :
    equal value (.string text) = true ↔ value = .string text := by
  cases value with
  | string other => simp [equal]
  | _ => exact ⟨fun h => (nomatch h), fun h => (nomatch h)⟩

end Value

/-- `record.get(key)`. -/
def Record.get (record : Record) (key : String) : Value := (record.lookup key).getD .null

/-- A `pathlib` path: what stands in front of the first part, and the parts. -/
structure PurePath where
  root : String
  parts : List String
  deriving DecidableEq

namespace PurePath

def parse (text : String) : PurePath where
  root :=
    match (text.toList.takeWhile (· = '/')).length with
    | 0 => ""
    | 2 => "//"
    | _ => "/"
  parts := ((LogicalPath.components text.toList).map String.ofList).filter (· ≠ ".")

def isAbsolute (path : PurePath) : Bool := path.root ≠ ""

/-- `directory / path`, for a path that is not absolute. -/
def join (directory path : PurePath) : PurePath :=
  { directory with parts := directory.parts ++ path.parts }

/-- `str(path.relative_to(directory))`. -/
def relativeTo (path directory : PurePath) : Except String String :=
  if path.root = directory.root ∧ directory.parts.isPrefixOf path.parts then
    match path.parts.drop directory.parts.length with
    | [] => .ok "."
    | parts => .ok (String.intercalate "/" parts)
  else .error "ValueError"

end PurePath

end RootLake.Production
