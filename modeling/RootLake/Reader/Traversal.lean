import RootLake.Lib.Feed
import RootLake.Reader.PathLevel

/-!
# The offset traversal

`CollectValuesRecursive` walks a materialized ROOT object along resolved levels and
gives every value it meets to a sink. Two sinks are modelled: the direct one, which
takes values up to a limit, and the page of a cursor, which is moved back to the value
that the page before it ended with.

The process the traversal runs in is a record of what it reads: pointers, the elements
of containers, primitive values and strings by address, the dictionary flags of classes,
and the predicates on type names. Nothing is assumed about them.
-/

namespace RootLake

open Feed

/-- A memory address; `0` is the null pointer. -/
abbrev Address := Int

/-- What a traversal reads of the process. -/
structure RootMemory where
  pointer : Address → Address
  /-- Contents of a collection proxy after `TPushPop`: the address of every element. -/
  elements : TClass → Address → List Address
  primitive : Address → String → Except IOException RootPrimitiveValue
  string : Address → String → Except IOException String
  hasDictionary : TClass → Bool
  hasCollectionProxy : TClass → Bool
  classSize : TClass → Nat
  trimType : String → String
  extractInnerType : String → String
  isPrimitiveType : String → Bool
  isStringType : String → Bool
  isPointerType : String → Bool
  isContiguousVectorType : String → Bool
  primitiveTypeSize : String → Nat
  contiguousVectorPathEnabled : Bool

/-- The errors a traversal can raise; `read` is one of reading a value. -/
inductive TraversalError where
  | containerIndex
  | arrayIndex
  | zeroDimension
  | arrayCoordinate
  | read (e : IOException)
  | negativeContainerIndex
  | invalidArrayPosition
  | notRestored
  | pageSize
  deriving DecidableEq, Repr

namespace TraversalError

def message : TraversalError → String
  | containerIndex => "ROOT container index exceeds the supported 32-bit SQL index range"
  | arrayIndex => "ROOT fixed-array index exceeds the supported 32-bit SQL index range"
  | zeroDimension => "ROOT fixed array has a zero dimension"
  | arrayCoordinate => "ROOT fixed-array coordinate exceeds the supported 32-bit SQL index range"
  | read e => e.message
  | negativeContainerIndex => "ROOT cursor has a negative container index"
  | invalidArrayPosition => "ROOT cursor has an invalid flattened array position"
  | notRestored => "ROOT cursor could not restore its previous logical index"
  | pageSize => "ROOT cursor page size must be positive"

/-- The errors that only a cursor raises. -/
def ofCursor : TraversalError → Bool
  | negativeContainerIndex | invalidArrayPosition | notRestored | pageSize => true
  | _ => false

end TraversalError

def int32Max : Nat := 2 ^ 31 - 1

def checkedContainerIndex (index : Nat) : Except TraversalError Int :=
  if index > int32Max then .error .containerIndex else .ok index

/-! ### Names and coordinates of fixed arrays -/

/-- The index names of a fixed array. -/
def arrayIndexNames (name : String) (dimensions : List Nat) : List String :=
  if dimensions.length ≤ 1 then [name ++ "_idx"]
  else (List.range dimensions.length).map fun dim => name ++ "_dim" ++ toString dim ++ "_idx"

/-- The names are appended one by one, each if there is still one missing. -/
def appendArrayIndexNames (name : String) (dimensions : List Nat) (currentDepth : Nat)
    (names : List String) : List String :=
  let rank := if dimensions.length ≤ 1 then 1 else dimensions.length
  (arrayIndexNames name dimensions).foldl
    (fun names next => if names.length < currentDepth + rank then names ++ [next] else names) names

/-- The loop over the dimensions, the last one first: the coordinates and what is left of
    the flat index. -/
def arrayCoordinates : List Nat → Nat → Except TraversalError (List Int × Nat)
  | [], flatIndex => .ok ([], flatIndex)
  | dimension :: dimensions, flatIndex => do
      let (coordinates, flatIndex) ← arrayCoordinates dimensions flatIndex
      if dimension = 0 then .error .zeroDimension
      else if flatIndex % dimension > int32Max then .error .arrayCoordinate
      else .ok (((flatIndex % dimension : Nat) : Int) :: coordinates, flatIndex / dimension)

def pushArrayCoordinates (flatIndex : Nat) (dimensions : List Nat) (indices : List Int) :
    Except TraversalError (List Int) :=
  if dimensions = [] then
    if flatIndex > int32Max then .error .arrayIndex else .ok (indices ++ [(flatIndex : Int)])
  else (arrayCoordinates dimensions flatIndex).map fun (coordinates, _) => indices ++ coordinates

/-! ### Containers -/

/-- `PrepareContainerAccess`: base and stride of a contiguous vector. -/
def prepareContainerAccess (mem : RootMemory) (level : PathLevel) (elements : List Address) :
    Option (Address × Nat) :=
  if elements.length = 0 || !mem.contiguousVectorPathEnabled ||
      !mem.isContiguousVectorType level.type then none
  else
    let inner := mem.trimType (mem.extractInnerType level.type)
    if inner = "" || inner = "bool" || inner = "Bool_t" || mem.isPointerType inner then none
    else
      let stride :=
        if mem.primitiveTypeSize inner = 0 then
          match level.elementClass with
          | some elementClass => mem.classSize elementClass
          | none => 0
        else mem.primitiveTypeSize inner
      let first := elements.getD 0 0
      let second := elements.getD 1 0
      if stride = 0 || first = 0 then none
      else if elements.length > 1 && (second = 0 || second ≠ first + stride) then none
      else some (first, stride)

/-- The address of element `i`. -/
def elementAt (mem : RootMemory) (level : PathLevel) (elements : List Address) (i : Nat) :
    Address :=
  match prepareContainerAccess mem level elements with
  | some (base, stride) => base + i * stride
  | none => elements.getD i 0

/-! ### The traversal -/

/-- A value given to a sink. -/
inductive SinkValue where
  | number (value : RootPrimitiveValue)
  | string (value : String)
  deriving DecidableEq, Repr

/-- A sink of the traversal. `Number` and `String` differ in how they read the value:
    `value` is both, given the reading. -/
structure Sink (σ : Type) where
  startIndex : σ → PathLevel → List Int → Except TraversalError Nat
  full : σ → Bool
  value : σ → Except TraversalError SinkValue → List Int → List String → Except TraversalError σ

section Traversal

variable {σ : Type} (mem : RootMemory) (sink : Sink σ)

def readNumber (pointer : Address) (type : String) : Except TraversalError SinkValue :=
  match mem.primitive pointer type with
  | .error e => .error (.read e)
  | .ok value => .ok (.number value)

def readString (pointer : Address) (type : String) : Except TraversalError SinkValue :=
  match mem.string pointer type with
  | .error e => .error (.read e)
  | .ok value => .ok (.string value)

/-- The names and the sink that the traversal changes. -/
abbrev TraversalState (σ : Type) := List String × σ

/-- A container of a type without a dictionary is not entered; the last level asks for the
    proxy alone. -/
def openContainer (level : PathLevel) (last : Bool) (field : Address) : Option (List Address) :=
  match level.klass with
  | none => none
  | some klass =>
      if (last || mem.hasDictionary klass) && mem.hasCollectionProxy klass then
        some (mem.elements klass field)
      else none

/-- The address of a level's field; null behind a null pointer. -/
def fieldAddress (level : PathLevel) (current : Address) : Address :=
  let field := current + level.offsetInParent
  if level.isPointer then (if field = 0 then 0 else mem.pointer field) else field

/-- The value at the end of the path, if there is one: an element of a container. -/
def containerLeaf (inner : String) (element : Address) :
    Option (Except TraversalError SinkValue) :=
  if mem.isPrimitiveType inner then some (readNumber mem element inner)
  else if mem.isStringType inner then some (readString mem element inner)
  else none

/-- The value at the end of the path: the field itself. -/
def fieldLeaf (level : PathLevel) (field : Address) :
    Option (Except TraversalError SinkValue) :=
  if level.isPrimitive then some (readNumber mem field level.type)
  else if level.isString then some (readString mem field level.type)
  else none

/-- The value at the end of the path: an element of a fixed array. -/
def arrayLeaf (level : PathLevel) (element : Address) :
    Option (Except TraversalError SinkValue) :=
  if level.isPrimitive then some (readNumber mem element level.type) else none

/-- `sink.Number` or `sink.String`, if there is a value. -/
def Sink.leaf (s : σ) (leaf : Option (Except TraversalError SinkValue)) (indices : List Int)
    (names : List String) : Except TraversalError (TraversalState σ) :=
  match leaf with
  | none => .ok (names, s)
  | some read => (sink.value s read indices names).map fun s => (names, s)

def collectValuesRecursive : List PathLevel → Address → List Int →
    TraversalState σ → Except TraversalError (TraversalState σ)
  | [], _, _, (names, s) => .ok (names, s)
  | level :: rest, current, indices, (names, s) =>
      if current = 0 || sink.full s then .ok (names, s)
      else
        let field := fieldAddress mem level current
        if level.isPointer && field = 0 then .ok (names, s)
        else
          match level.fixedArray with
          | some array => do
              let names := appendArrayIndexNames level.name array.dimensions indices.length names
              let start ← sink.startIndex s level indices
              forRange (fun t => sink.full t.2)
                (fun i (names, s) => do
                  let element := field + i * level.elementSize
                  let indices ← pushArrayCoordinates i array.dimensions indices
                  if rest.isEmpty then sink.leaf s (arrayLeaf mem level element) indices names
                  else collectValuesRecursive rest element indices (names, s))
                (array.length - start) start (names, s)
          | none =>
              if level.isContainer then
                match openContainer mem level rest.isEmpty field with
                | none => .ok (names, s)
                | some elements => do
                    let names :=
                      if names.length < indices.length + 1 then names ++ [level.name ++ "_idx"]
                      else names
                    let start ← sink.startIndex s level indices
                    forRange (fun t => sink.full t.2)
                      (fun i (names, s) => do
                        let containerIndex ← checkedContainerIndex i
                        let element := elementAt mem level elements i
                        if element = 0 then .ok (names, s)
                        else if rest.isEmpty then
                          sink.leaf s (containerLeaf mem (mem.extractInnerType level.type) element)
                            (indices ++ [containerIndex]) names
                        else
                          collectValuesRecursive rest element (indices ++ [containerIndex])
                            (names, s))
                      (elements.length - start) start (names, s)
              else if rest.isEmpty then sink.leaf s (fieldLeaf mem level field) indices names
              else if level.klass.isSome then collectValuesRecursive rest field indices (names, s)
              else .ok (names, s)

def runTraversal (rootObject : Address) (levels : List PathLevel) (s : σ) :
    Except TraversalError σ :=
  (collectValuesRecursive mem sink levels rootObject [] ([], s)).map Prod.snd

-- Nothing is read below an object that is not there.
example (level : PathLevel) (rest : List PathLevel) (t : TraversalState σ) :
    collectValuesRecursive mem sink (level :: rest) 0 [] t = .ok t := by
  simp only [collectValuesRecursive, decide_true, Bool.true_or, if_true]

end Traversal

end RootLake
