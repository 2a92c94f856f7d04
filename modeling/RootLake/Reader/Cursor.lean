import RootLake.Reader.Traversal

/-!
# The cursor over one entry

`OffsetValueCursor` hands out the values of an entry in pages. Between two pages it keeps
the indices of the last value alone, and every page runs the traversal again, with a sink
that jumps to those indices.
-/

namespace RootLake

/-- One position of the parallel vectors of a `ReadResult`. -/
structure ReadRow where
  value : SinkValue
  entryId : Int64
  indices : List Int
  deriving DecidableEq, Repr

structure ReadResult where
  rows : List ReadRow := []
  vectorNames : List String := []
  deriving DecidableEq, Repr

/-- `AddNumber` and `AddString`: the names are those of the first row. -/
def ReadResult.add (result : ReadResult) (value : SinkValue) (entryId : Int64)
    (indices : List Int) (names : List String) : ReadResult where
  rows := result.rows ++ [⟨value, entryId, indices⟩]
  vectorNames := if result.vectorNames = [] then names else result.vectorNames

/-! ### The sinks -/

/-- `DirectSink`; a negative `maxValues` is no limit. -/
def directSink (maxValues : Int) (entryId : Int64) : Sink ReadResult where
  startIndex _ _ _ := .ok 0
  full result := decide (0 ≤ maxValues) && decide (maxValues.toNat ≤ result.rows.length)
  value result read indices names :=
    read.map fun value => result.add value entryId indices names

/-- What changes in a `CursorPageSink`. -/
structure CursorPage where
  skipPrevious : Bool
  output : ReadResult
  lastIndices : List Int
  deriving DecidableEq, Repr

/-- The flat position of a tuple of coordinates. -/
def restoreArrayIndex : List Nat → List Int → Nat → Except TraversalError Nat
  | [], _, index => .ok index
  | _ :: _, [], _ => .error .invalidArrayPosition
  | dimension :: dimensions, coordinate :: coordinates, index =>
      if coordinate < 0 || dimension = 0 || coordinate.toNat ≥ dimension ||
          index > (2 ^ 64 - 1 - coordinate.toNat) / dimension then
        .error .invalidArrayPosition
      else restoreArrayIndex dimensions coordinates (index * dimension + coordinate.toNat)

/-- The position of a container, or of an array of one dimension. -/
def restoreIndex : List Int → Except TraversalError Nat
  | [] => .error .negativeContainerIndex
  | index :: _ => if index < 0 then .error .negativeContainerIndex else .ok index.toNat

/-- `CursorPageSink::StartIndex`. -/
def cursorStartIndex (previous : List Int) (page : CursorPage) (level : PathLevel)
    (indices : List Int) : Except TraversalError Nat :=
  if !page.skipPrevious || indices.length > previous.length ||
      indices ≠ previous.take indices.length then .ok 0
  else
    match level.fixedArray with
    | some array =>
        if previous.length - indices.length < max 1 array.dimensions.length then .ok 0
        else if array.dimensions.length ≤ 1 then restoreIndex (previous.drop indices.length)
        else restoreArrayIndex array.dimensions (previous.drop indices.length) 0
    | none =>
        if previous.length - indices.length < 1 then .ok 0
        else restoreIndex (previous.drop indices.length)

def cursorPageSink (limit : Nat) (entryId : Int64) (previous : List Int) : Sink CursorPage where
  startIndex := cursorStartIndex previous
  full page := decide (limit ≤ page.output.rows.length)
  value page read indices names :=
    if page.skipPrevious then
      -- A restored cursor must encounter its previous value before moving past it.
      if indices = previous then .ok { page with skipPrevious := false } else .error .notRestored
    else
      read.map fun value =>
        { page with
          output := page.output.add value entryId indices names
          lastIndices := indices }

/-! ### Reading an entry -/

section Reading

variable (mem : RootMemory)

def collectDirect (rootObject : Address) (levels : List PathLevel) (maxValues : Int)
    (entryId : Int64) (out : ReadResult) : Except TraversalError ReadResult :=
  runTraversal mem (directSink maxValues entryId) rootObject levels out

structure OffsetValueCursor where
  rootObject : Address := 0
  levels : List PathLevel := []
  resumeIndices : List Int := []
  entryId : Int64 := 0
  previousEmitted : Bool := false
  complete : Bool := true

namespace OffsetValueCursor

/-- `Open`, which resets the cursor first. -/
def openEntry (rootObject : Address) (levels : List PathLevel) (entryId : Int64) :
    OffsetValueCursor where
  rootObject := rootObject
  levels := levels
  entryId := entryId
  complete := rootObject = 0 || levels.isEmpty

/-- `ReadPage`: whether the page has rows, the page, and the cursor after it. -/
def readPage (cursor : OffsetValueCursor) (maximumRows : Nat) :
    Except TraversalError (Bool × ReadResult × OffsetValueCursor) :=
  if maximumRows = 0 then .error .pageSize
  else if cursor.complete then .ok (false, {}, cursor)
  else do
    let sink := cursorPageSink maximumRows cursor.entryId cursor.resumeIndices
    let page ← runTraversal mem sink cursor.rootObject cursor.levels
      { skipPrevious := cursor.previousEmitted, output := {}, lastIndices := [] }
    if page.output.rows.isEmpty then .ok (false, page.output, { cursor with complete := true })
    else
      .ok (true, page.output,
        { cursor with
          resumeIndices := page.lastIndices
          previousEmitted := true
          complete := cursor.complete || !sink.full page })

end OffsetValueCursor

/-- How reading an entry page by page ended. -/
inductive Reading where
  | exhausted
  | threw (e : TraversalError)
  | unfinished
  deriving DecidableEq, Repr

/-- Read pages until `ReadPage` returns false, at most `calls` times; `sizes` are the sizes
    asked for. -/
def readPages : Nat → (Nat → Nat) → OffsetValueCursor → List ReadResult × Reading
  | 0, _, _ => ([], .unfinished)
  | calls + 1, sizes, cursor =>
      match cursor.readPage mem (sizes 0) with
      | .error e => ([], .threw e)
      | .ok (false, _, _) => ([], .exhausted)
      | .ok (true, page, cursor) =>
          let (pages, ending) := readPages calls (fun k => sizes (k + 1)) cursor
          (page :: pages, ending)

end Reading

end RootLake
