import RootLake.Reader.PagedTraversal
import RootLake.Serialized.Plan

/-!
# The hybrid path reader

`RootPathReader` serves the entries of a path from the serialized decoder as long as it
can, and from the object decoder after that. An entry is begun once, with a decision
between serialized pages, the serialized values of the whole entry, and object pages; the
first entries are compared with what an isolated object reader gives.

What the decoders and ROOT answer for an entry is an input of the entry, so that every
pattern of failures is a sequence of inputs.
-/

namespace RootLake

open Serialized

inductive RootReaderMode where
  | auto
  | serialized
  | object
  deriving DecidableEq, Repr

/-- The shared access options this reader looks at itself. -/
structure RootAccessOptions where
  readerMode : RootReaderMode := .auto
  validationEntries : Nat := 0
  operation : String := "read"
  deriving DecidableEq, Repr

/-- One call of `SerializedBasketReader::Decode`: its buffers, and the reason if it failed. -/
structure DecodeAttempt where
  failure : Option String
  values : List RootPrimitiveValue
  indices : List Int

/-- What is answered while an entry is read: the whole-entry decoder, the start of serialized
    pages, and the object in the isolated validation context and in the projected tree. -/
structure EntrySource where
  entryId : Int64
  decode : DecodeAttempt
  page : Except String SerializedVectorPageCursor
  reference : Address
  object : Address

structure RootPathReader where
  levels : List PathLevel
  plan : SerializedReadPlan
  options : RootAccessOptions := {}
  serializedActive : Bool := false
  fallbackRecorded : Bool := false
  validationRemaining : Nat := 0
  page : SerializedVectorPageCursor := {}
  cursor : OffsetValueCursor := {}

inductive RootPathStartRoute where
  | objectOnly
  | serialized
  | objectFallback
  deriving DecidableEq, Repr

inductive RootPathReadRoute where
  | notAttempted
  | serialized
  | objectFallback
  deriving DecidableEq, Repr

inductive RootNumericEntryRoute where
  | none
  | serializedValues
  | serializedPage
  | objectPage
  deriving DecidableEq, Repr

inductive RootNumericPageSource where
  | none
  | serialized
  | object
  deriving DecidableEq, Repr

structure RootPathReadResult where
  route : RootPathReadRoute
  attemptDecoded : Bool
  deriving DecidableEq, Repr

structure RootNumericEntryStartResult where
  route : RootNumericEntryRoute
  attemptDecoded : Bool
  fallbackActivated : Bool
  deriving DecidableEq, Repr

/-- The vectors the caller hands in. -/
structure Buffers where
  values : List RootPrimitiveValue := []
  indices : List Int := []
  deriving DecidableEq, Repr

/-! ### Comparing decoded values -/

def primitiveEqual : RootPrimitiveValue → RootPrimitiveValue → Bool
  | .signed a, .signed b => a == b
  | .unsigned a, .unsigned b => a == b
  | .floating a, .floating b => a.eq b || (a.isNaN && b.isNaN)
  | _, _ => false

def equalDecodedValues (left : List RootPrimitiveValue) (leftIndices : List Int)
    (right : List RootPrimitiveValue) (rightIndices : List Int) : Bool :=
  if leftIndices ≠ rightIndices || left.length ≠ right.length then false
  else (left.zip right).all fun (a, b) => primitiveEqual a b

/-- The text of a validation mismatch; `primitiveText` prints one value. -/
def validationMismatch (primitiveText : RootPrimitiveValue → String)
    (decoded : Buffers) (reference : Buffers) : String :=
  let firstValue :=
    match (decoded.values.zip reference.values).zipIdx.find? fun ((a, b), _) =>
      !primitiveEqual a b with
    | some ((a, b), i) =>
        ", first_value=" ++ toString i ++ ", decoded=" ++ primitiveText a ++
          ", reference=" ++ primitiveText b
    | none => ""
  let firstIndex :=
    match (decoded.indices.zip reference.indices).zipIdx.find? fun ((a, b), _) => a != b with
    | some ((a, b), i) =>
        ", first_index=" ++ toString i ++ ", decoded_index=" ++ toString a ++
          ", reference_index=" ++ toString b
    | none => ""
  "serialized values differ from universal ROOT reader (decoded_values=" ++
    toString decoded.values.length ++ ", reference_values=" ++
    toString reference.values.length ++ ", decoded_indices=" ++
    toString decoded.indices.length ++ ", reference_indices=" ++
    toString reference.indices.length ++ firstValue ++ firstIndex ++ ")"

/-! ### The rows of the object decoder -/

/-- `numbers[i]`: a string leaves a default value there. -/
def SinkValue.asNumber : SinkValue → RootPrimitiveValue
  | .number value => value
  | .string _ => .floating .zero

/-- `numbers` and the flattened `vector_indices`. -/
def ReadResult.buffers (result : ReadResult) : Buffers where
  values := result.rows.map fun row => row.value.asNumber
  indices := result.rows.flatMap fun row => row.indices

/-- A row of a numeric page has a number and all indices. -/
def ReadRow.fits (indexDepth : Nat) (row : ReadRow) : Bool :=
  match row.value with
  | .number _ => row.indices.length = indexDepth
  | .string _ => false

def TraversalError.toIOException (e : TraversalError) : IOException := ⟨e.message⟩

namespace RootPathReader

def indexDepth (reader : RootPathReader) : Nat := RootLake.indexDepth reader.levels

/-- The isolated validation reader is bound, or the reason why it is not. -/
abbrev ValidationBinding := Except String Unit

section

variable (mem : RootMemory) (primitiveText : RootPrimitiveValue → String)

def activateFallback (reader : RootPathReader) (reason : String) :
    Except IOException (Bool × RootPathReader) :=
  if reader.options.readerMode = .serialized then
    .error ⟨"reader_mode='serialized' cannot " ++ reader.options.operation ++ " " ++
      reader.plan.logicalPath ++ ": " ++ reason⟩
  else
    let reader := { reader with serializedActive := false }
    if reader.fallbackRecorded then .ok (false, reader)
    else .ok (true, { reader with fallbackRecorded := true })

def fallbackRoute (activated : Bool) : RootPathStartRoute :=
  if activated then .objectFallback else .objectOnly

def startSerialized (reader : RootPathReader) (options : RootAccessOptions)
    (rejectionReason : String) (validation : ValidationBinding) :
    Except IOException (RootPathStartRoute × RootPathReader) :=
  let reader :=
    { reader with
      options := options
      validationRemaining := options.validationEntries
      serializedActive := false
      fallbackRecorded := false }
  if options.readerMode = .object then .ok (.objectOnly, reader)
  else
    let rejectionReason :=
      if rejectionReason = "" && !reader.plan.supported then
        if reader.plan.rejectionReason = "" then "serialized reader is unavailable"
        else reader.plan.rejectionReason
      else rejectionReason
    if rejectionReason ≠ "" then
      (reader.activateFallback rejectionReason).map fun (activated, reader) =>
        (fallbackRoute activated, reader)
    else
      match if reader.validationRemaining > 0 then validation else .ok () with
      | .error reason =>
          (reader.activateFallback reason).map fun (activated, reader) =>
            (fallbackRoute activated, reader)
      | .ok () =>
          -- `serialized_reader.Bind` closes a page that is open
          .ok (.serialized, { reader with serializedActive := true, page := {} })

/-! ### Object pages -/

def beginObjectEntry (reader : RootPathReader) (object : Address) (entryId : Int64) :
    Except IOException RootPathReader :=
  if object = 0 || reader.levels.isEmpty then
    .error ⟨"Cannot start ROOT object cursor without an object and resolved path"⟩
  else .ok { reader with cursor := .openEntry object reader.levels entryId }

def hasObjectPage (reader : RootPathReader) : Bool := !reader.cursor.complete

def hasNumericPage (reader : RootPathReader) : Bool :=
  reader.page.hasMore || reader.hasObjectPage

def endNumericPage (reader : RootPathReader) : RootPathReader :=
  { reader with page := {}, cursor := {} }

/-- `CollectTypedFlat`: the reference values of the object decoder. -/
def collectTypedFlat (reader : RootPathReader) (object : Address) :
    Except IOException Buffers :=
  match collectDirect mem object reader.levels (-1) 0 {} with
  | .error e => .error e.toIOException
  | .ok result =>
      match result.rows.find? fun row => row.indices.length ≠ reader.indexDepth with
      | some row =>
          .error ⟨"ROOT container depth mismatch in typed path reader: expected " ++
            toString reader.indexDepth ++ ", got " ++ toString row.indices.length⟩
      | none => .ok result.buffers

/-! ### Starting an entry -/

/-- The object decoder's result in the validation context, if the entry is validated.
    Keep the oracle independent from branch-local addresses and cursors. -/
def referenceValues (reader : RootPathReader) (source : EntrySource) :
    Except IOException Buffers :=
  if reader.validationRemaining > 0 && source.reference ≠ 0 then
    reader.collectTypedFlat mem source.reference
  else .ok {}

/-- Fall back, after an attempt that decoded something or not. -/
def fallBack (reader : RootPathReader) (reason : String) (attemptDecoded : Bool) :
    Except IOException (RootPathReadResult × RootPathReader) :=
  (reader.activateFallback reason).map fun (activated, reader) =>
    (⟨if activated then .objectFallback else .notAttempted, attemptDecoded⟩, reader)

/-- `Decode`, which ends a page that is open, and the comparison with the reference. -/
def decodeValidated (reader : RootPathReader) (source : EntrySource) (reference : Buffers) :
    Except IOException (RootPathReadResult × RootPathReader) :=
  let reader := { reader with page := {} }
  match source.decode.failure with
  | some reason => reader.fallBack reason false
  | none =>
      if reader.validationRemaining > 0 then
        if source.reference = 0 ||
            !equalDecodedValues source.decode.values source.decode.indices reference.values
              reference.indices then
          reader.fallBack (validationMismatch primitiveText
            ⟨source.decode.values, source.decode.indices⟩ reference) true
        else
          .ok (⟨.serialized, true⟩,
            { reader with validationRemaining := reader.validationRemaining - 1 })
      else .ok (⟨.serialized, true⟩, reader)

/-- The buffers hold what `Decode` left in them, whatever comes of the attempt. -/
def tryReadSerialized (reader : RootPathReader) (source : EntrySource) (indices : List Int) :
    Except IOException (RootPathReadResult × RootPathReader × Buffers) :=
  if !reader.serializedActive then
    .ok (⟨.notAttempted, false⟩, reader, { indices := indices })
  else
    match reader.referenceValues mem source with
    | .error e => .error e
    | .ok reference =>
        (reader.decodeValidated primitiveText source reference).map fun (read, reader) =>
          (read, reader, ⟨source.decode.values, source.decode.indices⟩)

def beginSerializedPage (reader : RootPathReader) (source : EntrySource) :
    Except IOException (RootPathReadResult × RootPathReader) :=
  if !reader.serializedActive || reader.validationRemaining ≠ 0 ||
      !reader.plan.isKind .fixedMember then
    .ok (⟨.notAttempted, false⟩, reader)
  else
    match source.page with
    | .error reason => { reader with page := {} }.fallBack reason false
    | .ok page => .ok (⟨.serialized, true⟩, { reader with page := page })

/-- `object_entry.Read()` and the object cursor; `buffers` are passed on as they are. -/
def beginObject (reader : RootPathReader) (source : EntrySource) (attemptDecoded : Bool)
    (fallbackActivated : Bool) (buffers : Buffers) :
    Except IOException (RootNumericEntryStartResult × RootPathReader × Buffers) :=
  if source.object = 0 then .ok (⟨.none, attemptDecoded, fallbackActivated⟩, reader, buffers)
  else
    (reader.beginObjectEntry source.object source.entryId).map fun reader =>
      (⟨.objectPage, attemptDecoded, fallbackActivated⟩, reader, buffers)

/-- The part of `BeginNumericEntry` behind the attempt at serialized pages. -/
def beginWholeEntry (reader : RootPathReader) (source : EntrySource) (fallbackActivated : Bool) :
    Except IOException (RootNumericEntryStartResult × RootPathReader × Buffers) :=
  if reader.serializedActive then
    match reader.tryReadSerialized mem primitiveText source [] with
    | .error e => .error e
    | .ok (read, reader, buffers) =>
        let fallbackActivated := fallbackActivated || read.route = .objectFallback
        if read.route = .serialized then
          .ok (⟨.serializedValues, read.attemptDecoded, fallbackActivated⟩, reader, buffers)
        else reader.beginObject source read.attemptDecoded fallbackActivated buffers
  else reader.beginObject source false fallbackActivated {}

def beginNumericEntry (reader : RootPathReader) (source : EntrySource) :
    Except IOException (RootNumericEntryStartResult × RootPathReader × Buffers) :=
  if reader.hasNumericPage then
    .error ⟨"cannot begin another ROOT entry with unread numeric pages"⟩
  else
    let reader := reader.endNumericPage
    if reader.serializedActive && reader.plan.isKind .fixedMember &&
        reader.validationRemaining = 0 then
      match reader.beginSerializedPage source with
      | .error e => .error e
      | .ok (paged, reader) =>
          if paged.route = .serialized then .ok (⟨.serializedPage, false, false⟩, reader, {})
          else reader.beginWholeEntry mem primitiveText source (paged.route = .objectFallback)
    else reader.beginWholeEntry mem primitiveText source false

/-! ### Pages of an entry -/

variable (codec : Codec)

structure NumericPage where
  source : RootNumericPageSource
  values : List RootPrimitiveValue
  indices : List Int
  deriving DecidableEq, Repr

/-- `ReadNumericPage`; the source is `none` if there is no page. -/
def readNumericPage (reader : RootPathReader) (rows : Nat) :
    Except IOException (NumericPage × RootPathReader) :=
  if rows = 0 then .error ⟨"ROOT numeric page size must be positive"⟩
  else if reader.page.hasMore then
    match reader.page.readPage codec rows with
    -- Once a page escapes, switching to object decoding could duplicate values.
    | .error reason => .error ⟨"ROOT serialized cursor failed: " ++ reason⟩
    | .ok none => .ok (⟨.none, [], []⟩, reader)
    | .ok (some page) =>
        .ok (⟨.serialized, page.values, page.indices⟩, { reader with page := page.next })
  else if !reader.hasObjectPage then .ok (⟨.none, [], []⟩, reader)
  else
    match reader.cursor.readPage mem rows with
    | .error e => .error e.toIOException
    | .ok (false, _, cursor) => .ok (⟨.none, [], []⟩, { reader with cursor := cursor })
    | .ok (true, page, cursor) =>
        if page.rows.all (ReadRow.fits reader.indexDepth) then
          .ok (⟨.object, page.buffers.values, page.buffers.indices⟩,
            { reader with cursor := cursor })
        else .error ⟨"ROOT numeric page does not match its indexed schema"⟩

/-- How the pages of an entry ended. -/
inductive PagesEnding where
  | finished (reader : RootPathReader)
  | threw (e : IOException)
  | unfinished

/-- The pages until `ReadNumericPage` has none, at most `calls` times. -/
def readNumericPages : Nat → (Nat → Nat) → RootPathReader → List NumericPage × PagesEnding
  | 0, _, _ => ([], .unfinished)
  | calls + 1, sizes, reader =>
      match reader.readNumericPage mem codec (sizes 0) with
      | .error e => ([], .threw e)
      | .ok (page, reader) =>
          if page.source = .none then ([], .finished reader)
          else
            let (pages, ending) := readNumericPages calls (fun k => sizes (k + 1)) reader
            (page :: pages, ending)

/-- How an entry is read: what is answered, and the page sizes asked for. -/
structure EntryRead where
  source : EntrySource
  sizes : Nat → Nat
  sizes_pos : ∀ k, 1 ≤ sizes k
  calls : Nat

/-- Everything one entry delivers: the values of a whole entry are one page. -/
def readEntry (reader : RootPathReader) (read : EntryRead) : List NumericPage × PagesEnding :=
  match reader.beginNumericEntry mem primitiveText read.source with
  | .error e => ([], .threw e)
  | .ok (started, reader, buffers) =>
      match started.route with
      | .none => ([], .finished reader)
      | .serializedValues =>
          ([⟨.serialized, buffers.values, buffers.indices⟩], .finished reader)
      | .serializedPage | .objectPage => reader.readNumericPages mem codec read.calls read.sizes

/-- The entries read one after the other, each to its end. -/
def readEntries : RootPathReader → List EntryRead →
    Option (List (List NumericPage) × RootPathReader)
  | reader, [] => some ([], reader)
  | reader, read :: reads =>
      match reader.readEntry mem primitiveText codec read with
      | (pages, .finished reader) =>
          (readEntries reader reads).map fun (deliveries, reader) => (pages :: deliveries, reader)
      | _ => none

end

end RootPathReader

end RootLake
