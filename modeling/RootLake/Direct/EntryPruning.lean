/-
  RootLake/Direct/EntryPruning.lean
  =================================
  **Entry ranges from filters.**

  A direct scan reads the entries of a file in order, and narrows the entries it reads by
  the filters.  Two analyses extract a range of entry ids: one from the conditions the
  optimizer offers while it plans, and one from the table filters that are pushed into the
  scan.  Both walk through AND and OR, both keep the hull of an OR, and both give up on
  what they do not know.  The filters stay above the scan, so a range may be too wide.

  A range that is extracted admits every entry id for which the condition is true.
-/
import RootLake.Dataset.FilterExpression
import RootLake.Dataset.Task

namespace RootLake.Direct

open Sql3 Dataset

/-- Entry ids and source ids are compared as integers. -/
instance : SqlOrdered Int where
  sqlKey value := value

/-! ### Ranges -/

/-- The range does not exclude the number. -/
def admits (range : RootUnsignedFilterRange) (x : Int) : Prop :=
  range.known = true →
    range.impossible = false ∧ (range.lower.toNat : Int) ≤ x ∧ x ≤ range.upper.toNat

def rootPruningUnknown : RootUnsignedFilterRange := {}

def rootPruningImpossible : RootUnsignedFilterRange := { known := true, impossible := true }

def rootPruningAll : RootUnsignedFilterRange := { known := true }

/-- The numbers that compare with an unsigned constant; nothing is known of `<>`.  This is the
    switch of `ComparisonRange`, and of `RootPruningFromComparison` behind its signs. -/
def rangeOfComparison (type : ExpressionType) (value : UInt64) : RootUnsignedFilterRange :=
  match type with
  | .compareEqual => { known := true, lower := value, upper := value }
  | .compareLessThan =>
      if value = 0 then rootPruningImpossible else { known := true, upper := value - 1 }
  | .compareLessThanOrEqualTo => { known := true, upper := value }
  | .compareGreaterThan =>
      if value = uint64Max then rootPruningImpossible else { known := true, lower := value + 1 }
  | .compareGreaterThanOrEqualTo => { known := true, lower := value }
  | .compareNotEqual => rootPruningUnknown

/-- `IntersectRanges`. -/
def intersectRanges (left right : RootUnsignedFilterRange) : RootUnsignedFilterRange :=
  if !left.known then right
  else if !right.known then left
  else if left.impossible || right.impossible then rootPruningImpossible
  else
    let lower := stdMax left.lower right.lower
    let upper := stdMin left.upper right.upper
    { known := true, impossible := decide (upper < lower), lower := lower, upper := upper }

/-- `RootPruningIntersect`: an empty intersection has the bounds of no range. -/
def rootPruningIntersect (left right : RootUnsignedFilterRange) : RootUnsignedFilterRange :=
  if !left.known then right
  else if !right.known then left
  else if left.impossible || right.impossible then rootPruningImpossible
  else
    let lower := stdMax left.lower right.lower
    let upper := stdMin left.upper right.upper
    if upper < lower then rootPruningImpossible
    else { known := true, lower := lower, upper := upper }

/-- `UnionRanges` and `RootPruningUnionHull`: an OR is understood only when every part is. -/
def unionRanges (left right : RootUnsignedFilterRange) : RootUnsignedFilterRange :=
  if !left.known || !right.known then rootPruningUnknown
  else if left.impossible then right
  else if right.impossible then left
  else
    { known := true
      lower := stdMin left.lower right.lower
      upper := stdMax left.upper right.upper }

section

variable {left right : RootUnsignedFilterRange} {x : Int}

theorem admits_unknown : admits rootPruningUnknown x := fun h => by cases h

theorem admits_rangeOfComparison {type : ExpressionType} {value : UInt64}
    (hlow : 0 ≤ x) (hhigh : x ≤ uint64Max.toNat) (h : type.holds x (value.toNat : Int) = true) :
    admits (rangeOfComparison type value) x := by
  have hmax := toNat_uint64Max
  have hzero : (0 : UInt64).toNat = 0 := rfl
  have hone : (1 : UInt64).toNat = 1 := rfl
  cases type with
  | compareNotEqual => exact admits_unknown
  | compareEqual | compareLessThanOrEqualTo | compareGreaterThanOrEqualTo =>
    have h := of_decide_eq_true h
    simp only [SqlOrdered.sqlKey] at h
    intro _
    simp only [rangeOfComparison, true_and]
    omega
  | compareLessThan =>
    have h := of_decide_eq_true h
    simp only [SqlOrdered.sqlKey] at h
    have hpos : value ≠ 0 := by
      rintro rfl
      omega
    have hle : (1 : UInt64).toNat ≤ value.toNat := by
      have hne : value.toNat ≠ 0 := fun heq => hpos (UInt64.toNat_inj.mp heq)
      omega
    have hpred := toNat_sub_of_le hle
    intro _
    simp only [rangeOfComparison, if_neg hpos, true_and]
    omega
  | compareGreaterThan =>
    have h := of_decide_eq_true h
    simp only [SqlOrdered.sqlKey] at h
    have hne : value ≠ uint64Max := by
      rintro rfl
      omega
    have hsucc : (value + 1).toNat = value.toNat + (1 : UInt64).toNat := toNat_add_of_lt (by omega)
    intro _
    simp only [rangeOfComparison, if_neg hne, true_and]
    omega

theorem admits_intersectRanges (hleft : admits left x) (hright : admits right x) :
    admits (intersectRanges left right) x := by
  unfold intersectRanges
  split
  next => exact hright
  next hl =>
    split
    next => exact hleft
    next hr =>
      obtain ⟨hli, hllo, hlhi⟩ := hleft (by simpa using hl)
      obtain ⟨hri, hrlo, hrhi⟩ := hright (by simpa using hr)
      have hlower := toNat_stdMax left.lower right.lower
      have hupper := toNat_stdMin left.upper right.upper
      rw [hli, hri]
      intro _
      simp only [Bool.or_self, Bool.false_eq_true, if_false, decide_eq_false_iff_not,
        UInt64.lt_iff_toNat_lt]
      omega

theorem admits_rootPruningIntersect (hleft : admits left x) (hright : admits right x) :
    admits (rootPruningIntersect left right) x := by
  unfold rootPruningIntersect
  split
  next => exact hright
  next hl =>
    split
    next => exact hleft
    next hr =>
      obtain ⟨hli, hllo, hlhi⟩ := hleft (by simpa using hl)
      obtain ⟨hri, hrlo, hrhi⟩ := hright (by simpa using hr)
      have hlower := toNat_stdMax left.lower right.lower
      have hupper := toNat_stdMin left.upper right.upper
      have horder : ¬ stdMin left.upper right.upper < stdMax left.lower right.lower := by
        rw [UInt64.lt_iff_toNat_lt]
        omega
      rw [hli, hri]
      intro _
      simp only [Bool.or_self, Bool.false_eq_true, if_false, if_neg horder, true_and]
      omega

theorem admits_unionRanges (h : admits left x ∨ admits right x) :
    admits (unionRanges left right) x := by
  unfold unionRanges
  split
  next => exact admits_unknown
  next hknown =>
    simp only [Bool.or_eq_true, Bool.not_eq_true', not_or, Bool.not_eq_false] at hknown
    have hlower := toNat_stdMin left.lower right.lower
    have hupper := toNat_stdMax left.upper right.upper
    split
    next hli =>
      rcases h with h | h
      · rw [(h hknown.1).1] at hli
        cases hli
      · exact h
    next hli =>
      split
      next hri =>
        rcases h with h | h
        · exact h
        · rw [(h hknown.2).1] at hri
          cases hri
      next hri =>
        intro _
        refine ⟨rfl, ?_⟩
        rcases h with h | h
        · obtain ⟨-, hlo, hhi⟩ := h hknown.1
          dsimp only
          omega
        · obtain ⟨-, hlo, hhi⟩ := h hknown.2
          dsimp only
          omega

end

/-- The loop over the children of a conjunction. -/
def combineRanges (op : RootUnsignedFilterRange → RootUnsignedFilterRange → RootUnsignedFilterRange) :
    List RootUnsignedFilterRange → RootUnsignedFilterRange
  | [] => rootPruningUnknown
  | first :: rest => rest.foldl op first

section

variable {x : Int}

/-- Combining with an intersection admits what every child admits. -/
theorem admits_foldl_and
    {op : RootUnsignedFilterRange → RootUnsignedFilterRange → RootUnsignedFilterRange}
    (hop : ∀ {left right}, admits left x → admits right x → admits (op left right) x)
    (rest : List RootUnsignedFilterRange) :
    ∀ {first : RootUnsignedFilterRange}, admits first x → (∀ range ∈ rest, admits range x) →
      admits (rest.foldl op first) x := by
  induction rest with
  | nil => intro first hfirst _; exact hfirst
  | cons range rest ih =>
    intro first hfirst hrest
    obtain ⟨hrange, hrest⟩ := List.forall_mem_cons.mp hrest
    exact ih (hop hfirst hrange) hrest

/-- Combining with the hull admits what one child admits. -/
theorem admits_foldl_or (rest : List RootUnsignedFilterRange) :
    ∀ {first : RootUnsignedFilterRange}, (admits first x ∨ ∃ range ∈ rest, admits range x) →
      admits (rest.foldl unionRanges first) x := by
  induction rest with
  | nil =>
    intro first h
    exact h.resolve_right fun ⟨range, hmem, _⟩ => List.not_mem_nil hmem
  | cons range rest ih =>
    intro first h
    refine ih ?_
    rw [List.exists_mem_cons_iff, ← or_assoc] at h
    exact h.imp_left admits_unionRanges

theorem admits_combineRanges_and
    {op : RootUnsignedFilterRange → RootUnsignedFilterRange → RootUnsignedFilterRange}
    (hop : ∀ {left right}, admits left x → admits right x → admits (op left right) x)
    {ranges : List RootUnsignedFilterRange} (h : ∀ range ∈ ranges, admits range x) :
    admits (combineRanges op ranges) x := by
  cases ranges with
  | nil => exact admits_unknown
  | cons first rest =>
    obtain ⟨hfirst, hrest⟩ := List.forall_mem_cons.mp h
    exact admits_foldl_and hop rest hfirst hrest

theorem admits_combineRanges_or {ranges : List RootUnsignedFilterRange}
    (h : ∃ range ∈ ranges, admits range x) : admits (combineRanges unionRanges ranges) x := by
  cases ranges with
  | nil => exact admits_unknown
  | cons first rest => exact admits_foldl_or rest ((@List.exists_mem_cons_iff _ (fun range => admits range x) _ _).mp h)

end

/-! ### Pushed table filters -/

def isIntegral : LogicalTypeId → Bool
  | .tinyint | .utinyint | .smallint | .usmallint | .integer | .uinteger | .bigint | .ubigint
  | .hugeint | .uhugeint => true
  | _ => false

/-- The constant as an unsigned 64-bit word; the cast fails outside the range. -/
def filterConstantAsUInt64 (value : Value Int) : Option UInt64 :=
  match value with
  | .number type n =>
      if isIntegral type && decide (0 ≤ n) && decide (n ≤ uint64Max.toNat) then
        some (UInt64.ofNat n.toNat)
      else none
  | _ => none

def comparisonRange (type : ExpressionType) (constant : Value Int) : RootUnsignedFilterRange :=
  match filterConstantAsUInt64 constant with
  | none => rootPruningUnknown
  | some value => rangeOfComparison type value

/-- The loop over the constants of an IN list. -/
def inRangeFrom (result : RootUnsignedFilterRange) : List (Operand Int) → RootUnsignedFilterRange
  | [] => result
  | .constant constant :: rest =>
      if constant.isNull then inRangeFrom result rest
      else
        let candidate := comparisonRange .compareEqual constant
        if !candidate.known then rootPruningUnknown
        else inRangeFrom (unionRanges result candidate) rest
  | _ :: _ => rootPruningUnknown

def extractComparisonRange (type : ExpressionType) (left right : Operand Int) :
    RootUnsignedFilterRange :=
  match left, right with
  | .column, .constant constant => comparisonRange type constant
  | .constant constant, .column => comparisonRange (rootReverseComparison type) constant
  | _, _ => rootPruningUnknown

def extractBetweenRange (input lower upper : Operand Int) : RootUnsignedFilterRange :=
  match input, lower, upper with
  | .column, .constant lower, .constant upper =>
      intersectRanges (comparisonRange .compareGreaterThanOrEqualTo lower)
        (comparisonRange .compareLessThanOrEqualTo upper)
  | _, _, _ => rootPruningUnknown

mutual

def extractUnsignedExpressionRange : Expression Int → RootUnsignedFilterRange
  | .comparison type left right => extractComparisonRange type left right
  | .between _ _ input lower upper => extractBetweenRange input lower upper
  | .isIn input constants =>
      if rootIsColumnReference input then inRangeFrom rootPruningImpossible constants
      else rootPruningUnknown
  | .conjunctionAnd children =>
      combineRanges intersectRanges (extractUnsignedExpressionRanges children)
  | .conjunctionOr children =>
      combineRanges unionRanges (extractUnsignedExpressionRanges children)
  | .other _ => rootPruningUnknown

def extractUnsignedExpressionRanges : List (Expression Int) → List RootUnsignedFilterRange
  | [] => []
  | child :: rest =>
      extractUnsignedExpressionRange child :: extractUnsignedExpressionRanges rest

end

theorem extractUnsignedExpressionRanges_eq_map (children : List (Expression Int)) :
    extractUnsignedExpressionRanges children = children.map extractUnsignedExpressionRange := by
  induction children with
  | nil => rfl
  | cons child rest ih => rw [extractUnsignedExpressionRanges, ih, List.map_cons]

def extractRootUnsignedRange (filter : TableFilter Int) : RootUnsignedFilterRange :=
  match rootFilterMetadataExpression filter with
  | some e => extractUnsignedExpressionRange e
  | none => rootPruningUnknown

/-! ### Optimizer conditions -/

/-- A constant with its sign. -/
structure RootPruningInteger where
  negative : Bool
  magnitude : UInt64
  deriving DecidableEq, Repr

/-- The type of an operand, where it is known here; the column is the entry id. -/
def returnType : Operand Int → Option LogicalTypeId
  | .column => some .bigint
  | .constant value => some value.type
  | .cast _ type => some type
  | .other _ => none

/-- Casts that keep the type are looked through, others are not. -/
def rootPruningStripConstantCasts : Operand Int → Option (Operand Int)
  | .cast child type =>
      if returnType child = some type then rootPruningStripConstantCasts child else none
  | operand => some operand

/-- `std::from_chars` for an unsigned word that has to take the whole text. -/
def fromChars (digits : List Char) : Option UInt64 :=
  if digits.isEmpty || !digits.all Char.isDigit then none
  else
    let n := digits.foldl (fun n c => 10 * n + (c.toNat - '0'.toNat)) 0
    if n ≤ uint64Max.toNat then some (UInt64.ofNat n) else none

def parseText (text : String) : Option RootPruningInteger :=
  match text.toList with
  | '-' :: digits => (fromChars digits).map fun magnitude => ⟨true, magnitude⟩
  | '+' :: digits => (fromChars digits).map fun magnitude => ⟨false, magnitude⟩
  | digits => (fromChars digits).map fun magnitude => ⟨false, magnitude⟩

/-- The text of a number is its sign and its decimal digits. -/
def rootPruningParseInteger (operand : Operand Int) : Option RootPruningInteger :=
  match rootPruningStripConstantCasts operand with
  | some (.constant (.number _ n)) =>
      if n.natAbs ≤ uint64Max.toNat then some ⟨decide (n < 0), UInt64.ofNat n.natAbs⟩ else none
  | some (.constant (.other _ text)) => parseText text
  | _ => none

def rootPruningFromComparison (type : ExpressionType) (constant : RootPruningInteger) :
    RootUnsignedFilterRange :=
  if constant.negative then
    match type with
    | .compareEqual | .compareLessThan | .compareLessThanOrEqualTo => rootPruningImpossible
    | .compareGreaterThan | .compareGreaterThanOrEqualTo => rootPruningAll
    | .compareNotEqual => rootPruningUnknown
  else rangeOfComparison type constant.magnitude

def rootPruningComparison (type : ExpressionType) (left right : Operand Int) :
    RootUnsignedFilterRange :=
  match rootIsColumnReference left, rootPruningParseInteger right with
  | true, some constant => rootPruningFromComparison type constant
  | _, _ =>
      match rootIsColumnReference right, rootPruningParseInteger left with
      | true, some constant => rootPruningFromComparison (rootReverseComparison type) constant
      | _, _ => rootPruningUnknown

def rootPruningBetween (input lower upper : Operand Int) : RootUnsignedFilterRange :=
  if !rootIsColumnReference input then rootPruningUnknown
  else
    match rootPruningParseInteger lower, rootPruningParseInteger upper with
    | some lower, some upper =>
        rootPruningIntersect (rootPruningFromComparison .compareGreaterThanOrEqualTo lower)
          (rootPruningFromComparison .compareLessThanOrEqualTo upper)
    | _, _ => rootPruningUnknown

mutual

def rootPruningExtract : Expression Int → RootUnsignedFilterRange
  | .comparison type left right => rootPruningComparison type left right
  | .between _ _ input lower upper => rootPruningBetween input lower upper
  | .conjunctionAnd children => combineRanges rootPruningIntersect (rootPruningExtracts children)
  | .conjunctionOr children => combineRanges unionRanges (rootPruningExtracts children)
  | .isIn _ _ | .other _ => rootPruningUnknown

def rootPruningExtracts : List (Expression Int) → List RootUnsignedFilterRange
  | [] => []
  | child :: rest => rootPruningExtract child :: rootPruningExtracts rest

end

theorem rootPruningExtracts_eq_map (children : List (Expression Int)) :
    rootPruningExtracts children = children.map rootPruningExtract := by
  induction children with
  | nil => rfl
  | cons child rest ih => rw [rootPruningExtracts, ih, List.map_cons]

/-! ### Soundness -/

/-- What the engine's binder sees to: a cast to the type a value has keeps the value, and a number
    is compared with numbers of its type only, so that no other comparison with it is true. -/
structure BinderTypes (sem : SqlSemantics Int) : Prop where
  castSame : ∀ value : Value Int, sem.castValue value value.type = some value
  numberLeft : ∀ type t x right, sem.compareOther type (some (.number t x)) right ≠ some true
  numberRight : ∀ type t x left, sem.compareOther type left (some (.number t x)) ≠ some true

variable {sem : SqlSemantics Int}

/-- A true comparison of a column value with something compares two numbers of one type. -/
theorem BinderTypes.number_of_compareValues (h : BinderTypes sem) {type : ExpressionType}
    {t : LogicalTypeId} {x : Int} {right : Option (Value Int)}
    (htrue : compareValues sem type (some (.number t x)) right = some true) :
    ∃ n, right = some (.number t n) ∧ type.holds x n = true := by
  rcases right with _ | v
  · exact absurd htrue (h.numberLeft _ _ _ _)
  · cases v with
    | null type => cases htrue
    | other type text => exact absurd htrue (h.numberLeft _ _ _ _)
    | number t' n =>
      simp only [compareValues] at htrue
      split at htrue
      next htype => exact ⟨n, by rw [htype], Option.some.inj htrue⟩
      next => exact absurd htrue (h.numberLeft _ _ _ _)

theorem BinderTypes.number_of_compareValues_right (h : BinderTypes sem) {type : ExpressionType}
    {t : LogicalTypeId} {x : Int} {left : Option (Value Int)}
    (htrue : compareValues sem type left (some (.number t x)) = some true) :
    ∃ n, left = some (.number t n) ∧ type.holds n x = true := by
  rcases left with _ | v
  · exact absurd htrue (h.numberRight _ _ _ _)
  · cases v with
    | null type => cases htrue
    | other type text => exact absurd htrue (h.numberRight _ _ _ _)
    | number t' n =>
      simp only [compareValues] at htrue
      split at htrue
      next htype => exact ⟨n, by rw [htype], Option.some.inj htrue⟩
      next => exact absurd htrue (h.numberRight _ _ _ _)

/-- What the engine sees to when it compares numbers of two integral types: the numbers
    decide. -/
def ComparesIntegers (sem : SqlSemantics Int) : Prop :=
  ∀ (type : ExpressionType) (t t' : LogicalTypeId) (x y : Int), isIntegral t = true →
    isIntegral t' = true → t ≠ t' →
    sem.compareOther type (some (.number t x)) (some (.number t' y)) = some true →
    type.holds x y = true

theorem BinderTypes.comparesIntegers (h : BinderTypes sem) : ComparesIntegers sem :=
  fun _ _ _ _ _ _ _ _ htrue => absurd htrue (h.numberLeft _ _ _ _)

/-- A constant that is read as a word is that number, of an integral type. -/
theorem filterConstantAsUInt64_eq {constant : Value Int} {value : UInt64}
    (h : filterConstantAsUInt64 constant = some value) :
    ∃ t, isIntegral t = true ∧ constant = .number t value.toNat := by
  cases constant with
  | null type => cases h
  | other type text => cases h
  | number t n =>
    simp only [filterConstantAsUInt64] at h
    split at h
    next hfits =>
      cases h
      simp only [Bool.and_eq_true, decide_eq_true_eq] at hfits
      have hmax := toNat_uint64Max
      refine ⟨t, hfits.1.1, ?_⟩
      rw [toNat_ofNat_of_lt (by omega), Int.toNat_of_nonneg hfits.1.2]
    next => cases h

/-- A true comparison of two numbers of integral types holds between the numbers. -/
theorem ComparesIntegers.holds (h : ComparesIntegers sem) {type : ExpressionType}
    {t t' : LogicalTypeId} {x y : Int} (ht : isIntegral t = true) (ht' : isIntegral t' = true)
    (htrue : compareValues sem type (some (.number t x)) (some (.number t' y)) = some true) :
    type.holds x y = true := by
  simp only [compareValues] at htrue
  split at htrue
  next => exact Option.some.inj htrue
  next hne => exact h type t t' x y ht ht' hne htrue

section

variable {type : ExpressionType} {t : LogicalTypeId} {x n : Int}

/-- A pushed comparison with a constant, on either side of the column.  The range may be that
    of a comparison that asks for less. -/
theorem admits_comparisonRange (h : ComparesIntegers sem) (ht : isIntegral t = true)
    (hlow : 0 ≤ x) (hhigh : x ≤ uint64Max.toNat) {constant : Value Int} {wider : ExpressionType}
    (hwider : ∀ y : Int, type.holds x y = true → wider.holds x y = true)
    (htrue : compareValues sem type (some (.number t x)) (some constant) = some true) :
    admits (comparisonRange wider constant) x := by
  unfold comparisonRange
  split
  next => exact admits_unknown
  next value hvalue =>
    obtain ⟨t', ht', rfl⟩ := filterConstantAsUInt64_eq hvalue
    exact admits_rangeOfComparison hlow hhigh (hwider _ (h.holds ht ht' htrue))

theorem admits_comparisonRange_right (h : ComparesIntegers sem) (ht : isIntegral t = true)
    (hlow : 0 ≤ x) (hhigh : x ≤ uint64Max.toNat) {constant : Value Int}
    (htrue : compareValues sem type (some constant) (some (.number t x)) = some true) :
    admits (comparisonRange (rootReverseComparison type) constant) x := by
  unfold comparisonRange
  split
  next => exact admits_unknown
  next value hvalue =>
    obtain ⟨t', ht', rfl⟩ := filterConstantAsUInt64_eq hvalue
    refine admits_rangeOfComparison hlow hhigh ?_
    rw [holds_rootReverseComparison]
    exact h.holds ht' ht htrue

/-- The conditions of the optimizer, in the same way: a constant has its sign. -/
theorem admits_rootPruningFromComparison {constant : RootPruningInteger} (hlow : 0 ≤ x)
    (hhigh : x ≤ uint64Max.toNat)
    (hvalue : if constant.negative then n < 0 else n = constant.magnitude.toNat)
    (h : type.holds x n = true) : admits (rootPruningFromComparison type constant) x := by
  unfold rootPruningFromComparison
  split at hvalue
  next hnegative =>
    rw [if_pos hnegative]
    have hall : admits rootPruningAll x := fun _ => ⟨rfl, hlow, hhigh⟩
    cases type with
    | compareEqual | compareLessThan | compareLessThanOrEqualTo =>
      -- No entry id is below zero.
      have h := of_decide_eq_true h
      simp only [SqlOrdered.sqlKey] at h
      omega
    | compareGreaterThan | compareGreaterThanOrEqualTo => exact hall
    | compareNotEqual => exact admits_unknown
  next hnegative =>
    rw [if_neg hnegative]
    rw [hvalue] at h
    exact admits_rangeOfComparison hlow hhigh h

end

/-- Stripping casts keeps the value of the operand. -/
theorem rootPruningStripConstantCasts_value (h : BinderTypes sem) {x : Int} :
    ∀ {operand : Operand Int} {value : Value Int},
      rootPruningStripConstantCasts operand = some (.constant value) →
        operand.value sem .bigint x = some value ∧ returnType operand = some value.type := by
  intro operand
  induction operand with
  | column => intro value heq; cases heq
  | other f => intro value heq; cases heq
  | constant constant =>
    intro value heq
    cases heq
    exact ⟨rfl, rfl⟩
  | cast child type ih =>
    intro value heq
    rw [rootPruningStripConstantCasts] at heq
    split at heq
    next htype =>
      obtain ⟨hvalue, hreturn⟩ := ih heq
      rw [hreturn] at htype
      have htype := Option.some.inj htype
      refine ⟨?_, congrArg some htype.symm⟩
      rw [Operand.value, hvalue, ← htype]
      exact h.castSame value
    next => cases heq

/-- A constant that is read as an integer, and is a number, is that integer. -/
theorem rootPruningParseInteger_value (h : BinderTypes sem) {operand : Operand Int}
    {constant : RootPruningInteger} (hparse : rootPruningParseInteger operand = some constant)
    {t : LogicalTypeId} {n x : Int} (hvalue : operand.value sem .bigint x = some (.number t n)) :
    if constant.negative then n < 0 else n = constant.magnitude.toNat := by
  unfold rootPruningParseInteger at hparse
  split at hparse
  next t' n' hstrip =>
    rw [(rootPruningStripConstantCasts_value h hstrip).1] at hvalue
    cases hvalue
    split at hparse
    next hfits =>
      cases hparse
      have hmax := toNat_uint64Max
      dsimp only
      rw [toNat_ofNat_of_lt (by omega)]
      split
      next hnegative => exact of_decide_eq_true hnegative
      next hnegative =>
        have hnonneg : ¬ n < 0 := fun hlt => hnegative (decide_eq_true hlt)
        omega
    next => cases hparse
  next t' text hstrip =>
    rw [(rootPruningStripConstantCasts_value h hstrip).1] at hvalue
    cases hvalue
  next => cases hparse

/-- Children of a conjunction, by an analysis that is sound for each of them. -/
theorem admits_map_of_meanings {analysis : Expression Int → RootUnsignedFilterRange}
    {t : LogicalTypeId} {x : Int} {children : List (Expression Int)}
    (h : ∀ child ∈ children, child.meaning sem t x = some true → admits (analysis child) x) :
    (all3 (Expression.meanings sem t x children) = some true →
        ∀ range ∈ children.map analysis, admits range x) ∧
      (any3 (Expression.meanings sem t x children) = some true →
        ∃ range ∈ children.map analysis, admits range x) := by
  rw [meanings_eq_map, all3_eq_true, any3_eq_true]
  constructor
  · intro hall range hmem
    obtain ⟨child, hchild, rfl⟩ := List.mem_map.mp hmem
    exact h child hchild (hall _ (List.mem_map_of_mem hchild))
  · rintro ⟨_, hmem, htrue⟩
    obtain ⟨child, hchild, rfl⟩ := List.mem_map.mp hmem
    exact ⟨_, List.mem_map_of_mem hchild, h child hchild htrue⟩

section

variable (h : ComparesIntegers sem) {t : LogicalTypeId} (ht : isIntegral t = true) {x : Int}
variable (hlow : 0 ≤ x) (hhigh : x ≤ uint64Max.toNat)

include h ht hlow hhigh

/-- An IN list admits the constant that the value equals. -/
theorem admits_inRangeFrom {constants : List (Operand Int)} :
    ∀ {result : RootUnsignedFilterRange},
      (admits result x ∨ ∃ constant ∈ constants,
        compareValues sem .compareEqual (some (.number t x)) (constant.value sem t x) =
          some true) →
      admits (inRangeFrom result constants) x := by
  induction constants with
  | nil =>
    intro result hcase
    exact hcase.resolve_right fun ⟨constant, hmem, _⟩ => List.not_mem_nil hmem
  | cons operand rest ih =>
    intro result hcase
    rw [List.exists_mem_cons_iff] at hcase
    cases operand with
    | column => exact admits_unknown
    | cast child target => exact admits_unknown
    | other f => exact admits_unknown
    | constant constant =>
      rw [inRangeFrom]
      split
      next hnull =>
        refine ih ?_
        rcases hcase with hresult | hfirst | hrest
        · exact Or.inl hresult
        · cases constant with
          | null type => cases hfirst
          | number type n => cases hnull
          | other type text => cases hnull
        · exact Or.inr hrest
      next =>
        dsimp only
        split
        next => exact admits_unknown
        next =>
          refine ih ?_
          rcases hcase with hresult | hfirst | hrest
          · exact Or.inl (admits_unionRanges (Or.inl hresult))
          · have hadmits := admits_comparisonRange h ht hlow hhigh (fun _ hholds => hholds) hfirst
            exact Or.inl (admits_unionRanges (Or.inr hadmits))
          · exact Or.inr hrest

theorem admits_extractComparisonRange {type : ExpressionType} {left right : Operand Int}
    (hmeaning : compareValues sem type (left.value sem t x) (right.value sem t x) = some true) :
    admits (extractComparisonRange type left right) x := by
  unfold extractComparisonRange
  split
  next constant => exact admits_comparisonRange h ht hlow hhigh (fun _ hholds => hholds) hmeaning
  next constant => exact admits_comparisonRange_right h ht hlow hhigh hmeaning
  next => exact admits_unknown

theorem admits_extractBetweenRange {lowerInclusive upperInclusive : Bool}
    {input lower upper : Operand Int}
    (hlower : compareValues sem (lowerComparison lowerInclusive) (input.value sem t x)
      (lower.value sem t x) = some true)
    (hupper : compareValues sem (upperComparison upperInclusive) (input.value sem t x)
      (upper.value sem t x) = some true) :
    admits (extractBetweenRange input lower upper) x := by
  unfold extractBetweenRange
  split
  next first last =>
    exact admits_intersectRanges
      (admits_comparisonRange h ht hlow hhigh (fun _ => holds_of_lowerComparison) hlower)
      (admits_comparisonRange h ht hlow hhigh (fun _ => holds_of_upperComparison) hupper)
  next => exact admits_unknown

end

mutual

/-- **The range of a table filter's condition admits every value that satisfies it.** -/
theorem admits_extractUnsignedExpressionRange (h : ComparesIntegers sem) {t : LogicalTypeId}
    (ht : isIntegral t = true) {x : Int} (hlow : 0 ≤ x) (hhigh : x ≤ uint64Max.toNat) :
    ∀ e : Expression Int, e.meaning sem t x = some true →
      admits (extractUnsignedExpressionRange e) x
  | .comparison type left right, hmeaning => by
    rw [Expression.meaning] at hmeaning
    rw [extractUnsignedExpressionRange]
    exact admits_extractComparisonRange h ht hlow hhigh hmeaning
  | .between lowerInclusive upperInclusive input lower upper, hmeaning => by
    rw [Expression.meaning, and3_eq_true] at hmeaning
    rw [extractUnsignedExpressionRange]
    exact admits_extractBetweenRange h ht hlow hhigh hmeaning.1 hmeaning.2
  | .isIn input constants, hmeaning => by
    rw [Expression.meaning, any3_eq_true] at hmeaning
    rw [extractUnsignedExpressionRange]
    split
    next hinput =>
      obtain ⟨_, hmem, htrue⟩ := hmeaning
      obtain ⟨constant, hconstant, rfl⟩ := List.mem_map.mp hmem
      rw [eq_column_of_rootIsColumnReference hinput] at htrue
      exact admits_inRangeFrom h ht hlow hhigh (Or.inr ⟨constant, hconstant, htrue⟩)
    next => exact admits_unknown
  | .conjunctionAnd children, hmeaning => by
    rw [Expression.meaning] at hmeaning
    rw [extractUnsignedExpressionRange, extractUnsignedExpressionRanges_eq_map]
    exact admits_combineRanges_and admits_intersectRanges
      ((admits_map_of_meanings
        (admits_extractUnsignedExpressionRanges h ht hlow hhigh children)).1 hmeaning)
  | .conjunctionOr children, hmeaning => by
    rw [Expression.meaning] at hmeaning
    rw [extractUnsignedExpressionRange, extractUnsignedExpressionRanges_eq_map]
    exact admits_combineRanges_or
      ((admits_map_of_meanings
        (admits_extractUnsignedExpressionRanges h ht hlow hhigh children)).2 hmeaning)
  | .other _, _ => admits_unknown

theorem admits_extractUnsignedExpressionRanges (h : ComparesIntegers sem) {t : LogicalTypeId}
    (ht : isIntegral t = true) {x : Int} (hlow : 0 ≤ x) (hhigh : x ≤ uint64Max.toNat) :
    ∀ children : List (Expression Int), ∀ child ∈ children,
      child.meaning sem t x = some true → admits (extractUnsignedExpressionRange child) x
  | [], child, hmem, _ => absurd hmem List.not_mem_nil
  | first :: rest, child, hmem, hmeaning => by
    rcases List.mem_cons.mp hmem with heq | hmem
    · rw [heq] at hmeaning ⊢
      exact admits_extractUnsignedExpressionRange h ht hlow hhigh first hmeaning
    · exact admits_extractUnsignedExpressionRanges h ht hlow hhigh rest child hmem hmeaning

end

/-- The same for the filter with its wrappers. -/
theorem admits_extractRootUnsignedRange (h : ComparesIntegers sem) {t : LogicalTypeId}
    (ht : isIntegral t = true) {x : Int} (hlow : 0 ≤ x) (hhigh : x ≤ uint64Max.toNat)
    {filter : TableFilter Int} (hmeaning : filter.meaning sem t x = some true) :
    admits (extractRootUnsignedRange filter) x := by
  unfold extractRootUnsignedRange
  split
  next e he =>
    rw [rootFilterMetadataExpression_meaning sem he] at hmeaning
    exact admits_extractUnsignedExpressionRange h ht hlow hhigh e hmeaning
  next => exact admits_unknown

/-- **Unsigned range extraction is sound.**  For a filter on an unsigned 64-bit column and a
    value that satisfies it, the range is unknown, or it is possible and contains the value. -/
theorem extractRootUnsignedRange_contains {sem : SqlSemantics Int} (h : ComparesIntegers sem)
    (filter : TableFilter Int) (v : UInt64)
    (hmeaning : filter.meaning sem .ubigint (v.toNat : Int) = some true) :
    (extractRootUnsignedRange filter).known = false ∨
      ((extractRootUnsignedRange filter).impossible = false ∧
        (extractRootUnsignedRange filter).lower ≤ v ∧
          v ≤ (extractRootUnsignedRange filter).upper) := by
  have hmax := toNat_uint64Max
  have hword := v.toNat_lt
  have hadmits := admits_extractRootUnsignedRange h rfl (Int.natCast_nonneg v.toNat)
    (Int.ofNat_le.mpr (by omega)) hmeaning
  cases hknown : (extractRootUnsignedRange filter).known with
  | false => exact Or.inl rfl
  | true =>
    obtain ⟨hpossible, hlower, hupper⟩ := hadmits hknown
    rw [UInt64.le_iff_toNat_le, UInt64.le_iff_toNat_le]
    exact Or.inr ⟨hpossible, Int.ofNat_le.mp hlower, Int.ofNat_le.mp hupper⟩

/-- An engine that compares any two numbers as numbers. -/
def numericSemantics : SqlSemantics Int where
  castValue value type :=
    match value with
    | .number _ n => some (.number type n)
    | _ => none
  compareOther type left right :=
    match left, right with
    | some (.number _ x), some (.number _ y) => some (type.holds x y)
    | _, _ => none

/-- `10 < x AND x BETWEEN -1 AND 2^64`, or `x IN (NULL, 3)`: the bounds outside the words leave
    the first part as it is, and the hull holds 3. -/
def straddlingFilter : TableFilter Int :=
  .optional (.expression (.conjunctionOr
    [.conjunctionAnd
      [.comparison .compareLessThan (.constant (.number .integer 10)) .column,
        .between true true .column (.constant (.number .integer (-1)))
          (.constant (.number .hugeint (2 ^ 64)))],
      .isIn .column [.constant (.null .ubigint), .constant (.number .ubigint 3)]]))

theorem straddlingFilter_contains_three :
    (extractRootUnsignedRange straddlingFilter).known = false ∨
      ((extractRootUnsignedRange straddlingFilter).impossible = false ∧
        (extractRootUnsignedRange straddlingFilter).lower ≤ 3 ∧
          3 ≤ (extractRootUnsignedRange straddlingFilter).upper) :=
  have hengine : ComparesIntegers numericSemantics :=
    fun _ _ _ _ _ _ _ _ htrue => Option.some.inj htrue
  extractRootUnsignedRange_contains hengine straddlingFilter 3 (by decide)

section

variable (h : BinderTypes sem) {x : Int} (hlow : 0 ≤ x) (hhigh : x ≤ uint64Max.toNat)

include h hlow hhigh

/-! ### The conditions of the optimizer -/

theorem admits_rootPruningComparison {type : ExpressionType} {left right : Operand Int}
    (hmeaning : compareValues sem type (left.value sem .bigint x) (right.value sem .bigint x) =
      some true) : admits (rootPruningComparison type left right) x := by
  unfold rootPruningComparison
  split
  next constant hleft hparse =>
    rw [eq_column_of_rootIsColumnReference hleft] at hmeaning
    obtain ⟨n, hn, hholds⟩ := h.number_of_compareValues hmeaning
    have hvalue := rootPruningParseInteger_value h hparse hn
    exact admits_rootPruningFromComparison hlow hhigh hvalue hholds
  next =>
    split
    next constant hright hparse =>
      rw [eq_column_of_rootIsColumnReference hright] at hmeaning
      obtain ⟨n, hn, hholds⟩ := h.number_of_compareValues_right hmeaning
      have hvalue := rootPruningParseInteger_value h hparse hn
      rw [← holds_rootReverseComparison] at hholds
      exact admits_rootPruningFromComparison hlow hhigh hvalue hholds
    next => exact admits_unknown

theorem admits_rootPruningBetween {lowerInclusive upperInclusive : Bool}
    {input lower upper : Operand Int}
    (hlower : compareValues sem (lowerComparison lowerInclusive) (input.value sem .bigint x)
      (lower.value sem .bigint x) = some true)
    (hupper : compareValues sem (upperComparison upperInclusive) (input.value sem .bigint x)
      (upper.value sem .bigint x) = some true) :
    admits (rootPruningBetween input lower upper) x := by
  unfold rootPruningBetween
  split
  next => exact admits_unknown
  next hinput =>
    have hcolumn := eq_column_of_rootIsColumnReference (by simpa using hinput)
    rw [hcolumn] at hlower hupper
    split
    next first last hfirst hlast =>
      obtain ⟨n, hn, hlower⟩ := h.number_of_compareValues hlower
      obtain ⟨m, hm, hupper⟩ := h.number_of_compareValues hupper
      have hfirst := rootPruningParseInteger_value h hfirst hn
      have hlast := rootPruningParseInteger_value h hlast hm
      exact admits_rootPruningIntersect
        (admits_rootPruningFromComparison hlow hhigh hfirst (holds_of_lowerComparison hlower))
        (admits_rootPruningFromComparison hlow hhigh hlast (holds_of_upperComparison hupper))
    next => exact admits_unknown

end

mutual

/-- **The range of an optimizer's condition admits every entry id that satisfies it.** -/
theorem admits_rootPruningExtract (h : BinderTypes sem) {x : Int} (hlow : 0 ≤ x)
    (hhigh : x ≤ uint64Max.toNat) :
    ∀ e : Expression Int, e.meaning sem .bigint x = some true → admits (rootPruningExtract e) x
  | .comparison type left right, hmeaning => by
    rw [Expression.meaning] at hmeaning
    rw [rootPruningExtract]
    exact admits_rootPruningComparison h hlow hhigh hmeaning
  | .between lowerInclusive upperInclusive input lower upper, hmeaning => by
    rw [Expression.meaning, and3_eq_true] at hmeaning
    rw [rootPruningExtract]
    exact admits_rootPruningBetween h hlow hhigh hmeaning.1 hmeaning.2
  | .conjunctionAnd children, hmeaning => by
    rw [Expression.meaning] at hmeaning
    rw [rootPruningExtract, rootPruningExtracts_eq_map]
    exact admits_combineRanges_and admits_rootPruningIntersect
      ((admits_map_of_meanings (admits_rootPruningExtracts h hlow hhigh children)).1 hmeaning)
  | .conjunctionOr children, hmeaning => by
    rw [Expression.meaning] at hmeaning
    rw [rootPruningExtract, rootPruningExtracts_eq_map]
    exact admits_combineRanges_or
      ((admits_map_of_meanings (admits_rootPruningExtracts h hlow hhigh children)).2 hmeaning)
  | .isIn _ _, _ => admits_unknown
  | .other _, _ => admits_unknown

theorem admits_rootPruningExtracts (h : BinderTypes sem) {x : Int} (hlow : 0 ≤ x)
    (hhigh : x ≤ uint64Max.toNat) :
    ∀ children : List (Expression Int), ∀ child ∈ children,
      child.meaning sem .bigint x = some true → admits (rootPruningExtract child) x
  | [], child, hmem, _ => absurd hmem List.not_mem_nil
  | first :: rest, child, hmem, hmeaning => by
    rcases List.mem_cons.mp hmem with heq | hmem
    · rw [heq] at hmeaning ⊢
      exact admits_rootPruningExtract h hlow hhigh first hmeaning
    · exact admits_rootPruningExtracts h hlow hhigh rest child hmem hmeaning

end

end RootLake.Direct
