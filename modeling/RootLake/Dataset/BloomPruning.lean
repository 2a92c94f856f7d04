/-
  RootLake/Dataset/BloomPruning.lean
  ==================================
  **Bloom pruning.**

  The planner looks for the constants a filter asks the column to equal: those of an
  equality, of an IN list without its NULLs, or of an OR of such terms.  A basket is
  dropped when its Bloom filter excludes every one of them.  A constant that cannot be
  looked up (of another type, or not finite) keeps the basket, and so does a filter of any
  other shape.

  A value that satisfies the filter equals one of the constants
  (`extractEqualityConstants_holds`), so its basket is kept.
-/
import RootLake.Dataset.Zonemap

namespace RootLake.Dataset

open Ieee Sql3 Index

variable {K : Type}

/-- Values that are added to a Bloom filter as doubles. -/
class DoubleTransport (K : Type) [SqlOrdered K] where
  asDouble : K → Double
  sqlKey_congr : ∀ {x y : K}, SqlOrdered.sqlKey x = SqlOrdered.sqlKey y →
    (asDouble x).sqlKey = (asDouble y).sqlKey

instance : DoubleTransport Double where
  asDouble value := value
  sqlKey_congr h := h

instance : DoubleTransport UInt64 where
  asDouble value := Double.ofNat value.toNat
  sqlKey_congr h := by
    rw [Int.ofNat_inj.mp h]

variable [SqlOrdered K] [DoubleTransport K]

/-! ### Constants -/

/-- The constant as a double; it has to be of the type of the column, and finite. -/
def filterConstantAsPhysicalDouble (value : Value K) (physicalType : LogicalTypeId) :
    Option Double :=
  if value.isNull || value.type != physicalType then none
  else
    match value, physicalType with
    | .number _ number, .boolean | .number _ number, .tinyint | .number _ number, .utinyint
    | .number _ number, .smallint | .number _ number, .usmallint | .number _ number, .integer
    | .number _ number, .uinteger | .number _ number, .float | .number _ number, .double =>
        let result := DoubleTransport.asDouble number
        if !result.isFinite then none else some result
    | _, _ => none

theorem filterConstantAsPhysicalDouble_eq {value : Value K} {physicalType : LogicalTypeId}
    {result : Double} (h : filterConstantAsPhysicalDouble value physicalType = some result) :
    ∃ number, value = .number physicalType number ∧ DoubleTransport.asDouble number = result ∧
      result.isFinite = true := by
  unfold filterConstantAsPhysicalDouble at h
  split at h
  next => cases h
  next hsame =>
    simp only [Bool.or_eq_true, not_or, bne_iff_ne, ne_eq, not_not] at hsame
    obtain ⟨-, htype⟩ := hsame
    -- The nine types that have a double share one case.
    split at h
    all_goals first
      | cases h
      | rename_i type number
        dsimp only at h
        split at h
        next => cases h
        next hfinite =>
          cases h
          exact ⟨number, congrArg (Value.number · number) htype, rfl, by simpa using hfinite⟩

/-- A value that equals a finite constant is finite, and has its key. -/
theorem key_eq_of_holds {x number : K}
    (hequal : ExpressionType.compareEqual.holds x number = true)
    (hfinite : (DoubleTransport.asDouble number).isFinite = true) :
    (DoubleTransport.asDouble x).isFinite = true ∧
      (DoubleTransport.asDouble number).key = (DoubleTransport.asDouble x).key := by
  have hkeys := DoubleTransport.sqlKey_congr (of_decide_eq_true hequal)
  rw [Double.sqlKey_of_not_nan (Double.isFinite.not_nan hfinite)] at hkeys
  have hbounds := Double.key_bounds_finite hfinite
  rcases Double.classify (DoubleTransport.asDouble x) with hx | hinf | hnan
  · rw [Double.sqlKey_of_not_nan (Double.isFinite.not_nan hx)] at hkeys
    exact ⟨hx, hkeys.symm⟩
  · rw [Double.sqlKey_of_not_nan (Double.isInf.not_nan hinf)] at hkeys
    rcases Double.key_of_isInf hinf with hkey | hkey <;> omega
  · rw [Double.sqlKey_of_nan hnan] at hkeys
    omega

/-! ### Extraction -/

section

variable (sem : SqlSemantics K)

mutual

/-- The constants of a condition that asks for equality with one of them. -/
def extractEqualityConstants : Expression K → Option (List (Value K))
  | .comparison type left right =>
      match columnComparison sem (.comparison type left right) with
      | some (.compareEqual, constant) => some [constant]
      | _ => none
  | .isIn input constants => inConstants sem (.isIn input constants)
  | .conjunctionOr children =>
      if children.isEmpty then none else extractAllEqualityConstants children
  | .between _ _ _ _ _ | .conjunctionAnd _ | .other _ => none

/-- The loop over the children of an OR. -/
def extractAllEqualityConstants : List (Expression K) → Option (List (Value K))
  | [] => some []
  | child :: rest =>
      match extractEqualityConstants child with
      | none => none
      | some values => (extractAllEqualityConstants rest).map fun more => values ++ more

end

def bloomMayContainConstant (bytes : List UInt8) (physicalType : LogicalTypeId)
    (constant : Value K) : Bool :=
  match filterConstantAsPhysicalDouble constant physicalType with
  | none => true
  | some value => mayContain bytes value

/-- `BloomMayContainFilter`. -/
def bloomMayContainFilter (filter : TableFilter K) (bytes : List UInt8)
    (physicalType : LogicalTypeId) : Bool :=
  if bytes.isEmpty then true
  else
    match rootFilterMetadataExpression filter with
    | none => true
    | some e =>
        match extractEqualityConstants sem e with
        | none => true
        | some constants => constants.any (bloomMayContainConstant bytes physicalType)

/-! ### Satisfied filters -/

/-- The constant is what the value equals, where it is a number of the column's type. -/
def EqualsConstant (type : LogicalTypeId) (x : K) (constant : Value K) : Prop :=
  ∀ number, constant = .number type number →
    ExpressionType.compareEqual.holds x number = true

omit [DoubleTransport K] in
theorem inConstants_holds {type : LogicalTypeId} {x : K} {input : Operand K}
    {constants : List (Operand K)} {values : List (Value K)}
    (h : inConstants sem (.isIn input constants) = some values)
    (hmeaning : (Expression.isIn input constants).meaning sem type x = some true) :
    ∃ constant ∈ values, EqualsConstant type x constant := by
  simp only [inConstants] at h
  split at h
  next => cases h
  next hinput =>
    simp only [Bool.or_eq_true, Bool.not_eq_true', not_or, Bool.not_eq_false] at hinput
    obtain ⟨all, hall, rfl⟩ := Option.map_eq_some_iff.mp h
    simp only [Expression.meaning, any3_eq_true, List.mem_map] at hmeaning
    obtain ⟨_, ⟨operand, hoperand, rfl⟩, hequal⟩ := hmeaning
    obtain ⟨value, hmem, hvalue⟩ := (mem_of_mapM_eq_some hall).1 operand hoperand
    rw [eq_column_of_rootIsColumnReference hinput.2,
      constantExpressionValue_value sem hvalue] at hequal
    -- A NULL in the list is never equal.
    have hnotNull : value.isNull = false := by
      cases value with
      | null type => cases hequal
      | number type number => rfl
      | other type text => rfl
    refine ⟨value, List.mem_filter.mpr ⟨hmem, by rw [hnotNull]; rfl⟩, ?_⟩
    rintro number rfl
    simpa only [Operand.value, compareValues, if_true, Option.some.injEq] using hequal

omit [DoubleTransport K] in
mutual

/-- **Extraction is complete**: a value that satisfies the condition equals one of the
    constants. -/
theorem extractEqualityConstants_holds {type : LogicalTypeId} {x : K} :
    ∀ (e : Expression K) (constants : List (Value K)),
      extractEqualityConstants sem e = some constants → e.meaning sem type x = some true →
        ∃ constant ∈ constants, EqualsConstant type x constant
  | .comparison comparisonType left right, constants, h, hmeaning => by
    rw [extractEqualityConstants] at h
    split at h
    next constant hcolumn =>
      cases h
      refine ⟨constant, List.mem_cons_self, ?_⟩
      intro number hnumber
      rw [columnComparison_meaning sem hcolumn hnumber x] at hmeaning
      exact Option.some.inj hmeaning
    next => cases h
  | .isIn input constants, values, h, hmeaning => by
    rw [extractEqualityConstants] at h
    exact inConstants_holds sem h hmeaning
  | .conjunctionOr children, constants, h, hmeaning => by
    rw [extractEqualityConstants] at h
    split at h
    next => cases h
    next =>
      rw [Expression.meaning, any3_eq_true] at hmeaning
      exact extractAllEqualityConstants_holds children constants h hmeaning
  | .between _ _ _ _ _, _, h, _ => by
    rw [extractEqualityConstants] at h
    cases h
  | .conjunctionAnd _, _, h, _ => by
    rw [extractEqualityConstants] at h
    cases h
  | .other _, _, h, _ => by
    rw [extractEqualityConstants] at h
    cases h

theorem extractAllEqualityConstants_holds {type : LogicalTypeId} {x : K} :
    ∀ (children : List (Expression K)) (constants : List (Value K)),
      extractAllEqualityConstants sem children = some constants →
      (∃ truth ∈ Expression.meanings sem type x children, truth = some true) →
        ∃ constant ∈ constants, EqualsConstant type x constant
  | [], _, _, hmeaning => by
    obtain ⟨_, hmem, -⟩ := hmeaning
    exact absurd hmem List.not_mem_nil
  | child :: rest, constants, h, hmeaning => by
    rw [extractAllEqualityConstants] at h
    split at h
    next => cases h
    next values hvalues =>
      obtain ⟨more, hmore, rfl⟩ := Option.map_eq_some_iff.mp h
      rw [Expression.meanings, List.exists_mem_cons_iff] at hmeaning
      rcases hmeaning with hchild | hrest
      · obtain ⟨constant, hmem, hequals⟩ := extractEqualityConstants_holds child values hvalues hchild
        exact ⟨constant, List.mem_append_left _ hmem, hequals⟩
      · obtain ⟨constant, hmem, hequals⟩ := extractAllEqualityConstants_holds rest more hmore hrest
        exact ⟨constant, List.mem_append_right _ hmem, hequals⟩

end

/-- Bytes that exclude no constant with the key of a finite value keep every value that
    satisfies the filter. -/
theorem bloomMayContainFilter_of_contains {filter : TableFilter K} {bytes : List UInt8}
    {type : LogicalTypeId} {x : K}
    (hbytes : (DoubleTransport.asDouble x).isFinite = true → ∀ constant : Double,
      constant.isNaN = false → constant.key = (DoubleTransport.asDouble x).key →
        mayContain bytes constant = true)
    (hmeaning : filter.meaning sem type x = some true) :
    bloomMayContainFilter sem filter bytes type = true := by
  unfold bloomMayContainFilter
  split
  next => rfl
  next =>
    split
    next => rfl
    next e he =>
      rw [rootFilterMetadataExpression_meaning sem he] at hmeaning
      split
      next => rfl
      next constants hconstants =>
        obtain ⟨constant, hmem, hequals⟩ :=
          extractEqualityConstants_holds sem e constants hconstants hmeaning
        refine List.any_eq_true.mpr ⟨constant, hmem, ?_⟩
        unfold bloomMayContainConstant
        split
        next => rfl
        next value hvalue =>
          obtain ⟨number, hnumber, rfl, hfinite⟩ := filterConstantAsPhysicalDouble_eq hvalue
          obtain ⟨hx, hkey⟩ := key_eq_of_holds (hequals number hnumber) hfinite
          exact hbytes hx _ (Double.isFinite.not_nan hfinite) hkey

/-- **Bloom pruning is conservative**: over the finite values of a basket, the Bloom filter
    keeps every filter that one of its values satisfies, be that finite or not. -/
theorem bloomMayContainFilter_of_satisfied (filter : TableFilter K) (type : LogicalTypeId)
    (maxPayloadBytes : UInt32) (sizing : BloomSizing) (values : List K) {x : K} (hx : x ∈ values)
    (hmeaning : filter.meaning sem type x = some true) :
    bloomMayContainFilter sem filter
      ((finiteValues (values.map DoubleTransport.asDouble)).foldl RootBloomBuilder.add
        (freshBloom maxPayloadBytes sizing)).serialize type = true := by
  refine bloomMayContainFilter_of_contains sem ?_ hmeaning
  intro hfinite constant hconstant hkey
  have hmem := mem_finiteValues.mpr ⟨List.mem_map_of_mem hx, hfinite⟩
  exact serialize_foldl_add_mayContain maxPayloadBytes sizing hmem hfinite hconstant hkey

end

/-- `value IN (NULL, 7) OR 0 = value`, on a basket with a negative zero and a NaN. -/
def zeroOrSeven : TableFilter Double :=
  .expression (.conjunctionOr
    [.isIn .column [.constant (.null .double), .constant (.number .double (Double.ofInt 7))],
      .comparison .compareEqual (.constant (.number .double Double.zero)) .column])

theorem zeroOrSeven_keeps_negative_zero :
    bloomMayContainFilter (withoutCasts Double) zeroOrSeven
      ((finiteValues ([Double.quietNaN, ⟨0x8000000000000000⟩, Double.ofInt 3].map
        DoubleTransport.asDouble)).foldl RootBloomBuilder.add
          (freshBloom 8 ⟨fun _ => 40, fun _ _ => 5, 3⟩)).serialize .double = true :=
  bloomMayContainFilter_of_satisfied (withoutCasts Double) zeroOrSeven .double 8
    ⟨fun _ => 40, fun _ _ => 5, 3⟩ _ (x := ⟨0x8000000000000000⟩)
    (List.mem_cons_of_mem _ List.mem_cons_self) (by decide)

end RootLake.Dataset
