/-
  RootLake/Dataset/PredicatePruning.lean
  ======================================
  **Path-predicate pruning against the exact evaluator.**

  A basket of a predicate's path is read only when its row may match the predicate: its
  minimum and maximum, its counts of NaNs and infinities, and its Bloom filter.  The exact
  evaluator compares the values of an entry one by one.

  Both compare doubles in the end, also for the integer types up to 32 bits
  (`comparePathPredicateValues_doubles`).  They differ on NaN: it compares equal to every
  constant in the evaluator, and is in neither extreme and in no Bloom filter of the row.
-/
import RootLake.Dataset.PathPredicates
import RootLake.Index.BasketStatistics

namespace RootLake.Dataset

open Ieee Index

/-! ### The predicate on a row -/

/-- The extremes of a row, when both columns are set. -/
def finiteRange (stats : ValueStatistics) : Option (Double × Double) :=
  match stats.minValue, stats.maxValue with
  | some minValue, some maxValue => some (minValue, maxValue)
  | _, _ => none

/-- A test of the extremes; a row without them fails it. -/
def onFiniteRange (stats : ValueStatistics) (test : Double → Double → Bool) : Bool :=
  match finiteRange stats with
  | none => false
  | some (minNumber, maxNumber) => test minNumber maxNumber

def equalityPossible (stats : ValueStatistics) (bloom : Option (List UInt8)) (value : Double) :
    Bool :=
  let inside := onFiniteRange stats fun minNumber maxNumber =>
    value.isFinite && !value.lt minNumber && !maxNumber.lt value
  if !inside then false
  else
    match bloom with
    | none => true
    | some bytes => mayContain bytes value

/-- `PredicateMetadataMayMatch`. -/
def predicateMetadataMayMatch (predicate : PathPredicateBinding) (stats : ValueStatistics)
    (bloom : Option (List UInt8)) : Bool :=
  if !usesDoubleBackedValueMetadata predicate.valueType then true
  else
    let constant (index : Nat) := (predicate.values.getD index default).asDouble
    let finite := onFiniteRange stats
    match predicate.op with
    | .eq => equalityPossible stats bloom (constant 0)
    | .ne =>
        decide (0 < stats.nanCount) || decide (0 < stats.posInfCount) ||
          decide (0 < stats.negInfCount) ||
          !finite fun minNumber maxNumber => minNumber.eq (constant 0) && maxNumber.eq (constant 0)
    | .lt => decide (0 < stats.negInfCount) || finite fun minNumber _ => minNumber.lt (constant 0)
    | .le => decide (0 < stats.negInfCount) || finite fun minNumber _ => minNumber.le (constant 0)
    | .gt => decide (0 < stats.posInfCount) || finite fun _ maxNumber => (constant 0).lt maxNumber
    | .ge => decide (0 < stats.posInfCount) || finite fun _ maxNumber => (constant 0).le maxNumber
    | .between =>
        finite fun minNumber maxNumber =>
          (constant 0).le maxNumber && minNumber.le (constant 1)
    | .isIn => predicate.values.any fun value => equalityPossible stats bloom value.asDouble

/-! ### Values and constants as doubles -/

/-- What the decoder delivers for a column type.  An object that is missing reads as a floating
    zero whatever the type. -/
def decodedAs (type : LogicalTypeId) (value : RootPrimitiveValue) : Prop :=
  match type, value with
  | .float, .floating _ | .double, .floating _ => True
  | .bigint, .signed _ | .ubigint, .unsigned _ => True
  | .boolean, .unsigned n | .utinyint, .unsigned n | .usmallint, .unsigned n
  | .uinteger, .unsigned n => n.toNat < 2 ^ 32
  | .tinyint, .signed n | .smallint, .signed n | .integer, .signed n => n.toInt.natAbs ≤ 2 ^ 31
  | _, .floating x => x = Double.zero
  | _, _ => False

/-- The constants of a column type. -/
def constantOf (type : LogicalTypeId) (constant : RootPrimitiveValue) : Prop :=
  ∃ json, pathPredicateJsonValue json type = .ok constant

theorem threeWay_congr {α β : Type} {lt : α → α → Bool} {lt' : β → β → Bool} {a b : α} {a' b' : β}
    (h : lt a b = lt' a' b') (h' : lt b a = lt' b' a') : threeWay lt a b = threeWay lt' a' b' := by
  unfold threeWay
  rw [h, h']

/-- Integers of which one is small compare as their doubles do. -/
theorem lt_ofInt {i j : Int} (hi : i.natAbs ≤ 2 ^ 64) (hj : j.natAbs ≤ 2 ^ 64)
    (hsmall : i.natAbs < 2 ^ 53 ∨ j.natAbs < 2 ^ 53) :
    (Double.ofInt i).lt (Double.ofInt j) = decide (i < j) := by
  have hfi := Double.isFinite.not_nan (Double.ofInt_isFinite hi)
  have hfj := Double.isFinite.not_nan (Double.ofInt_isFinite hj)
  rw [Bool.eq_iff_iff, Double.lt_iff hfi hfj, decide_eq_true_eq]
  constructor
  · intro hkey
    by_contra hle
    have hmono := Double.ofInt_key_mono hj hi (by omega)
    omega
  · exact Double.ofInt_key_strict hi hj hsmall

theorem threeWay_ofInt {i j : Int} (hi : i.natAbs < 2 ^ 53) (hj : j.natAbs ≤ 2 ^ 64) :
    threeWay Double.lt (Double.ofInt i) (Double.ofInt j) =
      threeWay (fun x y => decide (x < y)) i j :=
  threeWay_congr (lt_ofInt (by omega) hj (Or.inl hi)) (lt_ofInt hj (by omega) (Or.inr hi))

theorem ofInt_zero : Double.ofInt 0 = Double.zero := by decide

theorem natAbs_toInt_le (n : Int64) : n.toInt.natAbs ≤ 2 ^ 63 := by
  have hlow := Int64.le_toInt n
  have hhigh := Int64.toInt_lt n
  omega

/-! Constants are of the kind the type is compared in, and finite. -/

theorem constantOf_signed {type : LogicalTypeId} (htype : type = .tinyint ∨ type = .smallint ∨ type = .integer)
    {constant : RootPrimitiveValue} (h : constantOf type constant) : ∃ n, constant = .signed n := by
  obtain ⟨json, hjson⟩ := h
  rcases htype with rfl | rfl | rfl <;>
  · cases json with
    | numberUnsigned n =>
      simp only [pathPredicateJsonValue] at hjson
      split at hjson
      next => cases hjson
      next =>
        cases hjson
        exact ⟨_, rfl⟩
    | numberInteger n =>
      cases hjson
      exact ⟨_, rfl⟩
    | boolean b => cases hjson
    | numberFloat d hd => cases hjson
    | other => cases hjson

theorem constantOf_unsigned {type : LogicalTypeId}
    (htype : type = .boolean ∨ type = .utinyint ∨ type = .usmallint ∨ type = .uinteger)
    {constant : RootPrimitiveValue} (h : constantOf type constant) :
    ∃ n, constant = .unsigned n := by
  obtain ⟨json, hjson⟩ := h
  rcases htype with rfl | rfl | rfl | rfl <;>
  · cases json with
    | numberUnsigned n =>
      simp only [pathPredicateJsonValue] at hjson
      try split at hjson
      all_goals first
        | cases hjson; exact ⟨_, rfl⟩
        | cases hjson
    | numberInteger n =>
      simp only [pathPredicateJsonValue] at hjson
      split at hjson
      all_goals first
        | cases hjson; exact ⟨_, rfl⟩
        | cases hjson
    | boolean b =>
      first
        | cases hjson; exact ⟨_, rfl⟩
        | cases hjson
    | numberFloat d hd => cases hjson
    | other => cases hjson

theorem constantOf_floating {type : LogicalTypeId} (htype : type = .float ∨ type = .double)
    {constant : RootPrimitiveValue} (h : constantOf type constant) :
    ∃ d, constant = .floating d ∧ d.isFinite = true := by
  obtain ⟨json, hjson⟩ := h
  rcases htype with rfl | rfl <;>
  · cases json with
    | numberUnsigned n =>
      cases hjson
      have hlt := n.toNat_lt
      exact ⟨_, rfl, Double.ofInt_isFinite (by omega)⟩
    | numberInteger n =>
      cases hjson
      have hle := natAbs_toInt_le n
      exact ⟨_, rfl, Double.ofInt_isFinite (by omega)⟩
    | numberFloat d hd =>
      cases hjson
      exact ⟨d, rfl, hd⟩
    | boolean b => cases hjson
    | other => cases hjson

/-- A value of a signed type is an integer of at most 32 bits. -/
theorem decodedAs_signed {type : LogicalTypeId}
    (htype : type = .tinyint ∨ type = .smallint ∨ type = .integer) {value : RootPrimitiveValue}
    (h : decodedAs type value) :
    ∃ n : Int64, value.asSigned = .ok n ∧ value.asDouble = Double.ofInt n.toInt ∧
      n.toInt.natAbs < 2 ^ 53 := by
  rcases htype with rfl | rfl | rfl <;>
  · cases value with
    | signed n =>
      have hsmall : n.toInt.natAbs ≤ 2 ^ 31 := h
      exact ⟨n, rfl, rfl, by omega⟩
    | unsigned n => exact h.elim
    | floating x =>
      have hzero : x = Double.zero := h
      rw [hzero]
      exact ⟨0, by decide, ofInt_zero.symm, by decide⟩

theorem decodedAs_unsigned {type : LogicalTypeId}
    (htype : type = .boolean ∨ type = .utinyint ∨ type = .usmallint ∨ type = .uinteger)
    {value : RootPrimitiveValue} (h : decodedAs type value) :
    ∃ n : UInt64, value.asUnsigned = .ok n ∧ value.asDouble = Double.ofInt n.toNat ∧
      (n.toNat : Int).natAbs < 2 ^ 53 := by
  rcases htype with rfl | rfl | rfl | rfl <;>
  · cases value with
    | unsigned n =>
      have hsmall : n.toNat < 2 ^ 32 := h
      exact ⟨n, rfl, rfl, by omega⟩
    | signed n => exact h.elim
    | floating x =>
      have hzero : x = Double.zero := h
      rw [hzero]
      exact ⟨0, by decide, ofInt_zero.symm, by decide⟩

theorem decodedAs_floating {type : LogicalTypeId} (htype : type = .float ∨ type = .double)
    {value : RootPrimitiveValue} (h : decodedAs type value) : ∃ d, value = .floating d := by
  rcases htype with rfl | rfl <;>
  · cases value with
    | floating d => exact ⟨d, rfl⟩
    | signed n => exact h.elim
    | unsigned n => exact h.elim

/-- The types whose statistics are kept as doubles, by the kind they are compared in. -/
theorem doubleBacked_kinds {type : LogicalTypeId}
    (h : usesDoubleBackedValueMetadata type = true) :
    (type = .tinyint ∨ type = .smallint ∨ type = .integer) ∨
      (type = .boolean ∨ type = .utinyint ∨ type = .usmallint ∨ type = .uinteger) ∨
        (type = .float ∨ type = .double) := by
  cases type <;> simp_all [usesDoubleBackedValueMetadata]

/-- **The typed comparison is the comparison of the doubles**, and a constant is finite. -/
theorem comparePathPredicateValues_doubles {type : LogicalTypeId}
    (htype : usesDoubleBackedValueMetadata type = true) {value constant : RootPrimitiveValue}
    (hvalue : decodedAs type value) (hconstant : constantOf type constant) :
    comparePathPredicateValues value constant type =
      .ok (threeWay Double.lt value.asDouble constant.asDouble) ∧
      constant.asDouble.isFinite = true := by
  rcases doubleBacked_kinds htype with hkind | hkind | hkind
  · obtain ⟨n, hsigned, hdouble, hsmall⟩ := decodedAs_signed hkind hvalue
    obtain ⟨m, rfl⟩ := constantOf_signed hkind hconstant
    have hbound := natAbs_toInt_le m
    refine ⟨?_, Double.ofInt_isFinite (by omega)⟩
    have hcompare : comparePathPredicateValues value (.signed m) type =
        .ok (threeWay (fun x y => decide (x < y)) n m) := by
      rcases hkind with rfl | rfl | rfl <;>
      · simp only [comparePathPredicateValues, hsigned]
        rfl
    rw [hcompare, hdouble]
    refine congrArg Except.ok ?_
    refine Eq.trans ?_ (threeWay_ofInt hsmall (by omega : m.toInt.natAbs ≤ 2 ^ 64)).symm
    exact threeWay_congr (decide_eq_decide.mpr Int64.lt_iff_toInt_lt)
      (decide_eq_decide.mpr Int64.lt_iff_toInt_lt)
  · obtain ⟨n, hunsigned, hdouble, hsmall⟩ := decodedAs_unsigned hkind hvalue
    obtain ⟨m, rfl⟩ := constantOf_unsigned hkind hconstant
    have hbound := m.toNat_lt
    refine ⟨?_, Double.ofInt_isFinite (by omega)⟩
    have hcompare : comparePathPredicateValues value (.unsigned m) type =
        .ok (threeWay (fun x y => decide (x < y)) n m) := by
      rcases hkind with rfl | rfl | rfl | rfl <;>
      · simp only [comparePathPredicateValues, hunsigned]
        rfl
    rw [hcompare, hdouble]
    refine congrArg Except.ok ?_
    refine Eq.trans ?_ (threeWay_ofInt hsmall (by omega : (m.toNat : Int).natAbs ≤ 2 ^ 64)).symm
    exact threeWay_congr (decide_eq_decide.mpr (UInt64.lt_iff_toNat_lt.trans Int.ofNat_lt.symm))
      (decide_eq_decide.mpr (UInt64.lt_iff_toNat_lt.trans Int.ofNat_lt.symm))
  · obtain ⟨d, rfl⟩ := decodedAs_floating hkind hvalue
    obtain ⟨c, rfl, hfinite⟩ := constantOf_floating hkind hconstant
    refine ⟨?_, hfinite⟩
    rcases hkind with rfl | rfl <;> rfl

/-! ### What the parser promises -/

/-- The constants of a parsed predicate: there is one, BETWEEN has two, and each is of the type of
    the path. -/
structure ConstantsFit (predicate : PathPredicateBinding) : Prop where
  accepted : ∀ constant ∈ predicate.values, constantOf predicate.valueType constant
  nonempty : 0 < predicate.values.length
  bounds : predicate.op = .between → 1 < predicate.values.length

theorem mapM_pathPredicateJsonValue {type : LogicalTypeId} (values : List JsonValue) :
    ∀ {constants : List RootPrimitiveValue},
      values.mapM (pathPredicateJsonValue · type) = .ok constants →
        ∀ constant ∈ constants, constantOf type constant := by
  induction values with
  | nil =>
    intro constants h
    cases h
    exact fun constant hmem => absurd hmem List.not_mem_nil
  | cons value values ih =>
    intro constants h
    rw [List.mapM_cons] at h
    cases hvalue : pathPredicateJsonValue value type with
    | error e =>
      rw [hvalue] at h
      cases h
    | ok first =>
      rw [hvalue] at h
      cases hrest : values.mapM (pathPredicateJsonValue · type) with
      | error e =>
        rw [hrest] at h
        cases h
      | ok rest =>
        rw [hrest] at h
        cases h
        exact List.forall_mem_cons.mpr ⟨⟨value, hvalue⟩, ih hrest⟩

/-- The two bounds of BETWEEN, in order. -/
theorem orderedBounds_fit {type : LogicalTypeId} {lower upper : JsonValue}
    {constants : List RootPrimitiveValue}
    (h : (do
      let first ← pathPredicateJsonValue lower type
      let second ← pathPredicateJsonValue upper type
      let order ← comparePathPredicateValues first second type
      return if order > 0 then [second, first] else [first, second]) = Except.ok constants) :
    (∀ constant ∈ constants, constantOf type constant) ∧ 1 < constants.length := by
  simp only [bind, Except.bind] at h
  split at h
  next => cases h
  next first hfirst =>
    split at h
    next => cases h
    next second hsecond =>
      split at h
      next => cases h
      next order _ =>
        have hlower : constantOf type first := ⟨lower, hfirst⟩
        have hupper : constantOf type second := ⟨upper, hsecond⟩
        cases h
        split
        next => simp [hlower, hupper]
        next => simp [hlower, hupper]

theorem parsePathPredicateValues_fit {item : PathPredicateItem} {op : PathPredicateOp}
    {type : LogicalTypeId} {constants : List RootPrimitiveValue}
    (h : parsePathPredicateValues item op type = .ok constants) :
    (∀ constant ∈ constants, constantOf type constant) ∧
      (op = .between → 1 < constants.length) := by
  unfold parsePathPredicateValues at h
  split at h
  next =>
    split at h
    next values _ => exact ⟨mapM_pathPredicateJsonValue values h, fun heq => by cases heq⟩
    next => cases h
  next =>
    split at h
    next first second _ =>
      obtain ⟨haccepted, hlength⟩ := orderedBounds_fit h
      exact ⟨haccepted, fun _ => hlength⟩
    next lower upper _ _ _ =>
      obtain ⟨haccepted, hlength⟩ := orderedBounds_fit h
      exact ⟨haccepted, fun _ => hlength⟩
    next => cases h
  next hisIn hbetween =>
    split at h
    next value _ =>
      simp only [bind, Except.bind] at h
      split at h
      next => cases h
      next constant hconstant =>
        cases h
        exact ⟨List.forall_mem_singleton.mpr ⟨_, hconstant⟩, fun heq => absurd heq hbetween⟩
    next => cases h

theorem parsePathPredicate_fits {normalizePath : String → String}
    {pathType : String → LogicalTypeId} {item : PathPredicateItem}
    {predicate : PathPredicateBinding}
    (h : parsePathPredicate normalizePath pathType item = .ok predicate) :
    ConstantsFit predicate := by
  unfold parsePathPredicate at h
  split at h
  next rawPath rawOp =>
    simp only [bind, Except.bind] at h
    split at h
    next => cases h
    next op _ =>
      split at h
      next => cases h
      next =>
        split at h
        next => cases h
        next constants hconstants =>
          obtain ⟨haccepted, hbounds⟩ := parsePathPredicateValues_fit hconstants
          split at h
          next => cases h
          next hnonempty =>
            cases h
            exact ⟨haccepted, List.length_pos_iff.mpr (by simpa using hnonempty), hbounds⟩
  next => cases h

/-! ### The evaluator on doubles -/

/-- What the evaluator tests of one value. -/
def matchesDouble (predicate : PathPredicateBinding) (x : Double) : Bool :=
  let compare (index : Nat) := threeWay Double.lt x (predicate.values.getD index default).asDouble
  match predicate.op with
  | .eq => decide (compare 0 = 0)
  | .ne => decide (compare 0 ≠ 0)
  | .lt => decide (compare 0 < 0)
  | .le => decide (compare 0 ≤ 0)
  | .gt => decide (compare 0 > 0)
  | .ge => decide (compare 0 ≥ 0)
  | .between => !decide (compare 0 < 0) && decide (compare 1 ≤ 0)
  | .isIn => predicate.values.any fun constant => decide (threeWay Double.lt x constant.asDouble = 0)

theorem anyM_ok {α : Type} {f : α → Except IOException Bool} {g : α → Bool} (l : List α)
    (h : ∀ a ∈ l, f a = .ok (g a)) : l.anyM f = .ok (l.any g) := by
  induction l with
  | nil => rfl
  | cons a l ih =>
    obtain ⟨ha, hl⟩ := List.forall_mem_cons.mp h
    rw [List.anyM, ha, List.any_cons]
    cases g a with
    | true => rfl
    | false => exact ih hl

theorem allM_ok {α : Type} {f : α → Except IOException Bool} {g : α → Bool} (l : List α)
    (h : ∀ a ∈ l, f a = .ok (g a)) : l.allM f = .ok (l.all g) := by
  induction l with
  | nil => rfl
  | cons a l ih =>
    obtain ⟨ha, hl⟩ := List.forall_mem_cons.mp h
    rw [List.allM, ha, List.all_cons]
    cases g a with
    | false => rfl
    | true => exact ih hl

theorem getD_mem {values : List RootPrimitiveValue} {index : Nat} (h : index < values.length) :
    values.getD index default ∈ values := by
  rw [List.getD_eq_getElem?_getD, List.getElem?_eq_getElem h, Option.getD_some]
  exact List.getElem_mem h

section

variable {predicate : PathPredicateBinding} (hfits : ConstantsFit predicate)
variable (htype : usesDoubleBackedValueMetadata predicate.valueType = true)

include hfits htype

theorem pathPredicateValueMatches_doubles {value : RootPrimitiveValue}
    (hvalue : decodedAs predicate.valueType value) :
    pathPredicateValueMatches predicate value = .ok (matchesDouble predicate value.asDouble) := by
  have hcompare : ∀ index, index < predicate.values.length →
      comparePathPredicateValues value (predicate.values.getD index default) predicate.valueType =
        .ok (threeWay Double.lt value.asDouble (predicate.values.getD index default).asDouble) := by
    intro index hindex
    exact (comparePathPredicateValues_doubles htype hvalue
      (hfits.accepted _ (getD_mem hindex))).1
  have hfirst := hcompare 0 hfits.nonempty
  unfold pathPredicateValueMatches matchesDouble
  cases hop : predicate.op with
  | eq | ne | lt | le | gt | ge =>
    dsimp only
    rw [hfirst]
    rfl
  | between =>
    have hsecond := hcompare 1 (hfits.bounds hop)
    dsimp only
    rw [hfirst, hsecond]
    simp only [bind, Except.bind]
    split
    next hlt =>
      rw [decide_eq_true hlt]
      rfl
    next hge =>
      rw [decide_eq_false hge]
      rfl
  | isIn =>
    refine anyM_ok predicate.values ?_
    intro constant hmem
    rw [(comparePathPredicateValues_doubles htype hvalue (hfits.accepted constant hmem)).1]
    rfl

/-- An entry matches when it has values and one of them, or all of them, do. -/
theorem pathPredicateEventMatches_doubles {values : List RootPrimitiveValue}
    (hvalues : ∀ value ∈ values, decodedAs predicate.valueType value) :
    pathPredicateEventMatches predicate values = .ok true ↔
      values ≠ [] ∧
        if predicate.requireAllValues = true then
          ∀ x ∈ doubles values, matchesDouble predicate x = true
        else ∃ x ∈ doubles values, matchesDouble predicate x = true := by
  have hmatches : ∀ value ∈ values, pathPredicateValueMatches predicate value =
      .ok (matchesDouble predicate value.asDouble) :=
    fun value hmem => pathPredicateValueMatches_doubles hfits htype (hvalues value hmem)
  unfold doubles
  cases values with
  | nil =>
    constructor
    · intro h
      cases h
    · intro h
      exact absurd rfl h.1
  | cons first rest =>
    unfold pathPredicateEventMatches
    dsimp only
    split
    next =>
      rw [allM_ok _ hmatches, Except.ok.injEq, List.all_eq_true]
      simp
    next =>
      rw [anyM_ok _ hmatches, Except.ok.injEq, List.any_eq_true]
      simp

end

/-! ### Comparisons with a finite constant -/

section

variable {x c : Double}

/-- A NaN compares equal to everything. -/
theorem threeWay_nan (hx : x.isNaN = true) (c : Double) : threeWay Double.lt x c = 0 := by
  unfold threeWay Double.lt
  simp [hx]

theorem threeWay_key (hx : x.isNaN = false) (hc : c.isNaN = false) :
    threeWay Double.lt x c = threeWay (fun a b => decide (a < b)) x.key c.key := by
  refine threeWay_congr ?_ ?_
  · rw [Bool.eq_iff_iff, Double.lt_iff hx hc, decide_eq_true_eq]
  · rw [Bool.eq_iff_iff, Double.lt_iff hc hx, decide_eq_true_eq]

theorem threeWay_int (a b : Int) :
    (threeWay (fun x y => decide (x < y)) a b = 0 ↔ a = b) ∧
      (threeWay (fun x y => decide (x < y)) a b < 0 ↔ a < b) ∧
        (0 < threeWay (fun x y => decide (x < y)) a b ↔ b < a) := by
  unfold threeWay
  simp only [decide_eq_true_eq]
  split
  next h => omega
  next h =>
    split
    next h' => omega
    next h' => omega

end

/-! ### Rows and values -/

/-- An infinity lies above zero just when it is the greatest key. -/
theorem key_of_infinity {x : Double} (h : x.isInf = true) :
    (Double.zero.lt x = true → x.key = Double.infMagnitude) ∧
      (Double.zero.lt x = false → x.key = -(Double.infMagnitude : Int)) := by
  have hzero : Double.zero.key = 0 := by decide
  have hlt := Double.lt_iff (by decide : Double.zero.isNaN = false) (Double.isInf.not_nan h)
  have hpos : (0 : Int) < Double.infMagnitude := by decide
  rw [hzero] at hlt
  rcases Double.key_of_isInf h with hkey | hkey
  · refine ⟨fun _ => hkey, fun hfalse => ?_⟩
    rw [hlt.mpr (by omega)] at hfalse
    cases hfalse
  · refine ⟨fun htrue => ?_, fun _ => hkey⟩
    have hpositive := hlt.mp htrue
    omega

section

variable {stats : ValueStatistics} {values : List Double} (hstats : stats.Describes values)

include hstats

/-- A row has its extremes just when there are finite values. -/
theorem finiteRange_cases :
    (finiteRange stats = none ∧ ∀ x ∈ values, x.isFinite = false) ∨
      ∃ lo hi, finiteRange stats = some (lo, hi) ∧ (lo ∈ values ∧ lo.isFinite = true) ∧
        (hi ∈ values ∧ hi.isFinite = true) ∧
          ∀ x ∈ values, x.isFinite = true → lo.key ≤ x.key ∧ x.key ≤ hi.key := by
  unfold finiteRange
  rcases hstats.extremes with ⟨hmin, hmax, hnone⟩ | ⟨lo, hi, hmin, hmax, hextremes⟩
  · rw [hmin, hmax]
    exact Or.inl ⟨rfl, hnone⟩
  · rw [hmin, hmax]
    exact Or.inr ⟨lo, hi, rfl, hextremes⟩

/-- The tests of the minimum say that some value, which is no NaN, passes. -/
theorem low_iff {test : Double → Double → Bool} {P : Int → Prop}
    (htest : ∀ lo hi, lo.isNaN = false → (test lo hi = true ↔ P lo.key))
    (hdown : ∀ {a b : Int}, a ≤ b → P b → P a) (hlow : P (-(Double.infMagnitude : Int)))
    (hhigh : ¬ P Double.infMagnitude) :
    (decide (0 < stats.negInfCount) || onFiniteRange stats test) = true ↔
      ∃ x ∈ values, x.isNaN = false ∧ P x.key := by
  rw [Bool.or_eq_true, decide_eq_true_eq, hstats.negInf]
  unfold onFiniteRange
  constructor
  · rintro (⟨x, hx, hinf, hnegative⟩ | hpass)
    · refine ⟨x, hx, Double.isInf.not_nan hinf, ?_⟩
      rw [(key_of_infinity hinf).2 hnegative]
      exact hlow
    · rcases finiteRange_cases hstats with ⟨hnone, -⟩ | ⟨lo, hi, hrange, ⟨hlo, hfinite⟩, -⟩
      · rw [hnone] at hpass
        cases hpass
      · rw [hrange] at hpass
        have hnan := Double.isFinite.not_nan hfinite
        exact ⟨lo, hlo, hnan, (htest lo hi hnan).mp hpass⟩
  · rintro ⟨x, hx, hnan, hpass⟩
    rcases Double.classify x with hfinite | hinf | hisNan
    · rcases finiteRange_cases hstats with ⟨-, hnone⟩ | ⟨lo, hi, hrange, ⟨-, hlo⟩, -, hbounds⟩
      · rw [hnone x hx] at hfinite
        cases hfinite
      · rw [hrange]
        exact Or.inr ((htest lo hi (Double.isFinite.not_nan hlo)).mpr
          (hdown (hbounds x hx hfinite).1 hpass))
    · refine Or.inl ⟨x, hx, hinf, ?_⟩
      by_contra hpositive
      rw [(key_of_infinity hinf).1 (by simpa using hpositive)] at hpass
      exact hhigh hpass
    · rw [hnan] at hisNan
      cases hisNan

/-- The tests of the maximum, in the same way. -/
theorem high_iff {test : Double → Double → Bool} {P : Int → Prop}
    (htest : ∀ lo hi, hi.isNaN = false → (test lo hi = true ↔ P hi.key))
    (hup : ∀ {a b : Int}, a ≤ b → P a → P b) (hhigh : P Double.infMagnitude)
    (hlow : ¬ P (-(Double.infMagnitude : Int))) :
    (decide (0 < stats.posInfCount) || onFiniteRange stats test) = true ↔
      ∃ x ∈ values, x.isNaN = false ∧ P x.key := by
  rw [Bool.or_eq_true, decide_eq_true_eq, hstats.posInf]
  unfold onFiniteRange
  constructor
  · rintro (⟨x, hx, hinf, hpositive⟩ | hpass)
    · refine ⟨x, hx, Double.isInf.not_nan hinf, ?_⟩
      rw [(key_of_infinity hinf).1 hpositive]
      exact hhigh
    · rcases finiteRange_cases hstats with ⟨hnone, -⟩ | ⟨lo, hi, hrange, -, ⟨hhi, hfinite⟩, -⟩
      · rw [hnone] at hpass
        cases hpass
      · rw [hrange] at hpass
        have hnan := Double.isFinite.not_nan hfinite
        exact ⟨hi, hhi, hnan, (htest lo hi hnan).mp hpass⟩
  · rintro ⟨x, hx, hnan, hpass⟩
    rcases Double.classify x with hfinite | hinf | hisNan
    · rcases finiteRange_cases hstats with ⟨-, hnone⟩ | ⟨lo, hi, hrange, -, ⟨-, hhi⟩, hbounds⟩
      · rw [hnone x hx] at hfinite
        cases hfinite
      · rw [hrange]
        exact Or.inr ((htest lo hi (Double.isFinite.not_nan hhi)).mpr
          (hup (hbounds x hx hfinite).2 hpass))
    · refine Or.inl ⟨x, hx, hinf, ?_⟩
      by_contra hnegative
      rw [(key_of_infinity hinf).2 (by simpa using hnegative)] at hpass
      exact hlow hpass
    · rw [hnan] at hisNan
      cases hisNan

/-- The tests of both extremes say that finite values pass on either side. -/
theorem between_iff {test : Double → Double → Bool} {P Q : Int → Prop}
    (htest : ∀ lo hi, lo.isNaN = false → hi.isNaN = false →
      (test lo hi = true ↔ P lo.key ∧ Q hi.key))
    (hdown : ∀ {a b : Int}, a ≤ b → P b → P a) (hup : ∀ {a b : Int}, a ≤ b → Q a → Q b) :
    onFiniteRange stats test = true ↔
      (∃ x ∈ values, x.isFinite = true ∧ P x.key) ∧ ∃ x ∈ values, x.isFinite = true ∧ Q x.key := by
  unfold onFiniteRange
  rcases finiteRange_cases hstats with ⟨hrange, hnone⟩ |
    ⟨lo, hi, hrange, ⟨hlo, hloFinite⟩, ⟨hhi, hhiFinite⟩, hbounds⟩
  · rw [hrange]
    constructor
    · intro hpass
      cases hpass
    · rintro ⟨⟨x, hx, hfinite, -⟩, -⟩
      rw [hnone x hx] at hfinite
      cases hfinite
  · rw [hrange]
    dsimp only
    rw [htest lo hi (Double.isFinite.not_nan hloFinite) (Double.isFinite.not_nan hhiFinite)]
    constructor
    · rintro ⟨hP, hQ⟩
      exact ⟨⟨lo, hlo, hloFinite, hP⟩, hi, hhi, hhiFinite, hQ⟩
    · rintro ⟨⟨x, hx, hxFinite, hP⟩, y, hy, hyFinite, hQ⟩
      exact ⟨hdown (hbounds x hx hxFinite).1 hP, hup (hbounds y hy hyFinite).2 hQ⟩

end

/-! ### What a row excludes -/

/-- Finite values on both sides of the constant, which the Bloom filter does not exclude. -/
def straddles (values : List Double) (bloom : Option (List UInt8)) (constant : Double) : Prop :=
  ((∃ x ∈ values, x.isFinite = true ∧ x.key ≤ constant.key) ∧
      ∃ x ∈ values, x.isFinite = true ∧ constant.key ≤ x.key) ∧
    ∀ bytes, bloom = some bytes → mayContain bytes constant = true

theorem equalityPossible_iff {stats : ValueStatistics} {values : List Double}
    (hstats : stats.Describes values) (bloom : Option (List UInt8)) {constant : Double}
    (hconstant : constant.isFinite = true) :
    equalityPossible stats bloom constant = true ↔ straddles values bloom constant := by
  have hnan := Double.isFinite.not_nan hconstant
  have hinside := @between_iff stats values hstats
    (fun minNumber maxNumber =>
      constant.isFinite && !constant.lt minNumber && !maxNumber.lt constant)
    (fun key => key ≤ constant.key) (fun key => constant.key ≤ key) (by
      intro lo hi hlo hhi
      simp only [hconstant, Bool.true_and, Bool.and_eq_true, Bool.not_eq_true', ← Bool.not_eq_true,
        Double.lt_iff hnan hlo, Double.lt_iff hhi hnan, Int.not_lt])
    (fun hle h => Int.le_trans hle h) (fun hle h => Int.le_trans h hle)
  unfold equalityPossible straddles
  dsimp only
  rw [← hinside]
  split
  next houtside =>
    constructor
    · intro h
      cases h
    · rintro ⟨hin, -⟩
      rw [hin] at houtside
      cases houtside
  next hin =>
    have hin : onFiniteRange stats (fun minNumber maxNumber =>
        constant.isFinite && !constant.lt minNumber && !maxNumber.lt constant) = true := by
      simpa using hin
    cases bloom with
    | none => simp [hin]
    | some bytes => simp [hin]

/-- The operators that a NaN matches. -/
def matchesNan : PathPredicateOp → Bool
  | .ne | .lt | .gt => false
  | .eq | .le | .ge | .between | .isIn => true

/-- The values that are no NaN reach the constants of such an operator. -/
def numbersReach (predicate : PathPredicateBinding) (values : List Double)
    (bloom : Option (List UInt8)) : Prop :=
  let constant (index : Nat) := (predicate.values.getD index default).asDouble
  match predicate.op with
  | .ne | .lt | .gt => True
  | .eq => straddles values bloom (constant 0)
  | .le => ∃ x ∈ values, x.isNaN = false ∧ x.key ≤ (constant 0).key
  | .ge => ∃ x ∈ values, x.isNaN = false ∧ (constant 0).key ≤ x.key
  | .between =>
      (∃ x ∈ values, x.isFinite = true ∧ x.key ≤ (constant 1).key) ∧
        ∃ x ∈ values, x.isFinite = true ∧ (constant 0).key ≤ x.key
  | .isIn => ∃ c ∈ predicate.values, straddles values bloom c.asDouble

section

variable {predicate : PathPredicateBinding} (hfits : ConstantsFit predicate)
variable (htype : usesDoubleBackedValueMetadata predicate.valueType = true)
variable {stats : ValueStatistics} {values : List Double} (hstats : stats.Describes values)
variable (bloom : Option (List UInt8))

include hfits htype

theorem constant_isFinite {constant : RootPrimitiveValue} (hmem : constant ∈ predicate.values) :
    constant.asDouble.isFinite = true := by
  have hconstant := hfits.accepted constant hmem
  rcases doubleBacked_kinds htype with hkind | hkind | hkind
  · obtain ⟨m, rfl⟩ := constantOf_signed hkind hconstant
    have hbound := natAbs_toInt_le m
    exact Double.ofInt_isFinite (by omega)
  · obtain ⟨m, rfl⟩ := constantOf_unsigned hkind hconstant
    have hbound := m.toNat_lt
    exact Double.ofInt_isFinite (by omega)
  · obtain ⟨c, rfl, hfinite⟩ := constantOf_floating hkind hconstant
    exact hfinite

include hstats

/-- For an operator that a NaN matches, the row passes when the other values reach the
    constants. -/
theorem predicateMetadataMayMatch_iff (hop : matchesNan predicate.op = true) :
    predicateMetadataMayMatch predicate stats bloom = true ↔
      numbersReach predicate values bloom := by
  have hfinite := constant_isFinite hfits htype (getD_mem hfits.nonempty)
  have hnan := Double.isFinite.not_nan hfinite
  obtain ⟨hlow, hhigh⟩ := Double.key_bounds_finite hfinite
  unfold predicateMetadataMayMatch numbersReach
  rw [htype]
  simp only [Bool.not_true, Bool.false_eq_true, if_false]
  cases hcase : predicate.op with
  | ne | lt | gt =>
    rw [hcase] at hop
    cases hop
  | eq => exact equalityPossible_iff hstats bloom hfinite
  | le =>
    refine @low_iff stats values hstats _
      (fun key => key ≤ (predicate.values.getD 0 default).asDouble.key) ?_ ?_ ?_ ?_
    · intro lo _ hlo
      exact Double.le_iff hlo hnan
    · intro a b hle h
      exact Int.le_trans hle h
    · exact Int.le_of_lt hlow
    · exact Int.not_le.mpr hhigh
  | ge =>
    refine @high_iff stats values hstats _
      (fun key => (predicate.values.getD 0 default).asDouble.key ≤ key) ?_ ?_ ?_ ?_
    · intro _ hi hhi
      exact Double.le_iff hnan hhi
    · intro a b hle h
      exact Int.le_trans h hle
    · exact Int.le_of_lt hhigh
    · exact Int.not_le.mpr hlow
  | between =>
    have hsecond := Double.isFinite.not_nan
      (constant_isFinite hfits htype (getD_mem (hfits.bounds hcase)))
    refine @between_iff stats values hstats _
      (fun key => key ≤ (predicate.values.getD 1 default).asDouble.key)
      (fun key => (predicate.values.getD 0 default).asDouble.key ≤ key) ?_ ?_ ?_
    · intro lo hi hlo hhi
      rw [Bool.and_eq_true, Double.le_iff hnan hhi, Double.le_iff hlo hsecond]
      exact and_comm
    · intro a b hle h
      exact Int.le_trans hle h
    · intro a b hle h
      exact Int.le_trans h hle
  | isIn =>
    simp only [List.any_eq_true]
    refine exists_congr fun constant => and_congr_right fun hmem => ?_
    exact equalityPossible_iff hstats bloom (constant_isFinite hfits htype hmem)

/-- **A value that is no NaN is never lost**: the row of a basket with a value that matches
    passes. -/
theorem predicateMetadataMayMatch_of_matchesDouble {x : Double} (hx : x ∈ values)
    (hnumber : x.isNaN = false)
    (hbloom : ∀ bytes, bloom = some bytes → ∀ y ∈ values, y.isFinite = true →
      ∀ constant : Double, constant.isNaN = false → constant.key = y.key →
        mayContain bytes constant = true)
    (hmatches : matchesDouble predicate x = true) :
    predicateMetadataMayMatch predicate stats bloom = true := by
  have hfinite := constant_isFinite hfits htype (getD_mem hfits.nonempty)
  have hnan := Double.isFinite.not_nan hfinite
  obtain ⟨hlow, hhigh⟩ := Double.key_bounds_finite hfinite
  have hint := threeWay_int x.key (predicate.values.getD 0 default).asDouble.key
  rw [← threeWay_key hnumber hnan] at hint
  obtain ⟨hequal, hless, hgreater⟩ := hint
  -- A value between or at finite constants is finite.
  have hstraddles : ∀ c : Double, c.isFinite = true → x.key = c.key →
      straddles values bloom c := by
    intro c hc hkey
    have hbounds := Double.key_bounds_finite hc
    have hxFinite : x.isFinite = true := by
      rcases Double.classify x with h | h | h
      · exact h
      · rcases Double.key_of_isInf h with hinf | hinf <;> omega
      · rw [hnumber] at h
        cases h
    exact ⟨⟨⟨x, hx, hxFinite, by omega⟩, x, hx, hxFinite, by omega⟩,
      fun bytes hbytes => hbloom bytes hbytes x hx hxFinite c (Double.isFinite.not_nan hc) hkey.symm⟩
  by_cases hop : matchesNan predicate.op = true
  · rw [predicateMetadataMayMatch_iff hfits htype hstats bloom hop]
    unfold matchesDouble at hmatches
    unfold numbersReach
    cases hcase : predicate.op with
    | ne | lt | gt => trivial
    | eq =>
      rw [hcase] at hmatches
      exact hstraddles _ hfinite (hequal.mp (of_decide_eq_true hmatches))
    | le =>
      rw [hcase] at hmatches
      have hle : threeWay Double.lt x (predicate.values.getD 0 default).asDouble ≤ 0 :=
        of_decide_eq_true hmatches
      have hkey : x.key ≤ (predicate.values.getD 0 default).asDouble.key := by omega
      exact ⟨x, hx, hnumber, hkey⟩
    | ge =>
      rw [hcase] at hmatches
      have hge : 0 ≤ threeWay Double.lt x (predicate.values.getD 0 default).asDouble :=
        of_decide_eq_true hmatches
      have hkey : (predicate.values.getD 0 default).asDouble.key ≤ x.key := by omega
      exact ⟨x, hx, hnumber, hkey⟩
    | between =>
      rw [hcase] at hmatches
      dsimp only at hmatches ⊢
      have hsecondFinite := constant_isFinite hfits htype (getD_mem (hfits.bounds hcase))
      have hsecond := threeWay_int x.key (predicate.values.getD 1 default).asDouble.key
      rw [← threeWay_key hnumber (Double.isFinite.not_nan hsecondFinite)] at hsecond
      have hbounds := Double.key_bounds_finite hsecondFinite
      simp only [Bool.and_eq_true, Bool.not_eq_true', decide_eq_false_iff_not,
        decide_eq_true_eq] at hmatches
      have hxFinite : x.isFinite = true := by
        rcases Double.classify x with h | h | h
        · exact h
        · rcases Double.key_of_isInf h with hinf | hinf <;> omega
        · rw [hnumber] at h
          cases h
      exact ⟨⟨x, hx, hxFinite, by omega⟩, x, hx, hxFinite, by omega⟩
    | isIn =>
      rw [hcase] at hmatches
      obtain ⟨c, hmem, hc⟩ := List.any_eq_true.mp hmatches
      have hcFinite := constant_isFinite hfits htype hmem
      have hcInt := threeWay_int x.key c.asDouble.key
      rw [← threeWay_key hnumber (Double.isFinite.not_nan hcFinite)] at hcInt
      exact ⟨c, hmem, hstraddles _ hcFinite (hcInt.1.mp (of_decide_eq_true hc))⟩
  · unfold predicateMetadataMayMatch
    unfold matchesDouble at hmatches
    rw [htype]
    simp only [Bool.not_true, Bool.false_eq_true, if_false]
    cases hcase : predicate.op with
    | eq | le | ge | between | isIn =>
      rw [hcase] at hop
      exact absurd rfl hop
    | lt =>
      rw [hcase] at hmatches
      refine (@low_iff stats values hstats _
        (fun key => key < (predicate.values.getD 0 default).asDouble.key) ?_ ?_ ?_ ?_).mpr
          ⟨x, hx, hnumber, hless.mp (of_decide_eq_true hmatches)⟩
      · intro lo _ hlo
        exact Double.lt_iff hlo hnan
      · intro a b hle h
        exact Int.lt_of_le_of_lt hle h
      · exact hlow
      · exact Int.not_lt.mpr (Int.le_of_lt hhigh)
    | gt =>
      rw [hcase] at hmatches
      refine (@high_iff stats values hstats _
        (fun key => (predicate.values.getD 0 default).asDouble.key < key) ?_ ?_ ?_ ?_).mpr
          ⟨x, hx, hnumber, hgreater.mp (of_decide_eq_true hmatches)⟩
      · intro _ hi hhi
        exact Double.lt_iff hnan hhi
      · intro a b hle h
        exact Int.lt_of_lt_of_le h hle
      · exact hhigh
      · exact Int.not_lt.mpr (Int.le_of_lt hlow)
    | ne =>
      rw [hcase] at hmatches
      have hne : x.key ≠ (predicate.values.getD 0 default).asDouble.key :=
        fun heq => of_decide_eq_true hmatches (hequal.mpr heq)
      rw [Bool.or_eq_true, Bool.or_eq_true, Bool.or_eq_true, decide_eq_true_eq, decide_eq_true_eq,
        decide_eq_true_eq, hstats.posInf, hstats.negInf, Bool.not_eq_true', ← Bool.not_eq_true]
      rcases Double.classify x with hxFinite | hinf | hisNan
      · right
        intro hboth
        unfold onFiniteRange at hboth
        rcases finiteRange_cases hstats with ⟨-, hnone⟩ |
          ⟨lo, hi, hrange, ⟨-, hlo⟩, ⟨-, hhi⟩, hbounds⟩
        · rw [hnone x hx] at hxFinite
          cases hxFinite
        · rw [hrange] at hboth
          dsimp only at hboth
          rw [Bool.and_eq_true, Double.eq_iff (Double.isFinite.not_nan hlo) hnan,
            Double.eq_iff (Double.isFinite.not_nan hhi) hnan] at hboth
          have hinside := hbounds x hx hxFinite
          omega
      · left
        cases hsign : Double.zero.lt x with
        | true => exact Or.inl (Or.inr ⟨x, hx, hinf, hsign⟩)
        | false => exact Or.inr ⟨x, hx, hinf, hsign⟩
      · rw [hnumber] at hisNan
        cases hisNan

omit htype hstats in
/-- A value the evaluator accepts is a NaN only under an operator that a NaN matches. -/
theorem matchesDouble_nan {x : Double} (hx : x.isNaN = true) :
    matchesDouble predicate x = matchesNan predicate.op := by
  have hcompare : ∀ c, threeWay Double.lt x c = 0 := threeWay_nan hx
  unfold matchesDouble
  simp only [hcompare]
  cases predicate.op with
  | eq | ne | lt | le | gt | ge | between => rfl
  | isIn =>
    cases hvalues : predicate.values with
    | nil =>
      have hpos := hfits.nonempty
      rw [hvalues] at hpos
      cases hpos
    | cons constant rest => rfl

end

/-! ### Baskets of entries -/

/-- An entry that NaNs alone can make match: it has one, or under ALL has nothing else. -/
def nanDecides (predicate : PathPredicateBinding) (entry : List RootPrimitiveValue) : Prop :=
  if predicate.requireAllValues = true then
    entry ≠ [] ∧ ∀ x ∈ doubles entry, x.isNaN = true
  else ∃ x ∈ doubles entry, x.isNaN = true

/-- An entry that matches does so through a number, or NaNs decide it. -/
theorem pathPredicateEventMatches_cases {predicate : PathPredicateBinding}
    (hfits : ConstantsFit predicate)
    (htype : usesDoubleBackedValueMetadata predicate.valueType = true)
    {entry : List RootPrimitiveValue}
    (hentry : ∀ value ∈ entry, decodedAs predicate.valueType value)
    (h : pathPredicateEventMatches predicate entry = .ok true) :
    (∃ x ∈ doubles entry, x.isNaN = false ∧ matchesDouble predicate x = true) ∨
      matchesNan predicate.op = true ∧ nanDecides predicate entry := by
  obtain ⟨hnonempty, hmatches⟩ := (pathPredicateEventMatches_doubles hfits htype hentry).mp h
  unfold nanDecides
  by_cases hnumber : ∃ x ∈ doubles entry, x.isNaN = false ∧ matchesDouble predicate x = true
  · exact Or.inl hnumber
  · right
    have hnan : ∀ x ∈ doubles entry, matchesDouble predicate x = true → x.isNaN = true := by
      intro x hx hmatch
      by_contra hfalse
      exact hnumber ⟨x, hx, by simpa using hfalse, hmatch⟩
    by_cases hall : predicate.requireAllValues = true
    · rw [if_pos hall] at hmatches ⊢
      have hnans : ∀ x ∈ doubles entry, x.isNaN = true := fun x hx => hnan x hx (hmatches x hx)
      obtain ⟨value, hvalue⟩ := List.exists_mem_of_ne_nil entry hnonempty
      have hmem : value.asDouble ∈ doubles entry := List.mem_map_of_mem hvalue
      refine ⟨?_, hnonempty, hnans⟩
      rw [← matchesDouble_nan hfits (hnans _ hmem)]
      exact hmatches _ hmem
    · rw [if_neg hall] at hmatches ⊢
      obtain ⟨x, hx, hmatch⟩ := hmatches
      have hisNan := hnan x hx hmatch
      rw [matchesDouble_nan hfits hisNan] at hmatch
      exact ⟨hmatch, x, hx, hisNan⟩

/-- An entry that NaNs decide matches under an operator that a NaN matches. -/
theorem pathPredicateEventMatches_of_nanDecides {predicate : PathPredicateBinding}
    (hfits : ConstantsFit predicate)
    (htype : usesDoubleBackedValueMetadata predicate.valueType = true)
    {entry : List RootPrimitiveValue}
    (hentry : ∀ value ∈ entry, decodedAs predicate.valueType value)
    (hop : matchesNan predicate.op = true) (h : nanDecides predicate entry) :
    pathPredicateEventMatches predicate entry = .ok true := by
  rw [pathPredicateEventMatches_doubles hfits htype hentry]
  unfold nanDecides at h
  by_cases hall : predicate.requireAllValues = true
  · rw [if_pos hall] at h ⊢
    obtain ⟨hnonempty, hnans⟩ := h
    refine ⟨hnonempty, fun x hx => ?_⟩
    rw [matchesDouble_nan hfits (hnans x hx), hop]
  · rw [if_neg hall] at h ⊢
    obtain ⟨x, hx, hnan⟩ := h
    refine ⟨?_, x, hx, ?_⟩
    · rintro rfl
      cases hx
    · rw [matchesDouble_nan hfits hnan, hop]

/-- The basket of a path's entries, with a Bloom filter of the given capacity. -/
def basketOfEntries (maxPayloadBytes : UInt32) (sizing : BloomSizing) (type : LogicalTypeId)
    (entries : List (List RootPrimitiveValue)) : BasketAccumulator :=
  accumulate (freshBloom maxPayloadBytes sizing) (usesDoubleBackedValueMetadata type)
    entries.flatten

/-- `PredicateMetadataMayMatch` on the row of a basket. -/
def basketMayMatch (predicate : PathPredicateBinding) (basket : BasketAccumulator) : Bool :=
  predicateMetadataMayMatch predicate basket.statistics
    (basket.bloomFilter (usesDoubleBackedValueMetadata predicate.valueType))

/-- **Path-predicate pruning**: the row of a basket passes for every entry that matches, just when
    no entry is decided by NaNs under an operator that a NaN matches, while the other values of
    the basket do not reach the constants. -/
theorem path_pruning_keeps_iff {normalizePath : String → String}
    {pathType : String → LogicalTypeId} {item : PathPredicateItem}
    {predicate : PathPredicateBinding}
    (hparse : parsePathPredicate normalizePath pathType item = .ok predicate)
    (maxPayloadBytes : UInt32) (sizing : BloomSizing) (entries : List (List RootPrimitiveValue))
    (hdecoded : ∀ entry ∈ entries, ∀ value ∈ entry, decodedAs predicate.valueType value) :
    (∀ entry ∈ entries, pathPredicateEventMatches predicate entry = .ok true →
        basketMayMatch predicate
          (basketOfEntries maxPayloadBytes sizing predicate.valueType entries) = true) ↔
      usesDoubleBackedValueMetadata predicate.valueType = true →
        matchesNan predicate.op = true → ∀ entry ∈ entries, nanDecides predicate entry →
          numbersReach predicate (doubles entries.flatten)
            ((basketOfEntries maxPayloadBytes sizing predicate.valueType entries).bloomFilter
              true) := by
  have hfits := parsePathPredicate_fits hparse
  by_cases htype : usesDoubleBackedValueMetadata predicate.valueType = true
  · unfold basketMayMatch basketOfEntries
    rw [htype]
    have hstats := basket_statistics_describe (freshBloom maxPayloadBytes sizing) entries.flatten
    generalize hbasket : accumulate (freshBloom maxPayloadBytes sizing) true entries.flatten =
      basket at hstats
    constructor
    · intro hkeeps _ hop entry hmem hnan
      have hmatches := pathPredicateEventMatches_of_nanDecides hfits htype (hdecoded entry hmem)
        hop hnan
      exact (predicateMetadataMayMatch_iff hfits htype hstats (basket.bloomFilter true) hop).mp
        (hkeeps entry hmem hmatches)
    · intro hreach entry hmem hmatches
      rcases pathPredicateEventMatches_cases hfits htype (hdecoded entry hmem) hmatches with
        ⟨x, hx, hnumber, hmatch⟩ | ⟨hop, hnan⟩
      · have hxAll : x ∈ doubles entries.flatten := by
          obtain ⟨value, hvalue, rfl⟩ := List.mem_map.mp hx
          exact List.mem_map_of_mem (List.mem_flatten_of_mem hmem hvalue)
        refine predicateMetadataMayMatch_of_matchesDouble hfits htype hstats _ hxAll hnumber ?_
          hmatch
        intro bytes hbytes y hy hfinite constant hconstant hkey
        rw [← hbasket] at hbytes
        exact bloomFilter_mayContain hbytes hy hfinite hconstant hkey
      · exact (predicateMetadataMayMatch_iff hfits htype hstats (basket.bloomFilter true) hop).mpr
          (hreach rfl hop entry hmem hnan)
  · constructor
    · intro _ htrue
      exact absurd htrue htype
    · intro _ entry _ _
      unfold basketMayMatch predicateMetadataMayMatch
      rw [if_pos (by simpa using htype)]

/-- `x = 5` on any value of a DOUBLE path. -/
def equalsFiveItem : PathPredicateItem where
  path := some "x"
  op := some "="
  quantifier := none
  value := some (.numberUnsigned 5)
  values := none
  lower := none
  upper := none

def equalsFive : PathPredicateBinding where
  path := "x"
  op := .eq
  values := [.floating (Double.ofNat 5)]
  requireAllValues := false
  valueType := .double

theorem parse_equalsFive :
    parsePathPredicate id (fun _ => .double) equalsFiveItem = .ok equalsFive := by
  have hop : "=".toLower = "=" := by decide +kernel
  unfold parsePathPredicate equalsFiveItem parsePathPredicateOp
  dsimp only
  rw [hop]
  rfl

/-- A basket without NaNs keeps the entry that matches. -/
theorem path_pruning_keeps_five :
    pathPredicateEventMatches equalsFive [.floating (Double.ofNat 5)] = .ok true ∧
      basketMayMatch equalsFive (basketOfEntries 0 ⟨fun _ => 0, fun _ _ => 0, 0⟩ .double
        [[.floating (Double.ofNat 1)], [.floating (Double.ofNat 5)]]) = true := by
  have hkeeps := (path_pruning_keeps_iff parse_equalsFive 0 ⟨fun _ => 0, fun _ _ => 0, 0⟩
    [[.floating (Double.ofNat 1)], [.floating (Double.ofNat 5)]] ?_).mpr ?_
  · exact ⟨rfl, hkeeps [.floating (Double.ofNat 5)] (by simp) rfl⟩
  · intro entry hentry value hvalue
    simp only [List.mem_cons, List.not_mem_nil, or_false] at hentry
    rcases hentry with rfl | rfl <;>
    · rw [List.mem_singleton.mp hvalue]
      trivial
  · intro _ _ entry hentry hnan
    simp only [List.mem_cons, List.not_mem_nil, or_false] at hentry
    rcases hentry with rfl | rfl <;>
    · obtain ⟨x, hx, hisNan⟩ := hnan
      rw [List.mem_singleton.mp hx] at hisNan
      exact absurd hisNan (by decide)

/-- The evaluator accepts an entry whose value is a NaN; its basket is dropped. -/
theorem path_pruning_loses_nan :
    parsePathPredicate id (fun _ => .double) equalsFiveItem = .ok equalsFive ∧
      ¬ (pathPredicateEventMatches equalsFive [.floating Double.quietNaN] = .ok true →
        basketMayMatch equalsFive (basketOfEntries 0 ⟨fun _ => 0, fun _ _ => 0, 0⟩ .double
          [[.floating Double.quietNaN]]) = true) := by
  refine ⟨parse_equalsFive, fun h => ?_⟩
  have hkept := h rfl
  exact absurd hkept (by decide)

end RootLake.Dataset
