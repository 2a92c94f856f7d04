/-
  RootLake/Dataset/ZonemapClause.lean
  ===================================
  **Zone-map clauses.**

  The planner turns a pushed filter on a column into a condition on a minimum and a
  maximum of the column.  A child without a clause is dropped from an AND and takes the
  clause away from an OR.

  A clause compares the minimum with `<` and `<=` and the maximum with `>` and `>=` only.
  So over the extremes of some values it is true just when its comparisons are met by
  values (`Clause.Directed.eval_iff`), and a value that satisfies the filter meets them
  (`zonemapExpressionClause_spec`).
-/
import RootLake.Dataset.FilterExpression

namespace RootLake.Dataset

open Ieee Sql3

variable {K : Type}

/-! ### Clauses -/

inductive StatisticsColumn where
  | minValue
  | maxValue
  deriving DecidableEq, Repr

/-- A condition on the statistics columns.  The literal stands for the decimal text of the
    constant. -/
inductive Clause (K : Type) where
  | compare (column : StatisticsColumn) (type : ExpressionType) (literal : K)
  | conj (left right : Clause K)
  | disj (left right : Clause K)
  | never
  deriving DecidableEq, Repr

/-- The column that decides a comparison: the minimum for `<` and `<=`, the maximum for `>`
    and `>=`. -/
def ExpressionType.extreme : ExpressionType → Option StatisticsColumn
  | compareLessThan | compareLessThanOrEqualTo => some .minValue
  | compareGreaterThan | compareGreaterThanOrEqualTo => some .maxValue
  | compareEqual | compareNotEqual => none

/-- Every comparison reads the column that decides it. -/
inductive Clause.Directed : Clause K → Prop where
  | compare {column : StatisticsColumn} {type : ExpressionType} (literal : K) :
      type.extreme = some column → Directed (.compare column type literal)
  | conj {left right : Clause K} : Directed left → Directed right → Directed (.conj left right)
  | disj {left right : Clause K} : Directed left → Directed right → Directed (.disj left right)
  | never : Directed .never

/-- The clause with each constant as the engine reads its text back. -/
def Clause.asRead (read : K → K) : Clause K → Clause K
  | compare column type literal => .compare column type (read literal)
  | conj left right => .conj (left.asRead read) (right.asRead read)
  | disj left right => .disj (left.asRead read) (right.asRead read)
  | never => .never

/-- Reading a constant differently leaves the comparisons on their columns. -/
theorem Clause.Directed.asRead (read : K → K) {clause : Clause K} (h : clause.Directed) :
    (clause.asRead read).Directed := by
  induction h with
  | compare literal htype => exact .compare (read literal) htype
  | conj _ _ ihl ihr => exact .conj ihl ihr
  | disj _ _ ihl ihr => exact .disj ihl ihr
  | never => exact .never

/-- Joining no clauses gives the empty text, which is no clause. -/
def joinClauses (op : Clause K → Clause K → Clause K) : List (Clause K) → Option (Clause K)
  | [] => none
  | clause :: rest => some (rest.foldl op clause)

/-- AND drops the children without a clause. -/
def conjunctionAndClause (clauses : List (Option (Clause K))) : Option (Clause K) :=
  joinClauses .conj (clauses.filterMap id)

/-- OR has no clause as soon as a child has none. -/
def conjunctionOrClause (clauses : List (Option (Clause K))) : Option (Clause K) :=
  if clauses.any Option.isNone then none else joinClauses .disj (clauses.filterMap id)

/-- Joining directed clauses. -/
theorem foldl_directed {op : Clause K → Clause K → Clause K}
    (hop : ∀ {left right : Clause K}, left.Directed → right.Directed → (op left right).Directed)
    (rest : List (Clause K)) :
    ∀ {first : Clause K}, first.Directed → (∀ clause ∈ rest, clause.Directed) →
      (rest.foldl op first).Directed := by
  induction rest with
  | nil => intro first hfirst _; exact hfirst
  | cons clause rest ih =>
    intro first hfirst hrest
    obtain ⟨hclause, hrest⟩ := List.forall_mem_cons.mp hrest
    exact ih (hop hfirst hclause) hrest

/-! ### The clause builder -/

/-- The constants of a column type that are written as a literal. -/
class SqlLiteral (K : Type) where
  hasLiteral : LogicalTypeId → K → Bool

instance : SqlLiteral Double where
  hasLiteral type value := usesDoubleBackedValueMetadata type && value.isFinite

instance : SqlLiteral UInt64 where
  hasLiteral type _ := type == .ubigint

section

variable [SqlLiteral K]

/-- The constant as a literal; it has to be of the type of the column. -/
def filterConstantSQL (value : Value K) (physicalType : LogicalTypeId) : Option K :=
  match value with
  | .number type number =>
      if type = physicalType ∧ SqlLiteral.hasLiteral type number = true then some number else none
  | _ => none

/-- The clause of one comparison; no clause for `<>`. -/
def comparisonZonemapClause (type : ExpressionType) (value : Value K)
    (physicalType : LogicalTypeId) : Option (Clause K) :=
  match filterConstantSQL value physicalType with
  | none => none
  | some literal =>
      match type with
      | .compareEqual =>
          some (.conj (.compare .minValue .compareLessThanOrEqualTo literal)
            (.compare .maxValue .compareGreaterThanOrEqualTo literal))
      | .compareLessThan => some (.compare .minValue .compareLessThan literal)
      | .compareLessThanOrEqualTo => some (.compare .minValue .compareLessThanOrEqualTo literal)
      | .compareGreaterThan => some (.compare .maxValue .compareGreaterThan literal)
      | .compareGreaterThanOrEqualTo =>
          some (.compare .maxValue .compareGreaterThanOrEqualTo literal)
      | .compareNotEqual => none

def inClause (values : List (Value K)) (physicalType : LogicalTypeId) :
    Option (Clause K) :=
  match values.mapM fun value => comparisonZonemapClause .compareEqual value physicalType with
  | none => none
  | some clauses =>
      match joinClauses .disj clauses with
      | none => some .never
      | some clause => some clause

variable (sem : SqlSemantics K)

def betweenClause (input lower upper : Operand K) (physicalType : LogicalTypeId) :
    Option (Clause K) :=
  if !rootIsColumnReference input then none
  else
    match constantExpressionValue sem lower, constantExpressionValue sem upper with
    | some lower, some upper =>
        match comparisonZonemapClause .compareGreaterThanOrEqualTo lower physicalType,
          comparisonZonemapClause .compareLessThanOrEqualTo upper physicalType with
        | some first, some second => some (.conj first second)
        | _, _ => none
    | _, _ => none

mutual

/-- `ZonemapExpressionClause`; no clause is the empty text. -/
def zonemapExpressionClause (physicalType : LogicalTypeId) : Expression K → Option (Clause K)
  | .comparison type left right =>
      match columnComparison sem (.comparison type left right) with
      | some (type, constant) => comparisonZonemapClause type constant physicalType
      | none => none
  | .between _ _ input lower upper => betweenClause sem input lower upper physicalType
  | .isIn input constants =>
      match inConstants sem (.isIn input constants) with
      | some values => inClause values physicalType
      | none => none
  | .conjunctionAnd children =>
      conjunctionAndClause (zonemapExpressionClauses physicalType children)
  | .conjunctionOr children =>
      conjunctionOrClause (zonemapExpressionClauses physicalType children)
  | .other _ => none

def zonemapExpressionClauses (physicalType : LogicalTypeId) :
    List (Expression K) → List (Option (Clause K))
  | [] => []
  | child :: rest =>
      zonemapExpressionClause physicalType child :: zonemapExpressionClauses physicalType rest

end

/-- `ZonemapClause`. -/
def zonemapClause (filter : TableFilter K) (physicalType : LogicalTypeId) : Option (Clause K) :=
  match rootFilterMetadataExpression filter with
  | some e => zonemapExpressionClause sem physicalType e
  | none => none

theorem filterConstantSQL_eq {value : Value K} {physicalType : LogicalTypeId} {literal : K}
    (h : filterConstantSQL value physicalType = some literal) :
    value = .number physicalType literal := by
  cases value with
  | null type => cases h
  | other type text => cases h
  | number type number =>
    simp only [filterConstantSQL] at h
    split at h
    next hall =>
      cases h
      rw [hall.1]
    next => cases h

theorem zonemapExpressionClauses_eq_map (physicalType : LogicalTypeId)
    (children : List (Expression K)) :
    zonemapExpressionClauses sem physicalType children =
      children.map (zonemapExpressionClause sem physicalType) := by
  induction children with
  | nil => rfl
  | cons child rest ih => rw [zonemapExpressionClauses, ih, List.map_cons]

end

/-! ### Clauses over the extremes of some values -/

section

variable [SqlOrdered K]

/-- The clause in a row in which the columns have the given values. -/
def Clause.eval (read : StatisticsColumn → Option K) : Clause K → Truth
  | compare column type literal => (read column).map fun value => type.holds value literal
  | conj left right => and3 (left.eval read) (right.eval read)
  | disj left right => or3 (left.eval read) (right.eval read)
  | never => some false

/-- Every comparison the clause needs is met by some value. -/
def Clause.MetBy (values : List K) : Clause K → Prop
  | compare _ type literal => ∃ x ∈ values, type.holds x literal = true
  | conj left right => left.MetBy values ∧ right.MetBy values
  | disj left right => left.MetBy values ∨ right.MetBy values
  | never => False

theorem Clause.MetBy.mono {values more : List K} (hsub : ∀ x ∈ values, x ∈ more) :
    ∀ {clause : Clause K}, clause.MetBy values → clause.MetBy more
  | compare _ _ _, ⟨x, hx, hmet⟩ => ⟨x, hsub x hx, hmet⟩
  | conj _ _, ⟨hleft, hright⟩ => ⟨hleft.mono hsub, hright.mono hsub⟩
  | disj _ _, Or.inl h => Or.inl (h.mono hsub)
  | disj _ _, Or.inr h => Or.inr (h.mono hsub)

/-- What the columns hold: the extremes of the values, or NULL when there is none. -/
structure ReadsExtremes (read : StatisticsColumn → Option K) (values : List K) : Prop where
  empty : values = [] → read .minValue = none ∧ read .maxValue = none
  extremes : values ≠ [] → ∃ lo ∈ values, ∃ hi ∈ values,
    read .minValue = some lo ∧ read .maxValue = some hi ∧
      ∀ x ∈ values, SqlOrdered.sqlKey lo ≤ SqlOrdered.sqlKey x ∧
        SqlOrdered.sqlKey x ≤ SqlOrdered.sqlKey hi

/-- A comparison that some value meets is met by the extreme that decides it. -/
theorem holds_extreme {column : StatisticsColumn} {type : ExpressionType}
    (h : type.extreme = some column) {lo hi x literal : K}
    (hbounds : SqlOrdered.sqlKey lo ≤ SqlOrdered.sqlKey x ∧
      SqlOrdered.sqlKey x ≤ SqlOrdered.sqlKey hi) (hholds : type.holds x literal = true) :
    type.holds (match column with | .minValue => lo | .maxValue => hi) literal = true := by
  cases type with
  | compareEqual => cases h
  | compareNotEqual => cases h
  | compareLessThan | compareLessThanOrEqualTo | compareGreaterThan
  | compareGreaterThanOrEqualTo =>
    cases h
    simp only [ExpressionType.holds, decide_eq_true_eq] at hholds ⊢
    omega

/-- **A directed clause reads the values**: over their extremes it is true just when they meet
    it. -/
theorem Clause.Directed.eval_iff {read : StatisticsColumn → Option K} {values : List K}
    (hread : ReadsExtremes read values) {clause : Clause K} (h : clause.Directed) :
    clause.eval read = some true ↔ clause.MetBy values := by
  induction h with
  | never =>
    constructor
    · intro heval
      cases heval
    · intro hmet
      exact hmet.elim
  | conj _ _ ihl ihr => exact and3_eq_true.trans (and_congr ihl ihr)
  | disj _ _ ihl ihr => exact or3_eq_true.trans (or_congr ihl ihr)
  | @compare column type literal htype =>
    by_cases hempty : values = []
    · -- The columns are NULL, and there is no value.
      obtain ⟨hmin, hmax⟩ := hread.empty hempty
      constructor
      · intro heval
        cases column <;> simp [Clause.eval, hmin, hmax] at heval
      · rintro ⟨x, hx, -⟩
        rw [hempty] at hx
        cases hx
    · obtain ⟨lo, hlo, hi, hhi, hmin, hmax, hbounds⟩ := hread.extremes hempty
      have hcolumn : read column = some (match column with | .minValue => lo | .maxValue => hi) := by
        cases column with
        | minValue => exact hmin
        | maxValue => exact hmax
      simp only [Clause.eval, hcolumn, Option.map_some, Option.some.injEq]
      constructor
      · intro heval
        cases column with
        | minValue => exact ⟨lo, hlo, heval⟩
        | maxValue => exact ⟨hi, hhi, heval⟩
      · rintro ⟨x, hx, hholds⟩
        exact holds_extreme htype (hbounds x hx) hholds

theorem foldl_conj_metBy {values : List K} (rest : List (Clause K)) :
    ∀ {first : Clause K}, (rest.foldl .conj first).MetBy values ↔
      first.MetBy values ∧ ∀ clause ∈ rest, clause.MetBy values := by
  induction rest with
  | nil => intro first; simp
  | cons clause rest ih =>
    intro first
    rw [List.foldl_cons, ih, List.forall_mem_cons, ← and_assoc]
    rfl

theorem foldl_disj_metBy {values : List K} (rest : List (Clause K)) :
    ∀ {first : Clause K}, (rest.foldl .disj first).MetBy values ↔
      first.MetBy values ∨ ∃ clause ∈ rest, clause.MetBy values := by
  induction rest with
  | nil => intro first; simp
  | cons clause rest ih =>
    intro first
    rw [List.foldl_cons, ih, List.exists_mem_cons_iff, ← or_assoc]
    rfl

theorem joinClauses_conj {clauses : List (Clause K)} {joined : Clause K}
    (h : joinClauses .conj clauses = some joined) :
    ((∀ clause ∈ clauses, clause.Directed) → joined.Directed) ∧
      ∀ values, joined.MetBy values ↔ ∀ clause ∈ clauses, clause.MetBy values := by
  cases clauses with
  | nil => cases h
  | cons first rest =>
    cases h
    refine ⟨?_, ?_⟩
    · intro hall
      obtain ⟨hfirst, hrest⟩ := List.forall_mem_cons.mp hall
      exact foldl_directed .conj rest hfirst hrest
    · intro values
      rw [foldl_conj_metBy, List.forall_mem_cons]

theorem joinClauses_disj {clauses : List (Clause K)} {joined : Clause K}
    (h : joinClauses .disj clauses = some joined) :
    ((∀ clause ∈ clauses, clause.Directed) → joined.Directed) ∧
      ∀ values, joined.MetBy values ↔ ∃ clause ∈ clauses, clause.MetBy values := by
  cases clauses with
  | nil => cases h
  | cons first rest =>
    cases h
    refine ⟨?_, ?_⟩
    · intro hall
      obtain ⟨hfirst, hrest⟩ := List.forall_mem_cons.mp hall
      exact foldl_directed .disj rest hfirst hrest
    · intro values
      rw [foldl_disj_metBy, List.exists_mem_cons_iff]

/-- What the clause builder promises for one condition: the clause is directed, and a value
    that satisfies the condition meets it. -/
structure ClauseFor (meaning : K → Truth) (clause : Clause K) : Prop where
  directed : clause.Directed
  sound : ∀ x, meaning x = some true → clause.MetBy [x]

end

/-- A partial map over a list that succeeds: every element has its image, and every image its
    element. -/
theorem mem_of_mapM_eq_some {α β : Type} {f : α → Option β} {l : List α} {images : List β}
    (h : l.mapM f = some images) :
    (∀ a ∈ l, ∃ b ∈ images, f a = some b) ∧ ∀ b ∈ images, ∃ a ∈ l, f a = some b := by
  induction l generalizing images with
  | nil =>
    simp only [List.mapM_nil, Option.pure_def, Option.some.injEq] at h
    subst h
    exact ⟨fun a ha => absurd ha List.not_mem_nil, fun b hb => absurd hb List.not_mem_nil⟩
  | cons a l ih =>
    simp only [List.mapM_cons, Option.bind_eq_bind, Option.pure_def, Option.bind_eq_some_iff,
      Option.some.injEq] at h
    obtain ⟨b, hb, rest, hrest, rfl⟩ := h
    obtain ⟨hto, hfrom⟩ := ih hrest
    constructor
    · intro a' ha'
      rcases List.mem_cons.mp ha' with rfl | ha'
      · exact ⟨b, List.mem_cons_self, hb⟩
      · obtain ⟨b', hmem, hb'⟩ := hto a' ha'
        exact ⟨b', List.mem_cons_of_mem _ hmem, hb'⟩
    · intro b' hb'
      rcases List.mem_cons.mp hb' with rfl | hb'
      · exact ⟨a, List.mem_cons_self, hb⟩
      · obtain ⟨a', hmem, ha'⟩ := hfrom b' hb'
        exact ⟨a', List.mem_cons_of_mem _ hmem, ha'⟩

/-! ### Every clause is directed, and sound -/

variable [SqlOrdered K] [SqlLiteral K] (sem : SqlSemantics K)

/-- The clause of a comparison with a constant. -/
theorem comparisonZonemapClause_spec {type : ExpressionType} {value : Value K}
    {physicalType : LogicalTypeId} {clause : Clause K}
    (h : comparisonZonemapClause type value physicalType = some clause) :
    ∃ literal, value = .number physicalType literal ∧
      ClauseFor (fun x => some (type.holds x literal)) clause := by
  unfold comparisonZonemapClause at h
  cases hconstant : filterConstantSQL value physicalType with
  | none =>
    rw [hconstant] at h
    cases h
  | some literal =>
    rw [hconstant] at h
    have hvalue := filterConstantSQL_eq hconstant
    refine ⟨literal, hvalue, ?_⟩
    cases type with
    | compareNotEqual => cases h
    | compareEqual =>
      cases h
      refine ⟨.conj (.compare literal rfl) (.compare literal rfl), ?_⟩
      intro x hmeaning
      simp only [ExpressionType.holds, Option.some.injEq, decide_eq_true_eq] at hmeaning
      constructor
      · exact ⟨x, List.mem_cons_self, decide_eq_true (Int.le_of_eq hmeaning)⟩
      · exact ⟨x, List.mem_cons_self, decide_eq_true (Int.le_of_eq hmeaning.symm)⟩
    | compareLessThan | compareLessThanOrEqualTo | compareGreaterThan
    | compareGreaterThanOrEqualTo =>
      cases h
      refine ⟨.compare literal rfl, ?_⟩
      intro x hmeaning
      exact ⟨x, List.mem_cons_self, Option.some.inj hmeaning⟩

theorem betweenClause_spec {lowerInclusive upperInclusive : Bool}
    {input lower upper : Operand K} {physicalType : LogicalTypeId}
    {clause : Clause K} (h : betweenClause sem input lower upper physicalType = some clause) :
    ClauseFor (fun x => (Expression.between lowerInclusive upperInclusive input lower upper).meaning
      sem physicalType x) clause := by
  unfold betweenClause at h
  split at h
  next => cases h
  next hinput =>
    have hcolumn := eq_column_of_rootIsColumnReference (by simpa using hinput)
    split at h
    next low high hlow hhigh =>
      split at h
      next first second hfirst hsecond =>
        cases h
        obtain ⟨literal, hlowValue, hfirstFor⟩ := comparisonZonemapClause_spec hfirst
        obtain ⟨literal', hhighValue, hsecondFor⟩ := comparisonZonemapClause_spec hsecond
        refine ⟨.conj hfirstFor.directed hsecondFor.directed, ?_⟩
        intro x hmeaning
        simp only [Expression.meaning, and3_eq_true, hcolumn,
          constantExpressionValue_value sem hlow, constantExpressionValue_value sem hhigh,
          hlowValue, hhighValue, Operand.value, compareValues, if_true, Option.some.injEq]
          at hmeaning
        exact ⟨hfirstFor.sound x (congrArg some (holds_of_lowerComparison hmeaning.1)),
          hsecondFor.sound x (congrArg some (holds_of_upperComparison hmeaning.2))⟩
      next => cases h
    next => cases h

theorem inClause_spec {input : Operand K} {constants : List (Operand K)} {values : List (Value K)}
    {physicalType : LogicalTypeId} {clause : Clause K}
    (hvalues : inConstants sem (.isIn input constants) = some values)
    (h : inClause values physicalType = some clause) :
    ClauseFor (fun x => (Expression.isIn input constants).meaning sem physicalType x) clause := by
  simp only [inConstants] at hvalues
  split at hvalues
  next => cases hvalues
  next hinput =>
    have hcolumn : input = .column := by
      refine eq_column_of_rootIsColumnReference ?_
      simp only [Bool.or_eq_true, Bool.not_eq_true', not_or, Bool.not_eq_false] at hinput
      exact hinput.2
    obtain ⟨all, hall, rfl⟩ := Option.map_eq_some_iff.mp hvalues
    unfold inClause at h
    cases hclauses : (all.filter fun value => !value.isNull).mapM
        (fun value => comparisonZonemapClause .compareEqual value physicalType) with
    | none =>
      rw [hclauses] at h
      cases h
    | some clauses =>
      rw [hclauses] at h
      dsimp only at h
      obtain ⟨hto, hfrom⟩ := mem_of_mapM_eq_some hclauses
      have hdirected : ∀ clause ∈ clauses, clause.Directed := by
        intro clause hmem
        obtain ⟨value, -, hvalue⟩ := hfrom clause hmem
        obtain ⟨_, -, hfor⟩ := comparisonZonemapClause_spec hvalue
        exact hfor.directed
      -- The constant that the value equals has its clause in the list.
      have hsound : ∀ x,
          (Expression.isIn input constants).meaning sem physicalType x = some true →
          ∃ clause ∈ clauses, clause.MetBy [x] := by
        intro x hmeaning
        simp only [Expression.meaning, any3_eq_true, List.mem_map] at hmeaning
        obtain ⟨_, ⟨constant, hconstant, rfl⟩, hequal⟩ := hmeaning
        obtain ⟨value, hmem, hvalue⟩ := (mem_of_mapM_eq_some hall).1 constant hconstant
        rw [hcolumn, constantExpressionValue_value sem hvalue] at hequal
        have hnotNull : value.isNull = false := by
          cases value with
          | null type => cases hequal
          | number type number => rfl
          | other type text => rfl
        obtain ⟨clause, hclause, hspec⟩ := hto value
          (List.mem_filter.mpr ⟨hmem, by rw [hnotNull]; rfl⟩)
        obtain ⟨literal, hliteral, hfor⟩ := comparisonZonemapClause_spec hspec
        refine ⟨clause, hclause, hfor.sound x ?_⟩
        rw [hliteral] at hequal
        simpa only [Operand.value, compareValues, if_true] using hequal
      cases hjoin : joinClauses .disj clauses with
      | none =>
        rw [hjoin] at h
        cases h
        refine ⟨.never, ?_⟩
        intro x hmeaning
        obtain ⟨clause, hmem, -⟩ := hsound x hmeaning
        cases clauses with
        | nil => exact absurd hmem List.not_mem_nil
        | cons first rest => cases hjoin
      | some joined =>
        rw [hjoin] at h
        cases h
        obtain ⟨hjoined, hmet⟩ := joinClauses_disj hjoin
        exact ⟨hjoined hdirected, fun x hmeaning =>
          (hmet [x]).mpr (hsound x hmeaning)⟩

/-! ### The whole builder -/

/-- Children of an AND. -/
theorem conjunctionAndClause_spec {physicalType : LogicalTypeId} {children : List (Expression K)}
    {clause : Clause K}
    (hchildren : ∀ child ∈ children, ∀ clause,
      zonemapExpressionClause sem physicalType child = some clause →
        ClauseFor (child.meaning sem physicalType) clause)
    (h : conjunctionAndClause (zonemapExpressionClauses sem physicalType children) =
      some clause) :
    ClauseFor ((Expression.conjunctionAnd children).meaning sem physicalType) clause := by
  rw [zonemapExpressionClauses_eq_map] at h
  obtain ⟨hdirected, hmet⟩ := joinClauses_conj h
  have hmem : ∀ part ∈ (children.map (zonemapExpressionClause sem physicalType)).filterMap id,
      ∃ child ∈ children, ClauseFor (child.meaning sem physicalType) part := by
    intro part hpart
    obtain ⟨entry, hentry, heq⟩ := List.mem_filterMap.mp hpart
    obtain ⟨child, hchild, rfl⟩ := List.mem_map.mp hentry
    exact ⟨child, hchild, hchildren child hchild part heq⟩
  constructor
  · refine hdirected ?_
    intro part hpart
    obtain ⟨_, -, hfor⟩ := hmem part hpart
    exact hfor.directed
  · intro x hmeaning
    rw [Expression.meaning, meanings_eq_map, all3_eq_true] at hmeaning
    refine (hmet [x]).mpr ?_
    intro part hpart
    obtain ⟨child, hchild, hfor⟩ := hmem part hpart
    exact hfor.sound x (hmeaning _ (List.mem_map.mpr ⟨child, hchild, rfl⟩))

/-- Children of an OR. -/
theorem conjunctionOrClause_spec {physicalType : LogicalTypeId} {children : List (Expression K)}
    {clause : Clause K}
    (hchildren : ∀ child ∈ children, ∀ clause,
      zonemapExpressionClause sem physicalType child = some clause →
        ClauseFor (child.meaning sem physicalType) clause)
    (h : conjunctionOrClause (zonemapExpressionClauses sem physicalType children) = some clause) :
    ClauseFor ((Expression.conjunctionOr children).meaning sem physicalType) clause := by
  rw [zonemapExpressionClauses_eq_map] at h
  unfold conjunctionOrClause at h
  split at h
  next => cases h
  next hall =>
    obtain ⟨hdirected, hmet⟩ := joinClauses_disj h
    constructor
    · refine hdirected ?_
      intro part hpart
      obtain ⟨entry, hentry, heq⟩ := List.mem_filterMap.mp hpart
      obtain ⟨child, hchild, rfl⟩ := List.mem_map.mp hentry
      exact (hchildren child hchild part heq).directed
    · intro x hmeaning
      rw [Expression.meaning, meanings_eq_map, any3_eq_true] at hmeaning
      obtain ⟨_, hmem, htrue⟩ := hmeaning
      obtain ⟨child, hchild, rfl⟩ := List.mem_map.mp hmem
      cases hclause : zonemapExpressionClause sem physicalType child with
      | none =>
        refine absurd (List.any_eq_true.mpr ⟨none, ?_, rfl⟩) hall
        exact List.mem_map.mpr ⟨child, hchild, hclause⟩
      | some part =>
        refine (hmet [x]).mpr ⟨part, ?_, (hchildren child hchild part hclause).sound x htrue⟩
        exact List.mem_filterMap.mpr ⟨some part, List.mem_map.mpr ⟨child, hchild, hclause⟩, rfl⟩

mutual

/-- **The clause builder is sound for finite values**, by induction on the condition. -/
theorem zonemapExpressionClause_spec {physicalType : LogicalTypeId} :
    ∀ (e : Expression K) (clause : Clause K),
      zonemapExpressionClause sem physicalType e = some clause →
        ClauseFor (e.meaning sem physicalType) clause
  | .comparison type left right, clause, h => by
    rw [zonemapExpressionClause] at h
    split at h
    next comparisonType constant hcolumn =>
      obtain ⟨literal, hliteral, hfor⟩ := comparisonZonemapClause_spec h
      refine ⟨hfor.directed, ?_⟩
      intro x hmeaning
      rw [columnComparison_meaning sem hcolumn hliteral] at hmeaning
      exact hfor.sound x hmeaning
    next => cases h
  | .between _ _ input lower upper, clause, h => by
    rw [zonemapExpressionClause] at h
    exact betweenClause_spec sem h
  | .isIn input constants, clause, h => by
    rw [zonemapExpressionClause] at h
    split at h
    next values hvalues => exact inClause_spec sem hvalues h
    next => cases h
  | .conjunctionAnd children, clause, h => by
    rw [zonemapExpressionClause] at h
    exact conjunctionAndClause_spec sem (zonemapExpressionClauses_spec children) h
  | .conjunctionOr children, clause, h => by
    rw [zonemapExpressionClause] at h
    exact conjunctionOrClause_spec sem (zonemapExpressionClauses_spec children) h
  | .other _, clause, h => by
    rw [zonemapExpressionClause] at h
    cases h

theorem zonemapExpressionClauses_spec {physicalType : LogicalTypeId} :
    ∀ (children : List (Expression K)), ∀ child ∈ children, ∀ clause,
      zonemapExpressionClause sem physicalType child = some clause →
        ClauseFor (child.meaning sem physicalType) clause
  | [], child, hmem, _, _ => absurd hmem List.not_mem_nil
  | first :: rest, child, hmem, clause, h => by
    rcases List.mem_cons.mp hmem with heq | hmem
    · rw [heq] at h ⊢
      exact zonemapExpressionClause_spec first clause h
    · exact zonemapExpressionClauses_spec rest child hmem clause h

end

theorem zonemapClause_spec {filter : TableFilter K} {physicalType : LogicalTypeId}
    {clause : Clause K} (h : zonemapClause sem filter physicalType = some clause) :
    ClauseFor (fun x => filter.meaning sem physicalType x) clause := by
  unfold zonemapClause at h
  split at h
  next e he =>
    obtain ⟨hdirected, hsound⟩ := zonemapExpressionClause_spec sem e clause h
    refine ⟨hdirected, ?_⟩
    intro x hmeaning
    rw [rootFilterMetadataExpression_meaning sem he] at hmeaning
    exact hsound x hmeaning
  next => cases h

end RootLake.Dataset
