/-
  RootLake/Dataset/Zonemap.lean
  =============================
  **Value zone maps: the planner's predicate on minimum and maximum.**

  The planner turns a filter on the value column into a clause over the minimum and
  maximum columns of files and baskets, keeps a row of the catalog when the clause holds
  or a NaN was counted, and drops it otherwise.  Minimum and maximum describe the finite
  values only, and are NULL when there is none; infinities are counted in columns the
  predicate does not read.  The constants stand in the clause as decimal texts, a double
  with 17 significant digits, and the engine compares with what it reads back from them;
  for some doubles that is a neighbour of the constant.

  So a basket is lost exactly when it has no NaN, some value satisfies the filter, and its
  finite values do not meet the clause with the constants as they are read back.  Where
  they are read back exactly, that value is infinite.
-/
import RootLake.Dataset.ZonemapClause
import RootLake.Index.BasketStatistics

namespace RootLake.Dataset

open Ieee Sql3 Index

/-! ### The predicate -/

/-- The clause of a filter on the value column, for the types that have a value zone map. -/
def valueZonemapClause (sem : SqlSemantics Double) (filter : TableFilter Double)
    (physicalType : LogicalTypeId) : Option (Clause Double) :=
  if usesDoubleBackedValueMetadata physicalType then zonemapClause sem filter physicalType
  else none

/-- The statistics columns of a row. -/
def readStatistics (stats : ValueStatistics) : StatisticsColumn → Option Double
  | .minValue => stats.minValue
  | .maxValue => stats.maxValue

/-- The predicate `(clause) OR nan_count > 0` on a row of the catalog. -/
def passesZonemap (clause : Option (Clause Double)) (stats : ValueStatistics) : Prop :=
  match clause with
  | none => True
  | some clause =>
      or3 (clause.eval (readStatistics stats)) (some (decide (0 < stats.nanCount))) = some true

instance (clause : Option (Clause Double)) (stats : ValueStatistics) :
    Decidable (passesZonemap clause stats) :=
  match clause with
  | none => isTrue trivial
  | some clause => inferInstanceAs (Decidable (or3 (clause.eval _) _ = some true))

/-! ### Rows and values -/

/-- The finite ones among the values. -/
def finiteValues (values : List Double) : List Double := values.filter Double.isFinite

theorem mem_finiteValues {values : List Double} {x : Double} :
    x ∈ finiteValues values ↔ x ∈ values ∧ x.isFinite = true := List.mem_filter

theorem sqlKey_of_finite {x : Double} (h : x.isFinite = true) : SqlOrdered.sqlKey x = x.key :=
  Double.sqlKey_of_not_nan (Double.isFinite.not_nan h)

/-- The statistics columns hold the extremes of the finite values. -/
theorem describes_readsExtremes {stats : ValueStatistics} {values : List Double}
    (h : stats.Describes values) : ReadsExtremes (readStatistics stats) (finiteValues values) := by
  rcases h.extremes with ⟨hmin, hmax, hnone⟩ | ⟨lo, hi, hmin, hmax, hlo, hhi, hbounds⟩
  · have hempty : finiteValues values = [] := by
      refine List.eq_nil_iff_forall_not_mem.mpr ?_
      intro x hx
      obtain ⟨hmem, hfinite⟩ := mem_finiteValues.mp hx
      rw [hnone x hmem] at hfinite
      cases hfinite
    exact ⟨fun _ => ⟨hmin, hmax⟩, fun h => absurd hempty h⟩
  · have hloMem := mem_finiteValues.mpr hlo
    refine ⟨fun hempty => ?_, fun _ => ⟨lo, hloMem, hi, mem_finiteValues.mpr hhi, hmin, hmax, ?_⟩⟩
    · rw [hempty] at hloMem
      cases hloMem
    · intro x hx
      obtain ⟨hmem, hfinite⟩ := mem_finiteValues.mp hx
      rw [sqlKey_of_finite hfinite, sqlKey_of_finite hlo.2, sqlKey_of_finite hhi.2]
      exact hbounds x hmem hfinite

/-- The predicate of a directed clause holds when finite values meet the clause, or a NaN is
    there. -/
theorem passesZonemap_iff {stats : ValueStatistics} {values : List Double}
    (hstats : stats.Describes values) {clause : Clause Double} (h : clause.Directed) :
    passesZonemap (some clause) stats ↔
      clause.MetBy (finiteValues values) ∨ ∃ x ∈ values, x.isNaN = true := by
  unfold passesZonemap
  dsimp only
  rw [or3_eq_true, h.eval_iff (describes_readsExtremes hstats), Option.some.injEq,
    decide_eq_true_eq, hstats.nan]

/-! ### Pruning -/

section

variable (bloom : RootBloomBuilder) (type : LogicalTypeId)

/-- The statistics of a basket's row, and of the row of a file with the given baskets. -/
def basketRowStatistics (values : List RootPrimitiveValue) : ValueStatistics :=
  (accumulate bloom (usesDoubleBackedValueMetadata type) values).statistics

def fileRowStatistics (baskets : List (List RootPrimitiveValue)) : ValueStatistics :=
  fileStatistics (baskets.map (accumulate bloom (usesDoubleBackedValueMetadata type)))

/-- The clause of the query: the constants are what the engine reads back from the texts of
    `NumberSQL`. -/
def queriedClause (sem : SqlSemantics Double) (readLiteral : Double → Double)
    (filter : TableFilter Double) : Option (Clause Double) :=
  (valueZonemapClause sem filter type).map fun clause => clause.asRead readLiteral

variable (sem : SqlSemantics Double) (filter : TableFilter Double)

/-- A clause of a value column is directed, and a finite value that satisfies the filter
    meets it. -/
theorem valueZonemapClause_spec {clause : Clause Double}
    (h : valueZonemapClause sem filter type = some clause) :
    usesDoubleBackedValueMetadata type = true ∧
      ClauseFor (fun x => filter.meaning sem type x) clause := by
  unfold valueZonemapClause at h
  split at h
  next hdouble => exact ⟨hdouble, zonemapClause_spec sem h⟩
  next => cases h

/-- A basket's row and its file's row pass a directed clause just when the basket's row does. -/
theorem rows_pass_iff (hdouble : usesDoubleBackedValueMetadata type = true)
    {clause : Clause Double} (h : clause.Directed) (before : List (List RootPrimitiveValue))
    (basket : List RootPrimitiveValue) (after : List (List RootPrimitiveValue)) :
    (passesZonemap (some clause) (basketRowStatistics bloom type basket) ∧
        passesZonemap (some clause) (fileRowStatistics bloom type (before ++ basket :: after))) ↔
      clause.MetBy (finiteValues (doubles basket)) ∨ ∃ x ∈ doubles basket, x.isNaN = true := by
  have hbasket : (basketRowStatistics bloom type basket).Describes (doubles basket) := by
    unfold basketRowStatistics
    rw [hdouble]
    exact basket_statistics_describe bloom basket
  have hfile : (fileRowStatistics bloom type (before ++ basket :: after)).Describes
      (doubles (before ++ basket :: after).flatten) := by
    unfold fileRowStatistics
    rw [hdouble]
    exact file_statistics_describe bloom _
  have hsub : ∀ x ∈ doubles basket, x ∈ doubles (before ++ basket :: after).flatten := by
    intro x hx
    obtain ⟨value, hvalue, rfl⟩ := List.mem_map.mp hx
    refine List.mem_map.mpr ⟨value, List.mem_flatten.mpr ⟨basket, ?_, hvalue⟩, rfl⟩
    exact List.mem_append_right _ List.mem_cons_self
  have hsubFinite : ∀ y ∈ finiteValues (doubles basket),
      y ∈ finiteValues (doubles (before ++ basket :: after).flatten) := by
    intro y hy
    obtain ⟨hmem, hfinite⟩ := mem_finiteValues.mp hy
    exact mem_finiteValues.mpr ⟨hsub y hmem, hfinite⟩
  rw [passesZonemap_iff hbasket h, passesZonemap_iff hfile h]
  constructor
  · intro hboth
    exact hboth.1
  · intro hpasses
    refine ⟨hpasses, ?_⟩
    rcases hpasses with hmet | ⟨y, hy, hnan⟩
    · exact Or.inl (hmet.mono hsubFinite)
    · exact Or.inr ⟨y, hsub y hy, hnan⟩

/-- Where the engine reads the texts of a clause's constants back exactly, the only values
    that can be lost are infinite. -/
theorem value_pruning_keeps_finite {readLiteral : Double → Double}
    (hread : ∀ clause, valueZonemapClause sem filter type = some clause →
      clause.asRead readLiteral = clause)
    {basket : List RootPrimitiveValue} {x : Double} (hx : x ∈ doubles basket)
    (hfinite : x.isInf = false) (hmeaning : filter.meaning sem type x = some true) :
    passesZonemap (queriedClause type sem readLiteral filter)
      (basketRowStatistics bloom type basket) := by
  unfold queriedClause
  cases hclause : valueZonemapClause sem filter type with
  | none => exact trivial
  | some clause =>
    obtain ⟨hdouble, hfor⟩ := valueZonemapClause_spec type sem filter hclause
    rw [Option.map_some, hread clause hclause]
    refine ((rows_pass_iff bloom type hdouble hfor.directed [] basket []).mpr ?_).1
    rcases Double.classify x with h | h | h
    · refine Or.inl ((hfor.sound x hmeaning).mono ?_)
      intro y hy
      rw [List.mem_singleton.mp hy]
      exact mem_finiteValues.mpr ⟨hx, h⟩
    · rw [hfinite] at h
      cases h
    · exact Or.inr ⟨x, hx, h⟩

end

/-- The engine without casts; the filter `value > 5` needs none. -/
def withoutCasts (K : Type) : SqlSemantics K where
  castValue _ _ := none
  compareOther _ _ _ := none

def greaterThanFive : TableFilter Double :=
  .expression (.comparison .compareGreaterThan .column
    (.constant (.number .double ⟨0x4014000000000000⟩)))

end RootLake.Dataset
