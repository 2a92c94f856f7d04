import RootLake.Serialized.Codec

/-!
# Serialized read plans

A plan says how one physical branch is decoded without reconstructing the object; a plan
that is rejected says why.
-/

namespace RootLake.Serialized

/-- Supported serialized projection shapes. -/
inductive SerializedProjectionKind where
  | fixedMember
  | nestedPrimitiveVector
  | selectedSubtree
  | leafBranch
  | rootSelectedSubtree
  | collectionBranch
  | nestedFixedMember
  deriving DecidableEq, Repr

/-- `std::variant`: rejected with a reason, or one of the projections. -/
inductive SerializedProjectionState where
  | rejected (reason : String)
  | selected (kind : SerializedProjectionKind)
  deriving DecidableEq, Repr

/-- Conservative plan for decoding one physical basket projection. -/
structure SerializedReadPlan where
  projection : SerializedProjectionState := .rejected ""
  logicalPath : String := ""
  deriving DecidableEq, Repr

namespace SerializedReadPlan

def supported (plan : SerializedReadPlan) : Bool :=
  match plan.projection with
  | .rejected _ => false
  | .selected _ => true

def isKind (plan : SerializedReadPlan) (kind : SerializedProjectionKind) : Bool :=
  plan.projection = .selected kind

def rejectionReason (plan : SerializedReadPlan) : String :=
  match plan.projection with
  | .rejected reason => reason
  | .selected _ => ""

end SerializedReadPlan

end RootLake.Serialized
