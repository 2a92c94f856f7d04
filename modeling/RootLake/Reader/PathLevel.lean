import RootLake.Reader.PrimitiveValue
import Mathlib.Algebra.BigOperators.Group.List.Basic
import Mathlib.Algebra.Order.BigOperators.GroupWithZero.List
import Mathlib.Tactic.Ring

/-!
# Resolved path levels

A logical path is resolved against ROOT's streamer metadata into one level per field.
The shape of a fixed array carries what the resolver checks: its extents are positive,
and its length is a 64-bit number that the product of the extents reaches.
-/

namespace RootLake

/-- `TClass*`: a class is known by its identity. -/
abbrev TClass := Nat

/-- The extents read so far and their product. Without the strict check the product is
    the one of 64-bit arithmetic. -/
structure Extents where
  dimensions : List Nat
  length : Nat
  positive : ∀ d ∈ dimensions, 0 < d ∧ d < 2 ^ 32
  bounded : length ≤ dimensions.prod
  small : length < 2 ^ 64

namespace Extents

/-- `array_dimensions.clear()` with `array_length = 0`. -/
def none : Extents where
  dimensions := []
  length := 0
  positive := fun _ h => absurd h List.not_mem_nil
  bounded := Nat.zero_le _
  small := by decide

/-- The state before the first extent. -/
def start : Extents where
  dimensions := []
  length := 1
  positive := fun _ h => absurd h List.not_mem_nil
  bounded := by simp
  small := by decide

def push (extents : Extents) (d : Nat) (h : 0 < d ∧ d < 2 ^ 32) : Extents where
  dimensions := extents.dimensions ++ [d]
  length := extents.length * d % 2 ^ 64
  positive := by
    intro e he
    rcases List.mem_append.mp he with he | he
    · exact extents.positive e he
    · exact List.mem_singleton.mp he ▸ h
  bounded := by
    rw [List.prod_append, List.prod_singleton]
    exact (Nat.mod_le _ _).trans (Nat.mul_le_mul_right d extents.bounded)
  small := Nat.mod_lt _ (by decide)

/-- The extents `TStreamerElement` declares. -/
def declared (strictLayout : Bool) : List Int32 → Extents → Extents
  | [], extents => extents
  | extent :: rest, extents =>
      if h : 0 < extent.toInt then
        if strictLayout ∧ extents.length > (2 ^ 64 - 1) / extent.toInt.toNat then none
        else
          declared strictLayout rest (extents.push extent.toInt.toNat
            ⟨by omega, by have := extent.toInt_lt; omega⟩)
      else none

/-- `ParseFixedArrayType`, from the numbers between the brackets of a type's name. -/
def parseFixedArrayType (rawType : String) : List Nat → Extents → Except IOException Extents
  | [], extents => .ok (if extents.dimensions.isEmpty then none else extents)
  | token :: rest, extents =>
      if h : 0 < token % 2 ^ 32 then
        if extents.length > (2 ^ 64 - 1) / (token % 2 ^ 32) then
          .error ⟨"Invalid or overflowing fixed ROOT array type: " ++ rawType⟩
        else
          parseFixedArrayType rawType rest
            (extents.push (token % 2 ^ 32) ⟨h, Nat.mod_lt _ (by decide)⟩)
      else .error ⟨"Invalid or overflowing fixed ROOT array type: " ++ rawType⟩

end Extents

/-- The shape of a level that is a fixed array: its dimensions and its
    length. -/
structure FixedArray extends Extents where
  nonempty : dimensions ≠ []
  length_pos : 0 < length

/-- The array shape of a level: the declared extents, else in the strict layout those
    in the type's name. -/
def resolveFixedArray (strictLayout : Bool) (declared : List Int32) (parsedArray : Extents) :
    Option FixedArray :=
  let extents := Extents.declared strictLayout declared .start
  let extents :=
    if strictLayout && (extents.length == 0 || extents.dimensions.isEmpty) &&
        parsedArray.length != 0 then
      parsedArray
    else extents
  if h : extents.dimensions ≠ [] ∧ 0 < extents.length then
    some { extents with nonempty := h.1, length_pos := h.2 }
  else none

/-- One resolved semantic step through a ROOT object or container. -/
structure PathLevel where
  name : String
  type : String
  offsetInParent : Int
  isPrimitive : Bool
  isString : Bool
  isPointer : Bool
  isContainer : Bool
  fixedArray : Option FixedArray
  elementSize : Nat
  klass : Option TClass
  elementClass : Option TClass

/-- The number of index columns of a path. -/
def indexDepth (levels : List PathLevel) : Nat :=
  (levels.map fun level =>
    (if level.isContainer then 1 else 0) +
      match level.fixedArray with
      | some array => max 1 array.dimensions.length
      | none => 0).sum

end RootLake
