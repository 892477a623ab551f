/-
  File:      OutlineMarkup/Fault.lean
  Subject:   The ways a request can be refused, and their wording.

  What is wrong in a document becomes a diagnostic and no fault. A fault comes from settings that
  make no sense, from an indent unit that no tab is as wide as, or from a call on a part of the
  library outside of its domain.
-/
import OutlineMarkup.Text.Basic

namespace OutlineMarkup

/-- Why a request was refused. -/
inductive Fault where
  /-- The indent unit of the settings is not positive. -/
  | indentUnitNotPositive
  /-- The stem of generated class names is empty. -/
  | emptyClassStem
  /-- A tab was to be wider than a width can be. -/
  | tabWidthOutOfRange
  /-- A class was asked for declarations that come to nothing. -/
  | emptyDeclarations
  /-- A line was read past the last one. -/
  | noMoreLines
  /-- A depth was asked for with an indent unit of 0. -/
  | zeroIndentUnit
  /-- The host document has no place to mount elements. -/
  | noMountPoint
  deriving DecidableEq, Repr

/-- The wording of a fault. -/
def Fault.message : Fault → Text
  | .indentUnitNotPositive => "indent_unit must be a positive number of columns"
  | .emptyClassStem => "class_prefix must be a non-empty string"
  | .tabWidthOutOfRange => "int too large for a tab width"
  | .emptyDeclarations => "cannot generate a class for an empty declaration set"
  | .noMoreLines => "list index out of range"
  | .zeroIndentUnit => "integer division or modulo by zero"
  | .noMountPoint => "Renderer has no mount point to attach the compiled tree to"

end OutlineMarkup
