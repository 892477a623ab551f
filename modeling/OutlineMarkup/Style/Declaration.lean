/-
  File:      OutlineMarkup/Style/Declaration.lean
  Subject:   Style declarations, their text and how it is read back.
-/
import OutlineMarkup.Text.Basic

namespace OutlineMarkup

/-- A property with its value; an important declaration wins over one that is not. -/
structure Declaration where
  property : Text
  value : Text
  important : Bool := false
  deriving DecidableEq, Repr

namespace Declaration

/-- The mark of an important declaration. -/
def marker : Text := "!important"

/-- The declaration made important. -/
def forced (d : Declaration) : Declaration := { d with important := true }

/-- The text of one declaration: `property: value;`, with the mark after the value. -/
def text (d : Declaration) : Text :=
  d.property ++ ": " ++ d.value ++ (if d.important then ' ' :: marker else []) ++ ";"

/-- The text of several declarations, on one line. -/
def render (ds : List Declaration) : Text := Text.join " " (ds.map text)

/-- Reads one declaration: semicolons at the end are left out, the first colon ends the property,
    and one mark at the end of the value is taken off. Without a property or a value it is none. -/
def parse? (t : Text) : Option Declaration :=
  let body := Text.strip (Text.dropTailWhile (· = ';') (Text.strip t))
  match Text.cut? ':' body with
  | none => none
  | some (before, after) =>
    let property := Text.strip before
    let marked := Text.strip after
    let important := marker.isSuffixOf marked
    let value :=
      if important then Text.strip (marked.take (marked.length - marker.length)) else marked
    if property.isEmpty || value.isEmpty then none else some ⟨property, value, important⟩

/-- Reads the declarations between semicolons; what is none is left out. -/
def parseAll (t : Text) : List Declaration := (List.splitOn ';' t).filterMap parse?

end Declaration

end OutlineMarkup
