/-
  File:      OutlineMarkup/Style/Group.lean
  Subject:   Declarations put together: by property, and by category.
-/
import OutlineMarkup.Style.Declaration
import OutlineMarkup.Style.Key
import OutlineMarkup.Table

namespace OutlineMarkup

/-- Declarations by property: a later one for a property takes the place of the earlier one. -/
abbrev Declarations := Table Text Declaration

/-- Adds declarations one after the other. -/
def Declarations.addAll (t : Declarations) (ds : List Declaration) : Declarations :=
  t.insertAll (ds.map fun d => (d.property, d))

/-- The text of the declarations in order of their properties' first arrival. -/
def Declarations.text (t : Declarations) : Text := Declaration.render t.values

/-- Declarations by category, and in each by property. -/
structure StyleGroups where
  groups : Table Category Declarations
  deriving DecidableEq, Repr

namespace StyleGroups

/-- No declarations at all. -/
def empty : StyleGroups := ⟨.empty⟩

/-- Adds declarations under a category; without any, nothing changes. -/
def add (g : StyleGroups) (category : Category) (ds : List Declaration) : StyleGroups :=
  if ds.isEmpty then g
  else ⟨g.groups.alter category fun old => Declarations.addAll (old.getD .empty) ds⟩

/-- The text of each category's declarations, in order of the categories' first arrival. -/
def texts (g : StyleGroups) : List Text := g.groups.values.map Declarations.text

/-- Whether there is no declaration. -/
def isEmpty (g : StyleGroups) : Bool := g.groups.isEmpty

end StyleGroups

end OutlineMarkup
