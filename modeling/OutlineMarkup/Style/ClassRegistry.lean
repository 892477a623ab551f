/-
  File:      OutlineMarkup/Style/ClassRegistry.lean
  Subject:   Class names for declarations.

  Declarations of the same canonical form share one class, and no two forms do. The name of a class
  is the stem followed by the absolute value of the form's hash in base 36; where that name is
  taken, the first free one of `-1`, `-2`, ... follows it.
-/
import OutlineMarkup.Fault
import OutlineMarkup.Style.Canonical
import OutlineMarkup.Text.Numeral

namespace OutlineMarkup

/-- The classes named so far: each canonical form with its name, oldest first. -/
structure ClassRegistry where
  stem : Text
  bindings : List (Text × Text) := []
  deriving DecidableEq, Repr

namespace ClassRegistry

/-- The name of a canonical form, if it has one. -/
def nameOf? (r : ClassRegistry) (form : Text) : Option Text := r.bindings.lookup form

/-- The canonical form that a name stands for, if there is one. -/
def formOf? (r : ClassRegistry) (name : Text) : Option Text :=
  (r.bindings.find? fun b => b.2 == name).map Prod.fst

/-- The names given so far, oldest first. -/
def names (r : ClassRegistry) : List Text := r.bindings.map Prod.snd

/-- The number of names given so far. -/
def size (r : ClassRegistry) : Nat := r.bindings.length

/-- Whether declarations have a name. -/
def contains (r : ClassRegistry) (declarations : Text) : Bool :=
  (r.nameOf? (Style.canonical declarations)).isSome

/-- The name wanted for a canonical form. -/
def baseName (stem form : Text) : Text := stem ++ Text.base36 (Style.hash form).natAbs

/-- The `k`-th choice for a name: the wanted name itself, then the name with a number. -/
def candidate (base : Text) (k : Nat) : Text :=
  if k = 0 then base else base ++ "-" ++ Text.ofNat k

/-- The first choice that is not taken. There is one among the first `taken.length + 1`, because the
    choices all differ. -/
def freshName (base : Text) (taken : List Text) : Text :=
  let choices := (List.range (taken.length + 1)).map (candidate base)
  (choices.find? fun name => !taken.contains name).getD base

/-- The name of declarations, and the registry that knows it. Declarations that come to nothing have
    no name. -/
def classFor (r : ClassRegistry) (declarations : Text) : Except Fault (Text × ClassRegistry) :=
  let form := Style.canonical declarations
  if form.isEmpty then .error .emptyDeclarations
  else
    match r.nameOf? form with
    | some name => .ok (name, r)
    | none =>
      let name := freshName (baseName r.stem form) r.names
      .ok (name, { r with bindings := r.bindings ++ [(form, name)] })

end ClassRegistry

end OutlineMarkup
