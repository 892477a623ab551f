/-
  File:      OutlineMarkup/Directive/Process.lean
  Subject:   What directives add to a draft, at the top of a document and inside its element tree.
-/
import OutlineMarkup.Directive.Keyframes
import OutlineMarkup.Directive.Media

namespace OutlineMarkup.Draft

open Directive

/-- Reports a directive that was not closed. -/
def reportUnclosed (d : Draft) (block : Block) : Draft :=
  if block.terminated then d else d.report (.unclosedDirective block.header.text) block.line

/-- Adds the rules of a media directive as one fragment, unless there are none. -/
def addMedia (d : Draft) (query : Text) (lines : List Line) : Except Fault Draft := do
  let (rules, d) ← mediaRules d lines
  return if rules.isEmpty then d
    else { d with fragments := d.fragments ++ [rules.renderMedia query] }

/-- Adds what a directive at the top of a document says. -/
def addBlock (d : Draft) (block : Block) : Except Fault Draft :=
  match block.header.kind with
  | .media query => d.addMedia query block.lines
  | .keyframes (some name) => .ok (addKeyframes d name block.lines)
  | .keyframes none => .ok (d.report .unnamedKeyframes block.line)
  | .unknown => .ok (d.report (.unknownDirective block.header.text) block.line)

/-- Adds the directives at the top of a document, in order. -/
def addTopLevel (d : Draft) (blocks : List Block) : Except Fault Draft :=
  blocks.foldlM (fun d block => (d.reportUnclosed block).addBlock block) d

/-! ## Directives inside the element tree -/

/-- The words of a line that can style the element before it: the line has an assignment and does
    not start with a selector; a first word that is no assignment is left out. -/
def inlineWords? (line : Line) : Option (List Text) :=
  match contentTokens line with
  | [] => none
  | first :: rest =>
    let assigns := fun w => (Token.assignment? w).isSome
    if Token.isSelector first || !(first :: rest).any assigns then none
    else some (if assigns first then first :: rest else rest)

/-- What the first line declares that declares anything; the lines before it may report something.
    -/
def inlineDeclarations (d : Draft) : List Line → Reported Declarations
  | [] => pure .empty
  | line :: lines =>
    match inlineWords? line with
    | none => inlineDeclarations d lines
    | some words => do
      let resolved ← resolveWords d .forced line.number words
      let merged := Declarations.addAll .empty (resolved.flatMap Prod.snd)
      if merged.isEmpty then inlineDeclarations d lines else return merged

/-- Styles the element before a media directive: its class, if the directive declares anything. -/
def styleInline (d : Draft) (query : Text) (lines : List Line) :
    Except Fault (Option Text × Draft) := do
  let found := d.inlineDeclarations lines
  let d := d.absorb found
  if found.value.isEmpty then return (none, d)
  let declarations := found.value.text
  let (name, d) ← d.classFor declarations
  return (some name, d.addMediaRule query name declarations)

/-- Adds what a directive inside the element tree says. The result is the class for the element
    before it; `hasTarget` says whether there is one. Only media directives style an element, the
    others have the effect that they have at the top. -/
def addInline (d : Draft) (block : Block) (hasTarget : Bool) :
    Except Fault (Option Text × Draft) := do
  let d := d.reportUnclosed block
  match block.header.kind with
  | .media query =>
    if hasTarget then d.styleInline query block.lines
    else return (none, d.report (.orphanDirective block.header.text) block.line)
  | _ => return (none, ← d.addBlock block)

end OutlineMarkup.Draft
