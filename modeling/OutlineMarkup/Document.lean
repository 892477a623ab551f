/-
  File:      OutlineMarkup/Document.lean
  Subject:   Compiling a document.

  Three passes over the lines: variables are taken out, then the directives at column 0, and what is
  left is the body. The draft after each pass is kept, so that the log can tell what each one did.
-/
import OutlineMarkup.Outline.Scope
import OutlineMarkup.Variable

namespace OutlineMarkup

/-- A compiled document. -/
structure Compiled where
  root : Tree Element
  stylesheet : Text
  diagnostics : List Diagnostic
  deriving DecidableEq, Repr

/-- The number of warnings. -/
def Compiled.warnings (c : Compiled) : Nat := (c.diagnostics.filter Diagnostic.isWarning).length

/-- The passes of a compile: the draft after each of them, the body's forest, and the number of the
    body's lines. -/
structure Passes where
  afterVariables : Draft
  afterDirectives : Draft
  afterBody : Draft
  forest : Forest Element
  bodyLines : Nat
  deriving DecidableEq, Repr

namespace Passes

/-- Runs the passes on lines. -/
def ofLines (config : Config) (lines : List Line) : Except Fault Passes := do
  let (afterVariables, lines) := (Draft.empty config).takeVariables lines
  let (blocks, lines) := Directive.takeTopLevel config 0 lines
  let afterDirectives ← afterVariables.addTopLevel blocks
  let (forest, afterBody) ← afterDirectives.readBody lines
  return { afterVariables, afterDirectives, afterBody, forest, bodyLines := lines.length }

/-- Runs the passes on a source, where a tab is one unit of indentation. -/
def run (config : Config) (source : Text) : Except Fault Passes := do
  ofLines config (← Line.read config.indentUnit source)

/-- The compiled document: under the root stands the body without the elements that say nothing. -/
def result (p : Passes) : Compiled where
  root := ⟨{ tag := "div", id := p.afterBody.config.rootId }, p.forest.prune⟩
  stylesheet := p.afterBody.stylesheet
  diagnostics := p.afterBody.diagnostics

end Passes

/-- Compiles a source. -/
def compile (config : Config) (source : Text) : Except Fault Compiled := do
  return (← Passes.run config source).result

end OutlineMarkup
