/-
  File:      OutlineMarkup/Diagnostic.lean
  Subject:   What the compiler has to say about a document.

  A `Finding` is one thing that was found, as a value; its rule name, severity, wording and advice
  are functions of it. A `Diagnostic` is a finding with the line it belongs to. `Reported` is a
  result together with the diagnostics met on the way to it, oldest first.
-/
import OutlineMarkup.Text.Numeral

namespace OutlineMarkup

/-- How much a finding matters: warnings are recoveries that may lose something, infos are not. -/
inductive Severity where
  | warning
  | info
  deriving DecidableEq, Repr

/-- The name of a severity. -/
def Severity.label : Severity → Text
  | .warning => "WARNING"
  | .info => "INFO"

/-- One thing found in a document. -/
inductive Finding where
  /-- A line starts with `$` and is no declaration. -/
  | invalidVariable (text : Text)
  /-- A variable is used and has no value. -/
  | undeclaredVariable (name : Text)
  /-- An element line starts with a code that is not known. -/
  | unknownElement (code : Text)
  /-- A word of an element line has no meaning. -/
  | skippedElementWord (word : Text)
  /-- A word of a directive's rule line has no meaning. -/
  | skippedRuleWord (word : Text)
  /-- An `aria` value is not a name and a value. -/
  | invalidAria (value : Text)
  /-- A key that is no style key was kept as an attribute. -/
  | literalAttribute (key : Text)
  /-- A block is closed that was never opened. -/
  | strayBrace
  /-- A block ended because a line stands left of it. -/
  | dedentedBlock
  /-- A block ended because the document did. -/
  | unclosedBlock
  /-- A directive's block ended because the document did. -/
  | unclosedDirective (header : Text)
  /-- A directive that styles an element stands before any element. -/
  | orphanDirective (header : Text)
  /-- A directive is not known. -/
  | unknownDirective (header : Text)
  /-- A rule line of a directive has no effect. -/
  | emptyRule (text : Text)
  /-- Keyframes have no name. -/
  | unnamedKeyframes
  /-- A line of keyframes does not start with a step. -/
  | invalidStep (word : Text)
  /-- A key of a directive's rule line is no style key. -/
  | unknownStyleKey (key : Text)
  /-- Something worded by the caller. -/
  | remark (rule : Text) (severity : Severity) (message : Text) (fix : Option Text)
  deriving DecidableEq, Repr

namespace Finding

/-- The name of the rule that a finding falls under. -/
def rule : Finding → Text
  | .invalidVariable _ => "invalid-variable"
  | .undeclaredVariable _ => "undeclared-variable"
  | .unknownElement _ => "unknown-element"
  | .skippedElementWord _ | .skippedRuleWord _ => "skipped-token"
  | .invalidAria _ => "invalid-aria"
  | .literalAttribute _ => "literal-attribute"
  | .strayBrace => "stray-brace"
  | .dedentedBlock | .unclosedBlock | .unclosedDirective _ => "unterminated-block"
  | .orphanDirective _ => "orphan-directive"
  | .unknownDirective _ => "unknown-directive"
  | .emptyRule _ => "empty-directive-rule"
  | .unnamedKeyframes => "missing-keyframes-name"
  | .invalidStep _ => "keyframe-step"
  | .unknownStyleKey _ => "unknown-style-key"
  | .remark rule _ _ _ => rule

/-- The severity of a finding: only unknown codes and literal attributes are mere notes. -/
def severity : Finding → Severity
  | .unknownElement _ | .literalAttribute _ => .info
  | .remark _ severity _ _ => severity
  | _ => .warning

/-- The wording of a finding. -/
def message : Finding → Text
  | .invalidVariable text =>
    "Variable line '" ++ text ++ "' is not of the form $name=value; skipped."
  | .undeclaredVariable name => "Variable '$" ++ name ++ "' is referenced but never declared."
  | .unknownElement code =>
    "Element type '" ++ code ++ "' is not recognized; treated as a generic container."
  | .skippedElementWord word =>
    "Token '" ++ word ++ "' is not an id, class or key=value pair; skipped."
  | .skippedRuleWord word => "Token '" ++ word ++ "' is not a key=value pair; skipped."
  | .invalidAria value => "aria value '" ++ value ++ "' is not of the form name:value; skipped."
  | .literalAttribute key =>
    "Key '" ++ key ++ "' is not a style key; kept as a literal attribute."
  | .strayBrace => "Closing '\x7d' without an open block; ignored."
  | .dedentedBlock => "Block was not closed before a dedent; closed implicitly."
  | .unclosedBlock => "Block was not closed; closed at end of input."
  | .unclosedDirective header =>
    "Directive '" ++ header ++ "' was not closed; closed at end of input."
  | .orphanDirective header =>
    "Directive '" ++ header ++ "' has no preceding element in its block; skipped."
  | .unknownDirective header =>
    "Directive '" ++ header ++ "' is not recognized; its block was skipped."
  | .emptyRule text => "Rule '" ++ text ++ "' produced no declarations."
  | .unnamedKeyframes => "@keyframes directive has no animation name; block skipped."
  | .invalidStep word =>
    "'" ++ word ++ "' is not a keyframe step (expected N%, from or to); line skipped."
  | .unknownStyleKey key =>
    "Style key '" ++ key ++ "' is not recognized inside a directive; ignored."
  | .remark _ _ message _ => message

/-- The advice that goes with a finding, if there is any. -/
def fix : Finding → Option Text
  | .undeclaredVariable name => some ("Declare it with a line like '$" ++ name ++ "=value'.")
  | .dedentedBlock | .unclosedBlock | .unclosedDirective _ => some "Add a closing '\x7d' line."
  | .orphanDirective _ => some "Place the directive after the element it styles."
  | .unknownDirective _ =>
    some "Use @mobile, @tablet, @maxw=<px>, @minw=<px> or @keyframes <name>."
  | .remark _ _ _ fix => fix
  | _ => none

end Finding

/-- A finding and the number of the line it belongs to, if it belongs to one. -/
structure Diagnostic where
  finding : Finding
  line : Option Int := none
  deriving DecidableEq, Repr

namespace Diagnostic

/-- Whether the finding is a warning. -/
def isWarning (d : Diagnostic) : Bool := d.finding.severity == .warning

/-- Where a diagnostic points; line 0 is no line. -/
def location : Option Int → Text
  | some n => if n = 0 then [] else " [line=" ++ Text.ofInt n ++ "]"
  | none => []

/-- A diagnostic as one line of text. -/
def text (d : Diagnostic) : Text :=
  d.finding.severity.label ++ location d.line ++ ": " ++ d.finding.message

end Diagnostic

/-! ## Results with diagnostics -/

/-- A result and the diagnostics met on the way to it, oldest first. -/
structure Reported (α : Type) where
  value : α
  diagnostics : List Diagnostic
  deriving DecidableEq, Repr

namespace Reported

/-- Does one thing after the other; what the first reports stands before what the second does. -/
def andThen {α β : Type} (x : Reported α) (f : α → Reported β) : Reported β :=
  ⟨(f x.value).value, x.diagnostics ++ (f x.value).diagnostics⟩

instance : Monad Reported where
  pure a := ⟨a, []⟩
  bind := andThen

/-- Reports one finding. -/
def report (finding : Finding) (line : Option Int) : Reported Unit := ⟨(), [⟨finding, line⟩]⟩

instance : LawfulMonad Reported :=
  LawfulMonad.mk' Reported
    (fun x => congrArg (Reported.mk x.value) (List.append_nil x.diagnostics))
    (fun _ _ => rfl)
    (fun x f g => congrArg (Reported.mk (g (f x.value).value).value)
      (List.append_assoc x.diagnostics (f x.value).diagnostics (g (f x.value).value).diagnostics))

@[simp] theorem value_pure {α : Type} (a : α) : (pure a : Reported α).value = a := rfl

@[simp] theorem diagnostics_pure {α : Type} (a : α) : (pure a : Reported α).diagnostics = [] := rfl

@[simp] theorem value_bind {α β : Type} (x : Reported α) (f : α → Reported β) :
    (x >>= f).value = (f x.value).value := rfl

@[simp] theorem diagnostics_bind {α β : Type} (x : Reported α) (f : α → Reported β) :
    (x >>= f).diagnostics = x.diagnostics ++ (f x.value).diagnostics := rfl

end Reported

end OutlineMarkup
