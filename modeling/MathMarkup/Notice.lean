import MathMarkup.Text

/-!
# Notices

What is reported while macros are registered and markup is expanded. A notice holds the cause;
its severity and its wording are functions of the cause.
-/

namespace MathMarkup

inductive Severity where
  | debug
  | info
  | warning
  deriving DecidableEq, Repr

def Severity.name : Severity → String
  | .debug => "DEBUG"
  | .info => "INFO"
  | .warning => "WARNING"

def macroText (name : Text) : String := "\\" ++ String.ofList name

inductive Notice where
  | registered (name : Text) (kind : String)
  /-- A macro was not stored because its name is taken. -/
  | skipped (name : Text)
  | missingArguments (name : Text) (arity : Nat)
  | handlerFailed (name : Text)
  | unsupportedReply (name : Text) (kind : String)
  | budgetSpent (name : Text)
  | tooDeep (limit : Nat)
  | noSegment
  deriving DecidableEq, Repr

namespace Notice

def severity : Notice → Severity
  | registered .. | missingArguments .. | noSegment => .debug
  | skipped .. => .info
  | handlerFailed .. | unsupportedReply .. | budgetSpent .. | tooDeep .. => .warning

def message : Notice → String
  | registered name kind => "Registered macro: " ++ macroText name ++ " (" ++ kind ++ ")"
  | skipped name => "Skipping macro " ++ macroText name ++ ": already defined"
  | missingArguments name arity =>
    macroText name ++ " expects " ++ toString arity ++ " argument(s)"
  | handlerFailed name => "Macro " ++ macroText name ++ " raised an error"
  | unsupportedReply name kind => "Macro " ++ macroText name ++ " returned unsupported " ++ kind
  | budgetSpent name => "Macro expansion limit reached at " ++ macroText name
  | tooDeep limit => "Macro nesting deeper than " ++ toString limit ++ " levels"
  | noSegment => "No \\math ... \\endmath span found"

end Notice

end MathMarkup
