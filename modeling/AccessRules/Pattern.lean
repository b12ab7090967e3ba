/-! Patterns: a regular expression in text with a string of option letters. What regular expressions
are and what they match is up to an engine. -/
namespace AccessRules

inductive PatternFault where
  | unsupportedOption (letter : Char)
  | syntaxFault
  deriving DecidableEq, Repr

namespace Pattern

structure Options where
  caseless : Bool := false
  multiLine : Bool := false
  dotAll : Bool := false
  verbose : Bool := false
  deriving DecidableEq, Repr

/-- An engine for regular expressions: some texts are expressions to it, and those it looks for in
others. -/
class Engine where
  Expression : Type
  compile? : Options → String → Option Expression
  search : Expression → String → Bool

def readOptions (letters : String) : Except PatternFault Options :=
  letters.toList.foldlM (fun (options : Options) letter =>
    match letter with
    | 'i' => .ok { options with caseless := true }
    | 'm' => .ok { options with multiLine := true }
    | 's' => .ok { options with dotAll := true }
    | 'x' => .ok { options with verbose := true }
    | other => .error (.unsupportedOption other)) {}

/-- Options are judged before the pattern itself. -/
def compile [Engine] (source options : String) : Except PatternFault Engine.Expression := do
  let options ← readOptions options
  match Engine.compile? options source with
  | some expression => pure expression
  | none => throw .syntaxFault

end Pattern
end AccessRules
