import AccessRules.Pattern

/-! Why a filter cannot be evaluated. -/
namespace AccessRules

inductive OperandFault where
  | notArray
  | emptyArray
  | notDocuments
  | notInteger
  | notKind
  | kindRange
  | unknownAlias (name : String)
  | notPattern
  | pattern (fault : PatternFault)
  | optionsAlone
  | notDocumentOrPattern
  | notDocument
  deriving DecidableEq, Repr

def OperandFault.message : OperandFault → String
  | notArray => "expected an array"
  | emptyArray => "expected a non-empty array"
  | notDocuments => "expected an array of documents"
  | notInteger => "expected an integer"
  | notKind => "expected a type code or alias"
  | kindRange => "type code out of range"
  | unknownAlias name => "unknown type alias `" ++ name ++ "`"
  | notPattern => "expected a pattern"
  | pattern (.unsupportedOption letter) => "unsupported option `" ++ letter.toString ++ "`"
  | pattern .syntaxFault => "<syntax>"
  | optionsAlone => "requires $regex"
  | notDocumentOrPattern => "expected a document or a regex"
  | notDocument => "expected a document"

inductive FilterError where
  | unsupportedOperator (key : String)
  | invalidOperand (operator : String) (fault : OperandFault)
  deriving DecidableEq, Repr

def FilterError.message : FilterError → String
  | unsupportedOperator key => "unsupported query operator: " ++ key
  | invalidOperand operator fault => "invalid operand for " ++ operator ++ ": " ++ fault.message

end AccessRules
