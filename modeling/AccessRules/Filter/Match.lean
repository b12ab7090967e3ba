import AccessRules.Condition
import AccessRules.Filter.Error
import AccessRules.Filter.Path
import AccessRules.Value.Compare
import AccessRules.Value.Kind

/-! Filters and the documents they accept. A field condition holds of the values that its path
reaches; the fields of a filter and the operators on a field all have to hold, in order, and the
first that does not hold ends the evaluation. -/
namespace AccessRules.Filter

open AccessRules.Path (expanded documents elements)

variable [Pattern.Engine]

/-- The values that a field condition is about. -/
abbrev Leaves := List (Option Value)

/-- Some value equals the expected one; a missing field equals null. -/
def someEquals (leaves : Leaves) (expected : Value) : Bool :=
  (expanded leaves).any fun
    | some value => value.agrees expected
    | none => match expected with
      | .atom .null => true
      | _ => false

def someOrdered (leaves : Leaves) (operand : Value) (accept : Ordering → Bool) : Bool :=
  (expanded leaves).any fun
    | some value => (value.order? operand).any accept
    | none => false

def someMatches (leaves : Leaves) (expression : Pattern.Engine.Expression) : Bool :=
  (expanded leaves).any fun
    | some (.atom (.text s)) => Pattern.Engine.search expression s
    | _ => false

def compilePattern (source options : String) : Except FilterError Pattern.Engine.Expression :=
  (Pattern.compile source options).mapError fun fault =>
    .invalidOperand Operator.regex.token (.pattern fault)

def someListed (leaves : Leaves) : List Value → Except FilterError Bool
  | [] => pure false
  | .atom (.pattern source options) :: rest => do
    if someMatches leaves (← compilePattern source options) then pure true
    else someListed leaves rest
  | item :: rest => if someEquals leaves item then pure true else someListed leaves rest

def requireArray (key : String) : Value → Except FilterError (List Value)
  | .array items => pure items
  | _ => throw (.invalidOperand key .notArray)

def allPresent (leaves : Leaves) (items : List Value) : Bool :=
  !items.isEmpty && items.all (someEquals leaves)

def requireInteger (key : String) : Value → Except FilterError Int
  | .atom (.int32 n) => pure n.toInt
  | .atom (.int64 n) => pure n.toInt
  | _ => throw (.invalidOperand key .notInteger)

def someSized (leaves : Leaves) (size : Int) : Bool :=
  leaves.any fun
    | some (.array items) => decide ((items.length : Int) = size)
    | _ => false

def kindsOf (key : String) : Value → Except FilterError (List Int)
  | .atom (.int32 code) => pure [code.toInt]
  | .atom (.int64 code) =>
    if -0x80000000 ≤ code.toInt ∧ code.toInt ≤ 0x7fffffff then pure [code.toInt]
    else throw (.invalidOperand key .kindRange)
  | .atom (.text name) =>
    match kindsOfName? name with
    | some codes => pure codes
    | none => throw (.invalidOperand key (.unknownAlias name))
  | _ => throw (.invalidOperand key .notKind)

def operandKinds (key : String) : Value → Except FilterError (List Int)
  | .array items => List.flatten <$> items.mapM (kindsOf key)
  | item => kindsOf key item

def someOfKind (leaves : Leaves) (codes : List Int) : Bool :=
  (expanded leaves).any fun
    | some value => codes.contains value.kind
    | none => false

def optionsText? (operators : Document) : Option String :=
  match operators.lookup Operator.options.token with
  | some (.atom (.text s)) => some s
  | _ => none

/-- The pattern of a pattern operator; options beside it replace the operand's own. -/
def patternOperand (key : String) (operators : Document) :
    Value → Except FilterError Pattern.Engine.Expression
  | .atom (.text source) => compilePattern source ((optionsText? operators).getD "")
  | .atom (.pattern source options) => compilePattern source ((optionsText? operators).getD options)
  | _ => throw (.invalidOperand key .notPattern)

def requireFilters (key : String) (items : List Value) : Except FilterError Unit :=
  if items.isEmpty then throw (.invalidOperand key .emptyArray)
  else if items.all fun | .document _ => true | _ => false then pure ()
  else throw (.invalidOperand key .notDocuments)

def operandHolds (all : Document) (key : String) (op : Option Operator) (operand : Value)
    (leaves : Leaves) : Except FilterError Bool :=
  match op with
  | some .eq => pure (someEquals leaves operand)
  | some .ne => pure (!someEquals leaves operand)
  | some .gt => pure (someOrdered leaves operand Ordering.isGT)
  | some .gte => pure (someOrdered leaves operand Ordering.isGE)
  | some .lt => pure (someOrdered leaves operand Ordering.isLT)
  | some .lte => pure (someOrdered leaves operand Ordering.isLE)
  | some .isIn => do someListed leaves (← requireArray key operand)
  | some .notIn => do pure (!(← someListed leaves (← requireArray key operand)))
  | some .all => do pure (allPresent leaves (← requireArray key operand))
  | some .size => do pure (someSized leaves (← requireInteger key operand))
  | some .present => pure (leaves.any Option.isSome == operand.isAffirmative)
  | some .type => do pure (someOfKind leaves (← operandKinds key operand))
  | some .regex => do pure (someMatches leaves (← patternOperand key all operand))
  | some .options =>
    if all.hasKey Operator.regex.token then pure true else throw (.invalidOperand key .optionsAlone)
  | some .not =>
    match operand with
    | .atom (.pattern source options) => do
      pure (!someMatches leaves (← compilePattern source options))
    | _ => throw (.invalidOperand key .notDocumentOrPattern)
  | some .elemMatch => throw (.invalidOperand key .notDocument)
  | _ => throw (.unsupportedOperator key)

def atomHolds (leaves : Leaves) : Atom → Except FilterError Bool
  | .pattern source options => do pure (someMatches leaves (← compilePattern source options))
  | expected => pure (someEquals leaves (.atom expected))

/-- Why an operator key cannot stand beside anything but filters. -/
def misplaced (key : String) (op : Operator) : FilterError :=
  if op.combinesFilters then .invalidOperand key .notArray else .unsupportedOperator key

mutual

def holds : List (String × Value) → Document → Except FilterError Bool
  | [], _ => pure true
  | (key, condition) :: rest, entity => do
    if ← fieldHolds key condition entity then holds rest entity else pure false
termination_by structural filter => filter

def fieldHolds (key : String) : Value → Document → Except FilterError Bool
  | .atom a, entity =>
    match Operator.ofKey? key with
    | none => atomHolds (Path.leaves entity key) a
    | some op => throw (misplaced key op)
  | .array items, entity =>
    match Operator.ofKey? key with
    | none => pure (someEquals (Path.leaves entity key) (.array items))
    | some .and => do
      requireFilters key items
      pure (!(← anyFails items entity))
    | some .or => do
      requireFilters key items
      anyHolds items entity
    | some .nor => do
      requireFilters key items
      pure (!(← anyHolds items entity))
    | some _ => throw (.unsupportedOperator key)
  | .document doc, entity =>
    match Operator.ofKey? key with
    | none =>
      if isOperatorExpression doc then operatorsHold doc doc (Path.leaves entity key)
      else pure (someEquals (Path.leaves entity key) (.document doc))
    | some op => throw (misplaced key op)
  | .scopedCode source scope, entity =>
    match Operator.ofKey? key with
    | none => pure (someEquals (Path.leaves entity key) (.scopedCode source scope))
    | some op => throw (misplaced key op)
termination_by structural condition => condition

def anyHolds : List Value → Document → Except FilterError Bool
  | [], _ => pure false
  | .document filter :: rest, entity => do
    if ← holds filter entity then pure true else anyHolds rest entity
  | _ :: rest, entity => anyHolds rest entity
termination_by structural filters => filters

def anyFails : List Value → Document → Except FilterError Bool
  | [], _ => pure false
  | .document filter :: rest, entity => do
    if ← holds filter entity then anyFails rest entity else pure true
  | _ :: rest, entity => anyFails rest entity
termination_by structural filters => filters

/-- Whether every operator of a list holds; `all` is the whole operator document. -/
def operatorsHold (all : Document) : List (String × Value) → Leaves → Except FilterError Bool
  | [], _ => pure true
  | (key, operand) :: rest, leaves => do
    if ← operatorHolds all key operand leaves then operatorsHold all rest leaves else pure false
termination_by structural operators => operators

/-- One operator. Only the negation and the element operator look into filters. -/
def operatorHolds (all : Document) (key : String) : Value → Leaves → Except FilterError Bool
  | .document doc, leaves =>
    match Operator.ofKey? key with
    | some .not => do
      if isOperatorExpression doc then pure (!(← operatorsHold doc doc leaves))
      else pure (!(← (documents leaves).anyM fun element => holds doc element))
    | some .elemMatch =>
      (elements leaves).anyM fun item =>
        if isOperatorExpression doc then operatorsHold doc doc [some item]
        else match item with
          | .document element => holds doc element
          | _ => pure false
    | op => operandHolds all key op (.document doc) leaves
  | .atom a, leaves => operandHolds all key (Operator.ofKey? key) (.atom a) leaves
  | .array items, leaves => operandHolds all key (Operator.ofKey? key) (.array items) leaves
  | .scopedCode source scope, leaves =>
    operandHolds all key (Operator.ofKey? key) (.scopedCode source scope) leaves
termination_by structural operand => operand

end

def conditionHolds (leaves : Leaves) : Value → Except FilterError Bool
  | .document doc =>
    if isOperatorExpression doc then operatorsHold doc doc leaves
    else pure (someEquals leaves (.document doc))
  | .atom a => atomHolds leaves a
  | expected => pure (someEquals leaves expected)

theorem fieldHolds_path {key : String} (h : Operator.ofKey? key = none) (condition : Value)
    (entity : Document) :
    fieldHolds key condition entity = conditionHolds (Path.leaves entity key) condition := by
  cases condition <;> simp [fieldHolds, conditionHolds, h]

end AccessRules.Filter
