import AccessRules.Filter.Match
import AccessRules.Resolution

/-! Checks of one entity against clauses. Every element of an embedded relation has to satisfy what
is asked of elements; where there is none, a blank element is judged in its place. A plain
subdocument is entered the same way, unless its conditions can only be read as dotted paths. -/
namespace AccessRules
variable [Pattern.Engine]

/-- A field without content: missing, null, or an empty array. -/
def isVacant : Option Value → Bool
  | none => true
  | some (.atom .null) => true
  | some (.array []) => true
  | _ => false

/-- Whether conditions inside a field are dotted paths only: one of them is a position in an array,
or the stored value holds something other than documents. -/
def isPathOnly (inside : List Clause) (value : Option Value) : Bool :=
  inside.any (fun clause => (Text.position? clause.key).isSome) ||
    match value with
    | none => false
    | some (.atom .null) => false
    | some (.document _) => false
    | some (.array items) => items.any fun
      | .document _ => false
      | _ => true
    | some _ => true

def everyDocument (items : List Value) (holds : Document → Except FilterError Bool) :
    Except FilterError Bool :=
  items.allM fun
    | .document element => holds element
    | _ => pure false

def afterOwn (clauses : List Clause) (entity : Document) (rest : Except FilterError Bool) :
    Except FilterError Bool := do
  if ← Filter.holds (Clause.ownSelector clauses).document entity then rest else pure false

mutual

/-- Whether an entity satisfies one clause; direct clauses are taken together elsewhere. -/
def Clause.holds (schema : Schema) : Clause → Document → Except FilterError Bool
  | .field _ _, _ => pure true
  | .foreignKey _ _, _ => pure true
  | .embedded key element inside, entity =>
    let satisfied := fun doc => afterOwn inside doc (Clause.allHold schema inside doc)
    let value := entity.lookup key
    if isVacant value then satisfied (schema.blank element)
    else match value with
      | some (.array items) => everyDocument items satisfied
      | _ => pure false
  | .path key inside, entity =>
    let satisfied := fun doc => afterOwn inside doc (Clause.allHold schema inside doc)
    let value := entity.lookup key
    if isPathOnly inside value then Filter.holds (Clause.document [.path key inside]) entity
    else if isVacant value then satisfied []
    else match value with
      | some (.array items) => everyDocument items satisfied
      | some (.document element) => satisfied element
      | _ => pure false

def Clause.allHold (schema : Schema) : List Clause → Document → Except FilterError Bool
  | [], _ => pure true
  | clause :: rest, entity => do
    if ← clause.holds schema entity then Clause.allHold schema rest entity else pure false

end

def satisfies (schema : Schema) (clauses : List Clause) (entity : Document) :
    Except FilterError Bool :=
  afterOwn clauses entity (Clause.allHold schema clauses entity)

def check (schema : Schema) (store : Store) (type : EntityType) (conditions : Tree)
    (entity : Document) : Run Bool := do
  let clauses ← resolve schema store type conditions
  Run.ofFilter (satisfies schema clauses entity)

end AccessRules
