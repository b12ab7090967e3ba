import AccessRules.Proofs.Join

/-! The grammar of filters that can be evaluated. An operator has an operand of the form it takes,
patterns compile for the engine, and what is nested is of the grammar again; a filter like this is
evaluated without an error on every entity, so a search for it ends with the documents that it
accepts. -/
namespace AccessRules

def Succeeds {ε α : Type} (result : Except ε α) : Prop := ∃ a, result = .ok a

namespace Succeeds
variable {ε α β : Type} {r s : Except ε Bool}

theorem pure (a : α) : Succeeds (pure a : Except ε α) := ⟨a, rfl⟩

theorem bind {run : Except ε α} {next : α → Except ε β} (h : Succeeds run)
    (hnext : ∀ a, Succeeds (next a)) : Succeeds (run >>= next) := by
  obtain ⟨a, rfl⟩ := h
  exact hnext a

theorem andThen (hr : Succeeds r) (hs : Succeeds s) :
    Succeeds (do if ← r then s else Pure.pure false) :=
  hr.bind fun b => by cases b <;> first | exact hs | exact pure false

theorem orElse (hr : Succeeds r) (hs : Succeeds s) :
    Succeeds (do if ← r then Pure.pure true else s) :=
  hr.bind fun b => by cases b <;> first | exact hs | exact pure true

theorem not (h : Succeeds r) : Succeeds (do Pure.pure (!(← r))) :=
  h.bind fun b => pure !b

theorem anyM {f : α → Except ε Bool} {xs : List α} (h : ∀ x ∈ xs, Succeeds (f x)) :
    Succeeds (xs.anyM f) := by
  induction xs with
  | nil => exact pure false
  | cons x xs ih =>
    rw [List.anyM_cons]
    exact (h x List.mem_cons_self).orElse (ih fun y hy => h y (List.mem_cons_of_mem _ hy))

theorem mapM {f : α → Except ε β} {xs : List α} (h : ∀ x ∈ xs, Succeeds (f x)) :
    Succeeds (xs.mapM f) := by
  induction xs with
  | nil => exact pure []
  | cons x xs ih =>
    rw [List.mapM_cons]
    exact (h x List.mem_cons_self).bind fun y =>
      (ih fun z hz => h z (List.mem_cons_of_mem _ hz)).bind fun ys => pure (y :: ys)

end Succeeds

/-- Whether a pattern compiles; options are refused unless they are known letters. -/
def Pattern.compiles [Pattern.Engine] (source options : String) : Bool :=
  (compile source options).isOk

namespace Filter

/-- A value that can be looked for: if it is a pattern, it compiles. -/
def isItem [Pattern.Engine] : Value → Bool
  | .atom (.pattern source options) => Pattern.compiles source options
  | _ => true

def isKind : Value → Bool
  | .atom (.int32 _) => true
  | .atom (.int64 code) => decide (-0x80000000 ≤ code.toInt ∧ code.toInt ≤ 0x7fffffff)
  | .atom (.text name) => (kindsOfName? name).isSome
  | _ => false

/-- Whether an operator takes an operand that holds no filter; `all` is the whole operator
document. -/
def isOperand [Pattern.Engine] (all : Document) (op : Operator) (operand : Value) : Bool :=
  match op with
  | .eq | .ne | .gt | .gte | .lt | .lte | .present => true
  | .isIn | .notIn => match operand with
    | .array items => items.all isItem
    | _ => false
  | .all => match operand with
    | .array _ => true
    | _ => false
  | .size => match operand with
    | .atom (.int32 _) => true
    | .atom (.int64 _) => true
    | _ => false
  | .type => match operand with
    | .array items => items.all isKind
    | item => isKind item
  | .regex => match operand with
    | .atom (.text source) => Pattern.compiles source ((optionsText? all).getD "")
    | .atom (.pattern source options) => Pattern.compiles source ((optionsText? all).getD options)
    | _ => false
  | .options => all.hasKey Operator.regex.token
  | .not => match operand with
    | .atom (.pattern source options) => Pattern.compiles source options
    | _ => false
  | _ => false

mutual

/-- The grammar of filters: conditions on paths, and combinations of filters. -/
def isFilter [Pattern.Engine] : List (String × Value) → Bool
  | [] => true
  | (key, condition) :: rest => isField key condition && isFilter rest
termination_by structural filter => filter

/-- A logical operator with filters, or a path with operators, a pattern that compiles or any value
to equal. -/
def isField [Pattern.Engine] (key : String) : Value → Bool
  | .array items =>
    match Operator.ofKey? key with
    | none => true
    | some op => op.combinesFilters && !items.isEmpty && areFilters items
  | .document doc =>
    !Operator.isToken key && (!isOperatorExpression doc || areOperators doc doc)
  | .atom a => !Operator.isToken key && isItem (.atom a)
  | .scopedCode _ _ => !Operator.isToken key
termination_by structural condition => condition

def areFilters [Pattern.Engine] : List Value → Bool
  | [] => true
  | .document filter :: rest => isFilter filter && areFilters rest
  | _ :: _ => false
termination_by structural filters => filters

def areOperators [Pattern.Engine] (all : Document) : List (String × Value) → Bool
  | [] => true
  | (key, operand) :: rest => isOperator all key operand && areOperators all rest
termination_by structural operators => operators

/-- An operator with its operand. The negation and the element operator take operators, or a filter
that is empty or has a path. -/
def isOperator [Pattern.Engine] (all : Document) (key : String) : Value → Bool
  | .document doc =>
    match Operator.ofKey? key with
    | some .not | some .elemMatch =>
      if isOperatorExpression doc then areOperators doc doc else isFilter doc
    | op => op.any (isOperand all · (.document doc))
  | .atom a => (Operator.ofKey? key).any (isOperand all · (.atom a))
  | .array items => (Operator.ofKey? key).any (isOperand all · (.array items))
  | .scopedCode source scope =>
    (Operator.ofKey? key).any (isOperand all · (.scopedCode source scope))
termination_by structural operand => operand

end

section Operands
variable {leaves : Leaves}

theorem succeeds_compilePattern [Pattern.Engine] {source options : String}
    (h : Pattern.compiles source options = true) : Succeeds (compilePattern source options) := by
  unfold Pattern.compiles at h
  unfold compilePattern
  cases hc : Pattern.compile source options with
  | error fault =>
    rw [hc] at h
    cases h
  | ok expression => exact .pure expression

theorem succeeds_listed [Pattern.Engine] {item : Value} (h : isItem item = true) :
    Succeeds (listed leaves item) := by
  unfold listed
  split
  · exact (succeeds_compilePattern h).bind fun expression => .pure _
  · exact .pure _

theorem succeeds_kindsOf (key : String) {item : Value} (h : isKind item = true) :
    Succeeds (kindsOf key item) := by
  unfold kindsOf
  split
  · exact .pure _
  · rw [if_pos (of_decide_eq_true h)]
    exact .pure _
  · next name =>
    obtain ⟨codes, hcodes⟩ := Option.isSome_iff_exists.mp h
    rw [hcodes]
    exact .pure codes
  · next hint32 hint64 htext =>
    unfold isKind at h
    split at h
    · exact absurd rfl (hint32 _)
    · exact absurd rfl (hint64 _)
    · exact absurd rfl (htext _)
    · cases h

variable [Pattern.Engine]

theorem succeeds_operandKinds (key : String) {operand : Value} {all : Document}
    (h : isOperand all .type operand = true) : Succeeds (operandKinds key operand) := by
  unfold operandKinds
  cases operand with
  | array items =>
    have hitems : Succeeds (items.mapM (kindsOf key)) :=
      .mapM fun item hi => succeeds_kindsOf key (List.all_eq_true.mp h item hi)
    exact hitems.bind fun codes => .pure codes.flatten
  | _ => exact succeeds_kindsOf key h

theorem succeeds_operandHolds (key : String) {all : Document} {op : Operator} {operand : Value}
    (h : isOperand all op operand = true) (leaves : Leaves) :
    Succeeds (operandHolds all key (some op) operand leaves) := by
  cases op with
  | eq | ne | gt | gte | lt | lte | present => exact .pure _
  | isIn | notIn =>
    cases operand with
    | array items =>
      have hlisted : Succeeds (someListed leaves items) := by
        rw [someListed_eq_anyM]
        exact .anyM fun item hi => succeeds_listed (List.all_eq_true.mp h item hi)
      first
        | exact hlisted
        | exact hlisted.not
    | _ => cases h
  | all =>
    cases operand with
    | array items => exact .pure _
    | _ => cases h
  | size =>
    cases operand with
    | atom a =>
      cases a with
      | int32 | int64 => exact .pure _
      | _ => cases h
    | _ => cases h
  | type => exact (succeeds_operandKinds key h).bind fun codes => .pure _
  | regex =>
    cases operand with
    | atom a =>
      cases a with
      | text | pattern => exact (succeeds_compilePattern h).bind fun expression => .pure _
      | _ => cases h
    | _ => cases h
  | options =>
    have hregex : all.hasKey Operator.regex.token = true := h
    rw [operandHolds, if_pos hregex]
    exact .pure true
  | not =>
    cases operand with
    | atom a =>
      cases a with
      | pattern => exact (succeeds_compilePattern h).bind fun expression => .pure _
      | _ => cases h
    | _ => cases h
  | elemMatch | and | or | nor | other => cases h

theorem succeeds_requireFilters (key : String) {items : List Value} (hne : items.isEmpty = false)
    (h : areFilters items = true) : Succeeds (requireFilters key items) := by
  have hfilters : ∃ filters : List Document, items = filters.map .document := by
    clear hne
    induction items with
    | nil => exact ⟨[], rfl⟩
    | cons item rest ih =>
      cases item with
      | document filter =>
        rw [areFilters, Bool.and_eq_true] at h
        obtain ⟨filters, rfl⟩ := ih h.2
        exact ⟨filter :: filters, rfl⟩
      | _ => cases h
  obtain ⟨filters, rfl⟩ := hfilters
  exact ⟨(), requireFilters_documents key fun hnil => by simp [hnil] at hne⟩

end Operands

mutual

theorem succeeds_holds [Pattern.Engine] (filter : Document) (h : isFilter filter = true)
    (entity : Document) : Succeeds (holds filter entity) := by
  match filter with
  | [] => exact .pure true
  | (key, condition) :: rest =>
    rw [isFilter, Bool.and_eq_true] at h
    rw [holds]
    exact (succeeds_fieldHolds key condition h.1 entity).andThen (succeeds_holds rest h.2 entity)
termination_by structural filter

theorem succeeds_fieldHolds [Pattern.Engine] (key : String) (condition : Value)
    (h : isField key condition = true)
    (entity : Document) : Succeeds (fieldHolds key condition entity) := by
  match condition with
  | .array items =>
    rw [isField] at h
    rw [fieldHolds]
    cases hop : Operator.ofKey? key with
    | none => exact .pure _
    | some op =>
      rw [hop] at h
      simp only [Bool.and_eq_true, Bool.not_eq_true'] at h
      have hreq := succeeds_requireFilters key h.1.2 h.2
      have hitems := succeeds_items items h.2 entity
      cases op with
      | and => exact hreq.bind fun _ => hitems.2.not
      | or => exact hreq.bind fun _ => hitems.1
      | nor => exact hreq.bind fun _ => hitems.1.not
      | _ => cases h.1.1
  | .document doc =>
    rw [isField, Bool.and_eq_true, Bool.not_eq_true'] at h
    rw [fieldHolds_path (Operator.ofKey?_eq_none h.1), conditionHolds]
    split
    · next hops =>
      rw [hops] at h
      exact succeeds_operatorsHold doc doc h.2 _
    · exact .pure _
  | .atom a =>
    rw [isField, Bool.and_eq_true, Bool.not_eq_true'] at h
    rw [fieldHolds_path (Operator.ofKey?_eq_none h.1), conditionHolds]
    unfold atomHolds
    split
    · exact (succeeds_compilePattern h.2).bind fun expression => .pure _
    · exact .pure _
  | .scopedCode source scope =>
    rw [isField, Bool.not_eq_true'] at h
    rw [fieldHolds_path (Operator.ofKey?_eq_none h)]
    exact .pure _
termination_by structural condition

theorem succeeds_items [Pattern.Engine] (items : List Value) (h : areFilters items = true)
    (entity : Document) : Succeeds (anyHolds items entity) ∧ Succeeds (anyFails items entity) := by
  match items with
  | [] => exact ⟨.pure false, .pure false⟩
  | .document filter :: rest =>
    rw [areFilters, Bool.and_eq_true] at h
    have hfilter := succeeds_holds filter h.1 entity
    have hrest := succeeds_items rest h.2 entity
    rw [anyHolds, anyFails]
    exact ⟨hfilter.orElse hrest.1, hfilter.bind fun b => by
      cases b with
      | false => exact .pure true
      | true => exact hrest.2⟩
  | .atom _ :: _ | .array _ :: _ | .scopedCode _ _ :: _ => cases h
termination_by structural items

theorem succeeds_operatorsHold [Pattern.Engine] (all ops : Document)
    (h : areOperators all ops = true)
    (leaves : Leaves) : Succeeds (operatorsHold all ops leaves) := by
  match ops with
  | [] => exact .pure true
  | (key, operand) :: rest =>
    rw [areOperators, Bool.and_eq_true] at h
    rw [operatorsHold]
    exact (succeeds_operatorHolds all key operand h.1 leaves).andThen
      (succeeds_operatorsHold all rest h.2 leaves)
termination_by structural ops

theorem succeeds_operatorHolds [Pattern.Engine] (all : Document) (key : String) (operand : Value)
    (h : isOperator all key operand = true) (leaves : Leaves) :
    Succeeds (operatorHolds all key operand leaves) := by
  match operand with
  | .document doc =>
    cases hkey : Operator.ofKey? key with
    | none =>
      simp only [isOperator, hkey] at h
      cases h
    | some op =>
      simp only [isOperator, hkey] at h
      simp only [operatorHolds, hkey]
      cases op with
      | not =>
        dsimp only at h ⊢
        split at h
        · next hops =>
          rw [if_pos hops]
          exact (succeeds_operatorsHold doc doc h leaves).not
        · next hops =>
          rw [if_neg hops]
          exact (Succeeds.anyM fun element _ => succeeds_holds doc h element).not
      | elemMatch =>
        dsimp only at h ⊢
        refine Succeeds.anyM fun item _ => ?_
        split at h
        · next hops =>
          rw [if_pos hops]
          exact succeeds_operatorsHold doc doc h [some item]
        · next hops =>
          rw [if_neg hops]
          cases item with
          | document element => exact succeeds_holds doc h element
          | _ => exact .pure false
      | _ =>
        simp only [Option.any_some] at h
        exact succeeds_operandHolds key h leaves
  | .atom a =>
    rw [isOperator] at h
    obtain ⟨op, hop, h⟩ := (Option.any_eq_true _ _).mp h
    rw [operatorHolds, hop]
    exact succeeds_operandHolds key h leaves
  | .array items =>
    rw [isOperator] at h
    obtain ⟨op, hop, h⟩ := (Option.any_eq_true _ _).mp h
    rw [operatorHolds, hop]
    exact succeeds_operandHolds key h leaves
  | .scopedCode source scope =>
    rw [isOperator] at h
    obtain ⟨op, hop, h⟩ := (Option.any_eq_true _ _).mp h
    rw [operatorHolds, hop]
    exact succeeds_operandHolds key h leaves
termination_by structural operand

end

end Filter

theorem MemoryStore.accepted_eq_ok [Pattern.Engine] {filter : Document} {docs : List Document}
    (h : ∀ doc ∈ docs, Succeeds (Filter.holds filter doc)) :
    accepted filter docs = .ok (docs.filter (Filter.accepts filter)) := by
  induction docs with
  | nil => rfl
  | cons doc docs ih =>
    obtain ⟨here, hhere⟩ := h doc List.mem_cons_self
    have haccepts : Filter.accepts filter doc = here := by rw [Filter.accepts, hhere]
    rw [accepted, hhere, ih fun d hd => h d (List.mem_cons_of_mem _ hd), List.filter_cons, haccepts]
    rfl

/-- A filter of the grammar is evaluated on every entity, and a search for it in memory succeeds. -/
theorem Filter.grammar_evaluates [Pattern.Engine] {filter : Document} (h : isFilter filter = true) :
    (∀ entity, ∃ b, holds filter entity = .ok b) ∧
      ∀ (store : MemoryStore) (type : EntityType),
        store.select type ⟨filter⟩ = .ok ((store.documents type).filter (accepts filter)) :=
  ⟨succeeds_holds filter h, fun _ _ =>
    MemoryStore.accepted_eq_ok fun doc _ => succeeds_holds filter h doc⟩

theorem Filter.grammar_evaluates_nested :
    let onElements : Document :=
      [("label", .document [("$in", .array [.atom (.pattern "^A" "i"), .null])]),
        ("$nor", .array [.document [("n", .document [("$type", .array [.text "number"])])]])]
    let filter : Document :=
      [("$or", .array [.document [("tags", .document [("$elemMatch", .document onElements)])],
          .document [("tags.0.x", .document [("$not", .document [("$size", .int64 2)])])]]),
        ("title", .document [("$regex", .text "^s"), ("$options", .text "i")]),
        ("m", .document [("$not", .document [])])]
    let entity : Document := [("title", .text "Sir"), ("m", .array [.int32 1]),
      ("tags", .array [.document [("label", .text "a")], .null])]
    isFilter filter = true ∧ ∃ b, holds filter entity = .ok b := by
  intro onElements filter entity
  have hfilter : isFilter filter = true := by decide +kernel
  exact ⟨hfilter, (grammar_evaluates hfilter).1 entity⟩

end AccessRules
