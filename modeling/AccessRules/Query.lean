import AccessRules.Rule
import AccessRules.Store

/-! Questions to a store. A run keeps the questions it asked, in order, beside its outcome; those
that were asked before a failure stay. -/
namespace AccessRules

inductive QueryKind where
  /-- The identifiers of the selected documents. -/
  | identifiers
  /-- The selected documents themselves. -/
  | documents
  deriving DecidableEq, Repr

structure Query where
  kind : QueryKind
  type : EntityType
  selector : Selector
  deriving Repr

inductive AccessError where
  | missingTarget (owner : EntityType) (field : String)
  | uncompilable (subject : Subject)
  | store (fault : StoreFault)
  /-- A record has no form as a document. -/
  | unrepresentable
  /-- A document does not fit a record. -/
  | mismatch
  deriving DecidableEq, Repr

def AccessError.filter (fault : FilterError) : AccessError := .store (.filter fault)

/-- The text of an error; failed conversions between records and documents have none. -/
def AccessError.message? : AccessError → Option String
  | missingTarget owner field =>
    some ("relation `" ++ field ++ "` on `" ++ owner.name ++ "` has no target type")
  | uncompilable subject =>
    some ("rule for `" ++ subject.name ++
      "` is defined by a block and cannot be compiled to a query")
  | store fault => some fault.message
  | unrepresentable => none
  | mismatch => none

structure Run (α : Type) where
  queries : List Query
  result : Except AccessError α

namespace Run
variable {α β : Type}

def bind (run : Run α) (next : α → Run β) : Run β :=
  match run.result with
  | .ok a => ⟨run.queries ++ (next a).queries, (next a).result⟩
  | .error e => ⟨run.queries, .error e⟩

instance : Monad Run where
  pure a := ⟨[], .ok a⟩
  bind := bind

def fail (error : AccessError) : Run α := ⟨[], .error error⟩

def ofFilter (result : Except FilterError α) : Run α := ⟨[], result.mapError .filter⟩

def identifiers (store : Store) (type : EntityType) (selector : Selector) : Run (List Value) :=
  ⟨[⟨.identifiers, type, selector⟩], (store.identifiers type selector).mapError .store⟩

def documents (store : Store) (type : EntityType) (selector : Selector) : Run (List Document) :=
  ⟨[⟨.documents, type, selector⟩], (store.documents type selector).mapError .store⟩

@[simp] theorem queries_pure (a : α) : (pure a : Run α).queries = [] := rfl

@[simp] theorem result_pure (a : α) : (pure a : Run α).result = .ok a := rfl

theorem bind_ok {run : Run α} {a : α} (h : run.result = .ok a) (next : α → Run β) :
    run >>= next = ⟨run.queries ++ (next a).queries, (next a).result⟩ := by
  change Run.bind run next = _
  simp [Run.bind, h]

theorem bind_error {run : Run α} {e : AccessError} (h : run.result = .error e) (next : α → Run β) :
    run >>= next = ⟨run.queries, .error e⟩ := by
  change Run.bind run next = _
  simp [Run.bind, h]

@[simp] theorem result_bind (run : Run α) (next : α → Run β) :
    (run >>= next).result = run.result >>= fun a => (next a).result := by
  cases h : run.result with
  | ok a => rw [bind_ok h]; rfl
  | error e => rw [bind_error h]; rfl

instance : LawfulMonad Run := LawfulMonad.mk' Run
  (fun run => by
    obtain ⟨queries, result⟩ := run
    change Run.bind _ _ = _
    cases result <;> simp [Run.bind])
  (fun a next => by
    change Run.bind _ _ = _
    simp [Run.bind])
  (fun run f g => by
    obtain ⟨queries, result⟩ := run
    change Run.bind (Run.bind _ _) _ = Run.bind _ _
    cases result with
    | error e => simp [Run.bind]
    | ok a =>
      cases h : (f a).result with
      | error e =>
        have : (f a >>= g) = ⟨(f a).queries, .error e⟩ := bind_error h g
        simp [Run.bind, h, this]
      | ok b =>
        have : (f a >>= g) = ⟨(f a).queries ++ (g b).queries, (g b).result⟩ := bind_ok h g
        simp [Run.bind, h, this])

end Run
end AccessRules
