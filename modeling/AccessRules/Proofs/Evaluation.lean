import AccessRules.MemoryStore
import AccessRules.Resolution

/-! Evaluations that may fail. `Decides` ties an evaluation to a truth value without a promise that
it succeeds; it passes through every way in which filters combine, so two evaluators that decide the
same truth value agree wherever both succeed. -/
namespace AccessRules

@[simp] theorem mapError_eq_ok {ε δ α : Type} {r : Except ε α} {f : ε → δ} {a : α} :
    r.mapError f = .ok a ↔ r = .ok a := by
  cases r with
  | error e => exact ⟨nofun, nofun⟩
  | ok b =>
    constructor
    · intro h
      cases h
      rfl
    · intro h
      cases h
      rfl

/-- The result, where there is one, is the given truth value. -/
def Decides {ε : Type} (result : Except ε Bool) (truth : Bool) : Prop :=
  ∀ b, result = .ok b → b = truth

namespace Decides
variable {ε α : Type} {r s : Except ε Bool} {a b : Bool}

@[simp] theorem ok_iff : Decides (.ok a : Except ε Bool) b ↔ a = b := by
  simp [Decides]

@[simp] theorem pure_iff : Decides (pure a : Except ε Bool) b ↔ a = b := ok_iff

@[simp] theorem of_error (e : ε) : Decides (.error e) b := by
  simp [Decides]

theorem mapError {δ : Type} (f : ε → δ) (h : Decides r b) : Decides (r.mapError f) b := by
  cases r with
  | error e => exact of_error (f e)
  | ok c =>
    intro d hd
    cases hd
    exact h c rfl

theorem not (h : Decides r b) : Decides (do pure (!(← r))) (!b) := by
  cases r with
  | error e => exact of_error e
  | ok c =>
    rw [ok_iff] at h
    subst h
    exact pure_iff.mpr rfl

theorem andThen (hr : Decides r a) (hs : a = true → Decides s b) :
    Decides (do if ← r then s else pure false) (a && b) := by
  cases r with
  | error e => exact of_error e
  | ok c =>
    rw [ok_iff] at hr
    subst hr
    cases c with
    | false => exact pure_iff.mpr rfl
    | true => exact hs rfl

theorem orElse (hr : Decides r a) (hs : a = false → Decides s b) :
    Decides (do if ← r then pure true else s) (a || b) := by
  cases r with
  | error e => exact of_error e
  | ok c =>
    rw [ok_iff] at hr
    subst hr
    cases c with
    | true => exact pure_iff.mpr rfl
    | false => exact hs rfl

variable {f : α → Except ε Bool} {g : α → Bool} {xs : List α}

theorem allM (h : ∀ x ∈ xs, Decides (f x) (g x)) : Decides (xs.allM f) (xs.all g) := by
  induction xs with
  | nil => exact pure_iff.mpr rfl
  | cons x xs ih =>
    rw [List.allM_cons, List.all_cons]
    exact andThen (h x List.mem_cons_self) fun _ => ih fun y hy => h y (List.mem_cons_of_mem _ hy)

theorem anyM (h : ∀ x ∈ xs, Decides (f x) (g x)) : Decides (xs.anyM f) (xs.any g) := by
  induction xs with
  | nil => exact pure_iff.mpr rfl
  | cons x xs ih =>
    rw [List.anyM_cons, List.any_cons]
    exact orElse (h x List.mem_cons_self) fun _ => ih fun y hy => h y (List.mem_cons_of_mem _ hy)

end Decides

section Total
variable {ε α : Type} {f : α → Except ε Bool} {g : α → Bool} {xs : List α}

theorem allM_eq_ok (h : ∀ x ∈ xs, f x = .ok (g x)) : xs.allM f = .ok (xs.all g) := by
  induction xs with
  | nil => rfl
  | cons x xs ih =>
    rw [List.allM_cons, h x List.mem_cons_self, ih fun y hy => h y (List.mem_cons_of_mem _ hy)]
    cases hx : g x <;> simp [hx] <;> rfl

theorem anyM_eq_ok (h : ∀ x ∈ xs, f x = .ok (g x)) : xs.anyM f = .ok (xs.any g) := by
  induction xs with
  | nil => rfl
  | cons x xs ih =>
    rw [List.anyM_cons, h x List.mem_cons_self, ih fun y hy => h y (List.mem_cons_of_mem _ hy)]
    cases hx : g x <;> simp [hx] <;> rfl

end Total

section Lists
variable {ε α β : Type}

@[simp] theorem anyM_map (f : α → β) (p : β → Except ε Bool) (xs : List α) :
    (xs.map f).anyM p = xs.anyM fun x => p (f x) := by
  induction xs with
  | nil => rfl
  | cons x xs ih => rw [List.map_cons, List.anyM_cons, List.anyM_cons, ih]

@[simp] theorem allM_map (f : α → β) (p : β → Except ε Bool) (xs : List α) :
    (xs.map f).allM p = xs.allM fun x => p (f x) := by
  induction xs with
  | nil => rfl
  | cons x xs ih => rw [List.map_cons, List.allM_cons, List.allM_cons, ih]

theorem allM_congr {f g : α → Except ε Bool} {xs : List α} (h : ∀ x ∈ xs, f x = g x) :
    xs.allM f = xs.allM g := by
  induction xs with
  | nil => rfl
  | cons x xs ih =>
    rw [List.allM_cons, List.allM_cons, h x List.mem_cons_self,
      ih fun y hy => h y (List.mem_cons_of_mem _ hy)]

theorem not_anyM_not {f : α → Except ε Bool} (xs : List α) :
    (do pure (!(← xs.anyM fun x => do pure (!(← f x))))) = xs.allM f := by
  induction xs with
  | nil => rfl
  | cons x xs ih =>
    rw [List.allM_cons, List.anyM_cons, ← ih]
    cases f x with
    | error e => rfl
    | ok b => cases b <;> rfl

end Lists

section Results
variable {ε α : Type} {f : α → Except ε Bool} {xs : List α}

@[simp] theorem allM_eq_true_iff : xs.allM f = .ok true ↔ ∀ x ∈ xs, f x = .ok true := by
  induction xs with
  | nil => exact ⟨fun _ => nofun, fun _ => rfl⟩
  | cons x xs ih =>
    rw [List.allM_cons, List.forall_mem_cons, ← ih]
    cases hx : f x with
    | error e => exact ⟨nofun, nofun⟩
    | ok b =>
      cases b with
      | false => exact ⟨nofun, nofun⟩
      | true => exact ⟨fun h => ⟨rfl, h⟩, fun h => h.2⟩

theorem exists_of_allM_eq_false (h : xs.allM f = .ok false) : ∃ x ∈ xs, f x = .ok false := by
  induction xs with
  | nil => cases h
  | cons x xs ih =>
    rw [List.allM_cons] at h
    cases hx : f x with
    | error e =>
      rw [hx] at h
      cases h
    | ok b =>
      cases b with
      | false => exact ⟨x, List.mem_cons_self, hx⟩
      | true =>
        rw [hx] at h
        obtain ⟨y, hy, hfalse⟩ := ih h
        exact ⟨y, List.mem_cons_of_mem _ hy, hfalse⟩

theorem exists_of_anyM_eq_true (h : xs.anyM f = .ok true) : ∃ x ∈ xs, f x = .ok true := by
  induction xs with
  | nil => cases h
  | cons x xs ih =>
    rw [List.anyM_cons] at h
    cases hx : f x with
    | error e =>
      rw [hx] at h
      cases h
    | ok b =>
      cases b with
      | true => exact ⟨x, List.mem_cons_self, hx⟩
      | false =>
        rw [hx] at h
        obtain ⟨y, hy, htrue⟩ := ih h
        exact ⟨y, List.mem_cons_of_mem _ hy, htrue⟩

@[simp] theorem anyM_eq_false_iff : xs.anyM f = .ok false ↔ ∀ x ∈ xs, f x = .ok false := by
  induction xs with
  | nil => exact ⟨fun _ => nofun, fun _ => rfl⟩
  | cons x xs ih =>
    rw [List.anyM_cons, List.forall_mem_cons, ← ih]
    cases hx : f x with
    | error e => exact ⟨nofun, nofun⟩
    | ok b =>
      cases b with
      | true => exact ⟨nofun, nofun⟩
      | false => exact ⟨fun h => ⟨rfl, h⟩, fun h => h.2⟩

end Results

theorem ne_ok_of_error {ε α : Type} {r : Except ε α} (h : ∃ e, r = .error e) (a : α) :
    r ≠ .ok a := by
  obtain ⟨e, rfl⟩ := h
  exact nofun

@[simp] theorem confirm_eq {ε : Type} (r : Except ε Bool) :
    (do if ← r then pure true else pure false) = r := by
  cases r with
  | error e => rfl
  | ok b => cases b <;> rfl

namespace Filter

def onFilter (evaluate : Document → Except FilterError Bool) : Value → Except FilterError Bool
  | .document filter => evaluate filter
  | _ => pure false

theorem requireFilters_documents (key : String) {filters : List Document} (h : filters ≠ []) :
    requireFilters key (filters.map .document) = .ok () := by
  unfold requireFilters
  rw [if_neg (by simpa using h), if_pos (by simp [List.all_map])]
  rfl

variable [Pattern.Engine]

/-- Whether an evaluation succeeds and the filter accepts the entity. -/
def accepts (filter : Document) (entity : Document) : Bool :=
  match holds filter entity with
  | .ok b => b
  | .error _ => false

theorem decides_accepts (filter entity : Document) :
    Decides (holds filter entity) (accepts filter entity) := by
  intro b h
  simp [accepts, h]

theorem holds_eq_allM (filter entity : Document) :
    holds filter entity = filter.allM fun field => fieldHolds field.1 field.2 entity := by
  induction filter with
  | nil => simp [holds]
  | cons field rest ih =>
    obtain ⟨key, condition⟩ := field
    rw [List.allM_cons, ← ih, holds]

@[simp] theorem holds_singleton (key : String) (condition : Value) (entity : Document) :
    holds [(key, condition)] entity = fieldHolds key condition entity := by
  rw [holds, holds]
  exact confirm_eq _

theorem operatorsHold_eq_allM (all ops : Document) (leaves : Leaves) :
    operatorsHold all ops leaves =
      ops.allM fun field => operatorHolds all field.1 field.2 leaves := by
  induction ops with
  | nil => rfl
  | cons field rest ih => rw [List.allM_cons, ← ih, operatorsHold]

@[simp] theorem operatorsHold_singleton (all : Document) (key : String) (operand : Value)
    (leaves : Leaves) :
    operatorsHold all [(key, operand)] leaves = operatorHolds all key operand leaves := by
  rw [operatorsHold, operatorsHold]
  exact confirm_eq _

theorem holds_append (xs ys entity : Document) :
    holds (xs ++ ys) entity = (do if ← holds xs entity then holds ys entity else pure false) := by
  induction xs with
  | nil => simp [holds]
  | cons field rest ih =>
    obtain ⟨key, condition⟩ := field
    rw [List.cons_append, holds, holds, ih]
    cases fieldHolds key condition entity with
    | error e => rfl
    | ok b => cases b <;> rfl

theorem anyHolds_eq_anyM (items : List Value) (entity : Document) :
    anyHolds items entity = items.anyM (onFilter fun filter => holds filter entity) := by
  induction items with
  | nil => rfl
  | cons item rest ih =>
    rw [List.anyM_cons, ← ih]
    cases item <;> rfl

theorem anyFails_eq_anyM (items : List Value) (entity : Document) :
    anyFails items entity =
      items.anyM (onFilter fun filter => do pure (!(← holds filter entity))) := by
  induction items with
  | nil => rfl
  | cons item rest ih =>
    rw [List.anyM_cons, ← ih]
    cases item with
    | document filter =>
      rw [anyFails, onFilter]
      cases holds filter entity with
      | error e => rfl
      | ok b => cases b <;> rfl
    | _ => rfl

@[simp] theorem anyHolds_documents (filters : List Document) (entity : Document) :
    anyHolds (filters.map .document) entity = filters.anyM fun filter => holds filter entity := by
  rw [anyHolds_eq_anyM, anyM_map]
  rfl

theorem not_anyFails_documents (filters : List Document) (entity : Document) :
    (do pure (!(← anyFails (filters.map .document) entity))) =
      filters.allM fun filter => holds filter entity := by
  rw [anyFails_eq_anyM, anyM_map]
  exact not_anyM_not filters

theorem holds_and {filters : List Document} (h : filters ≠ []) (entity : Document) :
    holds [(Operator.and.token, .array (filters.map .document))] entity =
      filters.allM fun filter => holds filter entity := by
  have hkey : Operator.ofKey? Operator.and.token = some .and := rfl
  rw [holds_singleton, fieldHolds, hkey, ← not_anyFails_documents]
  simp only [requireFilters_documents _ h]
  rfl

theorem holds_or {filters : List Document} (h : filters ≠ []) (entity : Document) :
    holds [(Operator.or.token, .array (filters.map .document))] entity =
      filters.anyM fun filter => holds filter entity := by
  have hkey : Operator.ofKey? Operator.or.token = some .or := rfl
  rw [holds_singleton, fieldHolds, hkey, ← anyHolds_documents]
  simp only [requireFilters_documents _ h]
  rfl

theorem holds_nor (filter entity : Document) :
    holds [(Operator.nor.token, .array [.document filter])] entity =
      (do pure (!(← holds filter entity))) := by
  have hkey : Operator.ofKey? Operator.nor.token = some .nor := rfl
  have hreq := requireFilters_documents Operator.nor.token (List.cons_ne_nil filter [])
  rw [holds_singleton, fieldHolds, hkey]
  simp only [List.map_cons, List.map_nil] at hreq
  simp only [hreq]
  rw [anyHolds, anyHolds]
  cases holds filter entity with
  | error e => rfl
  | ok b => cases b <;> rfl

end Filter

namespace Clause

@[simp] theorem pairsOf_append (xs ys : List Clause) :
    pairsOf (xs ++ ys) = pairsOf xs ++ pairsOf ys := by
  induction xs with
  | nil => simp [pairsOf]
  | cons clause rest ih => rw [List.cons_append, pairsOf, pairsOf, ih, List.append_assoc]

variable [Pattern.Engine]

/-- However conditions on keys are made into one filter, it holds where each of them does, judged
in their order. -/
@[simp] theorem holds_conjoin (pairs entity : Document) :
    Filter.holds (conjoin pairs) entity = Filter.holds pairs entity := by
  unfold conjoin
  split
  · rfl
  · next h =>
    have hne : pairs.map (fun pair => [pair]) ≠ [] := by
      intro hnil
      rw [List.map_eq_nil_iff.mp hnil] at h
      exact h List.nodup_nil
    have hmap : pairs.map (fun pair => Value.document [pair]) =
        (pairs.map fun pair => [pair]).map .document := by
      rw [List.map_map]
      rfl
    rw [hmap, Filter.holds_and hne, Filter.holds_eq_allM, allM_map]
    exact congrArg (fun p => pairs.allM p) (funext fun pair => Filter.holds_singleton _ _ entity)

@[simp] theorem holds_document (clauses : List Clause) (entity : Document) :
    Filter.holds (document clauses) entity = Filter.holds (pairsOf clauses) entity :=
  holds_conjoin _ _

@[simp] theorem holds_selector (clauses : List Clause) (entity : Document) :
    Filter.holds (selector clauses).document entity = Filter.holds (pairsOf clauses) entity :=
  holds_document clauses entity

end Clause

namespace MemoryStore
variable [Pattern.Engine]

theorem accepted_eq {filter : Document} {docs found : List Document}
    (h : accepted filter docs = .ok found) :
    found = docs.filter (Filter.accepts filter) ∧
      ∀ doc ∈ docs, Filter.holds filter doc = .ok (Filter.accepts filter doc) := by
  induction docs generalizing found with
  | nil =>
    cases h
    exact ⟨rfl, fun _ hd => absurd hd List.not_mem_nil⟩
  | cons doc docs ih =>
    rw [accepted] at h
    cases hhere : Filter.holds filter doc with
    | error e =>
      rw [hhere] at h
      cases h
    | ok here =>
      have haccepts : Filter.accepts filter doc = here := by rw [Filter.accepts, hhere]
      cases hrest : accepted filter docs with
      | error e =>
        rw [hhere, hrest] at h
        cases h
      | ok rest =>
        rw [hhere, hrest] at h
        cases h
        obtain ⟨hfound, hall⟩ := ih hrest
        refine ⟨?_, fun d hd => ?_⟩
        · rw [List.filter_cons, haccepts, hfound]
        · rcases List.mem_cons.mp hd with rfl | hd
          · rw [hhere, haccepts]
          · exact hall d hd

@[simp] theorem toStore_identifiers_eq_ok {store : MemoryStore} {type : EntityType} {sel : Selector}
    {ids : List Value} :
    store.toStore.identifiers type sel = .ok ids ↔ store.identifiers type sel = .ok ids :=
  mapError_eq_ok

end MemoryStore
end AccessRules
