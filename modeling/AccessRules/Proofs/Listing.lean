import AccessRules.Proofs.Grammar

/-! Operators on lists of values. Membership asks whether a path satisfies one of the items as a
condition of its own, and its negation whether it satisfies none. The operator that asks for all
items compares every item, so it stands for a conjunction unless an item is a pattern, which a
condition of its own matches. -/
namespace AccessRules

/-- A value that is read as operators where it stands beside a path. -/
def Value.isOperators : Value → Bool
  | .document doc => isOperatorExpression doc
  | _ => false

namespace Filter
variable {key : String} {item : Value} {items : List Value}

theorem holds_item [Pattern.Engine] (hk : Operator.isToken key = false)
    (hitem : item.isOperators = false)
    (entity : Document) : holds [(key, item)] entity = listed (Path.leaves entity key) item := by
  rw [holds_singleton, fieldHolds_path (Operator.ofKey?_eq_none hk)]
  cases item with
  | document doc =>
    rw [Value.isOperators] at hitem
    rw [conditionHolds, if_neg (by simp [hitem])]
    rfl
  | atom a => cases a <;> rfl
  | array items => rfl
  | scopedCode source scope => rfl

theorem holds_exclusion [Pattern.Engine] (hk : Operator.isToken key = false) (items : List Value)
    (entity : Document) :
    holds [(key, .document [(Operator.notIn.token, .array items)])] entity =
      (do pure (!(← items.anyM (listed (Path.leaves entity key))))) := by
  have hop : Operator.ofKey? Operator.notIn.token = some .notIn := rfl
  rw [holds_singleton, fieldHolds_operator hk rfl, operatorHolds, hop, ← someListed_eq_anyM]
  rfl

theorem holds_all [Pattern.Engine] (hk : Operator.isToken key = false) (hne : items ≠ [])
    (entity : Document) :
    holds [(key, .document [(Operator.all.token, .array items)])] entity =
      .ok (items.all fun item => accepts (equality key item) entity) := by
  have hop : Operator.ofKey? Operator.all.token = some .all := rfl
  have heq : ∀ item, accepts (equality key item) entity =
      someEquals (Path.leaves entity key) item := fun item => by rw [accepts, holds_equality hk]
  rw [holds_singleton, fieldHolds_operator hk rfl, operatorHolds, hop]
  simp only [heq]
  change Except.ok (allPresent (Path.leaves entity key) items) = _
  rw [allPresent, List.isEmpty_eq_false_iff.mpr hne]
  rfl

/-- Beside a path, a list of items that are no operators is the fold of the conditions that they are
themselves: as a disjunction under membership, and as its negation. Under the operator for all
items, it is the conjunction of equalities with them, and that of the items themselves if none is a
pattern. -/
theorem list_operators_fold [Pattern.Engine] (hk : Operator.isToken key = false) (hne : items ≠ [])
    (hitems : ∀ item ∈ items, item.isOperators = false ∧ isItem item = true)
    (entity : Document) :
    let own := fun item => accepts [(key, item)] entity
    (∀ item ∈ items, holds [(key, item)] entity = .ok (own item)) ∧
    holds [(key, .document [(Operator.isIn.token, .array items)])] entity = .ok (items.any own) ∧
    holds [(key, .document [(Operator.notIn.token, .array items)])] entity =
      .ok (!items.any own) ∧
    holds [(key, .document [(Operator.all.token, .array items)])] entity =
      .ok (items.all fun item => accepts (equality key item) entity) ∧
    ((∀ item ∈ items, ∀ source options, item ≠ .atom (.pattern source options)) →
      holds [(key, .document [(Operator.all.token, .array items)])] entity =
        .ok (items.all own)) := by
  intro own
  have hlisted : ∀ item ∈ items, listed (Path.leaves entity key) item = .ok (own item) := by
    intro item hi
    have hsucceeds : Succeeds (listed (Path.leaves entity key) item) :=
      succeeds_listed (hitems item hi).2
    obtain ⟨b, hb⟩ := hsucceeds
    have hholds := (holds_item hk (hitems item hi).1 entity).trans hb
    rw [hb]
    simp only [own, accepts, hholds]
  have hany := anyM_eq_ok hlisted
  refine ⟨fun item hi => (holds_item hk (hitems item hi).1 entity).trans (hlisted item hi),
    (holds_membership_eq_anyM hk items entity).trans hany, ?_, holds_all hk hne entity,
    fun hplain => ?_⟩
  · rw [holds_exclusion hk, hany]
    rfl
  · rw [holds_all hk hne, Except.ok.injEq, Bool.eq_iff_iff, List.all_eq_true, List.all_eq_true]
    refine forall₂_congr fun item hi => ?_
    have hown := hlisted item hi
    rw [listed_of_noPattern _ (hplain item hi), Except.ok.injEq] at hown
    rw [← hown, accepts, holds_equality hk]

theorem list_operators_fold_votes :
    let items : List Value := [.int32 1, .null]
    let entity : Document :=
      [("comments", .array [.document [("votes", .int64 1)], .document [("author", .text "A")]])]
    let votes := fun (op : Operator) => Filter.holds
      [("comments.votes", .document [(op.token, .array items)])] entity
    Operator.isToken "comments.votes" = false ∧ items ≠ [] ∧
      (∀ item ∈ items, item.isOperators = false ∧ isItem item = true) ∧
      votes .isIn = .ok true ∧ votes .notIn = .ok false ∧ votes .all = .ok true := by
  intro items entity votes
  have hkey : Operator.isToken "comments.votes" = false := rfl
  have hne : items ≠ [] := List.cons_ne_nil _ _
  have hitems : ∀ item ∈ items, item.isOperators = false ∧ isItem item = true := by
    intro item hi
    rcases List.mem_cons.mp hi with rfl | hi
    · exact ⟨rfl, rfl⟩
    · rw [List.mem_singleton.mp hi]
      exact ⟨rfl, rfl⟩
  obtain ⟨-, hin, hnotIn, hall, -⟩ := list_operators_fold hkey hne hitems entity
  refine ⟨hkey, hne, hitems, hin.trans ?_, hnotIn.trans ?_, hall.trans ?_⟩
  · decide +kernel
  · decide +kernel
  · decide +kernel

/-- A condition of its own matches a pattern, and the operator for all items compares with it. -/
theorem all_items_compares_patterns :
    let item : Value := .atom (.pattern "^o" "")
    let entity : Document := [("numbers", .array [.text "one", .text "two"])]
    Operator.isToken "numbers" = false ∧ item.isOperators = false ∧ isItem item = true ∧
      Filter.holds [("numbers", item)] entity = .ok true ∧
      Filter.holds [("numbers", .document [(Operator.isIn.token, .array [item])])] entity =
        .ok true ∧
      Filter.holds [("numbers", .document [(Operator.all.token, .array [item])])] entity =
        .ok false := by
  refine ⟨rfl, rfl, ?_, ?_, ?_, ?_⟩ <;> decide +kernel

end Filter
end AccessRules
