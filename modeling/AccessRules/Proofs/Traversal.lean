import AccessRules.Proofs.Easing

/-! Arrays on the way of a path. Through an array of documents a path reaches what its rest reaches
in each of them. So an operator that seeks a value holds below the array where it holds of one of
the documents, and an operator that shuns a value where it holds of all of them. -/
namespace AccessRules

namespace Path
variable {key rest : String} {entity : Document} {docs : List Document}

theorem descend_below_documents (h : '.' ∉ key.toList)
    (hl : entity.lookup key = some (.array (docs.map .document)))
    (hp : ∀ segment ∈ (segments rest).head?, Text.position? segment = none) :
    descend (segments (key ++ "." ++ rest)) (.document entity) =
      docs.flatMap fun doc => descend (segments rest) (.document doc) := by
  rw [descend_below h, hl]
  cases hs : segments rest with
  | nil => exact absurd hs (segments_ne_nil rest)
  | cons segment more =>
    have hnone : Text.position? segment = none := hp segment (by simp [hs])
    simp only [descend, hnone, List.flatMap_map]

theorem any_leaves {sought : Option Value → Bool} (hnone : sought none = false)
    (entity : Document) (path : String) :
    (leaves entity path).any sought = (descend (segments path) (.document entity)).any sought := by
  rw [leaves_eq]
  split
  · next hnil => simp [hnil, hnone]
  · rfl

theorem any_leaves_below_documents (h : '.' ∉ key.toList)
    (hl : entity.lookup key = some (.array (docs.map .document)))
    (hp : ∀ segment ∈ (segments rest).head?, Text.position? segment = none)
    {sought : Option Value → Bool} (hnone : sought none = false) :
    (leaves entity (key ++ "." ++ rest)).any sought =
      docs.any fun doc => (leaves doc rest).any sought := by
  rw [any_leaves hnone, descend_below_documents h hl hp, List.any_flatMap]
  simp only [any_leaves hnone]

end Path

def Value.isNull : Value → Bool
  | .atom .null => true
  | _ => false

def Value.hasNull : Value → Bool
  | .array items => items.any isNull
  | value => value.isNull

theorem Value.isNull_of_hasNull {value : Value} (h : value.hasNull = false) :
    value.isNull = false := by
  cases value with
  | atom a => exact h
  | _ => rfl

namespace Operator

theorem ofKey?_token {op : Operator} (h : ∀ token, op ≠ other token) :
    ofKey? op.token = some op := by
  cases op with
  | other token => exact absurd rfl (h token)
  | _ => rfl

theorem isToken_of_ofKey? {key : String} {op : Operator} (h : ofKey? key = some op) :
    isToken key = true := by
  by_contra hnot
  rw [ofKey?_eq_none (Bool.not_eq_true _ ▸ hnot)] at h
  cases h

/-- Whether an operator asks for a value with some property, which a missing field does not have. -/
def seeks (op : Operator) (operand : Value) : Bool :=
  match op with
  | eq | gt | gte | lt | lte | isIn | size | type | regex | elemMatch => !operand.hasNull
  | present => operand.isAffirmative
  | _ => false

/-- Whether an operator asks that no value have such a property. The negation takes one operator
that asks for a value, a filter or a pattern. -/
def shuns (op : Operator) (operand : Value) : Bool :=
  match op with
  | ne | notIn => !operand.hasNull
  | present => !operand.isAffirmative
  | not =>
    match operand with
    | .document [(key, inner)] => (ofKey? key).all fun op => op.seeks inner
    | .document doc => !isOperatorExpression doc
    | .atom (.pattern _ _) => true
    | _ => false
  | _ => false

end Operator

theorem Decides.eq_ok {ε : Type} {r : Except ε Bool} {truth : Bool} (h : Decides r truth)
    (hr : ∃ b, r = .ok b) : r = .ok truth := by
  obtain ⟨b, hb⟩ := hr
  rw [hb, h b hb]

namespace Filter

/-- An evaluation decides whether some leaf has a property that a missing field does not have. -/
def Seeks (evaluate : Leaves → Except FilterError Bool) : Prop :=
  ∃ sought : Option Value → Bool, sought none = false ∧
    ∀ leaves, Decides (evaluate leaves) (leaves.any sought)

/-- An evaluation decides whether no leaf has a property that a missing field does not have. -/
def Shuns (evaluate : Leaves → Except FilterError Bool) : Prop :=
  ∃ sought : Option Value → Bool, sought none = false ∧
    ∀ leaves, Decides (evaluate leaves) (!leaves.any sought)

namespace Seeks
variable {α : Type} {r s : Leaves → Except FilterError Bool}

theorem leaf {sought : Option Value → Bool} (h : sought none = false) :
    Seeks fun leaves => pure (leaves.any sought) :=
  ⟨sought, h, fun _ => Decides.pure_iff.mpr rfl⟩

theorem value {sought : Option Value → Bool} (h : sought none = false) :
    Seeks fun leaves => pure ((Path.expanded leaves).any sought) := by
  refine ⟨fun leaf => (Path.spread leaf).any sought, by simp [Path.spread, h], fun leaves => ?_⟩
  rw [Decides.pure_iff]
  exact List.any_flatMap

theorem nothing : Seeks fun _ => pure false :=
  ⟨fun _ => false, rfl, fun leaves => by simp⟩

theorem error (e : FilterError) : Seeks fun _ => .error e :=
  ⟨fun _ => false, rfl, fun _ => Decides.of_error e⟩

theorem bind {first : Except FilterError α} {next : α → Leaves → Except FilterError Bool}
    (h : ∀ a, Seeks (next a)) : Seeks fun leaves => first >>= fun a => next a leaves := by
  cases first with
  | error e => exact error e
  | ok a => exact h a

theorem orElse (hr : Seeks r) (hs : Seeks s) :
    Seeks fun leaves => (do if ← r leaves then pure true else s leaves) := by
  obtain ⟨p, hp, hr⟩ := hr
  obtain ⟨q, hq, hs⟩ := hs
  refine ⟨fun leaf => p leaf || q leaf, by simp [hp, hq], fun leaves => ?_⟩
  have heither : (leaves.any fun leaf => p leaf || q leaf) = (leaves.any p || leaves.any q) := by
    rw [Bool.eq_iff_iff]
    simp only [Bool.or_eq_true, List.any_eq_true, and_or_left, exists_or]
  rw [heither]
  exact (hr leaves).orElse fun _ => hs leaves

theorem anyM {evaluate : α → Leaves → Except FilterError Bool} {xs : List α}
    (h : ∀ x ∈ xs, Seeks (evaluate x)) :
    Seeks fun leaves => xs.anyM fun x => evaluate x leaves := by
  induction xs with
  | nil => exact nothing
  | cons x xs ih =>
    simp only [List.anyM_cons]
    exact (h x List.mem_cons_self).orElse (ih fun y hy => h y (List.mem_cons_of_mem _ hy))

theorem valuesOf {values : Option Value → List α} (h : values none = [])
    (evaluate : α → Except FilterError Bool) :
    Seeks fun leaves => (leaves.flatMap values).anyM evaluate := by
  let accepted := fun x => (evaluate x).toOption.getD false
  refine ⟨fun leaf => (values leaf).any accepted, by simp [h], fun leaves => ?_⟩
  rw [← List.any_flatMap]
  refine Decides.anyM fun x _ b hb => ?_
  simp only [accepted, hb, Except.toOption, Option.getD_some]

end Seeks

namespace Shuns

theorem error (e : FilterError) : Shuns fun _ => .error e :=
  ⟨fun _ => false, rfl, fun _ => Decides.of_error e⟩

theorem bind {α : Type} {first : Except FilterError α}
    {next : α → Leaves → Except FilterError Bool} (h : ∀ a, Shuns (next a)) :
    Shuns fun leaves => first >>= fun a => next a leaves := by
  cases first with
  | error e => exact error e
  | ok a => exact h a

end Shuns

theorem Seeks.not {r : Leaves → Except FilterError Bool} (h : Seeks r) :
    Shuns fun leaves => (do pure (!(← r leaves))) := by
  obtain ⟨sought, hnone, hr⟩ := h
  exact ⟨sought, hnone, fun leaves => (hr leaves).not⟩

theorem seeks_equal {expected : Value} (h : expected.isNull = false) :
    Seeks fun leaves => pure (someEquals leaves expected) := by
  refine Seeks.value ?_
  dsimp only
  split
  · cases h
  · rfl

theorem seeks_matching [Pattern.Engine] (expression : Pattern.Engine.Expression) :
    Seeks fun leaves => pure (someMatches leaves expression) :=
  Seeks.value rfl

theorem seeks_ordered (operand : Value) (accept : Ordering → Bool) :
    Seeks fun leaves => pure (someOrdered leaves operand accept) :=
  Seeks.value rfl

theorem seeks_listed [Pattern.Engine] {item : Value} (h : item.isNull = false) :
    Seeks fun leaves => listed leaves item := by
  by_cases hpattern : ∃ source options, item = .atom (.pattern source options)
  · obtain ⟨source, options, rfl⟩ := hpattern
    exact Seeks.bind seeks_matching
  · have hplain : ∀ source options, item ≠ .atom (.pattern source options) :=
      fun source options heq => hpattern ⟨source, options, heq⟩
    simp only [listed_of_noPattern _ hplain]
    exact seeks_equal h

theorem seeks_someListed [Pattern.Engine] {items : List Value}
    (h : ∀ item ∈ items, item.isNull = false) : Seeks fun leaves => someListed leaves items := by
  simp only [someListed_eq_anyM]
  exact Seeks.anyM fun item hi => seeks_listed (h item hi)

theorem seeks_isIn [Pattern.Engine] (key : String) {operand : Value} (h : operand.hasNull = false) :
    Seeks fun leaves => requireArray key operand >>= someListed leaves := by
  cases operand with
  | array items =>
    rw [Value.hasNull, List.any_eq_false] at h
    exact seeks_someListed fun item hi => Bool.not_eq_true _ ▸ h item hi
  | _ => exact Seeks.error _

theorem seeks_sized (size : Int) : Seeks fun leaves => pure (someSized leaves size) :=
  Seeks.leaf rfl

theorem seeks_ofKind (codes : List Int) : Seeks fun leaves => pure (someOfKind leaves codes) :=
  Seeks.value rfl

theorem seeks_present {operand : Value} (h : operand.isAffirmative = true) :
    Seeks fun leaves => pure (leaves.any Option.isSome == operand.isAffirmative) := by
  simp only [h, beq_true]
  exact Seeks.leaf rfl

theorem seeks_operandHolds [Pattern.Engine] (all : Document) (key : String) {op : Operator}
    {operand : Value}
    (h : op.seeks operand = true) : Seeks (operandHolds all key (some op) operand) := by
  cases op with
  | eq => exact seeks_equal (Value.isNull_of_hasNull ((Bool.not_eq_true' _).mp h))
  | gt | gte | lt | lte => exact seeks_ordered operand _
  | isIn => exact seeks_isIn key ((Bool.not_eq_true' _).mp h)
  | size => exact Seeks.bind seeks_sized
  | type => exact Seeks.bind seeks_ofKind
  | regex => exact Seeks.bind seeks_matching
  | present => exact seeks_present h
  | elemMatch => exact Seeks.error _
  | _ => cases h

section Operators
variable (all : Document) {key : String}

theorem operatorHolds_elemMatch [Pattern.Engine] (hop : Operator.ofKey? key = some .elemMatch)
    (doc : Document) (leaves : Leaves) :
    operatorHolds all key (.document doc) leaves =
      (Path.elements leaves).anyM (elementHolds doc) := by
  rw [operatorHolds, hop]
  rfl

theorem operatorHolds_eq_operandHolds [Pattern.Engine] {op : Operator}
    (hop : Operator.ofKey? key = some op)
    (hnot : op ≠ .not) (helement : op ≠ .elemMatch) (operand : Value) (leaves : Leaves) :
    operatorHolds all key operand leaves = operandHolds all key (some op) operand leaves := by
  rw [← hop]
  cases operand with
  | document doc =>
    refine operatorHolds_document (fun heq => hnot ?_) (fun heq => helement ?_) all doc leaves
    · exact Option.some.inj (hop.symm.trans heq)
    · exact Option.some.inj (hop.symm.trans heq)
  | _ => rw [operatorHolds]

theorem seeks_elemMatch [Pattern.Engine] (hop : Operator.ofKey? key = some .elemMatch)
    (operand : Value) : Seeks fun leaves => operatorHolds all key operand leaves := by
  cases operand with
  | document doc =>
    simp only [operatorHolds_elemMatch all hop]
    exact Seeks.valuesOf rfl _
  | _ =>
    simp only [operatorHolds, hop]
    exact Seeks.error _

theorem seeks_operatorHolds [Pattern.Engine] {op : Operator} {operand : Value}
    (hop : Operator.ofKey? key = some op) (h : op.seeks operand = true) :
    Seeks fun leaves => operatorHolds all key operand leaves := by
  by_cases helement : op = .elemMatch
  · subst helement
    exact seeks_elemMatch all hop operand
  · have hnot : op ≠ .not := by
      rintro rfl
      cases h
    simp only [operatorHolds_eq_operandHolds all hop hnot helement]
    exact seeks_operandHolds all key h

theorem seeks_filter [Pattern.Engine] (filter : Document) :
    Seeks fun leaves => (Path.documents leaves).anyM (holds filter) := by
  simp only [Path.documents, Path.expanded, List.filterMap_flatMap]
  exact Seeks.valuesOf rfl _

theorem shuns_notIn [Pattern.Engine] {operand : Value} (h : operand.hasNull = false) :
    Shuns (operandHolds all key (some .notIn) operand) := by
  have hlisted := (seeks_isIn key h).not
  cases operand with
  | array items => exact hlisted
  | _ => exact Shuns.error _

theorem shuns_absent {operand : Value} (h : operand.isAffirmative = false) :
    Shuns fun leaves => pure (leaves.any Option.isSome == operand.isAffirmative) := by
  have hpresent : Seeks fun leaves => pure (leaves.any Option.isSome) := Seeks.leaf rfl
  simp only [h, beq_false]
  exact hpresent.not

variable [Pattern.Engine]

theorem seeks_denied {doc : Document} (h : Operator.not.shuns (.document doc) = true)
    (hops : isOperatorExpression doc = true) :
    Seeks fun leaves => operatorsHold doc doc leaves := by
  match doc with
  | [] => cases hops
  | [(token, operand)] =>
    have htoken := (isOperatorExpression_iff.mp hops).2 _ List.mem_cons_self
    obtain ⟨op, hop⟩ : ∃ op, Operator.ofKey? token = some op := by
      rw [Operator.ofKey?, if_pos htoken]
      exact ⟨_, rfl⟩
    have hseeks : op.seeks operand = true := by
      simpa only [Operator.shuns, hop, Option.all_some] using h
    simp only [operatorsHold_singleton]
    exact seeks_operatorHolds _ hop hseeks
  | _ :: _ :: _ =>
    simp only [Operator.shuns, hops] at h
    cases h

theorem shuns_not (hop : Operator.ofKey? key = some .not) {operand : Value}
    (h : Operator.not.shuns operand = true) :
    Shuns fun leaves => operatorHolds all key operand leaves := by
  match operand with
  | .document doc =>
    cases hops : isOperatorExpression doc with
    | true =>
      simp only [operatorHolds, hop, hops, if_true]
      exact (seeks_denied h hops).not
    | false =>
      simp only [operatorHolds, hop, hops, if_neg Bool.false_ne_true]
      exact (seeks_filter doc).not
  | .atom (.pattern source options) =>
    simp only [operatorHolds, hop]
    exact Shuns.bind fun expression => (seeks_matching expression).not

theorem shuns_operatorHolds {op : Operator} {operand : Value}
    (hop : Operator.ofKey? key = some op) (h : op.shuns operand = true) :
    Shuns fun leaves => operatorHolds all key operand leaves := by
  by_cases hnot : op = .not
  · subst hnot
    exact shuns_not all hop h
  have helement : op ≠ .elemMatch := by
    rintro rfl
    cases h
  simp only [operatorHolds_eq_operandHolds all hop hnot helement]
  cases op with
  | ne => exact (seeks_equal (Value.isNull_of_hasNull ((Bool.not_eq_true' _).mp h))).not
  | notIn => exact shuns_notIn all ((Bool.not_eq_true' _).mp h)
  | present => exact shuns_absent ((Bool.not_eq_true' _).mp h)
  | not => exact absurd rfl hnot
  | _ => cases h

end Operators

section Distribution
variable {key rest : String} {entity : Document} {docs : List Document}

section Evaluation
variable {evaluate : Leaves → Except FilterError Bool} (hdot : '.' ∉ key.toList)
  (hposition : ∀ segment ∈ (Path.segments rest).head?, Text.position? segment = none)
  (hlookup : entity.lookup key = some (.array (docs.map .document))) {whole : Bool}
  (hwhole : evaluate (Path.leaves entity (key ++ "." ++ rest)) = .ok whole)
  (heach : ∀ doc ∈ docs, ∃ b, evaluate (Path.leaves doc rest) = .ok b)
include hdot hposition hlookup hwhole heach

theorem Seeks.distributes (h : Seeks evaluate) :
    whole = true ↔ ∃ doc ∈ docs, evaluate (Path.leaves doc rest) = .ok true := by
  obtain ⟨sought, hnone, hdecides⟩ := h
  rw [hdecides _ _ hwhole, Path.any_leaves_below_documents hdot hlookup hposition hnone,
    List.any_eq_true]
  refine exists_congr fun doc => and_congr_right fun hdoc => ?_
  rw [(hdecides _).eq_ok (heach doc hdoc), Except.ok.injEq]

theorem Shuns.distributes (h : Shuns evaluate) :
    whole = true ↔ ∀ doc ∈ docs, evaluate (Path.leaves doc rest) = .ok true := by
  obtain ⟨sought, hnone, hdecides⟩ := h
  rw [hdecides _ _ hwhole, Path.any_leaves_below_documents hdot hlookup hposition hnone,
    List.not_any_eq_all_not, List.all_eq_true]
  refine forall₂_congr fun doc hdoc => ?_
  rw [(hdecides _).eq_ok (heach doc hdoc), Except.ok.injEq]

end Evaluation

theorem holds_operator [Pattern.Engine] {path : String} {op : Operator}
    (hpath : Operator.isToken path = false)
    (ht : Operator.isToken op.token = true) (operand : Value) (entity : Document) :
    holds [(path, .document [(op.token, operand)])] entity =
      operatorHolds [(op.token, operand)] op.token operand (Path.leaves entity path) := by
  rw [holds_singleton, fieldHolds_operator hpath ht]

/-- Below an array of documents, an operator that seeks a value holds where it holds of one of the
documents, and one that shuns a value where it holds of all. -/
theorem operator_distributes [Pattern.Engine] (op : Operator) (operand : Value) (hk : FieldName key)
    (hrest : Operator.isToken rest = false)
    (hposition : ∀ segment ∈ (Path.segments rest).head?, Text.position? segment = none)
    (hlookup : entity.lookup key = some (.array (docs.map .document))) {whole : Bool}
    (hwhole : holds [(key ++ "." ++ rest, .document [(op.token, operand)])] entity = .ok whole)
    (heach : ∀ doc ∈ docs, ∃ b, holds [(rest, .document [(op.token, operand)])] doc = .ok b) :
    (op.seeks operand = true →
      (whole = true ↔
        ∃ doc ∈ docs, holds [(rest, .document [(op.token, operand)])] doc = .ok true)) ∧
    (op.shuns operand = true →
      (whole = true ↔
        ∀ doc ∈ docs, holds [(rest, .document [(op.token, operand)])] doc = .ok true)) := by
  have hkey : Operator.isToken (key ++ "." ++ rest) = false :=
    (Operator.isToken_append key rest).trans hk.noToken
  refine ⟨fun h => ?_, fun h => ?_⟩
  · have hop : Operator.ofKey? op.token = some op :=
      Operator.ofKey?_token (by rintro token rfl; cases h)
    have ht := Operator.isToken_of_ofKey? hop
    rw [holds_operator hkey ht] at hwhole
    simp only [holds_operator hrest ht] at heach ⊢
    exact (seeks_operatorHolds _ hop h).distributes hk.noDot hposition hlookup hwhole heach
  · have hop : Operator.ofKey? op.token = some op :=
      Operator.ofKey?_token (by rintro token rfl; cases h)
    have ht := Operator.isToken_of_ofKey? hop
    rw [holds_operator hkey ht] at hwhole
    simp only [holds_operator hrest ht] at heach ⊢
    exact (shuns_operatorHolds _ hop h).distributes hk.noDot hposition hlookup hwhole heach

end Distribution

theorem operator_distributes_comments :
    let docs : List Document := [[("author", .text "A")],
      [("votes", .array [])], [("votes", .array [.document [("n", .array [.int32 1, .int64 9])]])]]
    let entity : Document := [("comments", .array (docs.map .document))]
    let many : Value := .document [(Operator.gt.token, .int32 5)]
    let few : Value := .document [(Operator.not.token, many)]
    FieldName "comments" ∧ Operator.isToken "votes.n" = false ∧
      (∀ segment ∈ (Path.segments "votes.n").head?, Text.position? segment = none) ∧
      entity.lookup "comments" = some (.array (docs.map .document)) ∧
      Operator.gt.seeks (.int32 5) = true ∧ Operator.not.shuns many = true ∧
      holds [("comments.votes.n", many)] entity = .ok true ∧
      (true = true ↔ ∃ doc ∈ docs, holds [("votes.n", many)] doc = .ok true) ∧
      holds [("comments.votes.n", few)] entity = .ok false ∧
      (false = true ↔ ∀ doc ∈ docs, holds [("votes.n", few)] doc = .ok true) := by
  intro docs entity many few
  have hk : FieldName "comments" := ⟨rfl, by decide⟩
  have hposition : ∀ segment ∈ (Path.segments "votes.n").head?,
      Text.position? segment = none := by
    have hsegments : (Path.segments "votes.n").head? = some "votes" := by decide +kernel
    rw [hsegments]
    rintro segment ⟨⟩
    decide +kernel
  have hmany : ∀ doc ∈ docs, ∃ b, holds [("votes.n", many)] doc = .ok b := by
    simp only [docs, List.forall_mem_cons]
    exact ⟨⟨false, by decide +kernel⟩, ⟨false, by decide +kernel⟩, ⟨true, by decide +kernel⟩, nofun⟩
  have hfew : ∀ doc ∈ docs, ∃ b, holds [("votes.n", few)] doc = .ok b := by
    simp only [docs, List.forall_mem_cons]
    exact ⟨⟨true, by decide +kernel⟩, ⟨true, by decide +kernel⟩, ⟨false, by decide +kernel⟩, nofun⟩
  have hsome : holds [("comments.votes.n", many)] entity = .ok true := by decide +kernel
  have hnot : holds [("comments.votes.n", few)] entity = .ok false := by decide +kernel
  exact ⟨hk, rfl, hposition, rfl, rfl, rfl, hsome,
    (operator_distributes .gt (.int32 5) hk rfl hposition rfl hsome hmany).1 rfl, hnot,
    (operator_distributes .not many hk rfl hposition rfl hnot hfew).2 rfl⟩

end Filter
end AccessRules
