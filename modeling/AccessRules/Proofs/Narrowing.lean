import AccessRules.Pattern.Syntax
import AccessRules.Proofs.Easing
import AccessRules.Proofs.Growth

/-! Conditions that narrow. A tree that keeps what another one asks for accepts no entity that the
other one turns down: of related entities it finds fewer, and of elements it accepts fewer, as long
as what it asks of them still reads as what the other one asks. -/
namespace AccessRules

section Members
variable {α β : Type} {R : α → β → Prop} {xs : List α} {ys : List β}

theorem exists_left_of_mem (h : List.Forall₂ R xs ys) {y : β} (hy : y ∈ ys) : ∃ x ∈ xs, R x y := by
  induction h with
  | nil => cases hy
  | cons hfirst _ ih =>
    rcases List.mem_cons.mp hy with rfl | hy
    · exact ⟨_, List.mem_cons_self, hfirst⟩
    · obtain ⟨x, hx, hxy⟩ := ih hy
      exact ⟨x, List.mem_cons_of_mem _ hx, hxy⟩

theorem exists_right_of_mem (h : List.Forall₂ R xs ys) {x : α} (hx : x ∈ xs) : ∃ y ∈ ys, R x y :=
  exists_left_of_mem h.flip hx

end Members

namespace Filter
variable [Pattern.Engine] {strong weak : Document}

theorem holds_iff_forall {filter entity : Document} :
    holds filter entity = .ok true ↔
      ∀ pair ∈ filter, fieldHolds pair.1 pair.2 entity = .ok true := by
  rw [holds_eq_allM]
  exact allM_eq_true_iff

/-- Every condition is among others, or is eased from one of them. -/
def Narrower (strong weak : Document) : Prop := ∀ pair ∈ weak, ∃ other ∈ strong, Eased other pair

theorem Narrower.of_subset (h : weak ⊆ strong) : Narrower strong weak :=
  fun pair hp => ⟨pair, h hp, .same pair⟩

theorem Narrower.of_forall₂ (h : List.Forall₂ Eased strong weak) : Narrower strong weak :=
  fun _ hp => exists_left_of_mem h hp

theorem Narrower.entails (h : Narrower strong weak) (entity : Document) :
    Entails (holds strong entity) (holds weak entity) := by
  rw [holds_eq_allM, holds_eq_allM]
  refine .allM_of_forall fun pair hp => ?_
  obtain ⟨other, ho, heased⟩ := h pair hp
  exact ⟨other, ho, heased.entails_field entity⟩

theorem Narrower.pairsOf {strong weak : List Clause}
    (h : ∀ clause ∈ weak, ∃ other ∈ strong, Narrower other.pairs clause.pairs) :
    Narrower (Clause.pairsOf strong) (Clause.pairsOf weak) := by
  intro pair hp
  obtain ⟨clause, hc, hp⟩ := Clause.mem_pairsOf.mp hp
  obtain ⟨other, ho, hnarrower⟩ := h clause hc
  obtain ⟨found, hfound, heased⟩ := hnarrower pair hp
  exact ⟨found, Clause.mem_pairsOf.mpr ⟨other, ho, hfound⟩, heased⟩

section Elements

theorem operatorHolds_of_combines {key : String} {condition : Value}
    (h : combines key condition = true) (all : Document) (operand : Value) (leaves : Leaves) :
    ∃ e, operatorHolds all key operand leaves = .error e := by
  cases condition with
  | array items =>
    rw [combines] at h
    obtain ⟨op, hop, h⟩ := (Option.any_eq_true _ _).mp h
    cases op with
    | and | or | nor => cases operand <;> rw [operatorHolds, hop] <;> exact ⟨_, rfl⟩
    | _ => cases h
  | _ => cases h

theorem Narrower.operatorsHold_error (h : Narrower strong weak) {entity : Document}
    (hs : holds strong entity = .ok true) (hw : isOperatorExpression weak = true)
    (all : Document) (leaves : Leaves) : ∃ e, operatorsHold all weak leaves = .error e := by
  cases weak with
  | nil => cases hw
  | cons pair rest =>
    have htoken := (isOperatorExpression_iff.mp hw).2 pair List.mem_cons_self
    obtain ⟨other, ho, heased⟩ := h pair List.mem_cons_self
    have hkey := heased.key_eq
    have hholds := holds_iff_forall.mp hs other ho
    have hcombines : combines other.1 other.2 = true := by
      by_contra hnot
      exact ne_ok_of_error (fieldHolds_operatorKey (hkey ▸ htoken) (Bool.eq_false_iff.mpr hnot)
        entity) true hholds
    rw [hkey] at hcombines
    obtain ⟨e, he⟩ := operatorHolds_of_combines hcombines all pair.2 leaves
    rw [operatorsHold, he]
    exact ⟨e, rfl⟩

/-- What lets conditions that are read as operators narrow others: there are others, a pattern among
them has no new options, and what stands at rigid operators stands there as it is. -/
structure Undiluted (strong weak : Document) : Prop where
  stated : weak ≠ []
  options : ∀ pattern text, (∀ ops, pattern ≠ .document ops) →
    (Operator.regex.token, pattern) ∈ weak → (Operator.options.token, .text text) ∈ strong →
      (Operator.options.token, .text text) ∈ weak
  rigid : ∀ pair ∈ weak, Operator.isRigid pair.1 = true → pair ∈ strong

theorem Eased.eq_of_text {pair : String × Value} {key text : String}
    (h : Eased pair (key, .text text)) : pair = (key, .text text) := by
  cases h
  rfl

theorem Narrower.optionsText?_eq (h : Narrower strong weak) (hu : Undiluted strong weak)
    (hkeys : (strong.map (·.1)).Nodup) (hkeys' : (weak.map (·.1)).Nodup) {pattern : Value}
    (hpattern : ∀ ops, pattern ≠ .document ops) (hregex : (Operator.regex.token, pattern) ∈ weak) :
    optionsText? strong = optionsText? weak := by
  apply Option.ext
  intro text
  rw [optionsText?_eq_some_iff, optionsText?_eq_some_iff, KeyMap.lookup_eq_some_iff hkeys,
    KeyMap.lookup_eq_some_iff hkeys']
  refine ⟨hu.options pattern text hpattern hregex, fun htext => ?_⟩
  obtain ⟨other, ho, heased⟩ := h _ htext
  rwa [heased.eq_of_text] at ho

theorem operatorHolds_options {key : String} (h : Operator.ofKey? key = some .options)
    (all : Document) (operand : Value) (leaves : Leaves) :
    operatorHolds all key operand leaves ≠ .ok false := by
  have hoptions : ∀ operand, operandHolds all key (some .options) operand leaves ≠ .ok false := by
    intro operand hfalse
    simp only [operandHolds] at hfalse
    split at hfalse <;> cases hfalse
  cases operand <;> rw [operatorHolds, h] <;> exact hoptions _

theorem operatorHolds_regex_document {key : String} (h : Operator.ofKey? key = some .regex)
    (all ops : Document) (leaves : Leaves) :
    operatorHolds all key (.document ops) leaves ≠ .ok false := by
  unfold operatorHolds
  rw [h]
  exact nofun

theorem Narrower.entails_operatorsHold (h : Narrower strong weak) (hu : Undiluted strong weak)
    (hkeys : (strong.map (·.1)).Nodup) (hkeys' : (weak.map (·.1)).Nodup) (leaves : Leaves) :
    Entails (operatorsHold strong strong leaves) (operatorsHold weak weak leaves) := by
  rw [operatorsHold_eq_allM, operatorsHold_eq_allM]
  refine .allM_of_forall fun pair hp => ?_
  obtain ⟨other, ho, heased, hrigid⟩ : ∃ other ∈ strong, Eased other pair ∧
      (other = pair ∨ Operator.isRigid other.1 = false) := by
    obtain ⟨other, ho, heased⟩ := h pair hp
    cases hr : Operator.isRigid pair.1 with
    | true => exact ⟨pair, hu.rigid pair hp hr, .same pair, .inl rfl⟩
    | false => exact ⟨other, ho, heased, .inr (heased.key_eq ▸ hr)⟩
  refine ⟨other, ho, ?_⟩
  obtain ⟨key, operand⟩ := pair
  -- only a pattern and its options read what stands beside them
  by_cases hoptions : Operator.ofKey? key = some .options
  · exact fun _ => operatorHolds_options hoptions _ _ _
  have hstep := heased.entails_operator hrigid strong leaves
  by_cases hregex : Operator.ofKey? key = some .regex
  · by_cases hdoc : ∃ ops, operand = .document ops
    · obtain ⟨ops, rfl⟩ := hdoc
      exact fun _ => operatorHolds_regex_document hregex _ _ _
    · rw [← Operator.token_of_ofKey? hregex] at hp
      have htext := h.optionsText?_eq hu hkeys hkeys' (not_exists.mp hdoc) hp
      rwa [operatorHolds_congr (fun _ => htext) fun h => absurd h hoptions] at hstep
  · rwa [operatorHolds_congr (fun h => absurd h hregex) fun h => absurd h hoptions] at hstep

end Elements
end Filter

section Clauses
variable [Pattern.Engine] {strong weak : List Clause}

theorem Filter.Narrower.entails_elementHolds
    (h : Filter.Narrower (Clause.pairsOf strong) (Clause.pairsOf weak))
    (hu : isOperatorExpression (Clause.pairsOf strong) = true →
      Filter.Undiluted (Clause.pairsOf strong) (Clause.pairsOf weak)) (item : Value) :
    Entails (Filter.elementHolds (Clause.document strong) item)
      (Filter.elementHolds (Clause.document weak) item) := by
  by_cases hcs : Clause.Collide strong
  · rw [Clause.elementHolds_of_collide hcs]
    exact nofun
  by_cases hcw : Clause.Collide weak
  · rw [Clause.elementHolds_of_collide hcw]
    exact .of_error _
  rw [Clause.document_of_not_collide hcs, Clause.document_of_not_collide hcw]
  unfold Filter.elementHolds
  by_cases hs : isOperatorExpression (Clause.pairsOf strong) = true
  · have hw : isOperatorExpression (Clause.pairsOf weak) = true := by
      refine isOperatorExpression_iff.mpr ⟨(hu hs).stated, fun pair hp => ?_⟩
      obtain ⟨other, ho, heased⟩ := h pair hp
      exact heased.key_eq ▸ (isOperatorExpression_iff.mp hs).2 other ho
    rw [if_pos hs, if_pos hw]
    exact h.entails_operatorsHold (hu hs) (not_not.mp hcs) (not_not.mp hcw) _
  · rw [if_neg hs]
    cases item with
    | document element =>
      by_cases hw : isOperatorExpression (Clause.pairsOf weak) = true
      · rw [if_pos hw]
        intro hholds
        exact ne_ok_of_error (h.operatorsHold_error hholds hw _ _) false
      · rw [if_neg hw]
        exact h.entails element
    | _ => exact nofun

end Clauses

theorem MemoryStore.orderedIds_of_atoms {store : MemoryStore} (h : ∀ entry ∈ store.entries,
    ∀ id ∈ entry.2.lookup Selector.identifierField, ∃ a, id = .atom a) : store.OrderedIds := by
  have hatom : ∀ type, ∀ id ∈ store.ids type, ∃ a, id = .atom a := by
    intro type id hid
    obtain ⟨doc, hdoc, hlookup⟩ := List.mem_filterMap.mp hid
    obtain ⟨entry, hentry, rfl⟩ := List.mem_map.mp hdoc
    exact h entry (List.mem_filter.mp hentry).1 id hlookup
  intro type x hx y hy hxy
  obtain ⟨a, rfl⟩ := hatom type x hx
  obtain ⟨b, rfl⟩ := hatom type y hy
  rw [Value.identical] at hxy
  rw [Value.alike, hxy]

namespace Outline

theorem mem_leavesBelow {heads : List (String × Outline)} {leaf : String × Value} :
    leaf ∈ leavesBelow heads ↔ ∃ head ∈ heads, leaf ∈ leavesBelow [head] := by
  simp only [leavesBelow_eq_flatMap, List.mem_flatMap, List.mem_singleton, exists_eq_left]

namespace KeptBy
variable {schema : Schema} {owner : Option EntityType} {o o' inside inside' : Outline}
  {field : String}

theorem isEmpty (h : KeptBy schema owner o o') (he : o'.isEmpty = true) : o.isEmpty = true := by
  cases h with
  | @mk _ direct direct' heads heads' hdirect hheads _ _ =>
    simp only [Outline.isEmpty, Outline.direct, Outline.heads, Bool.and_eq_true,
      List.isEmpty_iff] at *
    obtain ⟨rfl, rfl⟩ := he
    refine ⟨List.eq_nil_iff_forall_not_mem.mpr fun entry h => ?_,
      List.eq_nil_iff_forall_not_mem.mpr fun head h => ?_⟩
    · exact absurd (hdirect entry h) List.not_mem_nil
    · obtain ⟨inside', h⟩ := hheads head h
      exact absurd h List.not_mem_nil

theorem leavesBelow_subset (h : KeptBy schema owner inside inside')
    (hvacant : inside.isEmpty = true → inside'.isEmpty = true)
    (hleaves : inside.leaves ⊆ inside'.leaves) :
    leavesBelow [(field, inside)] ⊆ leavesBelow [(field, inside')] := by
  simp only [leavesBelow, List.append_nil]
  by_cases he : inside.isEmpty = true
  · rw [if_pos he, if_pos (hvacant he)]
    exact List.Subset.refl _
  · rw [if_neg he, if_neg fun he' => he (h.isEmpty he')]
    exact List.map_subset _ hleaves

theorem leaves_subset (h : KeptBy schema none o o') : o.leaves ⊆ o'.leaves := by
  generalize ho : (none : Option EntityType) = owner at h
  induction h with
  | @mk _ direct direct' heads heads' hdirect hheads hvacant hinside ih =>
    subst ho
    rw [leaves, leaves]
    refine List.append_subset.mpr ⟨fun leaf hleaf => ?_, fun leaf hleaf => ?_⟩
    · exact List.mem_append_left _ (List.map_subset _ hdirect hleaf)
    · obtain ⟨⟨field, inside⟩, hh, hleaf⟩ := mem_leavesBelow.mp hleaf
      obtain ⟨inside', hh'⟩ := hheads _ hh
      refine List.mem_append_right _ (mem_leavesBelow.mpr ⟨_, hh', ?_⟩)
      exact leavesBelow_subset (hinside field inside inside' hh hh')
        (hvacant field inside inside' hh hh' rfl) (ih field inside inside' hh hh' rfl) hleaf

end KeptBy
end Outline

namespace Resolves
variable {schema : Schema} {store : Store} {owner : Option EntityType} {field : String}
  {inside : Outline} {clause : Clause} {heads : List (String × Outline)} {clauses : List Clause}

theorem forall₂ (h : Resolves schema store owner heads clauses) :
    List.Forall₂ (fun head clause => Resolves schema store owner [head] [clause]) heads
      clauses := by
  induction h with
  | nil => exact .nil
  | empty hhead hempty _ ih => exact .cons (.empty hhead hempty .nil) ih
  | plain hhead hempty hbelow _ _ ih => exact .cons (.plain hhead hempty hbelow .nil) ih
  | embedded hhead hkind hbelow _ _ ih => exact .cons (.embedded hhead hkind hbelow .nil) ih
  | foreignKey hhead hkind hbelow hids _ _ ih =>
    exact .cons (.foreignKey hhead hkind hbelow hids .nil) ih

theorem head_of_mem (h : Resolves schema store owner heads clauses) (hc : clause ∈ clauses) :
    ∃ head ∈ heads, Resolves schema store owner [head] [clause] :=
  exists_left_of_mem h.forall₂ hc

theorem clause_of_mem (h : Resolves schema store owner heads clauses) {head : String × Outline}
    (hh : head ∈ heads) : ∃ clause ∈ clauses, Resolves schema store owner [head] [clause] :=
  exists_right_of_mem h.forall₂ hh

/-- How a single head resolves, by what the schema says of its field. -/
theorem single_cases (h : Resolves schema store owner [(field, inside)] [clause]) :
    match schema.head owner field with
    | .plain => clause.pairs = Outline.leavesBelow [(field, inside)]
    | .dangling _ => False
    | .related relation target =>
      ∃ below, Resolves schema store (some target) inside.heads below ∧
        match relation.kind with
        | .embedded => clause = .embedded field target (inside.ownClauses ++ below)
        | .foreignKey => ∃ ids,
          store.identifiers target (Clause.selector (inside.ownClauses ++ below)) = .ok ids ∧
            clause = .foreignKey (relation.keyField field) ids := by
  cases h with
  | empty hhead hempty =>
    rw [hhead]
    simp [Outline.leavesBelow, hempty, Clause.pairs, Condition.toValue, Tree.toFields]
  | plain hhead hempty hbelow =>
    rw [hhead]
    simp [Outline.leavesBelow, hempty, Clause.pairs, Clause.pairsOf_append,
      Outline.pairsOf_ownClauses, hbelow.pairsOf_eq, Outline.leaves_eq inside]
  | embedded hhead hkind hbelow =>
    rw [hhead]
    simp only [hkind]
    exact ⟨_, hbelow, rfl⟩
  | foreignKey hhead hkind hbelow hids =>
    rw [hhead]
    simp only [hkind]
    exact ⟨_, hbelow, _, hids, rfl⟩

end Resolves

namespace Outline

/-- What lets an outline that is read as operators on an element narrow another one: the other one
asks for something, a pattern that it asks for gets no options, and what it asks of related entities
at rigid operators stays as it is. -/
structure Undiluted (schema : Schema) (owner : Option EntityType) (o o' : Outline) : Prop where
  stated : o.isEmpty = false
  options : ∀ pattern c, (Operator.regex.token, pattern) ∈ o.direct →
    (Operator.options.token, c) ∈ o'.direct → (Operator.options.token, c) ∈ o.direct
  rigid : ∀ head ∈ o.heads, schema.head owner head.1 ≠ .plain →
    Operator.isRigid (schema.headKey owner head.1) = true → head ∈ o'.heads

/-- Wherever the second outline can be taken for operators on the elements of an embedded relation,
it narrows the first one there. -/
inductive UndilutedBelow (schema : Schema) : Option EntityType → Outline → Outline → Prop
  | mk {owner direct direct' heads heads'} :
    (∀ field inside inside' relation target, (field, inside) ∈ heads → (field, inside') ∈ heads' →
      schema.head owner field = .related relation target → relation.kind = .embedded →
      inside'.operatorsOnly schema (some target) = true →
        inside.Undiluted schema (some target) inside') →
    (∀ field inside inside', (field, inside) ∈ heads → (field, inside') ∈ heads' →
      UndilutedBelow schema (schema.below owner field) inside inside') →
    UndilutedBelow schema owner (.mk direct heads) (.mk direct' heads')

theorem UndilutedBelow.of_direct (schema : Schema) (owner : Option EntityType)
    (direct : List (String × Condition)) (o' : Outline) :
    UndilutedBelow schema owner (.mk direct []) o' := by
  obtain ⟨direct', heads'⟩ := o'
  exact .mk (fun _ _ _ _ _ hh => absurd hh List.not_mem_nil)
    fun _ _ _ hh => absurd hh List.not_mem_nil

end Outline

section Heads
variable {schema : Schema} {owner : Option EntityType} {field : String}
  {o o' inside inside' : Outline} {clause clause' : Clause} {below below' : List Clause}

theorem Resolves.pairs_subset {store : Store}
    (h : Resolves schema store owner [(field, inside)] [clause])
    (h' : Resolves schema store owner [(field, inside')] [clause'])
    (hhead : schema.head owner field = .plain)
    (hvacant : inside.isEmpty = true → inside'.isEmpty = true)
    (hkept : Outline.KeptBy schema none inside inside') : clause.pairs ⊆ clause'.pairs := by
  have hcases := h.single_cases
  have hcases' := h'.single_cases
  rw [hhead] at hcases hcases'
  rw [hcases, hcases']
  exact hkept.leavesBelow_subset hvacant hkept.leaves_subset

theorem Resolves.document_of_mem {store : Store} {heads : List (String × Outline)}
    (h : Resolves schema store owner heads below) {pair : String × Value}
    (hp : pair ∈ Clause.pairsOf below) : '.' ∈ pair.1.toList ∨ ∃ ops, pair.2 = .document ops := by
  obtain ⟨clause, hc, hp⟩ := Clause.mem_pairsOf.mp hp
  obtain ⟨⟨field, inside⟩, -, hclause⟩ := h.head_of_mem hc
  have hcases := hclause.single_cases
  split at hcases
  · rw [hcases] at hp
    simp only [Outline.leavesBelow, List.append_nil] at hp
    split at hp
    · rw [List.mem_singleton.mp hp]
      exact .inr ⟨_, rfl⟩
    · obtain ⟨leaf, -, rfl⟩ := List.mem_map.mp hp
      exact .inl (by simp)
  · exact hcases.elim
  · obtain ⟨found, -, hcases⟩ := hcases
    split at hcases
    · rw [hcases, Clause.pairs, List.mem_singleton] at hp
      exact .inr ⟨_, congrArg Prod.snd hp⟩
    · obtain ⟨ids, -, rfl⟩ := hcases
      rw [Clause.pairs, List.mem_singleton] at hp
      exact .inr ⟨_, congrArg Prod.snd hp⟩

theorem Resolves.key_of_mem {store : Store}
    (h : Resolves schema store owner [(field, inside)] [clause])
    (hhead : schema.head owner field ≠ .plain) {pair : String × Value} (hp : pair ∈ clause.pairs) :
    pair.1 = schema.headKey owner field := by
  cases h with
  | empty hplain | plain hplain => exact absurd hplain hhead
  | embedded hrelated hkind =>
    rw [Clause.pairs, List.mem_singleton] at hp
    rw [hp, Schema.headKey_embedded hrelated hkind]
  | foreignKey hrelated hkind =>
    rw [Clause.pairs, List.mem_singleton] at hp
    rw [hp, Schema.headKey_foreignKey hrelated hkind]

/-- Conditions on a key without dots whose operands are no documents are the outline's own. -/
theorem Resolves.direct_of_mem {store : Store} (h : Resolves schema store owner o.heads below)
    {key : String} {value : Value} (hdot : '.' ∉ key.toList) (hvalue : ∀ ops, value ≠ .document ops)
    (hp : (key, value) ∈ Clause.pairsOf (o.ownClauses ++ below)) :
    ∃ c, (key, c) ∈ o.direct ∧ c.toValue = value := by
  rw [Clause.pairsOf_append, Outline.pairsOf_ownClauses] at hp
  rcases List.mem_append.mp hp with hp | hp
  · obtain ⟨⟨k, c⟩, hc, heq⟩ := List.mem_map.mp hp
    cases heq
    exact ⟨c, hc, rfl⟩
  · rcases h.document_of_mem hp with hdotted | ⟨ops, hops⟩
    · exact absurd hdotted hdot
    · exact absurd hops (hvalue ops)

theorem Outline.Undiluted.pairs {store : Store} (hu : o.Undiluted schema owner o')
    (hkept : Outline.KeptBy schema owner o o') (h : Resolves schema store owner o.heads below)
    (h' : Resolves schema store owner o'.heads below') :
    Filter.Undiluted (Clause.pairsOf (o'.ownClauses ++ below'))
      (Clause.pairsOf (o.ownClauses ++ below)) := by
  obtain ⟨hdirect, hheads, hvacant, hinside⟩ := hkept
  rename_i direct direct' heads heads'
  constructor
  · refine Clause.pairsOf_ne_nil _ (fun hnil => ?_) (Resolves.filledAll_append h.filledAll)
    have hempty := h.isEmpty_own_append
    rw [hnil, hu.stated] at hempty
    cases hempty
  · intro pattern text hpattern hp htext
    obtain ⟨c, hc, -⟩ := h.direct_of_mem (by decide) hpattern hp
    obtain ⟨c', hc', heq⟩ := h'.direct_of_mem (by decide) (fun ops h => by cases h) htext
    rw [Clause.pairsOf_append, Outline.pairsOf_ownClauses]
    exact List.mem_append_left _
      (List.mem_map.mpr ⟨_, hu.options c c' hc hc', congrArg (Prod.mk _) heq⟩)
  · intro pair hp hrigid
    rw [Clause.pairsOf_append, List.mem_append, Outline.pairsOf_ownClauses] at hp ⊢
    refine hp.imp (fun hp => List.map_subset _ hdirect hp) fun hp => ?_
    obtain ⟨clause, hc, hp⟩ := Clause.mem_pairsOf.mp hp
    obtain ⟨⟨field, inside⟩, hh, hclause⟩ := h.head_of_mem hc
    by_cases hhead : schema.head owner field = .plain
    · obtain ⟨inside', hh'⟩ := hheads _ hh
      obtain ⟨clause', hc', hclause'⟩ := h'.clause_of_mem hh'
      have hkept := hinside field inside inside' hh hh'
      rw [Schema.below, hhead] at hkept
      exact Clause.mem_pairsOf.mpr ⟨clause', hc', hclause.pairs_subset hclause' hhead
        (hvacant field inside inside' hh hh' hhead) hkept hp⟩
    · have hkey := hclause.key_of_mem hhead hp
      obtain ⟨clause', hc', hclause'⟩ := h'.clause_of_mem (hu.rigid _ hh hhead (hkey ▸ hrigid))
      cases hclause.unique hclause'
      exact Clause.mem_pairsOf.mpr ⟨clause, hc', hp⟩

variable [Pattern.Engine] {store : MemoryStore}

theorem Resolves.narrower_head (hids : store.OrderedIds)
    (h : Resolves schema store owner [(field, inside)] [clause])
    (h' : Resolves schema store owner [(field, inside')] [clause'])
    (hvacant : schema.head owner field = .plain → inside.isEmpty = true → inside'.isEmpty = true)
    (hkept : Outline.KeptBy schema (schema.below owner field) inside inside')
    (hundiluted : ∀ relation target, schema.head owner field = .related relation target →
      relation.kind = .embedded → inside'.operatorsOnly schema (some target) = true →
        inside.Undiluted schema (some target) inside')
    (hbelow : ∀ below below',
      Resolves schema store (schema.below owner field) inside.heads below →
      Resolves schema store (schema.below owner field) inside'.heads below' →
      Filter.Narrower (Clause.pairsOf (inside'.ownClauses ++ below'))
        (Clause.pairsOf (inside.ownClauses ++ below))) :
    Filter.Narrower clause'.pairs clause.pairs := by
  have hcases := h.single_cases
  have hcases' := h'.single_cases
  unfold Schema.below at hkept hbelow
  cases hhead : schema.head owner field with
  | plain =>
    rw [hhead] at hkept
    exact .of_subset (h.pairs_subset h' hhead (hvacant hhead) hkept)
  | dangling type =>
    rw [hhead] at hcases
    exact hcases.elim
  | related relation target =>
    rw [hhead] at hcases hcases' hkept hbelow
    obtain ⟨below, hresolves, hclause⟩ := hcases
    obtain ⟨below', hresolves', hclause'⟩ := hcases'
    have hinside := hbelow _ _ hresolves hresolves'
    cases hkind : relation.kind with
    | embedded =>
      rw [hkind] at hclause hclause'
      subst hclause hclause'
      refine .of_forall₂ (Clause.eased_embedded (hinside.entails_elementHolds fun hops => ?_) _ _)
      rw [hresolves'.isOperatorExpression_eq] at hops
      exact (hundiluted relation target hhead hkind hops).pairs hkept hresolves hresolves'
    | foreignKey =>
      rw [hkind] at hclause hclause'
      obtain ⟨ids, hfound, rfl⟩ := hclause
      obtain ⟨ids', hfound', rfl⟩ := hclause'
      have hwithin := MemoryStore.idsWithin_identifiers hids (fun type => List.Subset.refl _)
        (fun doc => by simpa only [Clause.holds_selector] using hinside.entails doc)
        (MemoryStore.toStore_identifiers_eq_ok.mp hfound')
        (MemoryStore.toStore_identifiers_eq_ok.mp hfound)
      exact .of_forall₂ (Clause.eased_foreignKey hwithin.entails_listed _)

theorem Resolves.narrower (hids : store.OrderedIds) (hkept : Outline.KeptBy schema owner o o')
    (hundiluted : Outline.UndilutedBelow schema owner o o')
    (h : Resolves schema store owner o.heads below)
    (h' : Resolves schema store owner o'.heads below') :
    Filter.Narrower (Clause.pairsOf (o'.ownClauses ++ below'))
      (Clause.pairsOf (o.ownClauses ++ below)) := by
  induction hkept generalizing below below' with
  | @mk owner direct direct' heads heads' hdirect hheads hvacant hinside ih =>
    obtain ⟨hhere, hdeeper⟩ := hundiluted
    refine .pairsOf fun clause hc => ?_
    rcases List.mem_append.mp hc with hc | hc
    · refine ⟨clause, List.mem_append_left _ ?_, .of_subset (List.Subset.refl _)⟩
      exact List.map_subset _ hdirect hc
    · obtain ⟨⟨field, inside⟩, hh, hclause⟩ := h.head_of_mem hc
      obtain ⟨inside', hh'⟩ := hheads _ hh
      obtain ⟨clause', hc', hclause'⟩ := h'.clause_of_mem hh'
      refine ⟨clause', List.mem_append_right _ hc', ?_⟩
      exact narrower_head hids hclause hclause' (hvacant field inside inside' hh hh')
        (hinside field inside inside' hh hh')
        (fun relation target => hhere field inside inside' relation target hh hh')
        fun below below' hr hr' =>
          ih field inside inside' hh hh' (hdeeper field inside inside' hh hh') hr hr'

end Heads

namespace Tree

def added (tree tree' : Tree) : Tree := tree'.filter fun entry => (tree.lookup entry.1).isNone

/-- A tree with all entries of another one and further ones. Where both say something at one path,
they say the same, or there is a tree in both, or the other one replaces what is added; and nothing
is added below a plain field that has to be empty. -/
structure Extends (schema : Schema) (type : EntityType) (tree tree' : Tree) : Prop where
  kept : ∀ entry ∈ tree, entry ∈ tree'
  withstand : ∀ route route' a b, route.path = route'.path →
    (route, a) ∈ tree.statements → (route', b) ∈ (tree.added tree').statements →
      (a = b ∨ isTreePlace a = true ∧ isTreePlace b = true) ∨ route.Outlasts route'
  vacant : ∀ path, tree.outline.Vacant schema (some type) path →
    ∀ route a, (route, a) ∈ (tree.added tree').statements →
      ∀ more, route.path = path ++ more → more = []

variable {tree tree' : Tree}

theorem grown_of_kept (h : tree.Ordered) (h' : tree'.Ordered)
    (hkept : ∀ entry ∈ tree, entry ∈ tree') :
    Grown (fun route a => (route, a) ∈ (tree.added tree').statements) (some (.nested tree))
      (some (.nested tree')) := by
  refine .nested h.sorted h'.sorted fun key => ?_
  cases hl : tree.lookup key with
  | some c =>
    have hmem := h.sorted.lookup_eq_some_iff.mp hl
    rw [h'.sorted.lookup_eq_some_iff.mpr (hkept _ hmem)]
    exact .refl (h.of_mem hmem) _
  | none =>
    cases hl' : tree'.lookup key with
    | none => exact .none
    | some c =>
      have hmem := h'.sorted.lookup_eq_some_iff.mp hl'
      refine .added (h'.of_mem hmem) fun route a hroute => ?_
      refine mem_placesBy.mpr ⟨key, c, route, List.mem_filter.mpr ⟨hmem, ?_⟩, hroute, rfl⟩
      rw [hl]
      rfl

theorem outline_nested {field : String} (hs : splitKey field = none) {below : Tree}
    (h : KeyMap.Sorted below) :
    outline [(field, .nested below)] = .mk [] [(field, outline below)] := by
  have hsplit : split [(field, .nested below)] = ⟨[(field, below)], []⟩ := by
    rw [split, List.foldl_cons, List.foldl_nil]
    unfold Split.add
    rw [hs]
    simp [Split.addBelow, KeyMap.alter, mergeAll, mergeEntries_nil h]
  rw [outline_eq, hsplit]
  rfl

theorem outline_divided {key field tail : String} (hs : splitKey key = some (field, tail))
    (c : Condition) : outline [(key, c)] = .mk [] [(field, outline [(tail, c)])] := by
  have hsplit : split [(key, c)] = ⟨[(field, [(tail, c)])], []⟩ := by
    rw [split, List.foldl_cons, List.foldl_nil]
    unfold Split.add
    rw [hs]
    simp [Split.addBelow, KeyMap.alter, mergeAll, mergeEntries, Condition.mergeOnto_none]
  rw [outline_eq, hsplit]
  rfl

theorem outline_operators {field : String} (hs : splitKey field = none)
    (entries : List (Operator × Value)) :
    outline [(field, .operators entries)] = .mk [(field, .operators entries)] [] := by
  have hsplit : split [(field, .operators entries)] = ⟨[], [(field, .operators entries)]⟩ := by
    rw [split, List.foldl_cons, List.foldl_nil]
    unfold Split.add
    rw [hs]
    rfl
  rw [outline_eq, hsplit]
  rfl

theorem outline_beside {field key tail : String} (hf : splitKey field = none)
    (hk : splitKey key = some (field, tail)) {below : Tree} (hbelow : KeyMap.Sorted below)
    (c : Condition) :
    outline [(field, .nested below), (key, c)] =
      .mk [] [(field, outline (mergeEntries [(tail, c)] below))] := by
  have hsplit : split [(field, .nested below), (key, c)] =
      ⟨[(field, mergeEntries [(tail, c)] below)], []⟩ := by
    rw [split, List.foldl_cons, List.foldl_cons, List.foldl_nil]
    unfold Split.add
    rw [hf, hk]
    simp [Split.addBelow, KeyMap.alter, mergeAll, mergeEntries_nil hbelow]
  rw [outline_eq, hsplit]
  rfl

end Tree

section Extension
variable {schema : Schema} {store : MemoryStore} {type : EntityType} {tree tree' : Tree}
  {clauses clauses' : List Clause} {entity : Document}

/-- Further conditions never let an entity in that the conditions alone turn down. -/
theorem resolve_narrower [Pattern.Engine] (htree : tree.Ordered) (htree' : tree'.Ordered)
    (hextends : tree.Extends schema type tree') (hids : store.OrderedIds)
    (hundiluted : Outline.UndilutedBelow schema (some type) tree.outline tree'.outline)
    (hresolve : (resolve schema store type tree).result = .ok clauses)
    (hresolve' : (resolve schema store type tree').result = .ok clauses')
    (hholds : Filter.holds (Clause.selector clauses').document entity = .ok true) :
    Filter.holds (Clause.selector clauses).document entity ≠ .ok false := by
  have hkept : Outline.KeptBy schema (some type) tree.outline tree'.outline :=
    Tree.keptBy_outline (Q := fun route a => (route, a) ∈ tree.statements)
      (Tree.grown_of_kept htree htree' hextends.kept)
      (fun route route' a b hpath ha hb => .inr (hextends.withstand route route' a b hpath ha hb))
      (fun route a hroute => hroute) hextends.vacant
  obtain ⟨below, hbelow, rfl⟩ := Outline.resolves_of_ok _ hresolve
  obtain ⟨below', hbelow', rfl⟩ := Outline.resolves_of_ok _ hresolve'
  rw [Clause.holds_selector] at *
  exact (hbelow.narrower hids hkept hundiluted hbelow').entails entity hholds

/-- Projects of an owner with a name, and those of an owner with this name and an age. What one more
entry says of a subdocument is replaced where the first conditions say it by a dotted key, and the
operators on elements become more. -/
theorem resolve_narrower_project :
    let schema : Schema := ⟨[("Project", ⟨[("owner", ⟨.foreignKey, some ⟨"Owner"⟩, none⟩),
      ("tags", ⟨.embedded, some ⟨"Tag"⟩, none⟩)], []⟩)]⟩
    let store : MemoryStore := .ofEntries [
      (⟨"Owner"⟩, [("_id", .int32 7), ("name", .text "X"), ("age", .int32 30)]),
      (⟨"Owner"⟩, [("_id", .int32 8), ("name", .text "X"), ("age", .int32 40)])]
    let tree : Tree := [("m.a", .scalar (.int32 1)),
      ("owner", .nested [("name", .scalar (.text "X"))]), ("tags.$gt", .scalar (.int32 3))]
    let tree' : Tree := [("m", .nested [("a", .scalar (.int32 5)), ("b", .scalar (.int32 2))]),
      ("m.a", .scalar (.int32 1)), ("owner", .nested [("name", .scalar (.text "X"))]),
      ("owner.age", .scalar (.int32 30)), ("tags.$gt", .scalar (.int32 3)),
      ("tags.$lt", .scalar (.int32 9))]
    let clauses : List Clause := [.path "m" [.field "a" (.scalar (.int32 1))],
      .foreignKey "owner_id" [.int32 7, .int32 8],
      .embedded "tags" ⟨"Tag"⟩ [.field "$gt" (.scalar (.int32 3))]]
    let clauses' : List Clause :=
      [.path "m" [.field "a" (.scalar (.int32 1)), .field "b" (.scalar (.int32 2))],
        .foreignKey "owner_id" [.int32 7],
        .embedded "tags" ⟨"Tag"⟩
          [.field "$gt" (.scalar (.int32 3)), .field "$lt" (.scalar (.int32 9))]]
    let project : Document := [("m", .document [("a", .int32 1), ("b", .int32 2)]),
      ("owner_id", .int32 7), ("tags", .array [.int32 5])]
    tree.Ordered ∧ tree'.Ordered ∧ tree.Extends schema ⟨"Project"⟩ tree' ∧ store.OrderedIds ∧
      Outline.UndilutedBelow schema (some ⟨"Project"⟩) tree.outline tree'.outline ∧
      (resolve schema store ⟨"Project"⟩ tree).result = .ok clauses ∧
      (resolve schema store ⟨"Project"⟩ tree').result = .ok clauses' ∧
      Filter.holds (Clause.selector clauses').document project = .ok true ∧
      Filter.holds (Clause.selector clauses).document project ≠ .ok false := by
  intro schema store tree tree' clauses clauses' project
  have htree : tree.Ordered := Tree.ordered_ofDocument
    [("m.a", .int32 1), ("owner", .document [("name", .text "X")]), ("tags.$gt", .int32 3)]
  have htree' : tree'.Ordered := Tree.ordered_ofDocument
    [("m", .document [("a", .int32 5), ("b", .int32 2)]), ("m.a", .int32 1),
      ("owner", .document [("name", .text "X")]), ("owner.age", .int32 30),
      ("tags.$gt", .int32 3), ("tags.$lt", .int32 9)]
  have hm : splitKey "m.a" = some ("m", "a") := by decide
  have howner : splitKey "owner.age" = some ("owner", "age") := by decide
  have hgt : splitKey "tags.$gt" = some ("tags", "$gt") := by decide
  have hlt : splitKey "tags.$lt" = some ("tags", "$lt") := by decide
  have houtline : tree.outline = .mk [] [("m", .mk [("a", .scalar (.int32 1))] []),
      ("owner", .mk [("name", .scalar (.text "X"))] []),
      ("tags", .mk [("$gt", .scalar (.int32 3))] [])] := by
    have hsplit : tree.split = ⟨[("m", [("a", .scalar (.int32 1))]),
        ("owner", [("name", .scalar (.text "X"))]), ("tags", [("$gt", .scalar (.int32 3))])],
        []⟩ := by
      simp only [tree, Tree.split, List.foldl_cons, List.foldl_nil]
      unfold Split.add
      rw [hm, hgt]
      rfl
    rw [Tree.outline_eq, hsplit]
    with_unfolding_all rfl
  have houtline' : tree'.outline = .mk []
      [("m", .mk [("a", .scalar (.int32 1)), ("b", .scalar (.int32 2))] []),
        ("owner", .mk [("age", .scalar (.int32 30)), ("name", .scalar (.text "X"))] []),
        ("tags", .mk [("$gt", .scalar (.int32 3)), ("$lt", .scalar (.int32 9))] [])] := by
    have hsplit : tree'.split = ⟨[("m", [("a", .scalar (.int32 1)), ("b", .scalar (.int32 2))]),
        ("owner", [("age", .scalar (.int32 30)), ("name", .scalar (.text "X"))]),
        ("tags", [("$gt", .scalar (.int32 3)), ("$lt", .scalar (.int32 9))])], []⟩ := by
      simp only [tree', Tree.split, List.foldl_cons, List.foldl_nil]
      unfold Split.add
      rw [hm, howner, hgt, hlt]
      rfl
    rw [Tree.outline_eq, hsplit]
    with_unfolding_all rfl
  have hstatements : tree.statements = [([⟨"m", true⟩, ⟨"a", false⟩], some (.scalar (.int32 1))),
      ([⟨"owner", false⟩], none),
      ([⟨"owner", false⟩, ⟨"name", false⟩], some (.scalar (.text "X"))),
      ([⟨"tags", true⟩, ⟨"$gt", false⟩], some (.scalar (.int32 3)))] := by
    with_unfolding_all rfl
  have hadded : (tree.added tree').statements = [([⟨"m", false⟩], none),
      ([⟨"m", false⟩, ⟨"a", false⟩], some (.scalar (.int32 5))),
      ([⟨"m", false⟩, ⟨"b", false⟩], some (.scalar (.int32 2))),
      ([⟨"owner", true⟩, ⟨"age", false⟩], some (.scalar (.int32 30))),
      ([⟨"tags", true⟩, ⟨"$lt", false⟩], some (.scalar (.int32 9)))] := by
    with_unfolding_all rfl
  have hextends : tree.Extends schema ⟨"Project"⟩ tree' := by
    refine ⟨by simp [tree, tree'], fun route route' a b hpath ha hb => ?_, fun path hpath => ?_⟩
    · rw [hstatements] at ha
      rw [hadded] at hb
      simp only [List.mem_cons, Prod.mk.injEq, List.not_mem_nil, or_false] at ha hb
      -- one path is in both trees, and the dotted key outlasts what is added there
      rcases ha with ⟨rfl, rfl⟩ | ⟨rfl, rfl⟩ | ⟨rfl, rfl⟩ | ⟨rfl, rfl⟩ <;>
        rcases hb with ⟨rfl, rfl⟩ | ⟨rfl, rfl⟩ | ⟨rfl, rfl⟩ | ⟨rfl, rfl⟩ | ⟨rfl, rfl⟩ <;>
        first
        | exact .inr .here
        | simp [Route.path] at hpath
    · -- every field has something below it, so no plain one has to be empty
      rw [houtline] at hpath
      cases hpath with
      | here hmem _ hempty =>
        simp only [List.mem_cons, Prod.mk.injEq, List.not_mem_nil, or_false] at hmem
        rcases hmem with ⟨rfl, rfl⟩ | ⟨rfl, rfl⟩ | ⟨rfl, rfl⟩ <;> cases hempty
      | under hmem hinside =>
        simp only [List.mem_cons, Prod.mk.injEq, List.not_mem_nil, or_false] at hmem
        rcases hmem with ⟨rfl, rfl⟩ | ⟨rfl, rfl⟩ | ⟨rfl, rfl⟩ <;> cases hinside <;> contradiction
  have hids : store.OrderedIds := MemoryStore.orderedIds_of_atoms <| List.forall_mem_cons.mpr
    ⟨fun id hid => ⟨_, (Option.some.inj hid).symm⟩, List.forall_mem_singleton.mpr
      fun id hid => ⟨_, (Option.some.inj hid).symm⟩⟩
  have hundiluted :
      Outline.UndilutedBelow schema (some ⟨"Project"⟩) tree.outline tree'.outline := by
    rw [houtline, houtline']
    refine .mk (fun field inside inside' relation target hh hh' _ _ honly => ?_)
      fun field inside inside' hh _ => ?_
    · simp only [List.mem_cons, Prod.mk.injEq, List.not_mem_nil, or_false] at hh hh'
      rcases hh with ⟨rfl, rfl⟩ | ⟨rfl, rfl⟩ | ⟨rfl, rfl⟩ <;>
        rcases hh' with ⟨heq, rfl⟩ | ⟨heq, rfl⟩ | ⟨heq, rfl⟩ <;> simp at heq
      · cases honly
      · cases honly
      · have hregex : Operator.regex.token ≠ "$gt" := by decide
        exact ⟨rfl,
          fun pattern c hp => absurd (congrArg Prod.fst (List.mem_singleton.mp hp)) hregex,
          fun head hh => absurd hh List.not_mem_nil⟩
    · simp only [List.mem_cons, Prod.mk.injEq, List.not_mem_nil, or_false] at hh
      rcases hh with ⟨rfl, rfl⟩ | ⟨rfl, rfl⟩ | ⟨rfl, rfl⟩ <;> exact .of_direct _ _ _ _
  have hresolve : (resolve schema store ⟨"Project"⟩ tree).result = .ok clauses := by
    rw [resolve, houtline]
    with_unfolding_all rfl
  have hresolve' : (resolve schema store ⟨"Project"⟩ tree').result = .ok clauses' := by
    rw [resolve, houtline']
    with_unfolding_all rfl
  have hholds : Filter.holds (Clause.selector clauses').document project = .ok true := by
    with_unfolding_all rfl
  exact ⟨htree, htree', hextends, hids, hundiluted, hresolve, hresolve', hholds,
    resolve_narrower htree htree' hextends hids hundiluted hresolve hresolve' hholds⟩

def Tree.Widens [Pattern.Engine] (schema : Schema) (store : MemoryStore) (type : EntityType)
    (tree tree' : Tree) (entity : Document) : Prop :=
  tree.Ordered ∧ tree'.Ordered ∧ (∀ entry ∈ tree, entry ∈ tree') ∧ ∃ clauses clauses',
    (resolve schema store type tree).result = .ok clauses ∧
    (resolve schema store type tree').result = .ok clauses' ∧
    Filter.holds (Clause.selector clauses').document entity = .ok true ∧
    Filter.holds (Clause.selector clauses).document entity = .ok false

theorem Tree.widens_beside [Pattern.Engine] (inside : Outline) (clauses clauses' : List Clause)
    {field key tail : String} {below : Tree} {c : Condition}
    (hf : splitKey field = none) (hk : splitKey key = some (field, tail)) (hlt : field < key)
    (hbelow : below.Ordered) (hc : c.isNested = false)
    (hinside : Tree.outline (mergeEntries [(tail, c)] below) = inside)
    (h : (resolve schema store type [(field, .nested below)]).result = .ok clauses)
    (h' : ((Outline.mk [] [(field, inside)]).resolve schema store (some type)).result =
      .ok clauses')
    (hholds : Filter.holds (Clause.selector clauses').document entity = .ok true)
    (hfails : Filter.holds (Clause.selector clauses).document entity = .ok false) :
    Tree.Widens schema store type [(field, .nested below)] [(field, .nested below), (key, c)]
      entity := by
  have hsorted : KeyMap.Sorted [(field, Condition.nested below), (key, c)] :=
    List.pairwise_pair.mpr hlt
  have hordered : Tree.Ordered [(field, .nested below), (key, c)] := .nested hsorted <|
    List.forall_mem_cons.mpr ⟨hbelow, List.forall_mem_singleton.mpr (.leaf hc)⟩
  refine ⟨ordered_single hbelow, hordered, fun entry he => List.mem_append_left _ he, clauses,
    clauses', h, ?_, hholds, hfails⟩
  rw [resolve, Tree.outline_beside hf hk hbelow.sorted, hinside]
  exact h'

/-- A dotted key lets entities in that are turned down without it: where it replaces a condition,
where it enters a field that has to be empty, where it is an operator on elements of which nothing
was asked, where it gives options to a pattern on elements, where it leaves over fewer related
entities that an element must not be, and where the identifier of the related entity that it leaves
over is identical to one that is collected without it, with other keys first. -/
theorem extension_widens :
    let schema : Schema := ⟨[("Post", ⟨[("owner", ⟨.foreignKey, some ⟨"Owner"⟩, none⟩),
      ("tags", ⟨.embedded, some ⟨"Tag"⟩, none⟩)], []⟩),
      ("Tag", ⟨[("owner", ⟨.foreignKey, some ⟨"Owner"⟩, some "$not"⟩)], []⟩)]⟩
    let store : MemoryStore := .ofEntries [
      (⟨"Owner"⟩, [("_id", .int32 7), ("name", .text "X"), ("age", .int32 30)]),
      (⟨"Owner"⟩, [("_id", .int32 8), ("name", .text "X"), ("age", .int32 40)])]
    let swapped : MemoryStore := .ofEntries [
      (⟨"Owner"⟩, [("_id", .document [("a", .int32 1), ("b", .int32 2)]), ("name", .text "X"),
        ("age", .int32 30)]),
      (⟨"Owner"⟩, [("_id", .document [("b", .int32 2), ("a", .int32 1)]), ("name", .text "X"),
        ("age", .int32 40)])]
    Tree.Widens schema store ⟨"Post"⟩ [("m", .nested [("a", .scalar (.int32 1))])]
      [("m", .nested [("a", .scalar (.int32 1))]), ("m.a", .scalar (.int32 2))]
      [("m", .document [("a", .int32 2)])] ∧
    Tree.Widens schema store ⟨"Post"⟩ [("m", .nested [])]
      [("m", .nested []), ("m.a", .scalar (.int32 1))] [("m", .document [("a", .int32 1)])] ∧
    Tree.Widens schema store ⟨"Post"⟩ [("tags", .nested [])]
      [("tags", .nested []), ("tags.$ne", .scalar (.int32 5))] [("tags", .array [.int32 6])] ∧
    Tree.Widens schema store ⟨"Post"⟩ [("tags.$regex", .scalar (.text "x"))]
      [("tags.$options", .scalar (.text "i")), ("tags.$regex", .scalar (.text "x"))]
      [("tags", .array [.text "X"])] ∧
    Tree.Widens schema store ⟨"Post"⟩
      [("tags", .nested [("owner", .nested [("name", .scalar (.text "X"))])])]
      [("tags", .nested [("owner", .nested [("name", .scalar (.text "X"))])]),
        ("tags.owner.age", .scalar (.int32 40))]
      [("tags", .array [.int32 7])] ∧
    Tree.Widens schema swapped ⟨"Post"⟩ [("owner", .nested [("name", .scalar (.text "X"))])]
      [("owner", .nested [("name", .scalar (.text "X"))]), ("owner.age", .scalar (.int32 40))]
      [("owner_id", .document [("b", .int32 2), ("a", .int32 1)])] := by
  intro schema store swapped
  have hpath : splitKey "m.a" = some ("m", "a") := by decide
  have hoperator : splitKey "tags.$ne" = some ("tags", "$ne") := by decide
  have hregex : splitKey "tags.$regex" = some ("tags", "$regex") := by decide
  have hoptions : splitKey "tags.$options" = some ("tags", "$options") := by decide
  have helement : splitKey "tags.owner.age" = some ("tags", "owner.age") := by decide
  have hrelated : splitKey "owner.age" = some ("owner", "age") := by decide
  refine ⟨?_, ?_, ?_, ?_, ?_, ?_⟩
  · refine Tree.widens_beside (.mk [("a", .scalar (.int32 2))] [])
      [.path "m" [.field "a" (.scalar (.int32 1))]] [.path "m" [.field "a" (.scalar (.int32 2))]]
      rfl hpath (by decide) (Tree.ordered_single (.leaf rfl)) rfl ?_ ?_ ?_ ?_ ?_
    all_goals with_unfolding_all rfl
  · refine Tree.widens_beside (.mk [("a", .scalar (.int32 1))] []) [.field "m" (.nested [])]
      [.path "m" [.field "a" (.scalar (.int32 1))]] rfl hpath (by decide)
      (Tree.ordered_ofDocument []) rfl ?_ ?_ ?_ ?_ ?_
    all_goals with_unfolding_all rfl
  · refine Tree.widens_beside (.mk [("$ne", .scalar (.int32 5))] [])
      [.embedded "tags" ⟨"Tag"⟩ []] [.embedded "tags" ⟨"Tag"⟩ [.field "$ne" (.scalar (.int32 5))]]
      rfl hoperator (by decide) (Tree.ordered_ofDocument []) rfl ?_ ?_ ?_ ?_ ?_
    all_goals with_unfolding_all rfl
  · have houtline : Tree.outline [("tags.$options", .scalar (.text "i")),
        ("tags.$regex", .scalar (.text "x"))] =
        .mk [] [("tags", .mk [("$options", .scalar (.text "i")),
          ("$regex", .scalar (.text "x"))] [])] := by
      have hsplit : Tree.split [("tags.$options", .scalar (.text "i")),
          ("tags.$regex", .scalar (.text "x"))] =
          ⟨[("tags", [("$options", .scalar (.text "i")), ("$regex", .scalar (.text "x"))])],
            []⟩ := by
        rw [Tree.split, List.foldl_cons, List.foldl_cons, List.foldl_nil]
        unfold Split.add
        rw [hregex, hoptions]
        rfl
      rw [Tree.outline_eq, hsplit]
      with_unfolding_all rfl
    refine ⟨Tree.ordered_ofDocument [("tags.$regex", .text "x")],
      Tree.ordered_ofDocument [("tags.$options", .text "i"), ("tags.$regex", .text "x")],
      fun entry he => List.mem_cons_of_mem _ he,
      [.embedded "tags" ⟨"Tag"⟩ [.field "$regex" (.scalar (.text "x"))]],
      [.embedded "tags" ⟨"Tag"⟩ [.field "$options" (.scalar (.text "i")),
        .field "$regex" (.scalar (.text "x"))]], ?_, ?_, ?_, ?_⟩
    · rw [resolve, Tree.outline_divided hregex]
      with_unfolding_all rfl
    · rw [resolve, houtline]
      with_unfolding_all rfl
    all_goals with_unfolding_all rfl
  · refine Tree.widens_beside (.mk [] [("owner",
        .mk [("age", .scalar (.int32 40)), ("name", .scalar (.text "X"))] [])])
      [.embedded "tags" ⟨"Tag"⟩ [.foreignKey "$not" [.int32 7, .int32 8]]]
      [.embedded "tags" ⟨"Tag"⟩ [.foreignKey "$not" [.int32 8]]]
      rfl helement (by decide) (Tree.ordered_single (Tree.ordered_single (.leaf rfl))) rfl
      ?_ ?_ ?_ ?_ ?_
    all_goals with_unfolding_all rfl
  · refine Tree.widens_beside
      (.mk [("age", .scalar (.int32 40)), ("name", .scalar (.text "X"))] [])
      [.foreignKey "owner_id" [.document [("a", .int32 1), ("b", .int32 2)]]]
      [.foreignKey "owner_id" [.document [("b", .int32 2), ("a", .int32 1)]]]
      rfl hrelated (by decide) (Tree.ordered_single (.leaf rfl)) rfl ?_ ?_ ?_ ?_ ?_
    all_goals with_unfolding_all rfl

end Extension
end AccessRules
