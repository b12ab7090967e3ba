import AccessRules.Proofs.Places

/-! Conditions as values. A condition that was read from a value is written as a value that is read
and written back unchanged. -/
namespace AccessRules

namespace Document

theorem insert_of_not_mem {key : String} {doc : Document} (h : key ∉ doc.map (·.1))
    (value : Value) : insert key value doc = doc ++ [(key, value)] := by
  induction doc with
  | nil => rfl
  | cons field rest ih =>
    rw [List.map_cons, List.mem_cons, not_or] at h
    rw [insert, if_neg (Ne.symm h.1), ih h.2, List.cons_append]

@[simp] theorem map_key_insert (key : String) (value : Value) (doc : Document) :
    (insert key value doc).map (·.1) =
      if key ∈ doc.map (·.1) then doc.map (·.1) else doc.map (·.1) ++ [key] := by
  induction doc with
  | nil => rfl
  | cons field rest ih =>
    obtain ⟨k, v⟩ := field
    unfold insert
    by_cases hk : k = key
    · simp [hk]
    · have hk' : key ≠ k := Ne.symm hk
      rw [if_neg hk, List.map_cons, ih, List.map_cons]
      by_cases hmem : key ∈ rest.map (·.1) <;> simp [hmem, hk']

@[simp] theorem ofPairs_append_singleton (pairs : List (String × Value)) (field : String × Value) :
    ofPairs (pairs ++ [field]) = insert field.1 field.2 (ofPairs pairs) := by
  simp [ofPairs]

theorem nodup_keys_ofPairs (pairs : List (String × Value)) :
    ((ofPairs pairs).map (·.1)).Nodup := by
  induction pairs using List.reverseRecOn with
  | nil => exact List.nodup_nil
  | append_singleton pairs field ih =>
    rw [ofPairs_append_singleton, map_key_insert]
    split
    · exact ih
    · next hmem =>
      refine List.nodup_append.mpr ⟨ih, List.pairwise_singleton _ _, fun key hk other ho => ?_⟩
      rw [List.mem_singleton.mp ho]
      exact fun heq => hmem (heq ▸ hk)

@[simp] theorem mem_keys_ofPairs {pairs : List (String × Value)} {key : String} :
    key ∈ (ofPairs pairs).map (·.1) ↔ key ∈ pairs.map (·.1) := by
  induction pairs using List.reverseRecOn with
  | nil => rfl
  | append_singleton pairs field ih =>
    rw [ofPairs_append_singleton, map_key_insert, List.map_append]
    split <;> grind

theorem ofPairs_of_nodup {pairs : List (String × Value)} (h : (pairs.map (·.1)).Nodup) :
    ofPairs pairs = pairs := by
  induction pairs using List.reverseRecOn with
  | nil => rfl
  | append_singleton pairs field ih =>
    rw [List.map_append, List.nodup_append] at h
    have hfresh : field.1 ∉ (ofPairs pairs).map (·.1) := by
      rw [mem_keys_ofPairs]
      exact fun hmem => h.2.2 _ hmem _ List.mem_cons_self rfl
    rw [ofPairs_append_singleton, insert_of_not_mem hfresh, ih h.1]

end Document

theorem Operators.toDocument_ofDocument {doc : Document}
    (h : ∀ field ∈ doc, Operator.isToken field.1 = true) :
    toDocument (ofDocument doc) = Document.ofPairs doc := by
  rw [toDocument]
  congr 1
  induction doc with
  | nil => rfl
  | cons field rest ih =>
    obtain ⟨key, operand⟩ := field
    have hop : ∃ op, Operator.ofKey? key = some op := by
      rw [Operator.ofKey?, if_pos (h _ List.mem_cons_self)]
      exact ⟨_, rfl⟩
    obtain ⟨op, hop⟩ := hop
    have hrest := ih fun field hf => h field (List.mem_cons_of_mem _ hf)
    rw [ofDocument] at hrest ⊢
    simp [hop, hrest, Operator.token_of_ofKey? hop]

/-- A document is read as one condition and written back as it is: it is empty, or one of operators
with every key once. -/
def Value.IsWhole (v : Value) : Prop :=
  ∀ doc, v = .document doc →
    doc = [] ∨ isOperatorExpression doc = true ∧ (doc.map (·.1)).Nodup

namespace Value
variable {v : Value}

theorem isWhole_singleton {key : String} (h : Operator.isToken key = true) (operand : Value) :
    (Value.document [(key, operand)]).IsWhole := by
  intro doc hdoc
  cases hdoc
  exact .inr ⟨isOperatorExpression_iff.mpr ⟨List.cons_ne_nil _ _, by simpa using h⟩,
    List.pairwise_singleton _ _⟩

theorem IsWhole.toValue_ofValue (h : v.IsWhole) : (Condition.ofValue v).toValue = v := by
  cases v with
  | document doc =>
    rcases h doc rfl with rfl | ⟨hop, hnodup⟩
    · rfl
    · rw [Condition.ofValue, if_pos hop, Condition.toValue,
        Operators.toDocument_ofDocument (isOperatorExpression_iff.mp hop).2,
        Document.ofPairs_of_nodup hnodup]
  | atom a => rfl
  | array items => rfl
  | scopedCode source scope => rfl

theorem IsWhole.eq_empty (h : v.IsWhole) (hn : (Condition.ofValue v).isNested = true) :
    v = .document [] := by
  cases v with
  | document doc =>
    rcases h doc rfl with rfl | ⟨hop, -⟩
    · rfl
    · rw [Condition.ofValue, if_pos hop] at hn
      cases hn
  | atom a => cases hn
  | array items => cases hn
  | scopedCode source scope => cases hn

end Value

namespace Condition

/-- The condition is written as a value that is read and written back as it is, and that is not the
empty document. -/
def IsWhole (c : Condition) : Prop := c.toValue.IsWhole ∧ c.toValue ≠ .document []

variable {path : String → List String} {c : Condition}

theorem ofFields_eq_map (fields : List (String × Value)) :
    ofFields fields = fields.map fun field => (field.1, ofValue field.2) := by
  induction fields with
  | nil => rfl
  | cons field rest ih => rw [ofFields, ih, List.map_cons]

theorem isWhole_operators {doc : Document} (h : isOperatorExpression doc = true) :
    (operators (Operators.ofDocument doc)).IsWhole := by
  obtain ⟨hne, htokens⟩ := isOperatorExpression_iff.mp h
  have hvalue : (operators (Operators.ofDocument doc)).toValue =
      .document (Document.ofPairs doc) := by
    rw [toValue, Operators.toDocument_ofDocument htokens]
  obtain ⟨field, hfield⟩ := List.exists_mem_of_ne_nil _ hne
  have hpairs : Document.ofPairs doc ≠ [] := by
    intro hnil
    have hmem := Document.mem_keys_ofPairs.mpr (List.mem_map.mpr ⟨field, hfield, rfl⟩)
    rw [hnil] at hmem
    exact List.not_mem_nil hmem
  have htoken : ∀ field ∈ Document.ofPairs doc, Operator.isToken field.1 = true := by
    intro field hf
    have hmem := Document.mem_keys_ofPairs.mp (List.mem_map.mpr ⟨field, hf, rfl⟩)
    obtain ⟨other, ho, heq⟩ := List.mem_map.mp hmem
    exact heq ▸ htokens other ho
  rw [IsWhole, hvalue]
  refine ⟨fun d hd => .inr ?_, by simpa using hpairs⟩
  cases hd
  exact ⟨isOperatorExpression_iff.mpr ⟨hpairs, htoken⟩, Document.nodup_keys_ofPairs doc⟩

theorem isWhole_of_leaf {d : Condition} {p : List String} (h : (p, some c) ∈ d.placesBy path)
    (hd : d.isNested = false) (hw : d.IsWhole) : c.IsWhole := by
  rw [Option.some.inj ((mem_placesBy_nil (.inl hd)).mp h).2]
  exact hw

mutual

theorem isWhole_ofValue (v : Value) {p : List String} (h : (p, some c) ∈ (ofValue v).placesBy path)
    (hc : c.isNested = false) : c.IsWhole := by
  match v with
  | .atom a => exact isWhole_of_leaf h rfl ⟨nofun, nofun⟩
  | .array items => exact isWhole_of_leaf h rfl ⟨nofun, nofun⟩
  | .scopedCode source scope => exact isWhole_of_leaf h rfl ⟨nofun, nofun⟩
  | .document fields =>
    rw [ofValue] at h
    split at h
    · next hop => exact isWhole_of_leaf h rfl (isWhole_operators hop)
    · by_cases hnil : KeyMap.ofList (ofFields fields) = []
      · rw [hnil] at h
        have heq := ((mem_placesBy_nil (.inr rfl)).mp h).2
        rw [Option.some.inj heq] at hc
        cases hc
      · rcases (mem_placesBy_nested hnil).mp h with ⟨-, h⟩ | h
        · cases h
        · obtain ⟨key, d, q, hmem, hq, rfl⟩ := Tree.mem_placesBy.mp h
          exact isWhole_ofFields fields (KeyMap.mem_of_mem_ofList hmem) hq hc

theorem isWhole_ofFields (fields : List (String × Value)) {entry : String × Condition}
    {p : List String} (he : entry ∈ ofFields fields) (h : (p, some c) ∈ entry.2.placesBy path)
    (hc : c.isNested = false) : c.IsWhole := by
  match fields with
  | [] => exact absurd he List.not_mem_nil
  | (key, value) :: rest =>
    rw [ofFields] at he
    rcases List.mem_cons.mp he with rfl | he
    · exact isWhole_ofValue value h hc
    · exact isWhole_ofFields rest he h hc

end

end Condition

theorem Tree.isWhole_ofDocument (doc : Document) {p : List String} {c : Condition}
    (h : (p, some c) ∈ (ofDocument doc).places) (hc : c.isNested = false) : c.IsWhole := by
  obtain ⟨key, d, q, hmem, hq, -⟩ := mem_places.mp h
  exact Condition.isWhole_ofFields doc (KeyMap.mem_of_mem_ofList hmem) hq hc

end AccessRules
