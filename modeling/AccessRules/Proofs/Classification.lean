import AccessRules.Proofs.Easing
import AccessRules.Proofs.Flattening
import AccessRules.Proofs.Roundtrip
import Mathlib.Data.List.Sort
import Mathlib.Data.String.Basic
import Mathlib.Tactic.SplitIfs

/-! What is left of a value that has been classified. It is written back with the keys of documents
in the order of their bytes, down to operator expressions and lists, which are kept as they were;
and reading that again gives the same condition. -/
namespace AccessRules

def keyBytes (key : String) : List UInt8 := key.toUTF8.data.toList

theorem keyBytes_eq_flatMap (key : String) :
    keyBytes key = key.toList.flatMap String.utf8EncodeChar := by
  have h : key.toUTF8 = (key.toList.flatMap String.utf8EncodeChar).toByteArray := by
    rw [String.toUTF8, ← key.ofList_toList, String.toByteArray_ofList, String.toList_ofList,
      List.utf8Encode]
  rw [keyBytes, h]
  exact List.toList_data_toByteArray

theorem encoded_lt_of_lt {c d : Char} (h : c < d) (xs ys : List UInt8) :
    String.utf8EncodeChar c ++ xs < String.utf8EncodeChar d ++ ys := by
  have hlt : c.val.toNat < d.val.toNat := h
  have hbound : d.val.toNat < 0x110000 := by
    rcases d.valid with hd | hd
    · exact Nat.lt_trans hd (by decide)
    · exact hd.2
  unfold String.utf8EncodeChar
  generalize c.val.toNat = v at *
  generalize d.val.toNat = w at *
  dsimp only
  -- by the lengths of the two encodings
  split_ifs <;>
    simp (disch := omega) only [List.cons_append, List.nil_append, List.cons_lt_cons_iff,
      UInt8.lt_iff_toNat_lt, ← UInt8.toNat_inj, UInt8.toNat_ofNat', Nat.mod_eq_of_lt] <;>
    omega

theorem keyBytes_lt {a b : String} (h : a < b) : keyBytes a < keyBytes b := by
  rw [keyBytes_eq_flatMap, keyBytes_eq_flatMap]
  rw [String.lt_iff_toList_lt] at h
  generalize a.toList = cs, b.toList = ds at h
  induction h with
  | @nil d rest =>
    obtain ⟨byte, bytes, h⟩ := List.exists_cons_of_ne_nil (String.utf8EncodeChar_ne_nil (c := d))
    rw [List.flatMap_cons, h]
    exact List.nil_lt_cons _ _
  | rel h => exact encoded_lt_of_lt h _ _
  | cons _ ih => exact List.append_left_lt ih

theorem keyBytes_le_iff {a b : String} : keyBytes a ≤ keyBytes b ↔ a ≤ b := by
  rw [← List.not_lt, ← String.not_lt]
  refine not_congr ⟨fun h => ?_, keyBytes_lt⟩
  rcases lt_trichotomy b a with hlt | rfl | hgt
  · exact hlt
  · exact absurd h (List.lt_irrefl _)
  · exact absurd h (List.lt_asymm (keyBytes_lt hgt))

namespace KeyMap
variable {α : Type} {entries : List (String × α)} {map : KeyMap α}

def BytesLe (x y : String × α) : Prop := keyBytes x.1 ≤ keyBytes y.1

instance : DecidableRel (@BytesLe α) := fun x y =>
  inferInstanceAs (Decidable (keyBytes x.1 ≤ keyBytes y.1))

theorem bytesLe_iff {x y : String × α} : BytesLe x y ↔ x.1 ≤ y.1 := keyBytes_le_iff

instance : Std.Total (@BytesLe α) :=
  ⟨fun x y => (le_total x.1 y.1).imp bytesLe_iff.mpr bytesLe_iff.mpr⟩

instance : IsTrans (String × α) BytesLe :=
  ⟨fun _ _ _ hxy hyz => bytesLe_iff.mpr ((bytesLe_iff.mp hxy).trans (bytesLe_iff.mp hyz))⟩

/-- The entries in the order of the bytes of their keys. -/
def byBytes (entries : List (String × α)) : KeyMap α := entries.insertionSort BytesLe

theorem byBytes_perm (entries : List (String × α)) : (byBytes entries).Perm entries :=
  List.perm_insertionSort _ _

theorem sorted_byBytes (h : (entries.map (·.1)).Nodup) : Sorted (byBytes entries) := by
  have hle : (byBytes entries).Pairwise BytesLe := List.pairwise_insertionSort _ _
  have hne : (byBytes entries).Pairwise fun x y => x.1 ≠ y.1 :=
    List.pairwise_map.mp (((byBytes_perm entries).map Prod.fst).nodup_iff.mpr h)
  exact (hle.and hne).imp fun h => lt_of_le_of_ne (bytesLe_iff.mp h.1) h.2

theorem Sorted.eq_byBytes (h : Sorted map) (hperm : map.Perm entries) : map = byBytes entries := by
  have hsorted := sorted_byBytes ((hperm.map (·.1)).nodup_iff.mp h.nodup)
  exact h.ext hsorted fun entry => (hperm.trans (byBytes_perm entries).symm).mem_iff

theorem ofList_eq_of_perm {other : List (String × α)} (h : (entries.map (·.1)).Nodup)
    (hperm : entries.Perm other) : ofList entries = ofList other := by
  have hother : (other.map (·.1)).Nodup := (hperm.map Prod.fst).nodup_iff.mp h
  exact (sorted_ofList _).ext (sorted_ofList _) fun entry =>
    ((ofList_perm h).trans (hperm.trans (ofList_perm hother).symm)).mem_iff

end KeyMap

mutual

/-- The value with the fields of its documents sorted, down to operator expressions, lists and
whatever else is no document; these are kept. -/
def Value.arranged : Value → Value
  | .document fields =>
    if isOperatorExpression fields then .document fields
    else .document (KeyMap.byBytes (Value.arrangedFields fields))
  | value => value

def Value.arrangedFields : List (String × Value) → List (String × Value)
  | [] => []
  | (key, value) :: rest => (key, value.arranged) :: Value.arrangedFields rest

end

mutual

/-- No document that is reached through documents has a key twice. -/
def Value.distinctKeys : Value → Bool
  | .document fields => decide (fields.map (·.1)).Nodup && Value.distinctKeysFields fields
  | _ => true

def Value.distinctKeysFields : List (String × Value) → Bool
  | [] => true
  | (_, value) :: rest => value.distinctKeys && Value.distinctKeysFields rest

end

theorem Value.arrangedFields_eq_map (fields : List (String × Value)) :
    arrangedFields fields = fields.map fun field => (field.1, field.2.arranged) := by
  induction fields with
  | nil => rfl
  | cons field rest ih => rw [arrangedFields, ih, List.map_cons]

@[simp] theorem Value.map_key_arrangedFields (fields : List (String × Value)) :
    (arrangedFields fields).map (·.1) = fields.map (·.1) := by
  rw [arrangedFields_eq_map, List.map_map]
  rfl

theorem Tree.toFields_eq_map (tree : List (String × Condition)) :
    toFields tree = tree.map fun entry => (entry.1, entry.2.toValue) := by
  induction tree with
  | nil => rfl
  | cons entry rest ih => rw [toFields, ih, List.map_cons]

namespace Condition
variable {fields : List (String × Value)}

@[simp] theorem map_key_ofFields (fields : List (String × Value)) :
    (ofFields fields).map (·.1) = fields.map (·.1) := by
  rw [ofFields_eq_map, List.map_map]
  rfl

theorem toFields_ofFields (h : (fields.map (·.1)).Nodup)
    (hvalues : (ofFields fields).map (fun entry => (entry.1, entry.2.toValue)) =
      Value.arrangedFields fields) :
    Tree.toFields (KeyMap.ofList (ofFields fields)) =
      KeyMap.byBytes (Value.arrangedFields fields) := by
  rw [← map_key_ofFields] at h
  have hsorted : KeyMap.Sorted (Tree.toFields (KeyMap.ofList (ofFields fields))) := by
    rw [Tree.toFields_eq_map]
    exact (KeyMap.sorted_ofList _).map _ fun _ _ hlt => hlt
  refine hsorted.eq_byBytes ?_
  rw [Tree.toFields_eq_map, ← hvalues]
  exact (KeyMap.ofList_perm h).map _

mutual

theorem toValue_ofValue (v : Value) (h : v.distinctKeys = true) :
    (ofValue v).toValue = v.arranged := by
  match v with
  | .atom a => rfl
  | .array items => rfl
  | .scopedCode source scope => rfl
  | .document fields =>
    rw [Value.distinctKeys, Bool.and_eq_true, decide_eq_true_eq] at h
    rw [ofValue, Value.arranged]
    split
    · next hop =>
      rw [toValue, Operators.toDocument_ofDocument (isOperatorExpression_iff.mp hop).2,
        Document.ofPairs_of_nodup h.1]
    · rw [toValue, toFields_ofFields h.1 (toValue_ofFields fields h.2)]

theorem toValue_ofFields (fields : List (String × Value))
    (h : Value.distinctKeysFields fields = true) :
    (ofFields fields).map (fun entry => (entry.1, entry.2.toValue)) =
      Value.arrangedFields fields := by
  match fields with
  | [] => rfl
  | (key, value) :: rest =>
    rw [Value.distinctKeysFields, Bool.and_eq_true] at h
    rw [ofFields, List.map_cons, Value.arrangedFields, toValue_ofValue value h.1,
      toValue_ofFields rest h.2]

end

mutual

theorem ofValue_arranged (v : Value) (h : v.distinctKeys = true) :
    ofValue v.arranged = ofValue v := by
  match v with
  | .atom a => rfl
  | .array items => rfl
  | .scopedCode source scope => rfl
  | .document fields =>
    rw [Value.distinctKeys, Bool.and_eq_true, decide_eq_true_eq] at h
    rw [Value.arranged]
    split
    · rfl
    · next hop =>
      have hperm := KeyMap.byBytes_perm (Value.arrangedFields fields)
      have hkeys := hperm.map Prod.fst
      rw [Value.map_key_arrangedFields] at hkeys
      have hread := hperm.map fun field => (field.1, ofValue field.2)
      rw [← ofFields_eq_map, ← ofFields_eq_map, ofFields_arrangedFields fields h.2] at hread
      rw [ofValue, ofValue, Filter.isOperatorExpression_perm hkeys, if_neg hop, if_neg hop]
      have hnodup : ((ofFields fields).map (·.1)).Nodup := by
        rw [map_key_ofFields]
        exact h.1
      rw [KeyMap.ofList_eq_of_perm hnodup hread.symm]

theorem ofFields_arrangedFields (fields : List (String × Value))
    (h : Value.distinctKeysFields fields = true) :
    ofFields (Value.arrangedFields fields) = ofFields fields := by
  match fields with
  | [] => rfl
  | (key, value) :: rest =>
    rw [Value.distinctKeysFields, Bool.and_eq_true] at h
    rw [Value.arrangedFields, ofFields, ofFields, ofValue_arranged value h.1,
      ofFields_arrangedFields rest h.2]

end

end Condition

theorem Tree.toDocument_ofDocument {doc : Document}
    (h : (Value.document doc).distinctKeys = true) :
    (ofDocument doc).toDocument = KeyMap.byBytes (Value.arrangedFields doc) := by
  rw [Value.distinctKeys, Bool.and_eq_true, decide_eq_true_eq] at h
  exact Condition.toFields_ofFields h.1 (Condition.toValue_ofFields doc h.2)

theorem Operator.token_ofKey? {key : String} (h : isToken key = true) :
    (ofKey? key).map token = some key := by
  cases hop : ofKey? key with
  | none =>
    rw [ofKey?, if_pos h] at hop
    cases hop
  | some op => exact congrArg some (token_of_ofKey? hop)

theorem Operator.ofKey?_inj {key key' : String} (h : isToken key = true)
    (heq : ofKey? key = ofKey? key') : key = key' := by
  cases hop : ofKey? key' with
  | none =>
    have htoken := token_ofKey? h
    rw [heq, hop] at htoken
    cases htoken
  | some op => rw [← token_of_ofKey? hop, token_of_ofKey? (heq.trans hop)]

/-- A value is classified without loss: it is written back up to the order of the fields of nested
documents, and read again as the same condition. Operator keys are told apart, and none is lost. -/
theorem Condition.classification_roundtrip (v : Value) (h : v.distinctKeys = true) :
    (ofValue v).toValue = v.arranged ∧
      ofValue (ofValue v).toValue = ofValue v ∧
      (∀ key, Operator.isToken key = true →
        (Operator.ofKey? key).map Operator.token = some key) ∧
      ∀ key key', Operator.isToken key = true → Operator.ofKey? key = Operator.ofKey? key' →
        key = key' := by
  have hvalue := toValue_ofValue v h
  refine ⟨hvalue, ?_, fun key => Operator.token_ofKey?, fun key key' => Operator.ofKey?_inj⟩
  rw [hvalue, ofValue_arranged v h]

theorem Condition.classification_roundtrip_document :
    let v := Value.document [("owner", .document [("team", .int32 1), ("name", .text "x")]),
      ("at", .document [("$lt", .int32 9), ("$gt", .int32 1)]),
      ("Tags", .array [.document [("b", .null), ("a", .null)]])]
    v.distinctKeys = true ∧
      (ofValue v).toValue = .document [("Tags", .array [.document [("b", .null), ("a", .null)]]),
        ("at", .document [("$lt", .int32 9), ("$gt", .int32 1)]),
        ("owner", .document [("name", .text "x"), ("team", .int32 1)])] ∧
      ofValue (ofValue v).toValue = ofValue v := by
  intro v
  have h : v.distinctKeys = true := by decide +kernel
  have hroundtrip := classification_roundtrip v h
  exact ⟨h, hroundtrip.1.trans (by with_unfolding_all rfl), hroundtrip.2.1⟩

end AccessRules
