import AccessRules.Proofs.Evaluation
import Mathlib.Data.List.Induction

/-! Lists without repeated values. A value that is left out for an identical one is not missed by
any equality condition, if the two have the keys of their documents in the same order. -/
namespace AccessRules

namespace Double

theorem compare?_congr {x y : Double} (h : x.numEq y = true) (z : Double) :
    z.compare? x = z.compare? y := by
  unfold numEq compare? at h
  unfold compare?
  split at h
  · cases h
  · next hnan =>
    have hrank : x.rank = y.rank := by simpa using h
    simp_all

theorem numEq_congr {x y : Double} (h : x.numEq y = true) (z : Double) :
    z.numEq x = z.numEq y := by
  rw [numEq, numEq, compare?_congr h]

end Double

namespace Atom

theorem identical_congr {a b : Atom} (h : a.identical b = true) (w : Atom) :
    w.identical a = w.identical b := by
  unfold identical at h
  split at h
  · next x y =>
    cases w with
    | double z => exact Double.numEq_congr h z
    | _ => rfl
  · rw [of_decide_eq_true h]

theorem agrees_congr {a b : Atom} (h : a.identical b = true) (w : Atom) :
    w.agrees a = w.agrees b := by
  have hidentical := identical_congr h w
  unfold identical at h
  split at h
  · next x y =>
    have hcompare : ∀ n : Number, n.compare? (.double x) = n.compare? (.double y) := by
      intro n
      cases n with
      | integer i => exact Double.compare?_congr h (Double.ofInt i)
      | double z => exact Double.compare?_congr h z
    unfold agrees
    cases hw : w.number? with
    | none => exact hidentical
    | some n => exact congrArg (· == some .eq) (hcompare n)
  · rw [of_decide_eq_true h]

end Atom

mutual

/-- Identical values, with the keys of documents in the same order. -/
def Value.alike : Value → Value → Bool
  | .atom a, .atom b => a.identical b
  | .array xs, .array ys => alikeItems xs ys
  | .document xs, .document ys => alikeFields xs ys
  | .scopedCode a xs, .scopedCode b ys => a == b && alikeFields xs ys
  | _, _ => false

def alikeItems : List Value → List Value → Bool
  | [], [] => true
  | x :: xs, y :: ys => x.alike y && alikeItems xs ys
  | _, _ => false

def alikeFields : List (String × Value) → List (String × Value) → Bool
  | [], [] => true
  | (k, x) :: xs, (l, y) :: ys => k == l && x.alike y && alikeFields xs ys
  | _, _ => false

end

theorem length_eq_of_alikeFields {xs ys : List (String × Value)} (h : alikeFields xs ys = true) :
    xs.length = ys.length := by
  induction xs generalizing ys with
  | nil =>
    cases ys with
    | nil => rfl
    | cons field rest => simp [alikeFields] at h
  | cons field rest ih =>
    cases ys with
    | nil => simp [alikeFields] at h
    | cons other more =>
      simp only [alikeFields, Bool.and_eq_true] at h
      rw [List.length_cons, List.length_cons, ih h.2]

def fieldIdentical (fields : List (String × Value)) (key : String) (w : Value) : Bool :=
  match fields.lookup key with
  | some x => w.identical x
  | none => false

theorem fieldIdentical_cons (k : String) (x : Value) (xs : List (String × Value)) (key : String)
    (w : Value) : fieldIdentical ((k, x) :: xs) key w =
      if key == k then w.identical x else fieldIdentical xs key w := by
  unfold fieldIdentical
  rw [List.lookup_cons]
  cases key == k <;> rfl

theorem identicalFields_mono {xs ys : List (String × Value)}
    (h : ∀ key w, fieldIdentical ys key w = true → fieldIdentical xs key w = true)
    (ws : List (String × Value)) (hw : identicalFields ws ys = true) :
    identicalFields ws xs = true := by
  induction ws with
  | nil => rfl
  | cons field rest ih =>
    rw [identicalFields, Bool.and_eq_true] at *
    exact ⟨h field.1 field.2 hw.1, ih hw.2⟩

mutual

theorem Value.identical_of_alike (x y : Value) (h : x.alike y = true) (w : Value)
    (hw : w.identical y = true) : w.identical x = true := by
  match x, y, w with
  | .atom a, .atom b, .atom c =>
    rw [Value.alike] at h
    rw [Value.identical] at *
    rwa [Atom.identical_congr h]
  | .array xs, .array ys, .array ws =>
    rw [Value.alike] at h
    rw [Value.identical] at *
    exact identicalItems_of_alike xs ys h ws hw
  | .document xs, .document ys, .document ws =>
    rw [Value.alike] at h
    rw [Value.identical, Bool.and_eq_true] at *
    rw [length_eq_of_alikeFields h]
    exact ⟨hw.1, identicalFields_mono (fieldIdentical_of_alike xs ys h) ws hw.2⟩
  | .scopedCode a xs, .scopedCode b ys, .scopedCode c ws =>
    rw [Value.alike, Bool.and_eq_true, beq_iff_eq] at h
    rw [Value.identical, Bool.and_eq_true, Bool.and_eq_true] at *
    rw [length_eq_of_alikeFields h.2, h.1]
    exact ⟨hw.1, hw.2.1, identicalFields_mono (fieldIdentical_of_alike xs ys h.2) ws hw.2.2⟩

theorem identicalItems_of_alike (xs ys : List Value) (h : alikeItems xs ys = true)
    (ws : List Value) (hw : identicalItems ws ys = true) : identicalItems ws xs = true := by
  match xs, ys, ws with
  | [], [], [] => rfl
  | x :: xs, y :: ys, w :: ws =>
    rw [alikeItems, Bool.and_eq_true] at h
    rw [identicalItems, Bool.and_eq_true] at *
    exact ⟨Value.identical_of_alike x y h.1 w hw.1, identicalItems_of_alike xs ys h.2 ws hw.2⟩

theorem fieldIdentical_of_alike (xs ys : List (String × Value)) (h : alikeFields xs ys = true)
    (key : String) (w : Value) (hw : fieldIdentical ys key w = true) :
    fieldIdentical xs key w = true := by
  match xs, ys with
  | [], [] => exact hw
  | (k, x) :: xs, (l, y) :: ys =>
    rw [alikeFields, Bool.and_eq_true, Bool.and_eq_true, beq_iff_eq] at h
    rw [fieldIdentical_cons] at *
    rw [h.1.1]
    split at hw
    · next hk =>
      rw [if_pos hk]
      exact Value.identical_of_alike x y h.1.2 w hw
    · next hk =>
      rw [if_neg hk]
      exact fieldIdentical_of_alike xs ys h.2 key w hw

end

mutual

theorem Value.agrees_of_alike (x y : Value) (h : x.alike y = true) (w : Value)
    (hw : w.agrees y = true) : w.agrees x = true := by
  match x, y, w with
  | .atom a, .atom b, .atom c =>
    rw [Value.alike] at h
    rw [Value.agrees] at *
    rwa [Atom.agrees_congr h]
  | .array xs, .array ys, .array ws =>
    rw [Value.alike] at h
    rw [Value.agrees] at *
    exact agreesItems_of_alike xs ys h ws hw
  | .document xs, .document ys, .document ws =>
    rw [Value.alike] at h
    rw [Value.agrees] at *
    exact agreesFields_of_alike xs ys h ws hw
  | .scopedCode a xs, .scopedCode b ys, .scopedCode c ws =>
    rw [Value.agrees] at *
    exact Value.identical_of_alike _ _ h _ hw

theorem agreesItems_of_alike (xs ys : List Value) (h : alikeItems xs ys = true)
    (ws : List Value) (hw : agreesItems ws ys = true) : agreesItems ws xs = true := by
  match xs, ys, ws with
  | [], [], [] => rfl
  | x :: xs, y :: ys, w :: ws =>
    rw [alikeItems, Bool.and_eq_true] at h
    rw [agreesItems, Bool.and_eq_true] at *
    exact ⟨Value.agrees_of_alike x y h.1 w hw.1, agreesItems_of_alike xs ys h.2 ws hw.2⟩

theorem agreesFields_of_alike (xs ys : List (String × Value)) (h : alikeFields xs ys = true)
    (ws : List (String × Value)) (hw : agreesFields ws ys = true) : agreesFields ws xs = true := by
  match xs, ys, ws with
  | [], [], [] => rfl
  | (k, x) :: xs, (l, y) :: ys, (m, w) :: ws =>
    rw [alikeFields, Bool.and_eq_true, Bool.and_eq_true, beq_iff_eq] at h
    rw [agreesFields, Bool.and_eq_true, Bool.and_eq_true] at *
    rw [h.1.1]
    exact ⟨⟨hw.1.1, Value.agrees_of_alike x y h.1.2 w hw.1.2⟩,
      agreesFields_of_alike xs ys h.2 ws hw.2⟩

end

theorem Value.eq_null_of_alike {x : Value} (h : x.alike .null = true) : x = .null := by
  cases x with
  | atom a =>
    rw [Value.alike] at h
    cases a with
    | null => rfl
    | _ => cases h
  | array items => simp [Value.alike] at h
  | document fields => simp [Value.alike] at h
  | scopedCode source scope => simp [Value.alike] at h

theorem Value.eq_or_noPattern_of_alike {x y : Value} (h : x.alike y = true) :
    x = y ∨ ∀ source options,
      x ≠ .atom (.pattern source options) ∧ y ≠ .atom (.pattern source options) := by
  by_cases heq : x = y
  · exact .inl heq
  refine .inr fun source options => ⟨?_, ?_⟩
  · rintro rfl
    cases y with
    | atom b =>
      rw [Value.alike] at h
      exact heq (congrArg Value.atom (of_decide_eq_true h))
    | _ => simp [Value.alike] at h
  · rintro rfl
    cases x with
    | atom a =>
      rw [Value.alike] at h
      cases a with
      | double d => cases h
      | _ => exact heq (congrArg Value.atom (of_decide_eq_true h))
    | _ => simp [Value.alike] at h

namespace MemoryStore
variable {values : List Value}

theorem distinct_append_singleton (values : List Value) (v : Value) :
    distinct (values ++ [v]) =
      if (distinct values).any (·.identical v) then distinct values
      else distinct values ++ [v] := by
  rw [distinct, List.foldl_append]
  rfl

theorem mem_of_mem_distinct {x : Value} (h : x ∈ distinct values) : x ∈ values := by
  induction values using List.reverseRecOn with
  | nil => exact h
  | append_singleton values v ih =>
    rw [distinct_append_singleton] at h
    split at h
    · exact List.mem_append_left _ (ih h)
    · exact List.mem_append.mpr ((List.mem_append.mp h).imp_left ih)

theorem exists_distinct {v : Value} (h : v ∈ values) :
    ∃ kept ∈ distinct values, kept = v ∨ kept.identical v = true := by
  induction values using List.reverseRecOn with
  | nil => cases h
  | append_singleton values w ih =>
    rw [distinct_append_singleton]
    rcases List.mem_append.mp h with h | h
    · obtain ⟨kept, hkept, heq⟩ := ih h
      refine ⟨kept, ?_, heq⟩
      split
      · exact hkept
      · exact List.mem_append_left _ hkept
    · rw [List.mem_singleton.mp h]
      split
      · next hany =>
        obtain ⟨kept, hkept, hidentical⟩ := List.any_eq_true.mp hany
        exact ⟨kept, hkept, .inr hidentical⟩
      · exact ⟨w, List.mem_append_right _ (List.mem_singleton_self w), .inl rfl⟩

/-- A condition that values alike share holds of an element of a list exactly if it does so without
repetitions. -/
theorem any_distinct {p : Value → Bool}
    (h : ∀ x ∈ values, ∀ y ∈ values, x.identical y = true → p y = true → p x = true) :
    (distinct values).any p = values.any p := by
  rw [Bool.eq_iff_iff, List.any_eq_true, List.any_eq_true]
  constructor
  · rintro ⟨x, hx, hp⟩
    exact ⟨x, mem_of_mem_distinct hx, hp⟩
  · rintro ⟨y, hy, hp⟩
    obtain ⟨x, hx, rfl | hidentical⟩ := exists_distinct hy
    · exact ⟨x, hx, hp⟩
    · exact ⟨x, hx, h x (mem_of_mem_distinct hx) y hy hidentical hp⟩

end MemoryStore
end AccessRules
