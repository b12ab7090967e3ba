import AccessRules.Proofs.Insertion
import AccessRules.Proofs.Listing
import Mathlib.Data.List.Perm.Subperm

/-! Equality of values as conditions see it. It is coarser than identity on numbers and finer on
documents, whose keys it reads in their order; without doubles it is an equivalence, and a condition
that compares a path with a value cannot tell equal values apart. -/
namespace AccessRules

def Atom.isExact : Atom → Bool
  | .double _ => false
  | _ => true

mutual

/-- No double stands in the value, and none of its documents has a key twice; the scope of code is
such a document too. -/
def Value.isExact : Value → Bool
  | .atom a => a.isExact
  | .array items => isExactItems items
  | .document fields => decide (fields.map (·.1)).Nodup && isExactFields fields
  | .scopedCode _ scope => decide (scope.map (·.1)).Nodup && isExactFields scope

def isExactItems : List Value → Bool
  | [] => true
  | v :: vs => v.isExact && isExactItems vs

def isExactFields : List (String × Value) → Bool
  | [] => true
  | (_, v) :: rest => v.isExact && isExactFields rest

end

abbrev ExactValue := { v : Value // v.isExact = true }

mutual

/-- Documents that stand at the same place have the same keys in the same order; the scopes of code
may have them in any. -/
def Value.sameOrder : Value → Value → Bool
  | .array xs, .array ys => sameOrderItems xs ys
  | .document xs, .document ys => sameOrderFields xs ys
  | _, _ => true

def sameOrderItems : List Value → List Value → Bool
  | x :: xs, y :: ys => x.sameOrder y && sameOrderItems xs ys
  | _, _ => true

def sameOrderFields : List (String × Value) → List (String × Value) → Bool
  | [], [] => true
  | (k, x) :: xs, (l, y) :: ys => k == l && x.sameOrder y && sameOrderFields xs ys
  | _, _ => false

end

theorem Double.compare?_eq_symm {x y : Double} (h : x.compare? y = some .eq) :
    y.compare? x = some .eq := by
  unfold compare? at *
  rw [Bool.or_comm]
  split at h
  · cases h
  · next hnan =>
    rw [if_neg hnan]
    rw [Option.some.injEq, Std.compare_eq_iff_eq] at h ⊢
    exact h.symm

namespace Number
variable {x y z : Number} {n : Int}

@[simp] theorem compare?_self (n : Int) : (integer n).compare? (integer n) = some .eq :=
  congrArg some (Std.compare_eq_iff_eq.mpr rfl)

theorem compare?_integer {m : Int} (h : (integer m).compare? (integer n) = some .eq) : m = n :=
  Std.compare_eq_iff_eq.mp (Option.some.inj h)

theorem compare?_eq_symm (h : x.compare? y = some .eq) : y.compare? x = some .eq := by
  cases x with
  | integer m =>
    cases y with
    | integer n =>
      rw [compare?_integer h]
      exact compare?_self n
    | double d => exact Double.compare?_eq_symm h
  | double c => cases y <;> exact Double.compare?_eq_symm h

theorem compare?_eq_trans (hx : x.compare? (integer n) = some .eq)
    (hz : (integer n).compare? z = some .eq) : x.compare? z = some .eq := by
  cases x with
  | integer m => rwa [compare?_integer hx]
  | double c =>
    have hequal : ∀ d : Double, (Double.ofInt n).compare? d = some .eq →
        c.compare? d = some .eq := by
      intro d hd
      rw [← Double.compare?_congr (beq_iff_eq.mpr hd)]
      exact hx
    cases z with
    | integer k =>
      rw [← compare?_integer hz]
      exact hx
    | double d => exact hequal d hz

end Number

namespace Atom
variable {a b c : Atom}

theorem identical_of_isExact (h : a.isExact = true) (b : Atom) :
    a.identical b = decide (a = b) := by
  unfold identical
  split
  · cases h
  · rfl

theorem identical_self (h : a.isExact = true) : a.identical a = true := by
  rw [identical_of_isExact h, decide_eq_true_eq]

theorem identical_symm (h : a.identical b = true) : b.identical a = true := by
  cases hexact : a.isExact with
  | true =>
    rw [identical_of_isExact hexact, decide_eq_true_eq] at h
    rw [← h]
    exact identical_self hexact
  | false =>
    cases a with
    | double x =>
      cases b with
      | double y => exact beq_iff_eq.mpr (Double.compare?_eq_symm (beq_iff_eq.mp h))
      | _ => cases h
    | _ => cases hexact

theorem agrees_of_numbers {x y : Number} (ha : a.number? = some x) (hb : b.number? = some y) :
    a.agrees b = true ↔ x.compare? y = some .eq := by
  rw [agrees, ha, hb, beq_iff_eq]

theorem agrees_of_no_number (h : a.number? = none ∨ b.number? = none) :
    a.agrees b = a.identical b := by
  unfold agrees
  split
  · next ha hb =>
    rw [ha, hb] at h
    rcases h with h | h <;> cases h
  · rfl

theorem exists_integer (h : a.isExact = true) {x : Number} (hx : a.number? = some x) :
    ∃ n, x = .integer n := by
  cases a with
  | int32 n => exact ⟨_, (Option.some.inj hx).symm⟩
  | int64 n => exact ⟨_, (Option.some.inj hx).symm⟩
  | double d => cases h
  | _ => cases hx

theorem agrees_self (h : a.isExact = true) : a.agrees a = true := by
  cases hnumber : a.number? with
  | none =>
    rw [agrees_of_no_number (.inl hnumber)]
    exact identical_self h
  | some x =>
    obtain ⟨n, rfl⟩ := exists_integer h hnumber
    exact (agrees_of_numbers hnumber hnumber).mpr (Number.compare?_self n)

theorem agrees_of_identical (h : a.identical b = true) : a.agrees b = true := by
  cases hexact : a.isExact with
  | true =>
    rw [identical_of_isExact hexact, decide_eq_true_eq] at h
    rw [← h]
    exact agrees_self hexact
  | false =>
    cases a with
    | double x =>
      cases b with
      | double y => exact h
      | _ => cases h
    | _ => cases hexact

theorem agrees_symm (h : a.agrees b = true) : b.agrees a = true := by
  cases ha : a.number? with
  | none =>
    rw [agrees_of_no_number (.inl ha)] at h
    rw [agrees_of_no_number (.inr ha)]
    exact identical_symm h
  | some x =>
    cases hb : b.number? with
    | none =>
      rw [agrees_of_no_number (.inr hb)] at h
      rw [agrees_of_no_number (.inl hb)]
      exact identical_symm h
    | some y =>
      rw [agrees_of_numbers ha hb] at h
      rw [agrees_of_numbers hb ha]
      exact Number.compare?_eq_symm h

theorem exists_number (hb : b.number?.isSome = true) (h : a.agrees b = true) :
    ∃ x, a.number? = some x := by
  cases ha : a.number? with
  | some x => exact ⟨x, rfl⟩
  | none =>
    rw [agrees_of_no_number (.inl ha)] at h
    unfold identical at h
    split at h
    · cases ha
    · rw [← of_decide_eq_true h, ha] at hb
      cases hb

theorem agrees_trans (h : b.isExact = true) (hab : a.agrees b = true) (hbc : b.agrees c = true) :
    a.agrees c = true := by
  cases hb : b.number? with
  | none =>
    rw [agrees_of_no_number (.inl hb), identical_of_isExact h, decide_eq_true_eq] at hbc
    rwa [← hbc]
  | some y =>
    obtain ⟨n, rfl⟩ := exists_integer h hb
    have hsome : b.number?.isSome = true := by rw [hb]; rfl
    obtain ⟨x, ha⟩ := exists_number hsome hab
    obtain ⟨z, hc⟩ := exists_number hsome (agrees_symm hbc)
    rw [agrees_of_numbers ha hb] at hab
    rw [agrees_of_numbers hb hc] at hbc
    exact (agrees_of_numbers ha hc).mpr (Number.compare?_eq_trans hab hbc)

end Atom

theorem identicalFields_self {fields : List (String × Value)} (hnodup : (fields.map (·.1)).Nodup)
    (h : ∀ field ∈ fields, field.2.identical field.2 = true) :
    identicalFields fields fields = true := by
  refine identicalFields_iff.mpr fun field hf => ?_
  rw [fieldIdentical, (KeyMap.lookup_eq_some_iff hnodup).mpr hf]
  exact h field hf

theorem identicalFields_symm {xs ys : List (String × Value)} (hnodup : (xs.map (·.1)).Nodup)
    (hlength : xs.length = ys.length)
    (h : ∀ field ∈ xs, ∀ y, field.2.identical y = true → y.identical field.2 = true)
    (hxy : identicalFields xs ys = true) : identicalFields ys xs = true := by
  rw [identicalFields_iff] at *
  -- distinct keys that all occur among as many are all of these
  have hsubset : xs.map (·.1) ⊆ ys.map (·.1) := by
    intro key hk
    obtain ⟨field, hf, rfl⟩ := List.mem_map.mp hk
    obtain ⟨y, hy, -⟩ := exists_of_fieldIdentical (hxy field hf)
    exact List.mem_map.mpr ⟨_, hy, rfl⟩
  have hkeys : (xs.map (·.1)).Perm (ys.map (·.1)) :=
    (List.subperm_of_subset hnodup hsubset).perm_of_length_le (by simp [hlength])
  rintro ⟨key, y⟩ hy
  obtain ⟨⟨_, x⟩, hx, rfl⟩ := List.mem_map.mp (hkeys.mem_iff.mpr (List.mem_map_of_mem hy))
  have hfound := hxy _ hx
  rw [fieldIdentical, (KeyMap.lookup_eq_some_iff (hkeys.nodup_iff.mp hnodup)).mpr hy] at hfound
  rw [fieldIdentical, (KeyMap.lookup_eq_some_iff hnodup).mpr hx]
  exact h _ hx y hfound

mutual

theorem Value.identical_self (x : Value) (h : x.isExact = true) : x.identical x = true := by
  match x with
  | .atom a => exact Atom.identical_self h
  | .array xs => exact identicalItems_self xs h
  | .document xs =>
    simp only [Value.isExact, Value.identical, Bool.and_eq_true, decide_eq_true_eq] at *
    exact ⟨beq_self_eq_true _, identicalFields_self h.1 (identical_self_of_mem xs h.2)⟩
  | .scopedCode source xs =>
    simp only [Value.isExact, Value.identical, Bool.and_eq_true, decide_eq_true_eq] at *
    exact ⟨beq_self_eq_true _, beq_self_eq_true _,
      identicalFields_self h.1 (identical_self_of_mem xs h.2)⟩

theorem identicalItems_self (xs : List Value) (h : isExactItems xs = true) :
    identicalItems xs xs = true := by
  match xs with
  | [] => rfl
  | x :: xs =>
    rw [isExactItems, Bool.and_eq_true] at h
    rw [identicalItems, Bool.and_eq_true]
    exact ⟨x.identical_self h.1, identicalItems_self xs h.2⟩

theorem identical_self_of_mem (xs : List (String × Value)) (h : isExactFields xs = true) :
    ∀ field ∈ xs, field.2.identical field.2 = true := by
  match xs with
  | [] => exact nofun
  | (key, x) :: xs =>
    rw [isExactFields, Bool.and_eq_true] at h
    exact List.forall_mem_cons.mpr ⟨x.identical_self h.1, identical_self_of_mem xs h.2⟩

end

mutual

theorem Value.identical_symm (x : Value) {y : Value} (h : x.isExact = true)
    (hxy : x.identical y = true) : y.identical x = true := by
  match x, y with
  | .atom a, .atom b => exact Atom.identical_symm hxy
  | .array xs, .array ys => exact identicalItems_symm xs h hxy
  | .document xs, .document ys =>
    simp only [Value.isExact, Value.identical, Bool.and_eq_true, decide_eq_true_eq,
      beq_iff_eq] at *
    exact ⟨hxy.1.symm, identicalFields_symm h.1 hxy.1 (identical_symm_of_mem xs h.2) hxy.2⟩
  | .scopedCode source xs, .scopedCode other ys =>
    simp only [Value.isExact, Value.identical, Bool.and_eq_true, decide_eq_true_eq,
      beq_iff_eq] at *
    exact ⟨hxy.1.symm, hxy.2.1.symm,
      identicalFields_symm h.1 hxy.2.1 (identical_symm_of_mem xs h.2) hxy.2.2⟩

theorem identicalItems_symm (xs : List Value) {ys : List Value} (h : isExactItems xs = true)
    (hxy : identicalItems xs ys = true) : identicalItems ys xs = true := by
  match xs, ys with
  | [], [] => rfl
  | x :: xs, y :: ys =>
    rw [isExactItems, Bool.and_eq_true] at h
    rw [identicalItems, Bool.and_eq_true] at *
    exact ⟨x.identical_symm h.1 hxy.1, identicalItems_symm xs h.2 hxy.2⟩

theorem identical_symm_of_mem (xs : List (String × Value)) (h : isExactFields xs = true) :
    ∀ field ∈ xs, ∀ y, field.2.identical y = true → y.identical field.2 = true := by
  match xs with
  | [] => exact nofun
  | (key, x) :: xs =>
    rw [isExactFields, Bool.and_eq_true] at h
    exact List.forall_mem_cons.mpr
      ⟨fun y hy => x.identical_symm h.1 hy, identical_symm_of_mem xs h.2⟩

end

mutual

theorem Value.agrees_self (x : Value) (h : x.isExact = true) : x.agrees x = true := by
  match x with
  | .atom a => exact Atom.agrees_self h
  | .array xs => exact agreesItems_self xs h
  | .document xs =>
    rw [Value.isExact, Bool.and_eq_true] at h
    exact agreesFields_self xs h.2
  | .scopedCode source xs => exact Value.identical_self _ h

theorem agreesItems_self (xs : List Value) (h : isExactItems xs = true) :
    agreesItems xs xs = true := by
  match xs with
  | [] => rfl
  | x :: xs =>
    rw [isExactItems, Bool.and_eq_true] at h
    rw [agreesItems, Bool.and_eq_true]
    exact ⟨x.agrees_self h.1, agreesItems_self xs h.2⟩

theorem agreesFields_self (xs : List (String × Value)) (h : isExactFields xs = true) :
    agreesFields xs xs = true := by
  match xs with
  | [] => rfl
  | (key, x) :: xs =>
    rw [isExactFields, Bool.and_eq_true] at h
    rw [agreesFields, Bool.and_eq_true, Bool.and_eq_true]
    exact ⟨⟨beq_self_eq_true key, x.agrees_self h.1⟩, agreesFields_self xs h.2⟩

end

mutual

theorem Value.agrees_symm (x : Value) {y : Value} (h : x.isExact = true)
    (hxy : x.agrees y = true) : y.agrees x = true := by
  match x, y with
  | .atom a, .atom b => exact Atom.agrees_symm hxy
  | .array xs, .array ys => exact agreesItems_symm xs h hxy
  | .document xs, .document ys =>
    rw [Value.isExact, Bool.and_eq_true] at h
    exact agreesFields_symm xs h.2 hxy
  | .scopedCode source xs, .scopedCode other ys => exact Value.identical_symm _ h hxy

theorem agreesItems_symm (xs : List Value) {ys : List Value} (h : isExactItems xs = true)
    (hxy : agreesItems xs ys = true) : agreesItems ys xs = true := by
  match xs, ys with
  | [], [] => rfl
  | x :: xs, y :: ys =>
    rw [isExactItems, Bool.and_eq_true] at h
    rw [agreesItems, Bool.and_eq_true] at *
    exact ⟨x.agrees_symm h.1 hxy.1, agreesItems_symm xs h.2 hxy.2⟩

theorem agreesFields_symm (xs : List (String × Value)) {ys : List (String × Value)}
    (h : isExactFields xs = true) (hxy : agreesFields xs ys = true) :
    agreesFields ys xs = true := by
  match xs, ys with
  | [], [] => rfl
  | (k, x) :: xs, (l, y) :: ys =>
    rw [isExactFields, Bool.and_eq_true] at h
    rw [agreesFields, Bool.and_eq_true, Bool.and_eq_true, beq_iff_eq] at *
    exact ⟨⟨hxy.1.1.symm, x.agrees_symm h.1 hxy.1.2⟩, agreesFields_symm xs h.2 hxy.2⟩

end

mutual

theorem Value.agrees_trans (x : Value) {y z : Value} (h : y.isExact = true)
    (hxy : x.agrees y = true) (hyz : y.agrees z = true) : x.agrees z = true := by
  match x, y, z with
  | .atom a, .atom b, .atom c => exact Atom.agrees_trans h hxy hyz
  | .array xs, .array ys, .array zs => exact agreesItems_trans xs h hxy hyz
  | .document xs, .document ys, .document zs =>
    rw [Value.isExact, Bool.and_eq_true] at h
    exact agreesFields_trans xs h.2 hxy hyz
  | .scopedCode a xs, .scopedCode b ys, .scopedCode c zs =>
    rw [Value.agrees] at *
    exact Value.identical_trans _ hxy hyz

theorem agreesItems_trans (xs : List Value) {ys zs : List Value} (h : isExactItems ys = true)
    (hxy : agreesItems xs ys = true) (hyz : agreesItems ys zs = true) :
    agreesItems xs zs = true := by
  match xs, ys, zs with
  | [], [], [] => rfl
  | x :: xs, y :: ys, z :: zs =>
    rw [isExactItems, Bool.and_eq_true] at h
    rw [agreesItems, Bool.and_eq_true] at *
    exact ⟨x.agrees_trans h.1 hxy.1 hyz.1, agreesItems_trans xs h.2 hxy.2 hyz.2⟩

theorem agreesFields_trans (xs : List (String × Value)) {ys zs : List (String × Value)}
    (h : isExactFields ys = true) (hxy : agreesFields xs ys = true)
    (hyz : agreesFields ys zs = true) : agreesFields xs zs = true := by
  match xs, ys, zs with
  | [], [], [] => rfl
  | (k, x) :: xs, (l, y) :: ys, (m, z) :: zs =>
    rw [isExactFields, Bool.and_eq_true] at h
    rw [agreesFields, Bool.and_eq_true, Bool.and_eq_true, beq_iff_eq] at *
    exact ⟨⟨hxy.1.1.trans hyz.1.1, x.agrees_trans h.1 hxy.1.2 hyz.1.2⟩,
      agreesFields_trans xs h.2 hxy.2 hyz.2⟩

end

theorem identicalFields_of_cons {xs ys : List (String × Value)} {key : String} {y : Value}
    (hkey : key ∉ xs.map (·.1)) (h : identicalFields xs ((key, y) :: ys) = true) :
    identicalFields xs ys = true := by
  rw [identicalFields_iff] at *
  intro field hf
  have hne : field.1 ≠ key := fun heq => hkey (heq ▸ List.mem_map_of_mem hf)
  have hfound := h field hf
  rwa [fieldIdentical_cons, if_neg (by simpa using hne)] at hfound

mutual

theorem Value.agrees_of_identical (x : Value) {y : Value} (h : x.isExact = true)
    (horder : x.sameOrder y = true) (hxy : x.identical y = true) : x.agrees y = true := by
  match x, y with
  | .atom a, .atom b => exact Atom.agrees_of_identical hxy
  | .array xs, .array ys => exact agreesItems_of_identical xs h horder hxy
  | .document xs, .document ys =>
    simp only [Value.isExact, Value.identical, Bool.and_eq_true, decide_eq_true_eq] at *
    exact agreesFields_of_identical xs h.1 h.2 horder hxy.2
  | .scopedCode source xs, .scopedCode other ys => exact hxy

theorem agreesItems_of_identical (xs : List Value) {ys : List Value} (h : isExactItems xs = true)
    (horder : sameOrderItems xs ys = true) (hxy : identicalItems xs ys = true) :
    agreesItems xs ys = true := by
  match xs, ys with
  | [], [] => rfl
  | x :: xs, y :: ys =>
    rw [isExactItems, Bool.and_eq_true] at h
    rw [sameOrderItems, Bool.and_eq_true] at horder
    rw [identicalItems, Bool.and_eq_true] at hxy
    rw [agreesItems, Bool.and_eq_true]
    exact ⟨x.agrees_of_identical h.1 horder.1 hxy.1,
      agreesItems_of_identical xs h.2 horder.2 hxy.2⟩

theorem agreesFields_of_identical (xs : List (String × Value)) {ys : List (String × Value)}
    (hnodup : (xs.map (·.1)).Nodup) (h : isExactFields xs = true)
    (horder : sameOrderFields xs ys = true) (hxy : identicalFields xs ys = true) :
    agreesFields xs ys = true := by
  match xs, ys with
  | [], [] => rfl
  | (k, x) :: xs, (l, y) :: ys =>
    rw [isExactFields, Bool.and_eq_true] at h
    rw [sameOrderFields, Bool.and_eq_true, Bool.and_eq_true, beq_iff_eq] at horder
    obtain ⟨⟨rfl, hxorder⟩, horder⟩ := horder
    obtain ⟨hkey, hnodup⟩ := List.nodup_cons.mp hnodup
    rw [identicalFields, Bool.and_eq_true, List.lookup_cons_self] at hxy
    rw [agreesFields, Bool.and_eq_true, Bool.and_eq_true]
    exact ⟨⟨beq_self_eq_true k, x.agrees_of_identical h.1 hxorder hxy.1⟩,
      agreesFields_of_identical xs hnodup h.2 horder (identicalFields_of_cons hkey hxy.2)⟩

end

theorem Value.agrees_congr {x y : Value} (hx : x.isExact = true) (hy : y.isExact = true)
    (h : x.agrees y = true) (w : Value) :
    w.agrees x = w.agrees y ∧ x.agrees w = y.agrees w := by
  have hyx := x.agrees_symm hx h
  refine ⟨Bool.eq_iff_iff.mpr ⟨?_, ?_⟩, Bool.eq_iff_iff.mpr ⟨?_, ?_⟩⟩
  · exact fun hw => w.agrees_trans hx hw h
  · exact fun hw => w.agrees_trans hy hw hyx
  · exact fun hw => y.agrees_trans hx hyx hw
  · exact fun hw => x.agrees_trans hy h hw

/-- Beside a path the value is compared, and not read as operators or as a pattern. -/
def Value.isLiteral : Value → Bool
  | .atom (.pattern _ _) => false
  | v => !v.isOperators

namespace Filter

theorem holds_literal [Pattern.Engine] {key : String} (hk : Operator.isToken key = false)
    {v : Value} (hv : v.isLiteral = true) (entity : Document) :
    holds [(key, v)] entity = .ok (someEquals (Path.leaves entity key) v) := by
  have hpattern : ∀ source options, v ≠ .atom (.pattern source options) := by
    rintro source options rfl
    cases hv
  have hops : v.isOperators = false := by
    unfold Value.isLiteral at hv
    split at hv
    · cases hv
    · simpa using hv
  rw [holds_item hk hops, listed_of_noPattern _ hpattern]

end Filter

theorem map_key_eq_of_agrees {xs ys : List (String × Value)} (h : agreesFields xs ys = true) :
    xs.map (·.1) = ys.map (·.1) := by
  induction xs generalizing ys with
  | nil =>
    cases ys with
    | nil => rfl
    | cons field rest => cases h
  | cons field xs ih =>
    cases ys with
    | nil => cases h
    | cons other ys =>
      rw [agreesFields, Bool.and_eq_true, Bool.and_eq_true, beq_iff_eq] at h
      rw [List.map_cons, List.map_cons, h.1.1, ih h.2]

namespace Value
variable {x y : Value}

theorem eq_null_of_agrees (h : x.agrees .null = true) : x = .null := by
  cases x with
  | atom a =>
    cases a with
    | null => rfl
    | _ => cases h
  | _ => cases h

theorem isLiteral_of_agrees (h : x.agrees y = true) (hx : x.isLiteral = true) :
    y.isLiteral = true := by
  cases x with
  | atom a =>
    cases y with
    | atom b =>
      cases b with
      | pattern source options =>
        -- a pattern equals itself only
        have heq : a.identical (.pattern source options) = true := by
          rw [agrees, Atom.agrees_of_no_number (.inr rfl)] at h
          exact h
        cases a with
        | pattern s o => cases hx
        | _ => cases heq
      | _ => rfl
    | _ => cases h
  | array xs =>
    cases y with
    | array ys => rfl
    | _ => cases h
  | document xs =>
    cases y with
    | document ys =>
      rw [agrees] at h
      rw [isLiteral, isOperators] at *
      · rwa [← Filter.isOperatorExpression_perm (.of_eq (map_key_eq_of_agrees h))]
      · simp
      · simp
    | _ => cases h
  | scopedCode source scope =>
    cases y with
    | scopedCode other ys => rfl
    | _ => cases h

end Value

namespace Path

/-- Of what a path reaches in a value, one thing is replaced by an equal one without doubles: a
value at its end, or an element of an array at its end. All else is kept. -/
inductive Replaced : List String → Value → Value → Prop
  | ending {x y : Value} : x.isExact = true → y.isExact = true → x.agrees y = true →
    Replaced [] x y
  | element {x y : Value} (before after : List Value) : x.isExact = true → y.isExact = true →
    x.agrees y = true → Replaced [] (.array (before ++ x :: after)) (.array (before ++ y :: after))
  | field {segment : String} {rest : List String} {x y : Value} (before after : Document) :
    before.lookup segment = none → Replaced rest x y →
    Replaced (segment :: rest) (.document (before ++ (segment, x) :: after))
      (.document (before ++ (segment, y) :: after))
  | position {segment : String} {rest : List String} {x y : Value} (before after : List Value) :
    Text.position? segment = some before.length → Replaced rest x y →
    Replaced (segment :: rest) (.array (before ++ x :: after)) (.array (before ++ y :: after))
  | through {segment : String} {rest : List String} {doc doc' : Document}
      (before after : List Value) :
    Text.position? segment = none → Replaced (segment :: rest) (.document doc) (.document doc') →
    Replaced (segment :: rest) (.array (before ++ .document doc :: after))
      (.array (before ++ .document doc' :: after))

end Path

namespace Filter

theorem someEquals_congr {x y : Value} (hx : x.isExact = true) (hy : y.isExact = true)
    (h : x.agrees y = true) (leaves : Leaves) : someEquals leaves x = someEquals leaves y := by
  unfold someEquals
  refine List.any_congr rfl fun leaf => ?_
  cases leaf with
  | some value => exact (Value.agrees_congr hx hy h value).1
  | none =>
    by_cases hnull : x = .null
    · subst hnull
      rw [Value.eq_null_of_agrees (Value.agrees_symm _ hx h)]
    · have hother : y ≠ .null := by
        rintro rfl
        exact hnull (Value.eq_null_of_agrees h)
      dsimp only
      split
      · exact absurd rfl hnull
      · rfl

@[simp] theorem someEquals_append (xs ys : Leaves) (w : Value) :
    someEquals (xs ++ ys) w = (someEquals xs w || someEquals ys w) := by
  unfold someEquals Path.expanded
  rw [List.flatMap_append, List.any_append]

theorem someEquals_singleton (v w : Value) :
    someEquals [some v] w = (v.agrees w || (Path.elements [some v]).any (·.agrees w)) := by
  unfold someEquals Path.expanded
  rw [List.flatMap_cons, List.flatMap_nil, List.append_nil, Path.elements_field]
  cases v with
  | array items =>
    rw [Path.spread, List.any_cons, List.any_map]
    rfl
  | _ => rfl

/-- The same values equal something among two lists of leaves. -/
structure SameEquals (found found' : Leaves) : Prop where
  nil_iff : found = [] ↔ found' = []
  someEquals_eq : ∀ w, someEquals found w = someEquals found' w

namespace SameEquals
variable {found found' : Leaves}

theorem append (h : SameEquals found found') (before after : Leaves) :
    SameEquals (before ++ found ++ after) (before ++ found' ++ after) where
  nil_iff := by simp only [List.append_eq_nil_iff, h.nil_iff]
  someEquals_eq := fun w => by simp only [someEquals_append, h.someEquals_eq]

theorem orMissing (h : SameEquals found found') (w : Value) :
    someEquals (if found = [] then [none] else found) w =
      someEquals (if found' = [] then [none] else found') w := by
  by_cases hnil : found = []
  · rw [if_pos hnil, if_pos (h.nil_iff.mp hnil)]
  · rw [if_neg hnil, if_neg (fun hnil' => hnil (h.nil_iff.mpr hnil')), h.someEquals_eq]

end SameEquals

theorem any_agrees_congr {xs ys : List Value} (h : agreesItems xs ys = true)
    (hx : isExactItems xs = true) (hy : isExactItems ys = true) (w : Value) :
    xs.any (·.agrees w) = ys.any (·.agrees w) := by
  induction xs generalizing ys with
  | nil =>
    cases ys with
    | nil => rfl
    | cons y ys => cases h
  | cons x xs ih =>
    cases ys with
    | nil => cases h
    | cons y ys =>
      rw [agreesItems, Bool.and_eq_true] at h
      rw [isExactItems, Bool.and_eq_true] at hx hy
      rw [List.any_cons, List.any_cons, (Value.agrees_congr hx.1 hy.1 h.1 w).2,
        ih h.2 hx.2 hy.2]

theorem agreesItems_exchange {x y : Value} (h : ∀ w, x.agrees w = y.agrees w)
    (before after ws : List Value) :
    agreesItems (before ++ x :: after) ws = agreesItems (before ++ y :: after) ws := by
  induction before generalizing ws with
  | nil =>
    cases ws with
    | nil => rfl
    | cons w ws => rw [List.nil_append, List.nil_append, agreesItems, agreesItems, h]
  | cons b before ih =>
    cases ws with
    | nil => rfl
    | cons w ws => rw [List.cons_append, List.cons_append, agreesItems, agreesItems, ih]

theorem any_elements_congr {x y : Value} (hx : x.isExact = true) (hy : y.isExact = true)
    (h : x.agrees y = true) (w : Value) :
    (Path.elements [some x]).any (·.agrees w) = (Path.elements [some y]).any (·.agrees w) := by
  rw [Path.elements_field, Path.elements_field]
  cases x with
  | array xs =>
    cases y with
    | array ys => exact any_agrees_congr h hx hy w
    | _ => cases h
  | _ =>
    cases y with
    | array ys => cases h
    | _ => rfl

theorem sameEquals_ending {x y : Value} (hx : x.isExact = true) (hy : y.isExact = true)
    (h : x.agrees y = true) : SameEquals [some x] [some y] where
  nil_iff := by simp
  someEquals_eq := fun w => by
    rw [someEquals_singleton, someEquals_singleton, (Value.agrees_congr hx hy h w).2,
      any_elements_congr hx hy h]

theorem sameEquals_element {x y : Value} (hx : x.isExact = true) (hy : y.isExact = true)
    (h : x.agrees y = true) (before after : List Value) :
    SameEquals [some (.array (before ++ x :: after))] [some (.array (before ++ y :: after))] where
  nil_iff := by simp
  someEquals_eq := by
    intro w
    have hcongr := fun w => (Value.agrees_congr hx hy h w).2
    have hwhole : (Value.array (before ++ x :: after)).agrees w =
        (Value.array (before ++ y :: after)).agrees w := by
      cases w with
      | array ws => exact agreesItems_exchange hcongr before after ws
      | _ => rfl
    simp only [someEquals_singleton, hwhole, Path.elements_field, List.any_append, List.any_cons,
      hcongr]

theorem sameEquals_descend {segments : List String} {x y : Value}
    (h : Path.Replaced segments x y) :
    SameEquals (Path.descend segments x) (Path.descend segments y) := by
  induction h with
  | ending hx hy h => exact sameEquals_ending hx hy h
  | element before after hx hy h => exact sameEquals_element hx hy h before after
  | @field segment rest x y before after hbefore _ ih =>
    have hlookup : ∀ v, (before ++ (segment, v) :: after).lookup segment = some v := by
      intro v
      rw [List.lookup_append, hbefore, List.lookup_cons_self]
      rfl
    rw [Path.descend, Path.descend, hlookup, hlookup]
    exact ih
  | @position segment rest x y before after hposition _ ih =>
    have hitem : ∀ v, (before ++ v :: after)[before.length]? = some v := by
      intro v
      rw [List.getElem?_append_right le_rfl, Nat.sub_self]
      rfl
    rw [Path.descend, Path.descend, hposition]
    dsimp only
    rw [hitem, hitem]
    exact ih
  | @through segment rest doc doc' before after hposition _ ih =>
    rw [Path.descend, Path.descend, hposition]
    dsimp only
    rw [List.flatMap_append, List.flatMap_append, List.flatMap_cons, List.flatMap_cons,
      ← List.append_assoc, ← List.append_assoc]
    exact ih.append _ _

theorem someEquals_leaves {path : String} {entity other : Document}
    (h : Path.Replaced (Path.segments path) (.document entity) (.document other)) (w : Value) :
    someEquals (Path.leaves entity path) w = someEquals (Path.leaves other path) w := by
  rw [Path.leaves_eq, Path.leaves_eq]
  exact (sameEquals_descend h).orMissing w

end Filter

/-- Among values without doubles, equality as conditions see it is an equivalence, and values that
are identical with their keys in the same order are equal. A condition that compares a path with a
value answers the same for an equal value, and so it does where a value that the path reaches is
replaced by an equal one. -/
theorem Value.agrees_equivalence [Pattern.Engine] :
    Equivalence (fun x y : ExactValue => x.1.agrees y.1 = true) ∧
      (∀ x y : ExactValue, x.1.identical y.1 = true → x.1.sameOrder y.1 = true →
        x.1.agrees y.1 = true) ∧
      ∀ path, Operator.isToken path = false →
        (∀ x y : ExactValue, x.1.isLiteral = true → x.1.agrees y.1 = true → ∀ entity,
          Filter.holds [(path, x.1)] entity = Filter.holds [(path, y.1)] entity) ∧
        ∀ v entity other, v.isLiteral = true →
          Path.Replaced (Path.segments path) (.document entity) (.document other) →
          Filter.holds [(path, v)] entity = Filter.holds [(path, v)] other := by
  refine ⟨⟨fun x => x.1.agrees_self x.2, fun {x _} h => x.1.agrees_symm x.2 h,
    fun {x y _} hxy hyz => x.1.agrees_trans y.2 hxy hyz⟩,
    fun x y hxy horder => x.1.agrees_of_identical x.2 horder hxy, fun path hpath => ⟨?_, ?_⟩⟩
  · intro x y hx h entity
    rw [Filter.holds_literal hpath hx, Filter.holds_literal hpath (isLiteral_of_agrees h hx),
      Filter.someEquals_congr x.2 y.2 h]
  · intro v entity other hv h
    rw [Filter.holds_literal hpath hv, Filter.holds_literal hpath hv, Filter.someEquals_leaves h]

/-- Code whose scope has its keys in two orders, and integers of two widths in an array of a
document that a path reaches through another array. -/
theorem Value.agrees_equivalence_counts :
    let code : ExactValue := ⟨.scopedCode "f" [("a", .int32 1), ("b", .null)], rfl⟩
    let code' : ExactValue := ⟨.scopedCode "f" [("b", .null), ("a", .int32 1)], rfl⟩
    let counts : ExactValue := ⟨.document [("n", .array [.int32 1, .int64 2])], rfl⟩
    let counts' : ExactValue := ⟨.document [("n", .array [.int64 1, .int32 2])], rfl⟩
    let path := "posts.counts"
    let entity : Document := [("posts", .array [.text "x", .document [("counts", counts.1)]])]
    let other : Document := [("posts", .array [.text "x", .document [("counts", counts'.1)]])]
    code.1.identical code'.1 = true ∧ code.1.sameOrder code'.1 = true ∧
      code.1.agrees code'.1 = true ∧
      Operator.isToken path = false ∧ counts.1.isLiteral = true ∧
      counts.1.agrees counts'.1 = true ∧ counts'.1.agrees counts.1 = true ∧
      Path.Replaced (Path.segments path) (.document entity) (.document other) ∧
      Filter.holds [(path, counts.1)] entity = .ok true ∧
      Filter.holds [(path, counts'.1)] entity = .ok true ∧
      Filter.holds [(path, counts.1)] other = .ok true := by
  intro code code' counts counts' path entity other
  obtain ⟨hequivalence, hidentical, hpaths⟩ := Value.agrees_equivalence
  have hcode : code.1.identical code'.1 = true := by decide +kernel
  have hpath : Operator.isToken "posts.counts" = false := rfl
  have hcounts : counts.1.agrees counts'.1 = true := by decide +kernel
  have hreplaced : Path.Replaced (Path.segments path) (.document entity) (.document other) := by
    have hsegments : Path.segments path = ["posts", "counts"] := by decide +kernel
    have hposition : Text.position? "counts" = none := by decide +kernel
    rw [hsegments]
    exact .field [] [] rfl (.through [.text "x"] [] hposition
      (.field [] [] rfl (.ending counts.2 counts'.2 hcounts)))
  have hholds : Filter.holds [(path, counts.1)] entity = .ok true := by decide +kernel
  obtain ⟨hexpected, hstored⟩ := hpaths path hpath
  exact ⟨hcode, rfl, hidentical code code' hcode rfl, hpath, rfl, hcounts,
    hequivalence.symm hcounts, hreplaced, hholds,
    (hexpected counts counts' rfl hcounts entity).symm.trans hholds,
    (hstored counts.1 entity other rfl hreplaced).symm.trans hholds⟩

/-- A double equals both of two integers that it stands between, and these differ. -/
example : (Value.int64 9007199254740992).agrees (.double ⟨0x4340000000000000⟩) = true ∧
    (Value.double ⟨0x4340000000000000⟩).agrees (.int64 9007199254740993) = true ∧
    (Value.int64 9007199254740992).agrees (.int64 9007199254740993) = false := by
  decide +kernel

end AccessRules
