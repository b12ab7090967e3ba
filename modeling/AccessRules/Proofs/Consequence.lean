import AccessRules.Proofs.Evaluation

/-! Evaluations that follow from others. Where an evaluation ends with true, one that it entails
does not end with false; it may fail. Entailment passes through every way in which filters combine
that keeps truth, so two runs are compared step by step. -/
namespace AccessRules

/-- The second evaluation is not false where the first one is true. -/
def Entails {ε δ : Type} (first : Except ε Bool) (second : Except δ Bool) : Prop :=
  first = .ok true → second ≠ .ok false

namespace Entails
variable {ε δ α : Type} {r s : Except ε Bool} {r' s' : Except δ Bool}

theorem refl (r : Except ε Bool) : Entails r r := by
  intro h
  simp [h]

theorem of_error (e : δ) : Entails r (.error e : Except δ Bool) := by
  intro _
  simp

theorem mapError {ζ η : Type} (h : Entails r r') (f : ε → ζ) (g : δ → η) :
    Entails (r.mapError f) (r'.mapError g) := by
  intro htrue hfalse
  exact h (mapError_eq_ok.mp htrue) (mapError_eq_ok.mp hfalse)

theorem andThen (hr : Entails r r') (hs : r = .ok true → Entails s s') :
    Entails (do if ← r then s else pure false) (do if ← r' then s' else pure false) := by
  cases r with
  | error e => exact nofun
  | ok b =>
    cases b with
    | false => exact nofun
    | true =>
      have hfirst := hr rfl
      cases r' with
      | error e => exact of_error e
      | ok c =>
        cases c with
        | false => exact absurd rfl hfirst
        | true => exact hs rfl

theorem not (h : Entails r r') : Entails (do pure (!(← r'))) (do pure (!(← r))) := by
  cases r' with
  | error e => exact nofun
  | ok b =>
    cases r with
    | error e => exact of_error e
    | ok c =>
      cases b with
      | true => exact nofun
      | false =>
        cases c with
        | false => exact fun _ => nofun
        | true => exact absurd rfl (h rfl)

section Lists
variable {β : Type} {f : α → Except ε Bool} {g : β → Except δ Bool} {xs : List α} {ys : List β}

theorem allM_of_forall (h : ∀ y ∈ ys, ∃ x ∈ xs, Entails (f x) (g y)) :
    Entails (xs.allM f) (ys.allM g) := by
  intro htrue hfalse
  obtain ⟨y, hy, hgy⟩ := exists_of_allM_eq_false hfalse
  obtain ⟨x, hx, hxy⟩ := h y hy
  exact hxy (allM_eq_true_iff.mp htrue x hx) hgy

theorem anyM_of_forall (h : ∀ x ∈ xs, ∃ y ∈ ys, Entails (f x) (g y)) :
    Entails (xs.anyM f) (ys.anyM g) := by
  intro htrue hfalse
  obtain ⟨x, hx, hfx⟩ := exists_of_anyM_eq_true htrue
  obtain ⟨y, hy, hxy⟩ := h x hx
  exact hxy hfx (anyM_eq_false_iff.mp hfalse y hy)

variable {k : α → Except δ Bool}

theorem allM (h : ∀ x ∈ xs, Entails (f x) (k x)) : Entails (xs.allM f) (xs.allM k) :=
  allM_of_forall fun x hx => ⟨x, hx, h x hx⟩

theorem anyM (h : ∀ x ∈ xs, Entails (f x) (k x)) : Entails (xs.anyM f) (xs.anyM k) :=
  anyM_of_forall fun x hx => ⟨x, hx, h x hx⟩

end Lists

end Entails
end AccessRules
