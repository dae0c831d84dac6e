import SExprNav.Traversal

/-!
# Conditions of a traversal

The conditions that stand in a traversal, at any depth. What holds of the conditions of a traversal
holds of those of its parts: this is how an induction over traversals hands a hypothesis about
conditions on.

## Key results

- `Traversal.conditions_of_mem_maneuver`, `Traversal.conditions_of_circuit`, …: one for each kind of
  traversal
-/

namespace SExprNav

variable {κ : Type}

namespace Traversal

mutual

/-- The conditions in a traversal. -/
def conditions : Traversal κ → List (Condition κ)
  | .move _ => []
  | .maneuver phases => conditionsAll phases
  | .circuit body _ => conditions body
  | .detour reorientation body => conditions reorientation ++ conditions body
  | .precaution body before after => before :: after :: conditions body
  | .protocol options => conditionsAll options

/-- The conditions in some traversals. -/
def conditionsAll : List (Traversal κ) → List (Condition κ)
  | [] => []
  | t :: ts => conditions t ++ conditionsAll ts

end

/-- The conditions in some traversals are those in one of them. -/
theorem mem_conditionsAll {k : Condition κ} {ts : List (Traversal κ)} :
    k ∈ conditionsAll ts ↔ ∃ t ∈ ts, k ∈ t.conditions := by
  induction ts with
  | nil => simp [conditionsAll]
  | cons t ts ih => simp [conditionsAll, ih]

section Parts

variable {P : Condition κ → Prop}

/-- What holds of the conditions in a maneuver holds of those in each phase. -/
theorem conditions_of_mem_maneuver {t : Traversal κ} {phases : List (Traversal κ)} (ht : t ∈ phases)
    (h : ∀ k ∈ (maneuver phases).conditions, P k) : ∀ k ∈ t.conditions, P k := by
  intro k hk
  exact h k (by rw [conditions]; exact mem_conditionsAll.mpr ⟨t, ht, hk⟩)

/-- What holds of the conditions in a protocol holds of those in each option. -/
theorem conditions_of_mem_protocol {t : Traversal κ} {options : List (Traversal κ)}
    (ht : t ∈ options) (h : ∀ k ∈ (protocol options).conditions, P k) :
    ∀ k ∈ t.conditions, P k := by
  intro k hk
  exact h k (by rw [conditions]; exact mem_conditionsAll.mpr ⟨t, ht, hk⟩)

/-- What holds of the conditions in a circuit holds of those in its body. -/
theorem conditions_of_circuit {body : Traversal κ} {times : Option Nat}
    (h : ∀ k ∈ (circuit body times).conditions, P k) : ∀ k ∈ body.conditions, P k := by
  rwa [conditions] at h

/-- What holds of the conditions in a detour holds of those in both of its parts. -/
theorem conditions_of_detour {reorientation body : Traversal κ}
    (h : ∀ k ∈ (detour reorientation body).conditions, P k) :
    (∀ k ∈ reorientation.conditions, P k) ∧ ∀ k ∈ body.conditions, P k := by
  rwa [conditions, List.forall_mem_append] at h

/-- What holds of the conditions in a precaution holds of its own two and of those in its body. -/
theorem conditions_of_precaution {body : Traversal κ} {before after : Condition κ}
    (h : ∀ k ∈ (precaution body before after).conditions, P k) :
    P before ∧ P after ∧ ∀ k ∈ body.conditions, P k := by
  rwa [conditions, List.forall_mem_cons, List.forall_mem_cons] at h

end Parts

end Traversal

end SExprNav
