import Mathlib.Algebra.BigOperators.Group.List.Basic
import Mathlib.Algebra.Ring.Defs
import SExprNav.Proofs.Traversal.Combinators

/-!
# The algebra of traversals

What comes of an execution is an effect: from each cursor a fault, a failure, or the moves that were
made and where they led. Effects are multiplied by having one after the other, both or none, and
added by having the second one where the first one fails. Both operations are associative and have a
neutral element, and a product with a sum on the right is the sum of the products, as a failure
starts over from where the sum did. The effects of maneuvers, protocols and circuits are products,
sums and powers, so that the laws of traversals are those of effects.

The other laws of a semiring fail. An effect before a failure can end in a fault, a sum on the left
of a product decides for one side before the product is known to succeed, and sums do not commute.

## Key results

- `Effect.instMonoid`, `Effect.instAddMonoid`, `Effect.instLeftDistribClass`: the laws of effects
- `Traversal.effect_maneuver`, `Traversal.effect_protocol`, `Traversal.effect_circuit`: the effects
  of products, sums and powers
- `Traversal.equivalent_of_effect_eq`: traversals with the same effects are equivalent
- `Traversal.execute_algebra`: the laws of traversals
-/

namespace SExprNav

/-- What comes of an execution, by where it starts. After a fault or a failure it does not matter
    where the cursor is, as it is put back. -/
def Effect (doc : Document) : Type :=
  Cursor doc → Except Fault (Option (List Move × Cursor doc))

namespace Effect

variable {doc : Document}

/-- Effects are the same if they are from each cursor. -/
@[ext] theorem ext {a b : Effect doc} (h : ∀ c, a c = b c) : a = b := funext h

/-- Some moves before those of a success. -/
def after (ms : List Move) : Option (List Move × Cursor doc) → Option (List Move × Cursor doc) :=
  Option.map fun (ns, d) => (ms ++ ns, d)

/-- No moves before it leave a result as it is. -/
@[simp] theorem after_nil (r : Option (List Move × Cursor doc)) : after [] r = r := by
  cases r <;> rfl

/-- Moves before moves are put together. -/
@[simp] theorem after_after (ms ns : List Move) (r : Option (List Move × Cursor doc)) :
    after ms (after ns r) = after (ms ++ ns) r := by
  cases r <;> simp [after]

/-- Moves before it do not turn a success or a fault into a failure. -/
theorem map_after_eq_none_iff {ms : List Move}
    {r : Except Fault (Option (List Move × Cursor doc))} : r.map (after ms) = .ok none ↔ r = .ok none := by
  rcases r with e | _ | r <;> simp [Except.map, after]

/-- The success that does nothing. -/
instance : One (Effect doc) := ⟨fun c => .ok (some ([], c))⟩

/-- One effect and then another, both or none. -/
protected def mul (a b : Effect doc) : Effect doc := fun c =>
  match a c with
  | .error e => .error e
  | .ok none => .ok none
  | .ok (some (ms, d)) => (b d).map (after ms)

instance : Mul (Effect doc) := ⟨Effect.mul⟩

/-- The failure. -/
instance : Zero (Effect doc) := ⟨fun _ => .ok none⟩

/-- One effect, or another where the first one fails. -/
protected def add (a b : Effect doc) : Effect doc := fun c =>
  match a c with
  | .ok none => b c
  | r => r

instance : Add (Effect doc) := ⟨Effect.add⟩

section Apply

variable {a b : Effect doc} {c d : Cursor doc} {ms : List Move} {e : Fault}

/-- From each cursor, the success that does nothing ends there, without a move. -/
theorem one_apply (c : Cursor doc) : (1 : Effect doc) c = .ok (some ([], c)) := rfl

/-- From each cursor, the failure fails. -/
theorem zero_apply (c : Cursor doc) : (0 : Effect doc) c = .ok none := rfl

/-- A product faults where its first factor does. -/
theorem mul_of_error (h : a c = .error e) : (a * b) c = .error e := by
  show Effect.mul a b c = _
  rw [Effect.mul, h]

/-- A product fails where its first factor does. -/
theorem mul_of_none (h : a c = .ok none) : (a * b) c = .ok none := by
  show Effect.mul a b c = _
  rw [Effect.mul, h]

/-- Where the first factor succeeds, the product is what comes of the second one after the moves of
    the first. -/
theorem mul_of_some (h : a c = .ok (some (ms, d))) : (a * b) c = (b d).map (after ms) := by
  show Effect.mul a b c = _
  rw [Effect.mul, h]

/-- Where the first summand fails, the sum is the second one. -/
theorem add_of_none (h : a c = .ok none) : (a + b) c = b c := by
  show Effect.add a b c = _
  rw [Effect.add, h]

/-- Where the first summand does not fail, be it in success or in a fault, the sum is the first one.
    -/
theorem add_of_ne (h : a c ≠ .ok none) : (a + b) c = a c := by
  show Effect.add a b c = _
  unfold Effect.add
  split
  · rename_i hnone
    exact absurd hnone h
  · rfl

end Apply

/-! ## The laws of effects -/

instance instMonoid : Monoid (Effect doc) where
  mul_assoc a b c := by
    ext p
    -- By what comes of the first factor, and then of the second one.
    rcases hab : a p with e | _ | ⟨ms, d⟩
    · rw [mul_of_error (mul_of_error hab), mul_of_error hab]
    · rw [mul_of_none (mul_of_none hab), mul_of_none hab]
    have hb := mul_of_some (b := b) hab
    rw [mul_of_some hab]
    rcases hbd : b d with e | _ | ⟨ns, d'⟩ <;> rw [hbd] at hb
    · rw [mul_of_error hb, mul_of_error hbd]
      rfl
    · rw [mul_of_none hb, mul_of_none hbd]
      rfl
    · rw [mul_of_some hb, mul_of_some hbd]
      cases c d' <;> simp [Except.map]
  one_mul a := by
    ext p
    rw [mul_of_some (one_apply p)]
    cases a p <;> simp [Except.map]
  mul_one a := by
    ext p
    rcases ha : a p with e | _ | ⟨ms, d⟩
    · rw [mul_of_error ha]
    · rw [mul_of_none ha]
    · rw [mul_of_some ha, one_apply]
      simp [Except.map, after]

instance instAddMonoid : AddMonoid (Effect doc) where
  add_assoc a b c := by
    ext p
    -- A summand counts only where those before it fail.
    by_cases ha : a p = .ok none
    · rw [add_of_none ha]
      by_cases hb : b p = .ok none
      · rw [add_of_none hb, add_of_none ((add_of_none ha).trans hb)]
      · have hab : (a + b) p ≠ .ok none := by rwa [add_of_none ha]
        rw [add_of_ne hb, add_of_ne hab, add_of_none ha]
    · have hab : (a + b) p ≠ .ok none := by rwa [add_of_ne ha]
      rw [add_of_ne ha, add_of_ne hab, add_of_ne ha]
  zero_add a := by
    ext p
    rw [add_of_none (zero_apply p)]
  add_zero a := by
    ext p
    by_cases ha : a p = .ok none
    · rw [add_of_none ha, zero_apply, ha]
    · rw [add_of_ne ha]
  nsmul := nsmulRec

/-- Whether the first factor faults, fails or succeeds, the second summand starts where the first
    one did. -/
instance instLeftDistribClass : LeftDistribClass (Effect doc) where
  left_distrib a b c := by
    ext p
    rcases ha : a p with e | _ | ⟨ms, d⟩
    · have hb : (a * b) p ≠ .ok none := by simp [mul_of_error ha]
      rw [add_of_ne hb, mul_of_error ha, mul_of_error ha]
    · rw [add_of_none (mul_of_none ha), mul_of_none ha, mul_of_none ha]
    -- The sum on the right is decided at `d`, where the first factor led, and so is the one of products.
    have hb := mul_of_some (b := b) ha
    by_cases hbd : b d = .ok none
    · rw [hbd] at hb
      rw [add_of_none hb, mul_of_some ha, mul_of_some ha, add_of_none hbd]
    · have hab : (a * b) p ≠ .ok none := fun h => hbd (map_after_eq_none_iff.mp (hb ▸ h))
      rw [add_of_ne hab, hb, mul_of_some ha, add_of_ne hbd]

end Effect

/-! ## Effects of actions -/

/-- Where an effect leads from `c`: to where a success ends, and back to `c` otherwise. -/
def Effect.stop {doc : Document} (c : Cursor doc) :
    Except Fault (Option (List Move × Cursor doc)) → Cursor doc
  | .ok (some (_, d)) => d
  | _ => c

namespace Action

open Executed

variable {κ : Type} {doc : Document} {x y : Action κ doc Executed} {c d : Cursor doc}
  {ms : List Move} {e : Fault}

/-- What comes of an action. -/
def effect (x : Action κ doc Executed) : Effect doc := fun c =>
  (x c).answer.map (Option.map (·, (x c).cursor))

/-- The effect of an action tells what it answers. -/
theorem answer_eq_effect (x : Action κ doc Executed) (c : Cursor doc) :
    (x c).answer = (x.effect c).map (Option.map (·.1)) := by
  unfold effect
  rcases (x c).answer with e | _ | ms <;> rfl

/-- The effect of an action that faults is the fault, wherever the cursor is left. -/
theorem effect_of_faults (h : x.Faults c e) : x.effect c = .error e := by
  unfold effect
  rw [h]
  rfl

/-- The effect of an action that fails is a failure, wherever the cursor is left. -/
theorem effect_of_yields_none (h : x.Yields c none d) : x.effect c = .ok none := by
  unfold effect
  rw [h.1]
  rfl

/-- The effect of an action that succeeds is its moves and where they led. -/
theorem effect_of_yields_some (h : x.Yields c (some ms) d) : x.effect c = .ok (some (ms, d)) := by
  unfold effect
  rw [h.1, h.2]
  rfl

/-- What each start leads to, by its three outcomes. -/
theorem outcome_cases (x : Action κ doc Executed) (c : Cursor doc) :
    (∃ e, x.Faults c e) ∨ (∃ d, x.Yields c none d) ∨ ∃ ms d, x.Yields c (some ms) d := by
  rcases yields_or_faults x c with ⟨_ | ms, d, h⟩ | h
  · exact .inr (.inl ⟨d, h⟩)
  · exact .inr (.inr ⟨ms, d, h⟩)
  · exact .inl h

/-- One action and then another have the product of their effects. -/
theorem effect_andThen (x y : Action κ doc Executed) :
    (andThen x y).effect = x.effect * y.effect := by
  ext c
  -- Only after a success of the first action does the second one count.
  rcases outcome_cases x c with ⟨e, hx⟩ | ⟨d, hx⟩ | ⟨ms, d, hx⟩
  · rw [Effect.mul_of_error (effect_of_faults hx)]
    exact effect_of_faults (faults_andThen_iff.mpr (.inl hx))
  · rw [Effect.mul_of_none (effect_of_yields_none hx)]
    exact effect_of_yields_none (yields_andThen_none.mpr (.inl hx))
  rw [Effect.mul_of_some (effect_of_yields_some hx)]
  rcases outcome_cases y d with ⟨e, hy⟩ | ⟨d', hy⟩ | ⟨ns, d', hy⟩
  · rw [effect_of_faults hy]
    exact effect_of_faults (faults_andThen_iff.mpr (.inr ⟨ms, d, hx, hy⟩))
  · rw [effect_of_yields_none hy]
    exact effect_of_yields_none (yields_andThen_none.mpr (.inr ⟨ms, d, hx, hy⟩))
  · rw [effect_of_yields_some hy]
    exact effect_of_yields_some (yields_andThen_some.mpr ⟨ms, d, ns, hx, hy, rfl⟩)

/-- The action that does nothing is neutral in products. -/
theorem effect_nothing : (pure (some []) : Action κ doc Executed).effect = 1 := rfl

/-- The action that fails is neutral in sums. -/
theorem effect_failure : (pure none : Action κ doc Executed).effect = 0 := rfl

/-- Actions in order have the product of their effects. -/
theorem effect_inSequence (xs : List (Action κ doc Executed)) :
    (inSequence xs).effect = (xs.map effect).prod := by
  induction xs with
  | nil => exact effect_nothing
  | cons x xs ih => rw [inSequence, effect_andThen, ih, List.map_cons, List.prod_cons]

/-- A repeated action has a power of its effect. -/
theorem effect_repeated (x : Action κ doc Executed) (n : Nat) :
    (repeated n x).effect = x.effect ^ n := by
  induction n with
  | zero => exact effect_nothing
  | succ n ih => rw [repeated, effect_andThen, ih, pow_succ']

/-- Options that put the cursor back when they fail are summands. -/
theorem effect_firstOf {xs : List (Action κ doc Executed)} (hback : ∀ x ∈ xs, x.Restores) :
    (firstOf xs).effect = (xs.map effect).sum := by
  induction xs with
  | nil => exact effect_failure
  | cons x xs ih =>
    obtain ⟨hx, hxs⟩ := List.forall_mem_cons.mp hback
    rw [List.map_cons, List.sum_cons, ← ih hxs]
    ext c
    rcases outcome_cases x c with ⟨e, h⟩ | ⟨d, h⟩ | ⟨ms, d, h⟩
    · rw [Effect.add_of_ne (by simp [effect_of_faults h]), effect_of_faults h]
      exact effect_of_faults (faults_firstOf_cons_iff.mpr (.inl h))
    · rw [Effect.add_of_none (effect_of_yields_none h)]
      -- The other options start where the failed one did.
      obtain rfl := hx c d h
      rcases outcome_cases (firstOf xs) d with ⟨e, h'⟩ | ⟨d', h'⟩ | ⟨ms, d', h'⟩
      · rw [effect_of_faults h']
        exact effect_of_faults (faults_firstOf_cons_iff.mpr (.inr ⟨d, h, h'⟩))
      · rw [effect_of_yields_none h']
        exact effect_of_yields_none (yields_firstOf_cons_none.mpr ⟨d, h, h'⟩)
      · rw [effect_of_yields_some h']
        exact effect_of_yields_some (yields_firstOf_cons_some.mpr (.inr ⟨d, h, h'⟩))
    · rw [Effect.add_of_ne (by simp [effect_of_yields_some h]), effect_of_yields_some h]
      exact effect_of_yields_some (yields_firstOf_cons_some.mpr (.inl h))

end Action

/-! ## Effects of traversals -/

namespace Traversal

variable {κ : Type} {doc : Document} (meaning : κ → Action κ doc Bool)

/-- What comes of executing a traversal. -/
def effect (t : Traversal κ) : Effect doc := (t.execute meaning).effect

/-- The effect of an execution is that of what it performs. -/
theorem effect_eq_perform (t : Traversal κ) : t.effect meaning = (t.perform meaning).effect := by
  ext c
  unfold effect
  -- An attempt changes where a failure ends, which is no part of its effect.
  rcases Action.outcome_cases (t.perform meaning) c with ⟨e, h⟩ | ⟨d, h⟩ | ⟨ms, d, h⟩
  · rw [Action.effect_of_faults h, Action.effect_of_faults (faults_execute_iff.mpr h)]
  · rw [Action.effect_of_yields_none h,
      Action.effect_of_yields_none (yields_execute_none.mpr ⟨rfl, d, h⟩)]
  · rw [Action.effect_of_yields_some h, Action.effect_of_yields_some (yields_execute_some.mpr h)]

/-- The effect of a maneuver is the product of those of its phases. -/
theorem effect_maneuver (ts : List (Traversal κ)) :
    (maneuver ts).effect meaning = (ts.map (effect meaning)).prod := by
  rw [effect_eq_perform, perform, Action.effect_inSequence, List.map_map]
  rfl

/-- The effect of a protocol is the sum of those of its options. -/
theorem effect_protocol (ts : List (Traversal κ)) :
    (protocol ts).effect meaning = (ts.map (effect meaning)).sum := by
  have hback : ∀ x ∈ ts.map (execute meaning), x.Restores :=
    List.forall_mem_map.mpr fun t _ => restores_execute meaning t
  rw [effect_eq_perform, perform, Action.effect_firstOf hback, List.map_map]
  rfl

/-- The effect of a circuit with a number of times is a power of that of its body. -/
theorem effect_circuit (t : Traversal κ) (n : Nat) :
    (circuit t (some n)).effect meaning = t.effect meaning ^ n := by
  rw [effect_eq_perform, perform, Action.effect_repeated]
  rfl

end Traversal

/-! ## Equivalent traversals -/

namespace Traversal

variable {κ : Type} {doc : Document}

/-- The effect of an execution tells where it leaves the cursor, as what fails or faults is put
    back. -/
theorem cursor_execute_eq_effect (meaning : κ → Action κ doc Bool) (t : Traversal κ)
    (c : Cursor doc) : (t.execute meaning c).cursor = Effect.stop c (t.effect meaning c) := by
  unfold effect
  rcases Action.outcome_cases (t.execute meaning) c with ⟨e, h⟩ | ⟨d, h⟩ | ⟨ms, d, h⟩
  · rw [Action.effect_of_faults h]
    exact cursor_execute_of_faults h
  · rw [Action.effect_of_yields_none h]
    exact h.2.trans (restores_execute meaning t c d h)
  · rw [Action.effect_of_yields_some h]
    exact h.2

/-- In every document and from everywhere, whatever the conditions mean, the two traversals have the
    same result, be it moves, a failure or a fault, and leave the cursor at the same position. -/
def Equivalent (t u : Traversal κ) : Prop :=
  ∀ (doc : Document) (meaning : κ → Action κ doc Bool) (c : Cursor doc),
    (t.execute meaning c).answer = (u.execute meaning c).answer ∧
      (t.execute meaning c).cursor = (u.execute meaning c).cursor

/-- Traversals that always have the same effect are equivalent. -/
theorem equivalent_of_effect_eq {t u : Traversal κ}
    (h : ∀ (doc : Document) (meaning : κ → Action κ doc Bool),
      t.effect meaning = u.effect meaning) : t.Equivalent u := by
  intro doc meaning c
  have hc : t.effect meaning c = u.effect meaning c := congrFun (h doc meaning) c
  constructor
  · rw [Action.answer_eq_effect, Action.answer_eq_effect]
    exact congrArg _ hc
  · rw [cursor_execute_eq_effect, cursor_execute_eq_effect, hc]

/-- Maneuvers in maneuvers and protocols in protocols can be flattened, the empty ones are neutral,
    a protocol at the end of a maneuver can be tried around it, a single repetition, phase or option
    is the traversal itself, and the repetitions of circuits add up one after another and multiply
    in one another. -/
theorem execute_algebra (ts us vs : List (Traversal κ)) (t u v : Traversal κ) (m n : Nat) :
    ((maneuver (ts ++ maneuver us :: vs)).Equivalent (maneuver (ts ++ us ++ vs)) ∧
      (protocol (ts ++ protocol us :: vs)).Equivalent (protocol (ts ++ us ++ vs))) ∧
    ((maneuver [maneuver [], t]).Equivalent t ∧ (maneuver [t, maneuver []]).Equivalent t ∧
      (protocol [protocol [], t]).Equivalent t ∧ (protocol [t, protocol []]).Equivalent t) ∧
    (maneuver [t, protocol [u, v]]).Equivalent (protocol [maneuver [t, u], maneuver [t, v]]) ∧
    ((circuit t (some 1)).Equivalent t ∧ (maneuver [t]).Equivalent t ∧
      (protocol [t]).Equivalent t) ∧
    (circuit t (some (m + n))).Equivalent
      (maneuver [circuit t (some m), circuit t (some n)]) ∧
    (circuit (circuit t (some m)) (some n)).Equivalent (circuit t (some (m * n))) := by
  refine ⟨⟨?phases, ?options⟩, ⟨?one_mul, ?mul_one, ?zero_add, ?add_zero⟩, ?distrib,
    ⟨?once, ?phase, ?option⟩, ?add, ?mul⟩ <;>
    -- Each of the laws is one of effects.
    refine equivalent_of_effect_eq fun doc meaning => ?_
  case phases =>
    simp only [effect_maneuver, List.map_append, List.map_cons, List.prod_append, List.prod_cons,
      mul_assoc]
  case options =>
    simp only [effect_protocol, List.map_append, List.map_cons, List.sum_append, List.sum_cons,
      add_assoc]
  case one_mul => simp [effect_maneuver]
  case mul_one => simp [effect_maneuver]
  case zero_add => simp [effect_protocol]
  case add_zero => simp [effect_protocol]
  case distrib => simp [effect_maneuver, effect_protocol, mul_add]
  case once => rw [effect_circuit, pow_one]
  case phase => simp [effect_maneuver]
  case option => simp [effect_protocol]
  case add => simp [effect_maneuver, effect_circuit, pow_add]
  case mul => rw [effect_circuit, effect_circuit, effect_circuit, pow_mul]

end Traversal

end SExprNav
