/-!
# Forests of expressions

The expressions of a text at one level, in order: leaves (atoms and strings), and lists with a forest
of their own inside. A list keeps its `Extent`: where it starts, where its delimiters stand, where it
ends and whether anything closed it.

* `Forest.spans` shows the expressions of one level without what is inside them.
* `Forest.lists` shows all lists in the order of their opening delimiters.
* `Forest.enclosing` finds the lists around a position, from the outside in.
-/

namespace SExprNav

/-- Where a list lies in the text. A list that nothing closes reaches to the end of the text, and
`closing` is then the end of the text, too. -/
structure Extent where
  /-- The position of the first character, quote marks included. -/
  start : Nat
  /-- The position of the opening delimiter. -/
  opening : Nat
  /-- The position of the closing delimiter. -/
  closing : Nat
  /-- The position after the last character. -/
  stop : Nat
  /-- Whether a closing delimiter ends the list. -/
  closed : Bool
deriving DecidableEq, Repr

namespace Extent

/-- Whether a position lies inside a list: after the opening delimiter and not after the closing
one. -/
def encloses (e : Extent) (p : Nat) : Bool :=
  decide (e.opening < p) && decide (p ≤ e.closing)

theorem encloses_iff {e : Extent} {p : Nat} :
    e.encloses p = true ↔ e.opening < p ∧ p ≤ e.closing := by
  simp [encloses]

/-- The extent moved `n` characters to the right. -/
def shift (n : Nat) (e : Extent) : Extent :=
  { e with
    start := e.start + n
    opening := e.opening + n
    closing := e.closing + n
    stop := e.stop + n }

end Extent

/-- An expression as its own level sees it. -/
structure Span where
  start : Nat
  stop : Nat
  /-- Whether the expression ends where it stops; false only of a list that nothing closes. -/
  closed : Bool
  isList : Bool
deriving DecidableEq, Repr

/-- The expressions of one level, in order, with all that is inside them. -/
inductive Forest where
  | nil
  /-- An atom or a string, and the expressions after it. -/
  | leaf (start stop : Nat) (next : Forest)
  /-- A list, the expressions inside it and the expressions after it. -/
  | list (extent : Extent) (children next : Forest)
deriving DecidableEq, Repr

namespace Forest

/-- The expressions of the first forest, then those of the second. -/
def append : Forest → Forest → Forest
  | .nil, g => g
  | .leaf start stop next, g => .leaf start stop (next.append g)
  | .list extent children next, g => .list extent children (next.append g)

instance : Append Forest := ⟨append⟩

@[simp] theorem nil_append (g : Forest) : Forest.nil ++ g = g := rfl

@[simp] theorem leaf_append (start stop : Nat) (f g : Forest) :
    Forest.leaf start stop f ++ g = .leaf start stop (f ++ g) := rfl

@[simp] theorem list_append (e : Extent) (children f g : Forest) :
    Forest.list e children f ++ g = .list e children (f ++ g) := rfl

@[simp] theorem append_nil (f : Forest) : f ++ Forest.nil = f := by
  induction f with
  | nil => rfl
  | leaf start stop next ih => simp [ih]
  | list e children next _ ih => simp [ih]

theorem append_assoc (f g h : Forest) : f ++ g ++ h = f ++ (g ++ h) := by
  induction f with
  | nil => rfl
  | leaf start stop next ih => simp [ih]
  | list e children next _ ih => simp [ih]

/-- The forest moved `n` characters to the right. -/
def shift (n : Nat) : Forest → Forest
  | .nil => .nil
  | .leaf start stop next => .leaf (start + n) (stop + n) (next.shift n)
  | .list extent children next => .list (extent.shift n) (children.shift n) (next.shift n)

/-- The expressions of the level itself, without what is inside them. -/
def spans : Forest → List Span
  | .nil => []
  | .leaf start stop next => ⟨start, stop, true, false⟩ :: next.spans
  | .list e _ next => ⟨e.start, e.stop, e.closed, true⟩ :: next.spans

@[simp] theorem spans_append (f g : Forest) : (f ++ g).spans = f.spans ++ g.spans := by
  induction f with
  | nil => rfl
  | leaf start stop next ih => simp [spans, ih]
  | list e children next _ ih => simp [spans, ih]

/-- A list of a forest, with the list around it. -/
structure Entry where
  /-- The innermost list around this one, if any. -/
  parent : Option Extent
  extent : Extent
  children : Forest
deriving DecidableEq, Repr

/-- All lists of a forest that lies inside `parent`, in the order of their opening delimiters. -/
def entries (parent : Option Extent) : Forest → List Entry
  | .nil => []
  | .leaf _ _ next => next.entries parent
  | .list e children next => ⟨parent, e, children⟩ :: children.entries (some e) ++ next.entries parent

/-- All lists of a forest, in the order of their opening delimiters. -/
def lists (f : Forest) : List Entry := f.entries none

/-- The lists that nothing closes, in the order of their opening delimiters. -/
def unclosed (f : Forest) : List Extent :=
  (f.lists.map (·.extent)).filter (!·.closed)

/-- The lists around a position with their children, from the outside in. -/
def enclosing (p : Nat) : Forest → List (Extent × Forest)
  | .nil => []
  | .leaf _ _ next => next.enclosing p
  | .list e children next =>
    if e.encloses p then (e, children) :: children.enclosing p else next.enclosing p

theorem encloses_of_mem_enclosing {p : Nat} {f : Forest} {e : Extent × Forest}
    (h : e ∈ f.enclosing p) : e.1.encloses p = true := by
  induction f with
  | nil => simp [enclosing] at h
  | leaf _ _ next ih => exact ih h
  | list e' children next ihc ihn =>
    simp only [enclosing] at h
    split at h
    · rcases List.mem_cons.mp h with rfl | h
      · assumption
      · exact ihc h
    · exact ihn h

/-- The innermost list around a position, with its children. -/
def innermost? (p : Nat) (f : Forest) : Option (Extent × Forest) :=
  (f.enclosing p).getLast?

/-- The expressions at the level of a position: the children of the innermost list around it, or the
whole forest when there is none. -/
def level (p : Nat) (f : Forest) : Forest :=
  ((f.innermost? p).map (·.2)).getD f

/-- How many lists are around a position. -/
def depth (p : Nat) (f : Forest) : Nat := (f.enclosing p).length

theorem opening_lt_of_innermost? {p : Nat} {f : Forest} {e : Extent × Forest}
    (h : f.innermost? p = some e) : e.1.opening < p :=
  (Extent.encloses_iff.mp (encloses_of_mem_enclosing (List.mem_of_getLast? h))).1

end Forest

end SExprNav
