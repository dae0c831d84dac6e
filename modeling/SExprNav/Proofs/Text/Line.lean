import Mathlib.Data.List.DropRight
import SExprNav.Text.Line

/-!
# The line of a position

The line of a position is found by going from the position to the newlines on both sides of it. Cut
at its newlines, the text has a piece for each line, and the line of a position is the piece whose
number is the number of newlines before the position. So the caret stands below the position also
where this is on a newline, right behind one or at the end of the text.

`Line.induction` goes through the lines from the first one to the line of the position: each round
takes one line with its newline away from the text in front of the position.

## Key results

- `Line.getElem?_splitOn_count`: the line of a position among the pieces between newlines
- `Line.offset_count`: the place where this piece starts
- `Line.withCaret_points`: what stands in the line of a position, and the place of the caret
-/

namespace SExprNav.Line

variable {text first rest : List Char} {p q : Nat}

/-- Where the `k`-th piece between newlines starts in the text: behind the pieces before it, each with
    a newline at its end. -/
def offset (text : List Char) (k : Nat) : Nat :=
  (((text.splitOn '\n').take k).flatMap (· ++ ['\n'])).length

/-! ## Going through the lines -/

/-- Either no newline stands before a position, or the position lies behind the newline that ends the
    first line. -/
theorem induction {motive : List Char → Nat → Prop}
    (here : ∀ text p, '\n' ∉ text.take p → motive text p)
    (behind : ∀ first rest q, '\n' ∉ first → motive rest q →
      motive (first ++ '\n' :: rest) (first.length + (q + 1)))
    (text : List Char) (p : Nat) : motive text p := by
  induction hn : text.length using Nat.strongRecOn generalizing text p with
  | ind n ih =>
    by_cases hmem : '\n' ∈ text.take p
    · obtain ⟨first, others, htake, hfirst⟩ := List.eq_append_cons_of_mem hmem
      have htext : first ++ '\n' :: (others ++ text.drop p) = text := by
        rw [← List.cons_append, ← List.append_assoc, ← htake, List.take_append_drop]
      have hp : first.length + ((p - first.length - 1) + 1) = p := by
        have hle := List.length_take_le p text
        rw [htake, List.length_append, List.length_cons] at hle
        omega
      -- What is left behind the first newline is shorter than the text.
      have hshorter : (others ++ text.drop p).length < n := by
        have hlength := congrArg List.length htext
        rw [List.length_append, List.length_cons] at hlength
        omega
      have hrest := ih _ hshorter (others ++ text.drop p) (p - first.length - 1) rfl
      have hall := behind first _ _ hfirst hrest
      rwa [htext, hp] at hall
    · exact here text p hmem

theorem bne_newline (h : '\n' ∉ text) : ∀ c ∈ text, (c != '\n') = true := by
  intro c hc
  simpa using ne_of_mem_of_not_mem hc h

/-- What stands before a position on its line is the end of what stands before it. -/
theorem before_suffix (text : List Char) (p : Nat) : before text p <:+ text.take p :=
  List.rtakeWhile_suffix _ _

theorem before_of_not_mem (h : '\n' ∉ text.take p) : before text p = text.take p :=
  List.rtakeWhile_eq_self_iff.mpr (bne_newline h)

theorem take_behind :
    (first ++ '\n' :: rest).take (first.length + (q + 1)) = first ++ '\n' :: rest.take q := by
  rw [List.take_length_add_append, List.take_succ_cons]

theorem before_behind : before (first ++ '\n' :: rest) (first.length + (q + 1)) = before rest q := by
  unfold before
  rw [take_behind, List.reverse_append, List.reverse_cons, List.append_assoc, List.takeWhile_append]
  -- The search backwards ends at a later newline, or else at the first one.
  split
  · rename_i hall
    have hself := (List.takeWhile_prefix (· != '\n')).eq_of_length hall
    simp [hself]
  · rfl

theorem after_behind : after (first ++ '\n' :: rest) (first.length + (q + 1)) = after rest q := by
  unfold after
  rw [List.drop_length_add_append, List.drop_succ_cons]

theorem around_behind :
    around (first ++ '\n' :: rest) (first.length + (q + 1)) = around rest q := by
  unfold around
  rw [before_behind, after_behind]

theorem start_behind : start (first ++ '\n' :: rest) (first.length + (q + 1)) =
    first.length + 1 + start rest q := by
  have hle := (before_suffix rest q).length_le
  unfold start
  rw [before_behind, take_behind, List.length_append, List.length_cons]
  omega

/-! ## The pieces between newlines -/

theorem count_behind (h : '\n' ∉ first) :
    ((first ++ '\n' :: rest).take (first.length + (q + 1))).count '\n' =
      (rest.take q).count '\n' + 1 := by
  rw [take_behind, List.count_append, List.count_eq_zero_of_not_mem h, List.count_cons_self,
    Nat.zero_add]

/-- The first piece is what stands before the first newline. -/
theorem getElem?_splitOn_zero (text : List Char) :
    (text.splitOn '\n')[0]? = some (text.takeWhile (· != '\n')) := by
  by_cases h : '\n' ∈ text
  · obtain ⟨first, rest, rfl, hfirst⟩ := List.eq_append_cons_of_mem h
    rw [List.splitOn_append_cons_self_of_not_mem hfirst,
      List.takeWhile_append_of_pos (bne_newline hfirst)]
    simp
  · rw [List.splitOn_eq_singleton h, List.takeWhile_eq_self_iff.mpr (bne_newline h)]
    rfl

/-- As many lines end before a position as there are newlines; its own line is the next one. -/
theorem getElem?_splitOn_count (text : List Char) (p : Nat) :
    (text.splitOn '\n')[(text.take p).count '\n']? = some (around text p) := by
  induction text, p using Line.induction with
  | here text p h =>
    -- What stands before the position has no newline, so the first one is looked for behind it.
    have hline : text.takeWhile (· != '\n') = around text p := by
      unfold around after
      rw [before_of_not_mem h, ← List.takeWhile_append_of_pos (bne_newline h),
        List.take_append_drop]
    rw [List.count_eq_zero_of_not_mem h, getElem?_splitOn_zero, hline]
  | behind first rest q hfirst ih =>
    rw [count_behind hfirst, List.splitOn_append_cons_self_of_not_mem hfirst,
      List.getElem?_cons_succ, ih, around_behind]

/-- The line of a position starts where the lines that end before it have ended. -/
theorem offset_count (text : List Char) (p : Nat) :
    offset text ((text.take p).count '\n') = start text p := by
  induction text, p using Line.induction with
  | here text p h =>
    unfold offset start
    rw [List.count_eq_zero_of_not_mem h, before_of_not_mem h, Nat.sub_self]
    rfl
  | behind first rest q hfirst ih =>
    rw [start_behind, ← ih]
    unfold offset
    rw [count_behind hfirst, List.splitOn_append_cons_self_of_not_mem hfirst, List.take_succ_cons,
      List.flatMap_cons, List.length_append, List.length_append, List.length_singleton]

/-! ## The caret -/

theorem start_add_length_before (h : p ≤ text.length) :
    start text p + (before text p).length = p := by
  have hle := (before_suffix text p).length_le
  unfold start
  rw [List.length_take_of_le h] at hle ⊢
  omega

/-- The line of a position stands in the text from its start on. -/
theorem around_prefix (text : List Char) (p : Nat) :
    around text p <+: text.drop (start text p) := by
  obtain ⟨lines, hlines⟩ := before_suffix text p
  have htext : lines ++ (before text p ++ text.drop p) = text := by
    rw [← List.append_assoc, hlines, List.take_append_drop]
  have hstart : start text p = lines.length := by
    unfold start
    rw [← hlines, List.length_append, Nat.add_sub_cancel]
  have hdrop : text.drop (start text p) = before text p ++ text.drop p := by
    calc text.drop (start text p)
        = (lines ++ (before text p ++ text.drop p)).drop lines.length := by rw [htext, hstart]
      _ = before text p ++ text.drop p := List.drop_append_length
  rw [hdrop]
  apply (List.prefix_append_right_inj _).mpr
  exact List.takeWhile_prefix _

/-- A position that is not negative is not counted from the end of the text. -/
theorem withCaret_natCast (text : List Char) (p : Nat) : withCaret text p =
    String.ofList (around text p ++ '\n' :: (List.replicate (p - start text p) ' ' ++ ['^'])) := by
  have hresolve : resolve text.length p = p := if_neg (by omega)
  have hindent : ((p : Int) - start text p).toNat = p - start text p := by omega
  unfold withCaret
  simp [hresolve, hindent]

/-- The `k`-th piece between newlines, `k` being the number of newlines before the position, has the
    position on it or at its end. It is shown with a caret that is as far from the left edge as the
    position is from the start of the piece. -/
theorem withCaret_points (text : List Char) {p : Nat} (h : p ≤ text.length) :
    let k := (text.take p).count '\n'
    let s := offset text k
    ∃ line, (text.splitOn '\n')[k]? = some line ∧ line <+: text.drop s ∧
      s ≤ p ∧ p ≤ s + line.length ∧
      withCaret text p = String.ofList (line ++ '\n' :: (List.replicate (p - s) ' ' ++ ['^'])) := by
  intro k s
  -- The start that is counted along the pieces is the one that the search backwards finds.
  have hs : s = start text p := offset_count text p
  have hbefore := start_add_length_before h
  have hlength : (around text p).length = (before text p).length + (after text p).length :=
    List.length_append
  refine ⟨around text p, getElem?_splitOn_count text p, ?_, ?_, ?_, ?_⟩
  · rw [hs]
    exact around_prefix text p
  · omega
  · omega
  · rw [hs]
    exact withCaret_natCast text p

/-- The position 2 of `a⏎⏎b` is on the second newline, on a line without characters. -/
theorem withCaret_points_empty_line :
    let text := ['a', '\n', '\n', 'b']
    2 ≤ text.length ∧ (text.splitOn '\n')[1]? = some [] ∧ offset text 1 = 2 ∧
      withCaret text 2 = "\n^" := by
  intro text
  have hline : (text.splitOn '\n')[1]? = some [] := by decide
  obtain ⟨line, hk, -, -, -, hcaret⟩ := withCaret_points text (show 2 ≤ text.length by decide)
  obtain rfl : line = [] := Option.some.inj (hk.symm.trans hline)
  exact ⟨by decide, hline, by decide, hcaret.trans (by decide)⟩

end SExprNav.Line
