import Mathlib.Data.List.Nodup
import Mathlib.Order.Nat
import SExprNav.Proofs.Cursor.Repetition
import SExprNav.Proofs.Traversal.Rollback

/-!
# Orbits

The orbit of an action is where its successes lead, one after another. As an action depends on the
cursor alone, an orbit that comes back to a position has no others to come. So the loops, which end
there, lose nothing: a circuit keeps the orbit up to where it would end or come back, and a detour
that gives up at a position where it has been would not have succeeded later.

## Key results

- `Action.orbit_eq_some_iff`: the orbit against repetitions
- `Action.untilStuck_orbit`: a repetition until failure keeps the orbit up to where it comes back
- `Action.fails_on_orbit`: a detour that comes back to a position does not miss a success
- `Action.exists_first_of_detour`, `Action.yields_detour_of_first`: a detour finds the first success
  along the orbit
- `Traversal.circuit_keeps_orbit`, `Traversal.detour_finds_first`: the same for executions
-/

namespace SExprNav

variable {κ : Type} {doc : Document}

open Executed (again reorient repeated)

namespace Action

variable {x y : Action κ doc Executed} {c d b : Cursor doc} {ms ns : List Move} {k m : Nat}

/-! ## Successes in a row -/

/-- Where a success of the action leads. -/
def lands? (x : Action κ doc Executed) (c : Cursor doc) : Option (Cursor doc) :=
  match (x c).answer with
  | .ok (some _) => some (x c).cursor
  | _ => none

theorem lands?_eq_some_iff : x.lands? c = some d ↔ ∃ ms, x.Yields c (some ms) d := by
  unfold lands? Yields
  rcases (x c).answer with e | _ | ms <;> simp

/-- Where a number of successes of the action, one after another, lead. -/
def orbit (x : Action κ doc Executed) (c : Cursor doc) (k : Nat) : Option (Cursor doc) :=
  Cursor.times? x.lands? k c

theorem orbit_zero : x.orbit c 0 = some c := rfl

theorem orbit_succ : x.orbit c (k + 1) = (x.orbit c k).bind x.lands? := by
  rw [orbit, Cursor.times?_add]
  exact congrArg _ (funext Cursor.times?_one)

theorem orbit_eq_some_iff : x.orbit c k = some d ↔ ∃ ms, (repeated k x).Yields c (some ms) d := by
  induction k generalizing c with
  | zero =>
    rw [orbit_zero, repeated]
    simp [eq_comm]
  | succ k ih =>
    rw [orbit, Cursor.times?_succ_iff]
    constructor
    · rintro ⟨b, hb, hrest⟩
      obtain ⟨ms, hms⟩ := lands?_eq_some_iff.mp hb
      obtain ⟨ns, hns⟩ := ih.mp hrest
      exact ⟨ms ++ ns, yields_andThen_some.mpr ⟨ms, b, ns, hms, hns, rfl⟩⟩
    · rintro ⟨_, h⟩
      obtain ⟨ms, b, ns, hms, hns, rfl⟩ := yields_andThen_some.mp h
      exact ⟨b, lands?_eq_some_iff.mpr ⟨ms, hms⟩, ih.mpr ⟨ns, hns⟩⟩

/-- Where the orbit goes on to, it has been before. -/
theorem orbit_isSome_of_le (h : x.orbit c k = some d) (hm : m ≤ k) : ∃ b, x.orbit c m = some b := by
  obtain ⟨n, rfl⟩ := Nat.exists_eq_add_of_le hm
  rw [orbit, Cursor.times?_add] at h
  obtain ⟨b, hb, -⟩ := Option.bind_eq_some_iff.mp h
  exact ⟨b, hb⟩

/-- One more success after a number of them. -/
theorem yields_repeated_succ (h : (repeated k x).Yields c (some ms) b) (hb : x.Yields b (some ns) d) :
    (repeated (k + 1) x).Yields c (some (ms ++ ns)) d := by
  induction k generalizing c ms with
  | zero =>
    obtain ⟨hms, rfl⟩ := yields_pure.mp h
    cases hms
    exact yields_andThen_some.mpr ⟨ns, d, [], hb, yields_pure.mpr ⟨rfl, rfl⟩, by simp⟩
  | succ k ih =>
    obtain ⟨ms₁, c', ms₂, hx, hrest, rfl⟩ := yields_andThen_some.mp h
    exact yields_andThen_some.mpr ⟨ms₁, c', ms₂ ++ ns, hx, ih hrest, List.append_assoc _ _ _⟩

/-! ## Linked rounds -/

section Linked

variable {kept : List (List Move × Cursor doc)}

/-- The moves of linked rounds are those of as many successes. -/
theorem yields_repeated_of_linked (h : Linked (again x) c kept) :
    (repeated kept.length x).Yields c (some (kept.flatMap (·.1)))
      ((kept.getLast?.map (·.2)).getD c) := by
  induction kept generalizing c with
  | nil => exact yields_pure.mpr ⟨rfl, rfl⟩
  | cons p kept ih =>
    obtain ⟨ms, d⟩ := p
    obtain ⟨hp, hkept⟩ := h
    rw [Trail.getLast?_kept_cons, List.flatMap_cons]
    exact yields_andThen_some.mpr ⟨ms, d, _, yields_again.mp hp, ih hkept, rfl⟩

/-- The rounds of a detour that were kept are successes of the reorientation, and where they led, the
    other action fails. -/
theorem linked_of_reorient (hback : y.Restores) (h : Linked (reorient x y) c kept) :
    Linked (again x) c kept ∧ ∀ d ∈ kept.map (·.2), y.Yields d none d := by
  induction kept generalizing c with
  | nil => exact ⟨trivial, List.forall_mem_nil _⟩
  | cons p kept ih =>
    obtain ⟨ms, d⟩ := p
    obtain ⟨hp, hkept⟩ := h
    obtain ⟨d', hx, hy⟩ := yields_reorient_again.mp hp
    obtain rfl := hback _ _ hy
    obtain ⟨hlinked, hfail⟩ := ih hkept
    exact ⟨⟨yields_again.mpr hx, hlinked⟩, List.forall_mem_cons.mpr ⟨hy, hfail⟩⟩

/-- Linked rounds start along the orbit. -/
theorem orbit_of_linked (h : Linked (again x) c kept) (hk : k ≤ kept.length) :
    x.orbit c k = (c :: kept.map (·.2))[k]? := by
  induction kept generalizing c k with
  | nil =>
    obtain rfl := Nat.le_zero.mp hk
    rfl
  | cons p kept ih =>
    obtain ⟨ms, d⟩ := p
    obtain ⟨hp, hkept⟩ := h
    have hd : x.lands? c = some d := lands?_eq_some_iff.mpr ⟨ms, yields_again.mp hp⟩
    cases k with
    | zero => rfl
    | succ k =>
      rw [orbit, Cursor.times?, hd]
      exact ih hkept (Nat.le_of_succ_le_succ hk)

/-- Along the orbit, the other action fails as far as the rounds of the detour that were kept lead. -/
theorem fails_of_kept (hback : y.Restores) (h : Linked (reorient x y) c kept) (hk : 0 < k)
    (hle : k ≤ kept.length) (hb : x.orbit c k = some b) : y.Yields b none b := by
  obtain ⟨hlinked, hfail⟩ := linked_of_reorient hback h
  obtain ⟨i, rfl⟩ := Nat.exists_eq_succ_of_ne_zero (Nat.ne_of_gt hk)
  rw [orbit_of_linked hlinked hle, List.getElem?_cons_succ] at hb
  exact hfail b (List.mem_of_getElem? hb)

end Linked

/-! ## Repetitions until failure -/

/-- After the last round of a repetition, there is no success, or one that leads back to a start. -/
theorem lands?_lastStart (x : Action κ doc Executed) (c : Cursor doc) :
    let t := trail (again x) [c] c
    x.lands? (t.lastStart c) = none ∨ ∃ d ∈ t.starts c, x.lands? (t.lastStart c) = some d := by
  intro t
  cases hd : x.lands? (t.lastStart c) with
  | none => exact .inl rfl
  | some d =>
    refine .inr ⟨d, ?_, rfl⟩
    obtain ⟨ms, hms⟩ := lands?_eq_some_iff.mp hd
    have hagain : (again x).Yields (t.lastStart c) (.again ms) d := yields_again.mpr hms
    have hlast : t.last.answer = .ok (.again ms) := by
      rw [last_trail]
      exact hagain.1
    obtain ⟨ns, d', hd', hround⟩ := closed_starts hlast (t.lastStart_mem_starts c)
    obtain rfl := (hround.unique hagain).2
    exact hd'

/-- A repetition until failure keeps as many rounds as there are successes until the next one is not
    possible or leads back to where one of them started. All these positions are different. -/
theorem isLeast_untilStuck (x : Action κ doc Executed) (c : Cursor doc) :
    let m := (trail (again x) [c] c).kept.length
    ((List.range (m + 1)).map (x.orbit c)).Nodup ∧
    IsLeast {k | x.orbit c (k + 1) = none ∨ ∃ j ≤ k, x.orbit c (k + 1) = x.orbit c j} m := by
  intro m
  -- The orbit is where the rounds start, as far as these go, and no two of them start together.
  have hlinked := linked_trail (again x) [c] c
  have hlength : ((trail (again x) [c] c).starts c).length = m + 1 := Trail.length_starts _ _
  have horbit : ∀ k ≤ m, x.orbit c k = ((trail (again x) [c] c).starts c)[k]? :=
    fun k hk => orbit_of_linked hlinked hk
  have hinj : ∀ i ≤ m, ∀ j ≤ m, x.orbit c i = x.orbit c j → i = j := by
    intro i hi j hj hij
    rw [horbit i hi, horbit j hj] at hij
    exact (List.getElem?_inj (by omega) (nodup_starts (again x) c)).mp hij
  refine ⟨?_, ?_, fun k hk => ?_⟩
  · rw [List.nodup_map_iff_inj_on List.nodup_range]
    intro i hi j hj hij
    rw [List.mem_range] at hi hj
    exact hinj i (by omega) j (by omega) hij
  · -- The last round is the one that does not succeed, or comes back to a start.
    have hm : x.orbit c m = some ((trail (again x) [c] c).lastStart c) :=
      orbit_eq_some_iff.mpr ⟨_, yields_repeated_of_linked hlinked⟩
    show x.orbit c (m + 1) = none ∨ ∃ j ≤ m, x.orbit c (m + 1) = x.orbit c j
    rw [orbit_succ, hm, Option.bind_some]
    refine (lands?_lastStart x c).imp_right ?_
    rintro ⟨d, hd, hlands⟩
    obtain ⟨j, hj⟩ := List.mem_iff_getElem?.mp hd
    have hlt := (List.getElem?_eq_some_iff.mp hj).1
    exact ⟨j, by omega, by rw [hlands, horbit j (by omega), hj]⟩
  · -- A round before it leads to a new start.
    by_contra hlt
    rcases hk with hnone | ⟨j, hj, hsame⟩
    · rw [horbit (k + 1) (by omega), List.getElem?_eq_none_iff] at hnone
      omega
    · have := hinj (k + 1) (by omega) j (by omega) hsame
      omega

/-- A repetition until failure ends at the last position of the orbit before it ends or comes back,
    with the moves that lead there, unless there is a fault at this position. -/
theorem untilStuck_orbit (x : Action κ doc Executed) (c : Cursor doc) :
    ∃ m ms d,
      IsLeast {k | x.orbit c (k + 1) = none ∨ ∃ j ≤ k, x.orbit c (k + 1) = x.orbit c j} m ∧
      ((List.range (m + 1)).map (x.orbit c)).Nodup ∧ (repeated m x).Yields c (some ms) d ∧
      ((∃ e, x.Faults d e ∧ x.untilStuck.Faults c e) ∨ x.untilStuck.Yields c (some ms) d) := by
  obtain ⟨hnodup, hleast⟩ := isLeast_untilStuck x c
  refine ⟨_, _, (trail (again x) [c] c).lastStart c, hleast, hnodup,
    yields_repeated_of_linked (linked_trail (again x) [c] c), ?_⟩
  by_cases hfault : ∃ e, x.Faults ((trail (again x) [c] c).lastStart c) e
  · obtain ⟨e, he⟩ := hfault
    exact .inl ⟨e, he, faults_untilStuck_iff.mpr ⟨_, Trail.lastStart_mem_starts _ _, he⟩⟩
  · refine .inr (yields_untilStuck.mpr ⟨fun e he => hfault ⟨e, ?_⟩, rfl, rfl⟩)
    rw [last_trail] at he
    exact faults_again_iff.mp he

/-! ## Detours -/

/-- If a detour comes back to a position, the action fails everywhere along the orbit: to go on would
    not have led to a success. -/
theorem fails_on_orbit (hback : y.Restores)
    (hlast : (trail (reorient x y) [c] c).last.answer = .ok (.again ns)) (hk : 0 < k)
    (h : x.orbit c k = some b) : y.Yields b none b := by
  -- Each start leads to a start, where the action fails.
  have hstart : ∀ s ∈ (trail (reorient x y) [c] c).starts c, ∃ d, x.lands? s = some d ∧
      y.Yields d none d ∧ d ∈ (trail (reorient x y) [c] c).starts c := by
    intro s hs
    obtain ⟨ms, d, hd, hround⟩ := closed_starts hlast hs
    obtain ⟨d', hx, hy⟩ := yields_reorient_again.mp hround
    obtain rfl := hback _ _ hy
    exact ⟨d, lands?_eq_some_iff.mpr ⟨ms, hx⟩, hy, hd⟩
  -- So the orbit never leaves the starts, and never comes to a success.
  suffices ∀ k b, x.orbit c k = some b →
      b ∈ (trail (reorient x y) [c] c).starts c ∧ (0 < k → y.Yields b none b) from (this k b h).2 hk
  intro k
  induction k with
  | zero =>
    intro b hb
    cases hb
    exact ⟨List.mem_cons_self, fun hlt => absurd hlt (Nat.lt_irrefl 0)⟩
  | succ k ih =>
    intro b hb
    rw [orbit_succ] at hb
    obtain ⟨a, ha, hlands⟩ := Option.bind_eq_some_iff.mp hb
    obtain ⟨d, hd, hy, hmem⟩ := hstart a (ih a ha).1
    obtain rfl : d = b := Option.some.inj (hd.symm.trans hlands)
    exact ⟨hmem, fun _ => hy⟩

/-- A detour that succeeds does so where the action does first along the orbit. -/
theorem exists_first_of_detour (hback : y.Restores) (h : (x.detour y).Yields c (some ms) d) :
    ∃ k ms₁ b ms₂, 0 < k ∧ (repeated k x).Yields c (some ms₁) b ∧ y.Yields b (some ms₂) d ∧
      ms = ms₁ ++ ms₂ ∧ ∀ j a, 0 < j → j < k → x.orbit c j = some a → y.Yields a none a := by
  have hlinked := linked_trail (reorient x y) [c] c
  have hrepeated := yields_repeated_of_linked (linked_of_reorient hback hlinked).1
  obtain ⟨_, hlast, rfl⟩ := yields_detour_some.mp h
  obtain ⟨ms₁, b, ms₂, hx, hy, rfl⟩ := yields_reorient_done.mp hlast
  exact ⟨_, _, b, ms₂, Nat.succ_pos _, yields_repeated_succ hrepeated hx, hy,
    (List.append_assoc _ _ _).symm,
    fun j a hj hlt ha => fails_of_kept hback hlinked hj (Nat.le_of_lt_succ hlt) ha⟩

/-- A detour comes to where the action succeeds first along the orbit. -/
theorem yields_detour_of_first (hback : y.Restores) (hk : 0 < k)
    (hx : (repeated k x).Yields c (some ms) b) (hy : y.Yields b (some ns) d)
    (hfirst : ∀ j a, 0 < j → j < k → x.orbit c j = some a → y.Yields a none a) :
    (x.detour y).Yields c (some (ms ++ ns)) d := by
  have hlinked := linked_trail (reorient x y) [c] c
  have hrepeated := yields_repeated_of_linked (linked_of_reorient hback hlinked).1
  have hb : x.orbit c k = some b := orbit_eq_some_iff.mpr ⟨ms, hx⟩
  have hsucceeds : ¬ y.Yields b none b := fun h => nomatch (h.unique hy).1
  -- The rounds that are kept do not come as far as `b`, as the action succeeds there.
  have hlt : (trail (reorient x y) [c] c).kept.length < k := by
    by_contra hle
    exact hsucceeds (fails_of_kept hback hlinked hk (Nat.le_of_not_lt hle) hb)
  -- So the last round reorients, to `a`.
  obtain ⟨a, ha⟩ := orbit_isSome_of_le hb hlt
  have hstart : x.orbit c (trail (reorient x y) [c] c).kept.length =
      some ((trail (reorient x y) [c] c).lastStart c) := orbit_eq_some_iff.mpr ⟨_, hrepeated⟩
  have hlands := ha
  rw [orbit_succ, hstart, Option.bind_some] at hlands
  obtain ⟨ls, hls⟩ := lands?_eq_some_iff.mp hlands
  rcases Nat.lt_or_eq_of_le hlt with hmore | rfl
  · -- If the action fails there, the loop ends because it comes back to a position.
    have hya := hfirst _ a (Nat.succ_pos _) hmore ha
    have hlast : (trail (reorient x y) [c] c).last.answer = .ok (.again ls) := by
      rw [last_trail]
      exact (yields_reorient_again.mpr ⟨a, hls, hya⟩).1
    exact absurd (fails_on_orbit hback hlast hk hb) hsucceeds
  · obtain rfl : a = b := Option.some.inj (ha.symm.trans hb)
    have hms := ((yields_repeated_succ hrepeated hls).unique hx).1
    rw [Option.some.injEq] at hms
    rw [yields_detour_some, ← hms]
    exact ⟨ls ++ ns, yields_reorient_done.mpr ⟨ls, a, ns, hls, hy, rfl⟩, List.append_assoc _ _ _⟩

end Action

namespace Traversal

variable (meaning : κ → Action κ doc Bool)

/-- A circuit without a number of times follows the orbit of its body up to the first position from
    where the body does not succeed or leads back to the orbit: it ends there, with the moves that
    lead there, unless the body ends in a fault there. The positions up to there are different. -/
theorem circuit_keeps_orbit (body : Traversal κ) (c : Cursor doc) :
    let x := body.execute meaning
    let loop := (circuit body none).execute meaning
    ∃ m ms d,
      IsLeast {k | x.orbit c (k + 1) = none ∨ ∃ j ≤ k, x.orbit c (k + 1) = x.orbit c j} m ∧
      ((List.range (m + 1)).map (x.orbit c)).Nodup ∧
      x.orbit c m = some d ∧ (repeated m x).Yields c (some ms) d ∧
      ((∃ e, x.Faults d e ∧ loop.Faults c e) ∨ loop.Yields c (some ms) d) ∧
      ((circuit body none).Answers meaning → loop.Yields c (some ms) d) := by
  intro x loop
  obtain ⟨m, ms, d, hleast, hnodup, hrepeated, hends⟩ := Action.untilStuck_orbit x c
  have hloop : (∃ e, x.Faults d e ∧ loop.Faults c e) ∨ loop.Yields c (some ms) d := by
    rcases hends with ⟨e, hx, he⟩ | h
    · exact .inl ⟨e, hx, faults_execute_iff.mpr he⟩
    · exact .inr (yields_execute_some.mpr h)
  refine ⟨m, ms, d, hleast, hnodup, Action.orbit_eq_some_iff.mpr ⟨ms, hrepeated⟩, hrepeated, hloop,
    fun hanswers => hloop.resolve_left ?_⟩
  rintro ⟨e, -, he⟩
  exact not_faults_execute hanswers he

/-- A detour succeeds if its body does after some number of reorientations, one after another. It
    then does what the least such number of reorientations and the body do, and the body fails after
    each smaller number. -/
theorem detour_finds_first (reorientation body : Traversal κ) (c : Cursor doc) :
    let x := reorientation.execute meaning
    let y := body.execute meaning
    let search := (detour reorientation body).execute meaning
    let works := {k | 0 < k ∧ ∃ b, x.orbit c k = some b ∧ ∃ ms d, y.Yields b (some ms) d}
    (∀ ms d, search.Yields c (some ms) d ↔
      ∃ k ms₁ b ms₂, 0 < k ∧ (repeated k x).Yields c (some ms₁) b ∧ y.Yields b (some ms₂) d ∧
        ms = ms₁ ++ ms₂ ∧ ∀ j a, 0 < j → j < k → x.orbit c j = some a → y.Yields a none a) ∧
    ((detour reorientation body).Answers meaning →
      ((∃ ms d, search.Yields c (some ms) d) ↔ works.Nonempty) ∧
      ∀ k, IsLeast works k → ∃ ms₁ b ms₂ d, (repeated k x).Yields c (some ms₁) b ∧
        y.Yields b (some ms₂) d ∧ search.Yields c (some (ms₁ ++ ms₂)) d) := by
  intro x y search works
  have hback : y.Restores := restores_execute meaning body
  have hsearch : ∀ {k ms₁ b ms₂ d}, 0 < k → (repeated k x).Yields c (some ms₁) b →
      y.Yields b (some ms₂) d →
      (∀ j a, 0 < j → j < k → x.orbit c j = some a → y.Yields a none a) →
      search.Yields c (some (ms₁ ++ ms₂)) d := fun hk hx hy hfirst =>
    yields_execute_some.mpr (Action.yields_detour_of_first hback hk hx hy hfirst)
  have hfound : ∀ ms d, search.Yields c (some ms) d → _ := fun ms d h =>
    Action.exists_first_of_detour hback (yields_execute_some.mp h)
  refine ⟨fun ms d => ⟨hfound ms d, ?_⟩, fun hanswers => ?_⟩
  · rintro ⟨k, ms₁, b, ms₂, hk, hx, hy, rfl, hfirst⟩
    exact hsearch hk hx hy hfirst
  have hleast : ∀ k, IsLeast works k → ∃ ms₁ b ms₂ d, (repeated k x).Yields c (some ms₁) b ∧
      y.Yields b (some ms₂) d ∧ search.Yields c (some (ms₁ ++ ms₂)) d := by
    rintro k ⟨⟨hk, b, hb, ms₂, d, hy⟩, hlower⟩
    obtain ⟨ms₁, hx⟩ := Action.orbit_eq_some_iff.mp hb
    refine ⟨ms₁, b, ms₂, d, hx, hy, hsearch hk hx hy fun j a hj hlt ha => ?_⟩
    -- The body answers at `a`, but does not succeed, as `k` is the least number.
    apply yields_none_of_no_success fun k hk => hanswers k (List.mem_append_right _ hk)
    intro ns d' hns
    exact absurd (hlower ⟨hj, a, ha, ns, d', hns⟩) (Nat.not_le_of_lt hlt)
  refine ⟨⟨?_, fun hworks => ?_⟩, hleast⟩
  · rintro ⟨ms, d, h⟩
    obtain ⟨k, ms₁, b, ms₂, hk, hx, hy, -⟩ := hfound ms d h
    exact ⟨k, hk, b, Action.orbit_eq_some_iff.mpr ⟨ms₁, hx⟩, ms₂, d, hy⟩
  · classical
    obtain ⟨ms₁, b, ms₂, d, -, -, h⟩ := hleast _ hworks.isLeast_natFind
    exact ⟨_, d, h⟩

/-- In `a b`, the reorientation goes to and fro, and the body succeeds only from where the detour
    starts. It is tried there after the second reorientation, although that comes back. -/
theorem detour_finds_first_at_start :
    let doc := Document.ofText .lisp ['a', ' ', 'b']
    let meaning : Empty → Action Empty doc Bool := Empty.elim
    let turn : Traversal Empty := .protocol [step .forward, step .backward]
    ((detour turn (step .forward)).execute meaning).Yields (doc.cursorAt 0)
      (some [⟨1, 0⟩, ⟨-1, 0⟩, ⟨1, 0⟩]) (doc.cursorAt 2) := by
  intro doc meaning turn
  have hturns : (Executed.repeated 2 (turn.execute meaning)).Yields (doc.cursorAt 0)
      (some [⟨1, 0⟩, ⟨-1, 0⟩]) (doc.cursorAt 0) := ⟨by decide +kernel, by decide +kernel⟩
  have hbody : ((step .forward).execute meaning).Yields (doc.cursorAt 0) (some [⟨1, 0⟩])
      (doc.cursorAt 2) := ⟨by decide +kernel, by decide +kernel⟩
  refine ((detour_finds_first meaning turn (step .forward) (doc.cursorAt 0)).1 _ _).mpr
    ⟨2, _, _, _, by decide, hturns, hbody, rfl, fun j a hj hlt ha => ?_⟩
  obtain rfl : j = 1 := by omega
  have hone : (turn.execute meaning).orbit (doc.cursorAt 0) 1 = some (doc.cursorAt 2) := by
    decide +kernel
  obtain rfl := Option.some.inj (hone.symm.trans ha)
  exact ⟨by decide +kernel, by decide +kernel⟩

end Traversal

end SExprNav
