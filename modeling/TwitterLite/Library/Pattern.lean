import Mathlib.Computability.Language
import Mathlib.Logic.Relation

/-!
# Search patterns with lookaheads and anchors

A pattern is matched between two positions of a text. A position knows what comes before it and what
comes after it, so that an anchor is a test of a position, and a lookahead is a match that is
attempted and leaves the position where it is. Whether a backtracking search finds a match depends
only on whether there is one, so a pattern means a relation between positions (`Pattern.Matches`);
`Pattern.ends` computes the positions at which a match can end (`Pattern.mem_ends`), and
`Pattern.search` tells whether there is a match anywhere in a text (`Pattern.search_iff`).

A pattern without anchors and lookaheads *recognizes* a language: it matches between two positions
exactly if what lies between them is a word of the language (`Pattern.Recognizes`).

## Main definitions

* `Position`, `Position.Spans`, `Position.positions`.
* `Pattern`, `Pattern.Matches`, `Pattern.ends`, `Pattern.search`.
* `Pattern.opt`, `Pattern.upTo`, `Pattern.atLeast`, `Pattern.plus`, `Pattern.start`,
  `Pattern.dollar`.
* `Pattern.Recognizes`, `Pattern.wordsOf`.

## Main results

* `Pattern.mem_ends`, `Pattern.search_iff`, `Pattern.matches_dollar`.
* `Pattern.Recognizes.seq`, `Pattern.Recognizes.alt`, `Pattern.Recognizes.star`.
* `Pattern.recognizes_star_one`, `Pattern.recognizes_upTo_one`, `Pattern.recognizes_atLeast_one`.
-/

variable {α : Type*}

/-! ### Positions -/

/-- A position of a text: what comes before it, backwards, and what comes after it. -/
structure Position (α : Type*) where
  before : List α
  after : List α

namespace Position

variable {w v : List α} {x y z : Position α}

/-- The word lies between the positions. -/
def Spans (x : Position α) (w : List α) (y : Position α) : Prop :=
  x.after = w ++ y.after ∧ y.before = w.reverse ++ x.before

theorem spans_nil : x.Spans [] y ↔ y = x := by
  constructor
  · rintro ⟨hafter, hbefore⟩
    exact (Position.mk.injEq ..).mpr ⟨hbefore, hafter.symm⟩
  · rintro rfl
    exact ⟨rfl, rfl⟩

theorem spans_append : x.Spans (w ++ v) z ↔ ∃ y, x.Spans w y ∧ y.Spans v z := by
  constructor
  · rintro ⟨hafter, hbefore⟩
    rw [List.append_assoc] at hafter
    rw [List.reverse_append, List.append_assoc] at hbefore
    exact ⟨⟨w.reverse ++ x.before, v ++ z.after⟩, ⟨hafter, rfl⟩, rfl, hbefore⟩
  · rintro ⟨y, ⟨hxy, hyx⟩, hyz, hzy⟩
    refine ⟨?_, ?_⟩
    · rw [hxy, hyz, List.append_assoc]
    · rw [hzy, hyx, List.reverse_append, List.append_assoc]

theorem spans_singleton {a : α} : x.Spans [a] y ↔
    x.after = a :: y.after ∧ y.before = a :: x.before := Iff.rfl

/-- A word that leaves as much behind as before is empty. -/
theorem Spans.eq_of_length_le (h : x.Spans w y) (hlength : x.after.length ≤ y.after.length) :
    y = x := by
  have hnil : w = [] := by
    rw [h.1, List.length_append] at hlength
    exact List.length_eq_zero_iff.mp (by omega)
  exact spans_nil.mp (hnil ▸ h)

/-- The positions from here to the end of the text. -/
def positions : List α → List α → List (Position α)
  | before, [] => [⟨before, []⟩]
  | before, a :: after => ⟨before, a :: after⟩ :: positions (a :: before) after

theorem mem_positions {before after : List α} :
    x ∈ positions before after ↔ ∃ w, Spans ⟨before, after⟩ w x := by
  induction after generalizing before with
  | nil =>
    rw [positions, List.mem_singleton]
    constructor
    · rintro rfl
      exact ⟨[], rfl, rfl⟩
    · rintro ⟨w, h⟩
      exact h.eq_of_length_le (Nat.zero_le _)
  | cons a after ih =>
    rw [positions, List.mem_cons, ih]
    constructor
    · rintro (rfl | ⟨w, hafter, hbefore⟩)
      · exact ⟨[], rfl, rfl⟩
      · refine ⟨a :: w, congrArg (a :: ·) hafter, ?_⟩
        rw [hbefore, List.reverse_cons, List.append_assoc]
        rfl
    · rintro ⟨w, hafter, hbefore⟩
      cases w with
      | nil => exact .inl (spans_nil.mp ⟨hafter, hbefore⟩)
      | cons b w =>
        obtain ⟨rfl, htail⟩ := List.cons.inj hafter
        refine .inr ⟨w, htail, ?_⟩
        rw [hbefore, List.reverse_cons, List.append_assoc]
        rfl

end Position

/-! ### Patterns and their meaning -/

/-- A pattern: one letter of a class, nothing, one pattern after another, either of two, any number
of repetitions, a lookahead, or a test of the position. -/
inductive Pattern (α : Type*) where
  | one (letter : α → Bool)
  | empty
  | seq (p q : Pattern α)
  | alt (p q : Pattern α)
  | star (p : Pattern α)
  | lookahead (p : Pattern α)
  | anchor (holds : Position α → Bool)

namespace Pattern

open Position Relation

/-- The pattern matches between the positions. -/
def Matches : Pattern α → Position α → Position α → Prop
  | one letter, x, y => ∃ a, letter a = true ∧ x.Spans [a] y
  | empty, x, y => y = x
  | seq p q, x, z => ∃ y, p.Matches x y ∧ q.Matches y z
  | alt p q, x, y => p.Matches x y ∨ q.Matches x y
  | star p, x, y => ReflTransGen p.Matches x y
  | lookahead p, x, y => y = x ∧ ∃ z, p.Matches x z
  | anchor holds, x, y => y = x ∧ holds x = true

/-- At most so many steps, each of which makes progress. -/
def iterate (step : Position α → List (Position α)) : ℕ → Position α → List (Position α)
  | 0, x => [x]
  | n + 1, x => x :: ((step x).filter fun y => y.after.length < x.after.length).flatMap
      (iterate step n)

/-- The positions at which a match that begins here can end. -/
def ends : Pattern α → Position α → List (Position α)
  | one letter, ⟨before, a :: after⟩ => if letter a then [⟨a :: before, after⟩] else []
  | one _, ⟨_, []⟩ => []
  | empty, x => [x]
  | seq p q, x => (p.ends x).flatMap q.ends
  | alt p q, x => p.ends x ++ q.ends x
  | star p, x => iterate p.ends x.after.length x
  | lookahead p, x => if (p.ends x).isEmpty then [] else [x]
  | anchor holds, x => if holds x then [x] else []

/-- There is a match somewhere in the text. -/
def search (p : Pattern α) (text : List α) : Bool :=
  (positions [] text).any fun x => !(p.ends x).isEmpty

variable {p q : Pattern α} {x y z : Position α} {letter : α → Bool} {holds : Position α → Bool}

theorem matches_one : (one letter).Matches x y ↔ ∃ a, letter a = true ∧ x.Spans [a] y := Iff.rfl

theorem matches_empty : (empty : Pattern α).Matches x y ↔ y = x := Iff.rfl

theorem matches_seq : (seq p q).Matches x z ↔ ∃ y, p.Matches x y ∧ q.Matches y z := Iff.rfl

theorem matches_alt : (alt p q).Matches x y ↔ p.Matches x y ∨ q.Matches x y := Iff.rfl

theorem matches_star : (star p).Matches x y ↔ ReflTransGen p.Matches x y := Iff.rfl

theorem matches_lookahead : (lookahead p).Matches x y ↔ y = x ∧ ∃ z, p.Matches x z := Iff.rfl

theorem matches_anchor : (anchor holds).Matches x y ↔ y = x ∧ holds x = true := Iff.rfl

/-- A match spans a word. -/
theorem Matches.exists_spans (h : p.Matches x y) : ∃ w, x.Spans w y := by
  induction p generalizing x y with
  | one letter =>
    obtain ⟨a, -, hspans⟩ := h
    exact ⟨[a], hspans⟩
  | empty => exact ⟨[], spans_nil.mpr h⟩
  | seq p q ihp ihq =>
    obtain ⟨z, hp, hq⟩ := h
    obtain ⟨w, hw⟩ := ihp hp
    obtain ⟨v, hv⟩ := ihq hq
    exact ⟨w ++ v, spans_append.mpr ⟨z, hw, hv⟩⟩
  | alt p q ihp ihq =>
    rcases h with h | h
    · exact ihp h
    · exact ihq h
  | star p ih =>
    induction h with
    | refl => exact ⟨[], rfl, rfl⟩
    | tail _ step ihx =>
      obtain ⟨w, hw⟩ := ihx
      obtain ⟨v, hv⟩ := ih step
      exact ⟨w ++ v, spans_append.mpr ⟨_, hw, hv⟩⟩
  | lookahead p => exact ⟨[], spans_nil.mpr h.1⟩
  | anchor holds => exact ⟨[], spans_nil.mpr h.1⟩

/-- Repetitions that make no progress can be left out. -/
theorem mem_iterate {step : Position α → List (Position α)}
    (hspans : ∀ x, ∀ y ∈ step x, ∃ w, x.Spans w y) {n : ℕ} (hn : x.after.length ≤ n) :
    y ∈ iterate step n x ↔ ReflTransGen (fun x y => y ∈ step x) x y := by
  induction n generalizing x with
  | zero =>
    rw [iterate, List.mem_singleton]
    constructor
    · rintro rfl
      exact .refl
    · intro h
      induction h with
      | refl => rfl
      | tail _ hstep ih =>
        subst ih
        obtain ⟨w, hw⟩ := hspans _ _ hstep
        exact hw.eq_of_length_le (hn.trans (Nat.zero_le _))
  | succ n ih =>
    simp only [iterate, List.mem_cons, List.mem_flatMap, List.mem_filter, decide_eq_true_eq]
    constructor
    · rintro (rfl | ⟨z, ⟨hstep, hlt⟩, hy⟩)
      · exact .refl
      · exact .head hstep ((ih (by omega)).mp hy)
    · intro h
      induction h using ReflTransGen.head_induction_on with
      | refl => exact .inl rfl
      | @head x z hstep hrest ihx =>
        by_cases hlt : z.after.length < x.after.length
        · exact .inr ⟨z, ⟨hstep, hlt⟩, (ih (by omega)).mpr hrest⟩
        · obtain ⟨w, hw⟩ := hspans _ _ hstep
          obtain rfl := hw.eq_of_length_le (Nat.le_of_not_lt hlt)
          exact ihx hn

/-- **The computed ends are those of the matches.** -/
theorem mem_ends : y ∈ p.ends x ↔ p.Matches x y := by
  induction p generalizing x y with
  | one letter =>
    obtain ⟨before, after⟩ := x
    rw [matches_one]
    cases after with
    | nil =>
      refine iff_of_false List.not_mem_nil ?_
      rintro ⟨a, -, hafter, -⟩
      exact List.cons_ne_nil _ _ hafter.symm
    | cons a after =>
      obtain ⟨before', after'⟩ := y
      change _ ∈ (if letter a then [Position.mk (a :: before) after] else []) ↔ _
      simp only [spans_singleton, List.cons.injEq]
      split_ifs with h
      · simp only [List.mem_singleton, Position.mk.injEq]
        constructor
        · rintro ⟨rfl, rfl⟩
          exact ⟨a, h, ⟨rfl, rfl⟩, rfl⟩
        · rintro ⟨b, -, ⟨rfl, rfl⟩, rfl⟩
          exact ⟨rfl, rfl⟩
      · simp only [List.not_mem_nil, false_iff]
        rintro ⟨b, hb, ⟨rfl, -⟩, -⟩
        exact h hb
  | empty => exact List.mem_singleton
  | seq p q ihp ihq =>
    change _ ∈ (p.ends x).flatMap q.ends ↔ _
    simp only [matches_seq, List.mem_flatMap, ihp, ihq]
  | alt p q ihp ihq =>
    change _ ∈ p.ends x ++ q.ends x ↔ _
    simp only [matches_alt, List.mem_append, ihp, ihq]
  | star p ih =>
    have hspans : ∀ x, ∀ y ∈ p.ends x, ∃ w, x.Spans w y := fun x y hy =>
      (ih.mp hy).exists_spans
    have hmatches : (fun x y => y ∈ p.ends x) = p.Matches := by
      funext x y
      exact propext ih
    rw [matches_star, ← hmatches]
    exact mem_iterate hspans le_rfl
  | lookahead p ih =>
    have hends : (p.ends x).isEmpty = false ↔ ∃ z, p.Matches x z := by
      simp only [List.isEmpty_eq_false_iff_exists_mem, ih]
    rw [matches_lookahead, ← hends]
    change _ ∈ (if (p.ends x).isEmpty then [] else [x]) ↔ _
    cases (p.ends x).isEmpty <;> simp
  | anchor holds =>
    rw [matches_anchor]
    change _ ∈ (if holds x then [x] else []) ↔ _
    cases holds x <;> simp

/-- **A search finds a match exactly if there is one.** -/
theorem search_iff {text : List α} :
    p.search text = true ↔ ∃ w x y, Spans ⟨[], text⟩ w x ∧ p.Matches x y := by
  have hends (x : Position α) : (!(p.ends x).isEmpty) = true ↔ ∃ y, p.Matches x y := by
    simp only [← mem_ends, Bool.not_eq_true', List.isEmpty_eq_false_iff_exists_mem]
  rw [search, List.any_eq_true]
  constructor
  · rintro ⟨x, hx, hmatch⟩
    obtain ⟨w, hw⟩ := mem_positions.mp hx
    obtain ⟨y, hy⟩ := (hends x).mp hmatch
    exact ⟨w, x, y, hw, hy⟩
  · rintro ⟨w, x, y, hw, hy⟩
    exact ⟨x, mem_positions.mpr ⟨w, hw⟩, (hends x).mpr ⟨y, hy⟩⟩

/-! ### Derived patterns -/

/-- The pattern, or nothing. -/
def opt (p : Pattern α) : Pattern α := alt p empty

/-- At most so many repetitions. -/
def upTo (p : Pattern α) : ℕ → Pattern α
  | 0 => empty
  | n + 1 => opt (seq p (upTo p n))

/-- At least so many repetitions. -/
def atLeast (p : Pattern α) : ℕ → Pattern α
  | 0 => star p
  | n + 1 => seq p (atLeast p n)

/-- At least one repetition. -/
def plus (p : Pattern α) : Pattern α := p.atLeast 1

/-- The beginning of the text. -/
def start : Pattern α := anchor fun x => x.before.isEmpty

/-- The end of the text, and the position before a final line terminator, but not the one between a
carriage return and a line feed. -/
def dollar [DecidableEq α] (isLineTerminator : α → Bool) (cr lf : α) : Pattern α :=
  anchor fun x => match x.after with
    | [] => true
    | [a] => isLineTerminator a && !(a == lf && x.before.head? == some cr)
    | [a, b] => a == cr && b == lf
    | _ => false

theorem matches_dollar [DecidableEq α] {isLineTerminator : α → Bool} {cr lf : α} :
    (dollar isLineTerminator cr lf).Matches x y ↔ y = x ∧ (x.after = [] ∨
      (∃ a, x.after = [a] ∧ isLineTerminator a = true ∧ ¬ (a = lf ∧ x.before.head? = some cr)) ∨
      x.after = [cr, lf]) := by
  refine matches_anchor.trans (and_congr_right fun _ => ?_)
  rcases x with ⟨before, _ | ⟨a, _ | ⟨b, _ | ⟨c, after⟩⟩⟩⟩
  · simp
  · simp only [Bool.and_eq_true, Bool.not_eq_true', Bool.and_eq_false_iff, beq_eq_false_iff_ne,
      List.cons.injEq, and_true, exists_eq_left', reduceCtorEq, false_or, and_false, or_false,
      not_and_or]
  · simp
  · simp

@[simp] theorem matches_lookahead_seq :
    (seq (lookahead p) q).Matches x y ↔ (∃ z, p.Matches x z) ∧ q.Matches x y := by
  simp only [matches_seq, matches_lookahead, and_assoc, exists_eq_left]

@[simp] theorem matches_start : (start : Pattern α).Matches x y ↔ y = x ∧ x.before = [] :=
  matches_anchor.trans (and_congr_right' List.isEmpty_iff)

/-! ### Patterns that recognize a language -/

/-- The pattern matches between two positions exactly if a word of the language lies between
them. -/
def Recognizes (p : Pattern α) (L : Language α) : Prop :=
  ∀ x y, p.Matches x y ↔ ∃ w ∈ L, x.Spans w y

/-- The words of letters of a class whose lengths are among those given. -/
def wordsOf (letter : α → Bool) (lengths : Set ℕ) : Language α :=
  {w | w.length ∈ lengths ∧ ∀ a ∈ w, letter a = true}

section Recognizes

variable {L M : Language α} {lengths : Set ℕ} {w : List α}

theorem mem_wordsOf :
    w ∈ wordsOf letter lengths ↔ w.length ∈ lengths ∧ ∀ a ∈ w, letter a = true := Iff.rfl

theorem nil_mem_wordsOf : [] ∈ wordsOf letter lengths ↔ 0 ∈ lengths :=
  and_iff_left (List.forall_mem_nil _)

theorem cons_mem_wordsOf {a : α} : a :: w ∈ wordsOf letter lengths ↔
    letter a = true ∧ w ∈ wordsOf letter (Set.preimage Nat.succ lengths) := by
  rw [mem_wordsOf, List.forall_mem_cons, and_left_comm]
  exact Iff.rfl

theorem mem_wordsOf_one : w ∈ wordsOf letter {1} ↔ ∃ a, letter a = true ∧ w = [a] := by
  rw [mem_wordsOf, Set.mem_singleton_iff, List.length_eq_one_iff]
  constructor
  · rintro ⟨⟨a, rfl⟩, hw⟩
    exact ⟨a, hw a (List.mem_singleton_self a), rfl⟩
  · rintro ⟨a, ha, rfl⟩
    exact ⟨⟨a, rfl⟩, List.forall_mem_singleton.mpr ha⟩

/-- A letter of a class and a word. -/
theorem mem_wordsOf_one_mul :
    w ∈ wordsOf letter {1} * L ↔ ∃ a v, letter a = true ∧ v ∈ L ∧ w = a :: v := by
  simp only [Language.mem_mul, mem_wordsOf_one]
  constructor
  · rintro ⟨_, ⟨a, ha, rfl⟩, v, hv, rfl⟩
    exact ⟨a, v, ha, hv, rfl⟩
  · rintro ⟨a, v, ha, hv, rfl⟩
    exact ⟨[a], ⟨a, ha, rfl⟩, v, hv, rfl⟩

/-- A match can begin here exactly if a word of the language does. -/
theorem Recognizes.exists_matches_iff (hp : Recognizes p L) :
    (∃ y, p.Matches x y) ↔ ∃ w ∈ L, w <+: x.after := by
  constructor
  · rintro ⟨y, h⟩
    obtain ⟨w, hw, hafter, -⟩ := (hp x y).mp h
    exact ⟨w, hw, y.after, hafter.symm⟩
  · rintro ⟨w, hw, rest, hafter⟩
    exact ⟨⟨w.reverse ++ x.before, rest⟩, (hp _ _).mpr ⟨w, hw, hafter.symm, rfl⟩⟩

theorem recognizes_one (letter : α → Bool) : Recognizes (one letter) (wordsOf letter {1}) := by
  intro x y
  simp only [matches_one, mem_wordsOf_one]
  constructor
  · rintro ⟨a, ha, hspans⟩
    exact ⟨[a], ⟨a, ha, rfl⟩, hspans⟩
  · rintro ⟨_, ⟨a, ha, rfl⟩, hspans⟩
    exact ⟨a, ha, hspans⟩

theorem recognizes_empty : Recognizes (empty : Pattern α) 1 := by
  intro x y
  simp only [matches_empty, Language.mem_one, exists_eq_left, spans_nil]

theorem Recognizes.seq (hp : Recognizes p L) (hq : Recognizes q M) :
    Recognizes (p.seq q) (L * M) := by
  intro x z
  simp only [matches_seq, hp _ _, hq _ _, Language.mem_mul]
  constructor
  · rintro ⟨y, ⟨w, hw, hxy⟩, v, hv, hyz⟩
    exact ⟨w ++ v, ⟨w, hw, v, hv, rfl⟩, spans_append.mpr ⟨y, hxy, hyz⟩⟩
  · rintro ⟨_, ⟨w, hw, v, hv, rfl⟩, hspans⟩
    obtain ⟨y, hxy, hyz⟩ := spans_append.mp hspans
    exact ⟨y, ⟨w, hw, hxy⟩, v, hv, hyz⟩

theorem Recognizes.alt (hp : Recognizes p L) (hq : Recognizes q M) :
    Recognizes (p.alt q) (L + M) := by
  intro x y
  simp only [matches_alt, hp _ _, hq _ _, Language.mem_add, or_and_right, exists_or]

theorem Recognizes.star (hp : Recognizes p L) : Recognizes p.star (KStar.kstar L) := by
  intro x y
  constructor
  · intro h
    induction h with
    | refl => exact ⟨[], Language.nil_mem_kstar L, rfl, rfl⟩
    | tail _ step ih =>
      obtain ⟨w, hw, hxy⟩ := ih
      obtain ⟨v, hv, hyz⟩ := (hp _ _).mp step
      obtain ⟨words, rfl, hwords⟩ := Language.mem_kstar.mp hw
      refine ⟨words.flatten ++ v, ?_, spans_append.mpr ⟨_, hxy, hyz⟩⟩
      refine Language.mem_kstar.mpr ⟨words ++ [v], by simp, ?_⟩
      exact List.forall_mem_append.mpr ⟨hwords, List.forall_mem_singleton.mpr hv⟩
  · rintro ⟨w, hw, hspans⟩
    obtain ⟨words, rfl, hwords⟩ := Language.mem_kstar.mp hw
    induction words generalizing x with
    | nil =>
      obtain rfl := spans_nil.mp hspans
      exact .refl
    | cons word words ih =>
      rw [List.flatten_cons] at hspans
      obtain ⟨z, hxz, hzy⟩ := spans_append.mp hspans
      have hrest := List.forall_mem_cons.mp hwords
      exact .head ((hp _ _).mpr ⟨word, hrest.1, hxz⟩)
        (ih z hrest.2 (Language.join_mem_kstar hrest.2) hzy)

theorem Recognizes.opt (hp : Recognizes p L) : Recognizes p.opt (L + 1) := hp.alt recognizes_empty

theorem Recognizes.congr (hp : Recognizes p L) (h : ∀ w, w ∈ L ↔ w ∈ M) : Recognizes p M :=
  Language.ext h ▸ hp

/-- Any number of letters of a class. -/
theorem recognizes_star_one (letter : α → Bool) :
    Recognizes (one letter).star (wordsOf letter Set.univ) := by
  refine (recognizes_one letter).star.congr fun w => ?_
  simp only [Language.mem_kstar, mem_wordsOf_one]
  constructor
  · rintro ⟨words, rfl, hwords⟩
    refine ⟨Set.mem_univ _, fun a ha => ?_⟩
    obtain ⟨word, hword, ha⟩ := List.mem_flatten.mp ha
    obtain ⟨b, hb, rfl⟩ := hwords word hword
    exact List.mem_singleton.mp ha ▸ hb
  · rintro ⟨-, h⟩
    refine ⟨w.map ([·]), (List.flatMap_singleton' w).symm, ?_⟩
    exact List.forall_mem_map.mpr fun a ha => ⟨a, h a ha, rfl⟩

/-- At most so many letters of a class. -/
theorem recognizes_upTo_one (letter : α → Bool) (n : ℕ) :
    Recognizes ((one letter).upTo n) (wordsOf letter (Set.Iic n)) := by
  induction n with
  | zero =>
    refine recognizes_empty.congr fun w => ?_
    cases w with
    | nil => exact iff_of_true rfl (nil_mem_wordsOf.mpr Set.self_mem_Iic)
    | cons a w => exact iff_of_false (List.cons_ne_nil a w) fun h => Nat.not_succ_le_zero _ h.1
  | succ n ih =>
    refine ((recognizes_one letter).seq ih).opt.congr fun w => ?_
    rw [Language.mem_add, Language.mem_one, mem_wordsOf_one_mul]
    cases w with
    | nil => exact iff_of_true (.inr rfl) (nil_mem_wordsOf.mpr (Nat.zero_le _))
    | cons a w =>
      have hlengths : Set.preimage Nat.succ (Set.Iic (n + 1)) = Set.Iic n :=
        Set.ext fun _ => Nat.succ_le_succ_iff
      simp [cons_mem_wordsOf, hlengths]

/-- At least so many letters of a class. -/
theorem recognizes_atLeast_one (letter : α → Bool) (n : ℕ) :
    Recognizes ((one letter).atLeast n) (wordsOf letter (Set.Ici n)) := by
  induction n with
  | zero =>
    refine (recognizes_star_one letter).congr fun w => and_congr_left' ?_
    exact iff_of_true (Set.mem_univ _) (Nat.zero_le _)
  | succ n ih =>
    refine ((recognizes_one letter).seq ih).congr fun w => ?_
    rw [mem_wordsOf_one_mul]
    cases w with
    | nil => exact iff_of_false (by simp) fun h => Nat.not_succ_le_zero _ h.1
    | cons a w =>
      have hlengths : Set.preimage Nat.succ (Set.Ici (n + 1)) = Set.Ici n :=
        Set.ext fun _ => Nat.succ_le_succ_iff
      simp [cons_mem_wordsOf, hlengths]

end Recognizes

end Pattern
