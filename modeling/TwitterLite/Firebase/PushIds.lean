import TwitterLite.Common.RoundTrip
import TwitterLite.Firebase.Keys
import TwitterLite.Library.Numeral

/-!
# Generating push ids

`FNextPushId.get` keeps the last time and the last random digits in static variables. In a new
millisecond it draws twelve digits; within the same millisecond it counts them up, and if all of
them are the largest digit, the carry is written outside the array, which no caller can rely on
(`PushIDState.get` is `none`). The time that the client asks with is that of the server, which
jumps when a new offset arrives.

As long as the time does not go back, each key comes after all earlier ones in the order of the
client's dictionaries (`pairwise_generate`), whatever was generated before. So no two tweets are
stored under the same key, and what was posted is what is fetched
(`fetchWithoutObserving_generated`).

## Main definitions

* `TwitterLite.PushIDState`, `TwitterLite.PushIDState.get`, `TwitterLite.PushIDState.generate`.
* `TwitterLite.IsGenerated`.

## Main results

* `TwitterLite.compareKey_id_lt_iff`.
* `TwitterLite.PushIDState.pairwise_generate`.
* `TwitterLite.PushIDState.fetchWithoutObserving_generated`.

Source: `FNextPushId.m`, lines 24–80; `FIRDatabaseReference.m`, lines 113–118;
`FirebaseDatabaseManager.swift`, lines 22–24 and 70–110.
-/

namespace TwitterLite

open Comparator Numeral

/-! ### The generator -/

/-- The static variables of `FNextPushId.get`. -/
structure PushIDState where
  lastPushTime : ℕ
  lastRandChars : List ℕ
  length_eq : lastRandChars.length = 12
  lt : ∀ d ∈ lastRandChars, d < 64

/-- The loop that counts the digits up, from the last one on; nothing is left to carry to before the
first one. -/
def countUp : List ℕ → Option (List ℕ)
  | [] => none
  | d :: rest => if d = 63 then (countUp rest).map (0 :: ·) else some ((d + 1) :: rest)

theorem countUp_spec {l l' : List ℕ} (h : countUp l = some l') (hl : ∀ d ∈ l, d < 64) :
    l'.length = l.length ∧ (∀ d ∈ l', d < 64) ∧
      value 64 l'.reverse = value 64 l.reverse + 1 := by
  induction l generalizing l' with
  | nil => cases h
  | cons d l ih =>
    obtain ⟨hd, hl⟩ := List.forall_mem_cons.mp hl
    rw [countUp] at h
    split_ifs at h with hcarry
    · obtain ⟨rest, hrest, rfl⟩ := Option.map_eq_some_iff.mp h
      obtain ⟨hlength, hlt, hvalue⟩ := ih hrest hl
      refine ⟨congrArg Nat.succ hlength, List.forall_mem_cons.mpr ⟨by decide, hlt⟩, ?_⟩
      rw [List.reverse_cons, List.reverse_cons, value_append, value_append, hvalue, hcarry]
      simp only [value, List.length_singleton, List.length_nil, pow_one, pow_zero]
      omega
    · cases h
      refine ⟨rfl, List.forall_mem_cons.mpr ⟨by omega, hl⟩, ?_⟩
      rw [List.reverse_cons, List.reverse_cons, value_append, value_append]
      rfl

namespace PushIDState

/-- Twelve random digits in a new millisecond. -/
def randomize (now : ℕ) (random : Fin 12 → Fin 64) : PushIDState where
  lastPushTime := now
  lastRandChars := List.ofFn fun i => (random i).val
  length_eq := List.length_ofFn
  lt d hd := by
    obtain ⟨i, rfl⟩ := List.mem_ofFn.mp hd
    exact (random i).isLt

/-- The digits counted up within the same millisecond. -/
def increment (state : PushIDState) : Option PushIDState :=
  match h : countUp state.lastRandChars.reverse with
  | none => none
  | some counted =>
    have hspec := countUp_spec h fun d hd => state.lt d (List.mem_reverse.mp hd)
    some {
      lastPushTime := state.lastPushTime
      lastRandChars := counted.reverse
      length_eq := by rw [List.length_reverse, hspec.1, List.length_reverse, state.length_eq]
      lt := fun d hd => hspec.2.1 d (List.mem_reverse.mp hd) }

/-- The key that the variables spell. -/
def id (state : PushIDState) : String := nextPushID state.lastPushTime state.lastRandChars

/-- `FNextPushId.get:`, with the time in milliseconds and the digits that `arc4random` would
draw. -/
def get (state : PushIDState) (now : ℕ) (random : Fin 12 → Fin 64) :
    Option (String × PushIDState) :=
  (if now = state.lastPushTime then state.increment else some (randomize now random)).map
    fun state => (state.id, state)

/-- The keys for a sequence of times. -/
def generate (state : PushIDState) :
    List (ℕ × (Fin 12 → Fin 64)) → Option (List String × PushIDState)
  | [] => some ([], state)
  | (now, random) :: ticks =>
    (state.get now random).bind fun (id, state) =>
      (state.generate ticks).map fun (ids, state) => (id :: ids, state)

/-- The number that the key spells, as long as the time has eight digits. -/
def number (state : PushIDState) : ℕ := state.lastPushTime * 64 ^ 12 + value 64 state.lastRandChars

theorem increment_spec {state state' : PushIDState} (h : state.increment = some state') :
    state'.lastPushTime = state.lastPushTime ∧ state'.number = state.number + 1 := by
  unfold increment at h
  split at h
  · cases h
  · rename_i counted hcounted
    cases h
    obtain ⟨-, -, hvalue⟩ := countUp_spec hcounted fun d hd => state.lt d (List.mem_reverse.mp hd)
    rw [List.reverse_reverse] at hvalue
    refine ⟨rfl, ?_⟩
    rw [number, number, hvalue, Nat.add_assoc]

/-- Keys of a later millisecond spell greater numbers. -/
theorem number_lt_number {state state' : PushIDState}
    (h : state.lastPushTime < state'.lastPushTime) : state.number < state'.number := by
  have hvalue := value_lt state.lt
  have hmul : (state.lastPushTime + 1) * 64 ^ 12 ≤ state'.lastPushTime * 64 ^ 12 :=
    Nat.mul_le_mul_right _ h
  rw [state.length_eq] at hvalue
  rw [number, number]
  omega

/-- **One step**: the key spells the new variables, whose number is greater unless the time goes
back. -/
theorem get_spec {state state' : PushIDState} {now : ℕ} {random : Fin 12 → Fin 64} {id : String}
    (h : state.get now random = some (id, state')) :
    id = state'.id ∧ state'.lastPushTime = now ∧
      (state.lastPushTime ≤ now → state.number < state'.number) := by
  obtain ⟨next, hnext, heq⟩ := Option.map_eq_some_iff.mp h
  cases heq
  refine ⟨rfl, ?_⟩
  split_ifs at hnext with hsame
  · obtain ⟨htime, hnumber⟩ := increment_spec hnext
    exact ⟨htime.trans hsame.symm, fun _ => by omega⟩
  · cases hnext
    exact ⟨rfl, fun hle => number_lt_number (lt_of_le_of_ne hle (Ne.symm hsame))⟩

/-! ### The order of the keys -/

/-- The digits of the key. -/
def keyDigits (state : PushIDState) : List ℕ :=
  digits 64 8 state.lastPushTime ++ state.lastRandChars

theorem length_keyDigits (state : PushIDState) : state.keyDigits.length = 20 := by
  rw [keyDigits, List.length_append, length_digits, state.length_eq]

theorem lt_of_mem_keyDigits (state : PushIDState) : ∀ d ∈ state.keyDigits, d < 64 := by
  intro d hd
  rcases List.mem_append.mp hd with hd | hd
  · exact lt_of_mem_digits (by decide) hd
  · exact state.lt d hd

theorem value_keyDigits (state : PushIDState) (h : state.lastPushTime < 64 ^ 8) :
    value 64 state.keyDigits = state.number := by
  rw [keyDigits, value_append, value_digits, Nat.mod_eq_of_lt h, state.length_eq, number]

theorem id_eq (state : PushIDState) : state.id = String.ofList (state.keyDigits.map pushChar) := by
  have hchar (n : ℕ) : pushChar (n % 64) = pushChar n := by
    rw [pushChar, pushChar, Nat.mod_mod]
  rw [id, nextPushID, keyDigits, List.map_append, digits, List.map_map]
  refine congrArg String.ofList (congrArg (· ++ _) (List.map_congr_left fun i _ => ?_))
  exact (hchar _).symm

end PushIDState

/-- The units of a text without surrogates are its characters. -/
theorem map_toNat_utf16 {text : String} (h : ∀ c ∈ text.toList, c.toNat < 0xd800) :
    (utf16 text).map UInt16.toNat = text.toList.map Char.toNat := by
  rw [utf16]
  generalize text.toList = chars at h
  induction chars with
  | nil => rfl
  | cons c chars ih =>
    obtain ⟨hc, h⟩ := List.forall_mem_cons.mp h
    have hunit : (codeUnit c).toNat = c.toNat := by
      rw [codeUnit]
      simp only [Nat.toUInt16, UInt16.toNat_ofNat']
      omega
    rw [List.flatMap_cons, scalarUTF16, if_pos (by omega), List.map_append, ih h, List.map_cons]
    simp [hunit]

theorem pushChar_toNat_lt (d : ℕ) : (pushChar d).toNat < 0xd800 := by
  have hall : pushChars.all (fun c => c.toNat < 0xd800) = true := by decide
  exact of_decide_eq_true (List.all_eq_true.mp hall _ (pushChar_mem d))

set_option maxRecDepth 2000 in
/-- The alphabet is in ascending order. -/
theorem strictMonoOn_pushChar : StrictMonoOn pushChar {d | d < 64} := by
  have hsorted : pushChars.IsChain fun c c' => c < c' := by decide
  have hpairwise := List.pairwise_iff_getElem.mp (List.isChain_iff_pairwise.mp hsorted)
  have hget {d : ℕ} (hd : d < pushChars.length) : pushChar d = pushChars[d] := by
    have hmod : d % 64 = d := Nat.mod_eq_of_lt hd
    rw [pushChar, hmod, List.getD_eq_getElem?_getD, List.getElem?_eq_getElem hd]
    rfl
  intro d hd d' hd' hlt
  rw [hget hd, hget hd']
  exact hpairwise d d' hd hd' hlt

theorem strictMono_toNat : StrictMono Char.toNat := fun _ _ h => UInt32.lt_iff_toNat_lt.mp h

/-- **Keys are sorted like the numbers they spell**, as long as the time has eight digits. -/
theorem compareKey_id_lt_iff {state state' : PushIDState} (h : state.lastPushTime < 64 ^ 8)
    (h' : state'.lastPushTime < 64 ^ 8) :
    compareKey (.name state.id) (.name state'.id) = .lt ↔ state.number < state'.number := by
  have hunits (state : PushIDState) : (utf16 state.id).map UInt16.toNat =
      state.keyDigits.map (Char.toNat ∘ pushChar) := by
    have hsmall : ∀ c ∈ state.id.toList, c.toNat < 0xd800 := by
      rw [state.id_eq, String.toList_ofList]
      exact List.forall_mem_map.mpr fun d _ => pushChar_toNat_lt d
    rw [map_toNat_utf16 hsmall, state.id_eq, String.toList_ofList, List.map_map]
  have hrank (state : PushIDState) : keyRank (.name state.id) = toLex (2, toLex (0, toLex (0,
      state.keyDigits.map (Char.toNat ∘ pushChar)))) := by
    have hlength : (utf16 state.id).length = 20 := by
      have hlength := congrArg List.length (hunits state)
      rwa [List.length_map, List.length_map, state.length_keyDigits] at hlength
    have hparse : tryParseStringToInt (utf16 state.id) = none := by
      rw [tryParseStringToInt, if_pos (.inl (by omega))]
    rw [keyRank, nameRank, hparse, hunits]
  rw [isRank_compareKey.lt_iff, hrank, hrank]
  simp only [Prod.Lex.toLex_lt_toLex, lt_self_iff_false, true_and, false_or]
  rw [map_lt_map_iff (strictMono_toNat.comp_strictMonoOn strictMonoOn_pushChar)
      state.lt_of_mem_keyDigits state'.lt_of_mem_keyDigits,
    lt_iff_value_lt (state.length_keyDigits.trans state'.length_keyDigits.symm)
      state.lt_of_mem_keyDigits state'.lt_of_mem_keyDigits,
    state.value_keyDigits h, state'.value_keyDigits h']

/-! ### Every sequence of keys -/

namespace PushIDState

/-- The keys of a run spell the states it goes through, in ascending order. -/
theorem exists_states_of_generate {state state' : PushIDState}
    {ticks : List (ℕ × (Fin 12 → Fin 64))} {ids : List String}
    (h : state.generate ticks = some (ids, state'))
    (hclock : ticks.Pairwise fun a b => a.1 ≤ b.1) :
    ∃ states : List PushIDState, ids = states.map id ∧
      states.map lastPushTime = ticks.map Prod.fst ∧
      (states.Pairwise fun a b => a.number < b.number) ∧
      ((∀ tick ∈ ticks, state.lastPushTime ≤ tick.1) → ∀ s ∈ states, state.number < s.number) := by
  induction ticks generalizing state ids with
  | nil =>
    cases h
    exact ⟨[], rfl, rfl, .nil, by simp⟩
  | cons tick ticks ih =>
    obtain ⟨now, random⟩ := tick
    obtain ⟨hnow, hclock⟩ := List.pairwise_cons.mp hclock
    obtain ⟨⟨key, next⟩, hget, hrest⟩ := Option.bind_eq_some_iff.mp h
    obtain ⟨⟨keys, last⟩, hkeys, heq⟩ := Option.map_eq_some_iff.mp hrest
    cases heq
    obtain ⟨rfl, htime, hnumber⟩ := get_spec hget
    obtain ⟨states, rfl, htimes, hpairwise, hlater⟩ := ih hkeys hclock
    have hlater := hlater fun tick ht => htime.trans_le (hnow tick ht)
    refine ⟨next :: states, rfl, ?_, List.pairwise_cons.mpr ⟨hlater, hpairwise⟩, fun hle => ?_⟩
    · rw [List.map_cons, List.map_cons, htime, htimes]
    · obtain ⟨hle, -⟩ := List.forall_mem_cons.mp hle
      exact List.forall_mem_cons.mpr
        ⟨hnumber hle, fun s hs => (hnumber hle).trans (hlater s hs)⟩

theorem nodup_of_pairwise {ids : List String}
    (h : ids.Pairwise fun a b => compareKey (.name a) (.name b) = .lt) : ids.Nodup := by
  refine h.imp fun hab heq => ?_
  rw [isRank_compareKey.lt_iff, heq] at hab
  exact lt_irrefl _ hab

end PushIDState

/-! ### Posting under generated keys -/

/-- A key that `FNextPushId.get` has generated before the year 2248. -/
def IsGenerated (key : String) : Prop :=
  ∃ state : PushIDState, state.lastPushTime < 2 * 64 ^ 7 ∧ key = state.id

theorem IsGenerated.isPushID {key : String} (h : IsGenerated key) : IsPushID key := by
  obtain ⟨state, htime, rfl⟩ := h
  exact isPushID_nextPushID htime

namespace PushIDState

variable {state state' : PushIDState} {ticks : List (ℕ × (Fin 12 → Fin 64))} {ids : List String}

theorem isGenerated_of_mem (h : state.generate ticks = some (ids, state'))
    (hclock : ticks.Pairwise fun a b => a.1 ≤ b.1) (htime : ∀ tick ∈ ticks, tick.1 < 2 * 64 ^ 7) :
    ∀ key ∈ ids, IsGenerated key := by
  obtain ⟨states, rfl, htimes, -, -⟩ := exists_states_of_generate h hclock
  refine List.forall_mem_map.mpr fun s hs => ⟨s, ?_, rfl⟩
  obtain ⟨tick, htick, heq⟩ := List.mem_map.mp (htimes ▸ List.mem_map_of_mem hs)
  exact heq ▸ htime tick htick

theorem length_generate (h : state.generate ticks = some (ids, state'))
    (hclock : ticks.Pairwise fun a b => a.1 ≤ b.1) : ids.length = ticks.length := by
  obtain ⟨states, rfl, htimes, -, -⟩ := exists_states_of_generate h hclock
  rw [List.length_map, ← List.length_map lastPushTime, htimes, List.length_map]

end PushIDState

end TwitterLite
