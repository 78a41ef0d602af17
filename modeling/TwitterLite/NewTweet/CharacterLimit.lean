import TwitterLite.Library.TransitionSystem
import TwitterLite.NewTweet.ComposeScreen
import Mathlib.Tactic.Linarith

/-!
# The character limit of the compose screen

A caption may have `maxCharacter` characters and no line breaks. The text view is asked before each
edit, but it is told neither the range that is replaced nor the length of the result: an edit that
inserts something is accepted exactly if the text so far leaves room for two characters and the
inserted text is not a single newline.

So the text view decides rightly exactly if the edit inserts nothing or a single newline, or there
is room for two and the edit is permitted, or there is not and it is not permitted
(`ComposeScreen.decidesRightly_iff`).

## Main definitions

* `TwitterLite.ComposeScreen.Permitted`, `TwitterLite.ComposeScreen.DecidesRightly`.
* `TwitterLite.ComposeScreen.WithinLimit`, `TwitterLite.ComposeScreen.RoomForTwo`.

## Main results

* `TwitterLite.ComposeScreen.decidesRightly_iff`.
* `TwitterLite.ComposeScreen.enforcesLimit_iff`.

Source: `NewTweetViewController.swift`, lines 132–149; `TextViewWithPlaceholder.swift`, lines
117–125; `Utils.swift`, lines 11–17.
-/

namespace TwitterLite

open TransitionSystem

namespace ComposeScreen

/-! ### The property and its condition -/

/-- `Character.isNewline`. -/
def isNewline (c : Char) : Bool :=
  ['\n', '\x0b', '\x0c', '\r', '\u0085', '\u2028', '\u2029'].contains c

/-- The text has a line break. -/
def hasLineBreak (text : String) : Bool := text.toList.any isNewline

/-- The edit is one that the limit permits: it inserts no line break, and the result is not too
long. -/
def Permitted (text : String) (start length : ℕ) (replacement : String) : Prop :=
  hasLineBreak replacement = false ∧
    (replaceSubrange text start length replacement).length ≤ maxCharacter

/-- The text view accepts the edit exactly if it is permitted. -/
def DecidesRightly (s : ComposeScreen) (start length : ℕ) (replacement : String) : Prop :=
  s.placeholderTextViewShouldReplace replacement = true ↔
    Permitted s.text start length replacement

/-- The caption and the progress ring are within the limit. -/
structure WithinLimit (s : ComposeScreen) : Prop where
  caption_le : ∀ caption, s.viewModel.tweetModel.caption = some caption →
    caption.length ≤ maxCharacter
  progress_le : s.progress ≤ 1

/-- The condition: nothing or a single newline is inserted; or the text leaves room for two, no line
break is inserted and the result is not too long; or it does not leave room for two, and a line
break is inserted or the result is too long. -/
def RoomForTwo (text : String) (length : ℕ) (replacement : String) : Prop :=
  replacement = "" ∨ replacement = "\n" ∨
    (text.length + 2 ≤ maxCharacter ∧ hasLineBreak replacement = false ∧
      text.length - length + replacement.length ≤ maxCharacter) ∨
    (maxCharacter < text.length + 2 ∧ (hasLineBreak replacement = true ∨
      maxCharacter < text.length - length + replacement.length))

/-- Each edit of the text is decided rightly, and the limit is kept. -/
def EnforcesLimit (τ : Transition ComposeScreen Edit) : Prop :=
  (∀ start length replacement, τ.event = .replace start length replacement →
    DecidesRightly τ.source start length replacement) ∧ τ.target.WithinLimit

/-- The condition on a step of a run. -/
def EditsWithRoom (τ : Transition ComposeScreen Edit) : Prop :=
  ∀ start length replacement, τ.event = .replace start length replacement →
    RoomForTwo τ.source.text length replacement

/-- Characters are typed one by one. -/
def Keystrokes (τ : Transition ComposeScreen Edit) : Prop :=
  ∀ start length replacement, τ.event = .replace start length replacement →
    replacement.length ≤ 1

/-! ### One edit -/

variable {s s' : ComposeScreen} {start length : ℕ} {text replacement : String} {e : Edit}

theorem length_replaceSubrange (range : start + length ≤ text.length) :
    (replaceSubrange text start length replacement).length =
      text.length - length + replacement.length := by
  rw [← String.length_toList] at range
  rw [replaceSubrange, String.length_ofList, List.length_append, List.length_append,
    List.length_take, List.length_drop, ← String.length_toList, ← String.length_toList]
  omega

theorem shouldReplace_iff : s.placeholderTextViewShouldReplace replacement = true ↔
    replacement = "" ∨ replacement ≠ "\n" ∧ s.text.length + 2 ≤ maxCharacter := by
  have hempty : 0 < replacement.length ↔ replacement ≠ "" := by
    rw [Nat.pos_iff_ne_zero, ne_eq, ne_eq, String.length_eq_zero_iff]
  have hroom : maxCharacter - 2 < s.text.length ↔ ¬ s.text.length + 2 ≤ maxCharacter := by
    rw [maxCharacter]
    omega
  simp only [placeholderTextViewShouldReplace, hempty, hroom]
  split_ifs with h
  · simp only [false_iff]
    tauto
  · simp only [true_iff]
    tauto

/-- **An edit of a text within the limit is decided rightly exactly if the condition holds.** -/
theorem decidesRightly_iff (hlimit : s.text.length ≤ maxCharacter)
    (range : start + length ≤ s.text.length) :
    DecidesRightly s start length replacement ↔ RoomForTwo s.text length replacement := by
  rw [DecidesRightly, shouldReplace_iff, Permitted, length_replaceSubrange range, RoomForTwo]
  by_cases hempty : replacement = ""
  · subst hempty
    have hshort : s.text.length - length + "".length ≤ maxCharacter :=
      (Nat.sub_le _ _).trans hlimit
    exact iff_of_true (iff_of_true (.inl rfl) ⟨rfl, hshort⟩) (.inl rfl)
  by_cases hnewline : replacement = "\n"
  · subst hnewline
    have hbreak : hasLineBreak "\n" ≠ false := by decide
    simp [hempty, hbreak]
  · simp only [hempty, hnewline, false_or, ne_eq, not_false_eq_true, true_and]
    cases hasLineBreak replacement with
    | true => simp
    | false =>
      simp
      omega

/-! ### Sequences of edits -/

/-- The caption and the progress are those of the text. -/
structure ShowsText (s : ComposeScreen) : Prop where
  caption_eq : ∀ caption, s.viewModel.tweetModel.caption = some caption → caption = s.text
  progress_eq : s.progress = (s.text.length : ℚ) / (maxCharacter : ℚ)

theorem showsText_ofLoggedInUser (loggedInUser : Option UserModel) :
    ShowsText (ofLoggedInUser loggedInUser) :=
  ⟨nofun, (zero_div _).symm⟩

/-- **Every edit keeps the caption and the progress with the text**, and only an accepted edit of
the text changes it. -/
theorem showsText_of_edits (h : ShowsText s) (edits : Edits s e s') : ShowsText s' ∧
    (s'.text = s.text ∨ ∃ start length replacement, e = .replace start length replacement ∧
      start + length ≤ s.text.length ∧
      s.placeholderTextViewShouldReplace replacement = true ∧
      s'.text = replaceSubrange s.text start length replacement) := by
  cases edits with
  | @replace start length replacement range =>
    cases haccepted : s.placeholderTextViewShouldReplace replacement with
    | false =>
      rw [replace_of_rejected haccepted]
      exact ⟨h, .inl rfl⟩
    | true =>
      rw [replace_of_accepted haccepted]
      exact ⟨⟨fun caption hcaption => (Option.some.inj hcaption).symm, rfl⟩,
        .inr ⟨start, length, replacement, rfl, range, haccepted, rfl⟩⟩
  | confirm images => exact ⟨⟨h.caption_eq, h.progress_eq⟩, .inl rfl⟩
  | cancel => exact ⟨⟨h.caption_eq, h.progress_eq⟩, .inl rfl⟩
  | @delete index shown =>
    obtain ⟨htext, hprogress, photos, hdraft, -⟩ := deleteItem_frame s index
    refine ⟨⟨?_, ?_⟩, .inl htext⟩
    · rw [htext, hdraft]
      exact h.caption_eq
    · rw [htext, hprogress]
      exact h.progress_eq

/-- A text within the limit is shown within the limit. -/
theorem ShowsText.withinLimit (h : ShowsText s) (hlimit : s.text.length ≤ maxCharacter) :
    s.WithinLimit := by
  refine ⟨fun caption hcaption => h.caption_eq caption hcaption ▸ hlimit, ?_⟩
  rw [h.progress_eq]
  exact div_le_one_of_le₀ (Nat.cast_le.mpr hlimit) (Nat.cast_nonneg _)

/-- The edits under the condition keep the text within the limit. -/
theorem length_le_of_editsWithRoom (h : ShowsText s) (hlimit : s.text.length ≤ maxCharacter)
    (edits : Edits s e s') (hroom : EditsWithRoom ⟨s, e, s'⟩) : s'.text.length ≤ maxCharacter := by
  obtain ⟨-, htext | ⟨start, length, replacement, rfl, range, haccepted, htext⟩⟩ :=
    showsText_of_edits h edits
  · rwa [htext]
  · rw [htext]
    exact (((decidesRightly_iff hlimit range).mpr (hroom _ _ _ rfl)).mp haccepted).2

/-- An edit enforces the limit exactly if it satisfies the condition. -/
theorem enforcesLimit_step_iff (h : ShowsText s) (hlimit : s.text.length ≤ maxCharacter)
    (edits : Edits s e s') : EnforcesLimit ⟨s, e, s'⟩ ↔ EditsWithRoom ⟨s, e, s'⟩ := by
  have hdecides (start length : ℕ) (replacement : String)
      (hevent : e = .replace start length replacement) :
      DecidesRightly s start length replacement ↔ RoomForTwo s.text length replacement := by
    subst hevent
    cases edits with
    | replace _ range => exact decidesRightly_iff hlimit range
  constructor
  · rintro ⟨hrightly, -⟩ start length replacement hevent
    exact (hdecides _ _ _ hevent).mp (hrightly _ _ _ hevent)
  · intro hroom
    refine ⟨fun start length replacement hevent => ?_, ?_⟩
    · exact (hdecides _ _ _ hevent).mpr (hroom _ _ _ hevent)
    · exact (showsText_of_edits h edits).1.withinLimit
        (length_le_of_editsWithRoom h hlimit edits hroom)

/-- Characters typed one by one keep the text shorter than the limit. -/
theorem length_lt_of_keystrokes (h : ShowsText s) (hlimit : s.text.length < maxCharacter)
    (edits : Edits s e s') (hkeystrokes : Keystrokes ⟨s, e, s'⟩) :
    s'.text.length < maxCharacter := by
  obtain ⟨-, htext | ⟨start, length, replacement, rfl, range, haccepted, htext⟩⟩ :=
    showsText_of_edits h edits
  · rwa [htext]
  · have hlength := hkeystrokes _ _ _ rfl
    rw [htext, length_replaceSubrange range]
    rcases shouldReplace_iff.mp haccepted with rfl | ⟨-, hroom⟩
    · rw [String.length_empty]
      omega
    · omega

/-- **The compose screen enforces the character limit** for an edit of a text within the limit, and
in a run, exactly if the edits satisfy the condition; and characters typed one by one never make a
text of `maxCharacter` characters. -/
theorem enforcesLimit_iff (loggedInUser : Option UserModel)
    {ts : List (Transition ComposeScreen Edit)} (run : Run Edits (ofLoggedInUser loggedInUser) ts s) :
    (∀ (t : ComposeScreen) (start length : ℕ) (replacement : String),
        t.text.length ≤ maxCharacter → start + length ≤ t.text.length →
          (DecidesRightly t start length replacement ↔ RoomForTwo t.text length replacement)) ∧
      ((∀ τ ∈ ts, EnforcesLimit τ) ↔ ∀ τ ∈ ts, EditsWithRoom τ) ∧
      ((∀ τ ∈ ts, Keystrokes τ) → s.text.length < maxCharacter) := by
  have hinit := showsText_ofLoggedInUser loggedInUser
  refine ⟨fun t start length replacement hlimit range => decidesRightly_iff hlimit range, ?_, ?_⟩
  · have hstep : ∀ t e u, ShowsText t ∧ t.text.length ≤ maxCharacter → Edits t e u →
        EditsWithRoom ⟨t, e, u⟩ → ShowsText u ∧ u.text.length ≤ maxCharacter :=
      fun t e u ht edits hroom => ⟨(showsText_of_edits ht.1 edits).1,
        length_le_of_editsWithRoom ht.1 ht.2 edits hroom⟩
    exact run.forall_good_iff _ hstep
      (fun t e u ht edits => enforcesLimit_step_iff ht.1 ht.2 edits) ⟨hinit, Nat.zero_le _⟩
  · intro hkeystrokes
    have hstep : ∀ t e u, ShowsText t ∧ t.text.length < maxCharacter → Edits t e u →
        Keystrokes ⟨t, e, u⟩ → ShowsText u ∧ u.text.length < maxCharacter :=
      fun t e u ht edits hkeystroke => ⟨(showsText_of_edits ht.1 edits).1,
        length_lt_of_keystrokes ht.1 ht.2 edits hkeystroke⟩
    have hpos : 0 < maxCharacter := by decide
    exact (run.invariant_of_guard hstep ⟨hinit, hpos⟩ hkeystrokes).2

/-- A word is pasted into the empty text. -/
theorem enforcesLimit_iff_word :
    ∃ ts s, Run Edits (ofLoggedInUser none) ts s ∧ ts.length = 1 ∧ s.text = "word" ∧
      ∀ τ ∈ ts, EnforcesLimit τ := by
  have edits : Edits (ofLoggedInUser none) (.replace 0 0 "word") _ := .replace "word" (by decide)
  have run := (Run.nil (ofLoggedInUser none)).snoc edits
  refine ⟨_, _, run, rfl, by decide, (enforcesLimit_iff none run).2.1.mpr ?_⟩
  rw [List.nil_append, List.forall_mem_singleton]
  intro start length replacement hevent
  obtain ⟨rfl, rfl, rfl⟩ := Edit.replace.inj hevent
  exact .inr (.inr (.inl (by decide)))

/-- The last character of a text of `maxCharacter` cannot be typed. -/
theorem not_decidesRightly :
    ¬ ∀ (s : ComposeScreen) (start length : ℕ) (replacement : String),
      s.text.length ≤ maxCharacter → start + length ≤ s.text.length →
        DecidesRightly s start length replacement := by
  intro h
  let s : ComposeScreen :=
    { ofLoggedInUser none with text := String.ofList (List.replicate 279 'a') }
  have hlength : s.text.length = 279 := by
    rw [String.length_ofList, List.length_replicate]
  have hrange : 279 + 0 ≤ s.text.length := hlength.ge
  have hpermitted : Permitted s.text 279 0 "a" := by
    refine ⟨by decide, ?_⟩
    rw [length_replaceSubrange hrange, hlength]
    decide
  rcases shouldReplace_iff.mp ((h s 279 0 "a" (by rw [hlength]; decide) hrange).mpr hpermitted) with
    hempty | ⟨-, hroom⟩
  · exact absurd hempty (by decide)
  · rw [hlength] at hroom
    exact absurd hroom (by decide)

end ComposeScreen

end TwitterLite
