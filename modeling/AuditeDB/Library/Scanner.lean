import Mathlib

/-!
# Scanners and the white space between tokens

A scanner reads a text once, character by character, and outputs tokens as it goes. Squeezing a text drops the white
space outside quotes, except for one space between two word characters; it is a scanner itself, whose tokens are
characters. A scanner finds the same tokens in a text and in the squeezed text when, in the squeezed text, no token
depends on what stands next to it: a condition that is checked along one run.
-/

namespace AuditeDB.Scanners

universe u v w

variable {α : Type u} {σ : Type v} {τ : Type w}

/-- A machine that reads characters and outputs tokens; what `finish` outputs is what it still holds. -/
structure Scanner (α : Type u) (σ : Type v) (τ : Type w) where
  start : σ
  step : σ → α → List τ × σ
  finish : σ → List τ

namespace Scanner

/-- The tokens of a text from a state on. -/
def run (m : Scanner α σ τ) : σ → List α → List τ
  | q, [] => m.finish q
  | q, c :: text => (m.step q c).1 ++ m.run (m.step q c).2 text

/-- The tokens of a text. -/
def scan (m : Scanner α σ τ) (text : List α) : List τ := m.run m.start text

/-- In the state, reading the character is like starting anew at it. -/
def Splits (m : Scanner α σ τ) (q : σ) (c : α) : Prop :=
  m.step q c = (m.finish q ++ (m.step m.start c).1, (m.step m.start c).2)

/-- In the state, each of the characters ends what the scanner holds and says nothing else. -/
def Breaks (m : Scanner α σ τ) (blanks : List α) (q : σ) : Prop :=
  ∀ c ∈ blanks, m.step q c = (m.finish q, m.start)

instance [DecidableEq σ] [DecidableEq τ] (m : Scanner α σ τ) (q : σ) (c : α) : Decidable (m.Splits q c) :=
  inferInstanceAs (Decidable (_ = _))

instance [DecidableEq σ] [DecidableEq τ] (m : Scanner α σ τ) (blanks : List α) (q : σ) :
    Decidable (m.Breaks blanks q) :=
  inferInstanceAs (Decidable (∀ c ∈ blanks, _))

/-- What the scanner outputs while it reads a text. -/
def output (m : Scanner α σ τ) : σ → List α → List τ
  | _, [] => []
  | q, c :: text => (m.step q c).1 ++ m.output (m.step q c).2 text

/-- The state a text leads to. -/
def reach (m : Scanner α σ τ) : σ → List α → σ
  | q, [] => q
  | q, c :: text => m.reach (m.step q c).2 text

/-- Reading two texts one after the other. -/
theorem run_append {m : Scanner α σ τ} (q : σ) (a b : List α) :
    m.run q (a ++ b) = m.output q a ++ m.run (m.reach q a) b := by
  induction a generalizing q with
  | nil => rfl
  | cons c a ih => rw [List.cons_append, run, ih, output, reach, List.append_assoc]

/-- The tokens are what is output and what is held at the end. -/
theorem run_eq {m : Scanner α σ τ} (q : σ) (text : List α) :
    m.run q text = m.output q text ++ m.finish (m.reach q text) := by
  have happend := run_append (m := m) q text []
  rwa [List.append_nil] at happend

/-- A character at which the scanner outputs one token by itself, read any number of times. -/
theorem run_replicate {m : Scanner α σ τ} {c : α} {token : τ} (hstart : m.finish m.start = [])
    (hc : m.step m.start c = ([token], m.start)) {q : σ} (hq : m.Splits q c) (n : Nat) :
    m.run q (List.replicate n c) = m.finish q ++ List.replicate n token := by
  induction n generalizing q with
  | zero => rw [List.replicate_zero, run, List.replicate_zero, List.append_nil]
  | succ n ih =>
    have hagain : m.Splits m.start c := by rw [Splits, hc, hstart, List.nil_append]
    rw [List.replicate_succ, run, hq, hc, ih hagain, hstart, List.nil_append, List.append_assoc,
      List.singleton_append, ← List.replicate_succ]

end Scanner

/-- What squeezing knows of the characters. -/
structure Spacing (α : Type u) where
  blanks : List α
  space : α
  quote : α
  word : α → Bool
  space_blank : space ∈ blanks
  quote_not_blank : quote ∉ blanks
  quote_not_word : word quote = false
  blank_not_word : ∀ c ∈ blanks, word c = false

/-- Where squeezing is: in a quoted text, or outside, with the character it wrote last and whether blanks follow it. -/
inductive SqueezeState (α : Type u) where
  | code (before : Option α) (pending : Bool)
  | literal

namespace SqueezeState

/-- Whether the state is in a quoted text. -/
def inLiteral : SqueezeState α → Bool
  | code _ _ => false
  | literal => true

/-- The character before, outside quoted texts. -/
def before : SqueezeState α → Option α
  | code before _ => before
  | literal => none

end SqueezeState

namespace Spacing

variable [DecidableEq α] (s : Spacing α)

/-- Behind a character that was written. -/
def after (inLiteral : Bool) (c : α) : SqueezeState α :=
  if (c == s.quote) = inLiteral then .code (some c) false else .literal

/-- Squeezing. -/
def squeezer : Scanner α (SqueezeState α) α where
  start := .code none false
  step
    | .literal, c => ([c], s.after true c)
    | .code before pending, c =>
      if c ∈ s.blanks then ([], .code before true)
      else (if pending && before.any s.word && s.word c then [s.space, c] else [c], s.after false c)
  finish _ := []

/-- A text without the white space that separates no words. -/
def squeeze (text : List α) : List α := s.squeezer.scan text

section

variable {s} {before : Option α} {pending : Bool} {c : α} {text : List α}

/-- Blanks outside quotes are left out. -/
theorem squeezer_run_blank (hc : c ∈ s.blanks) :
    s.squeezer.run (.code before pending) (c :: text) = s.squeezer.run (.code before true) text := by
  simp only [Scanner.run, squeezer, if_pos hc, List.nil_append]

/-- Between two words they become one space. -/
theorem squeezer_run_word (hc : c ∉ s.blanks) (hspace : (pending && before.any s.word && s.word c) = true) :
    s.squeezer.run (.code before pending) (c :: text) = s.space :: c :: s.squeezer.run (s.after false c) text := by
  simp only [Scanner.run, squeezer, if_neg hc, if_pos hspace, List.cons_append, List.nil_append]

/-- Every other character is written. -/
theorem squeezer_run_other (hc : c ∉ s.blanks) (hspace : ¬ (pending && before.any s.word && s.word c) = true) :
    s.squeezer.run (.code before pending) (c :: text) = c :: s.squeezer.run (s.after false c) text := by
  simp only [Scanner.run, squeezer, if_neg hc, if_neg hspace, List.cons_append, List.nil_append]

/-- The blanks behind a character are decided by the character that follows them. -/
theorem squeezer_run_pending :
    s.squeezer.run (.code before true) text =
      if before.any s.word && text.head?.any s.word then s.space :: s.squeezer.run (.code (some s.space) false) text
      else s.squeezer.run (.code before false) text := by
  cases text with
  | nil => simp [Scanner.run, squeezer]
  | cons c text =>
    rw [List.head?_cons, Option.any_some]
    by_cases hc : c ∈ s.blanks
    · rw [s.blank_not_word c hc, Bool.and_false, if_neg Bool.false_ne_true, squeezer_run_blank hc,
        squeezer_run_blank hc]
    · by_cases hwords : (before.any s.word && s.word c) = true
      · rw [if_pos hwords, squeezer_run_word hc ((Bool.true_and _).symm ▸ hwords), squeezer_run_other hc (by simp)]
      · rw [if_neg hwords, squeezer_run_other hc ((Bool.true_and _).symm ▸ hwords), squeezer_run_other hc (by simp)]

/-- A quoted text is written as it stands. -/
theorem squeezer_run_literal :
    s.squeezer.run .literal (c :: text) = c :: s.squeezer.run (s.after true c) text := rfl

/-- Squeezing stays outside quotes behind its own space. -/
theorem after_space : s.after false s.space = .code (some s.space) false := by
  have hne : (s.space == s.quote) = false :=
    beq_false_of_ne fun heq => s.quote_not_blank (heq ▸ s.space_blank)
  rw [after, hne, if_pos rfl]

end

section

variable (m : Scanner α σ τ)

/-- Along a squeezed text, whenever it is outside quotes: a blank would end what the scanner holds, and so does the
next character unless it continues a word. -/
def Plain : SqueezeState α → σ → List α → Prop
  | state, q, [] => state.inLiteral = true ∨ m.Breaks s.blanks q
  | state, q, c :: text =>
    (state.inLiteral = true ∨
      m.Breaks s.blanks q ∧ ((state.before.any s.word && s.word c) = true ∨ m.Splits q c)) ∧
    Plain (s.after state.inLiteral c) (m.step q c).2 text

instance decidablePlain [DecidableEq σ] [DecidableEq τ] :
    ∀ (state : SqueezeState α) (q : σ) (text : List α), Decidable (s.Plain m state q text)
  | _, _, [] => inferInstanceAs (Decidable (_ ∨ _))
  | state, q, c :: text =>
    have := decidablePlain (s.after state.inLiteral c) (m.step q c).2 text
    inferInstanceAs (Decidable (_ ∧ _))

/-- What the scanner finds in the rest of a text whose squeezed beginning has brought it to a state. -/
def rest : SqueezeState α → σ → List α → List τ
  | .code _ true, q, text => m.finish q ++ m.run m.start text
  | .code _ false, q, text => m.run q text
  | .literal, q, text => m.run q text

variable {s m} {before : Option α} {pending : Bool} {q : σ} {c : α} {text : List α}

/-- Behind a character that was written nothing is pending. -/
theorem rest_after (inLiteral : Bool) : rest m (s.after inLiteral c) q text = m.run q text := by
  unfold after
  split <;> rfl

/-- Outside quotes a blank ends what the scanner holds. -/
theorem Plain.breaks (h : s.Plain m (.code before pending) q text) : m.Breaks s.blanks q := by
  cases text with
  | nil => exact h.resolve_left Bool.false_ne_true
  | cons c text => exact (h.1.resolve_left Bool.false_ne_true).1

/-- So does a character that continues no word. -/
theorem Plain.splits (h : s.Plain m (.code before pending) q (c :: text))
    (hc : ¬ (before.any s.word && s.word c) = true) : m.Splits q c :=
  (h.1.resolve_left Bool.false_ne_true).2.resolve_left hc

/-- Behind a character outside quotes. -/
theorem Plain.next (h : s.Plain m (.code before pending) q (c :: text)) :
    s.Plain m (s.after false c) (m.step q c).2 text := h.2

/-- Behind a quoted character. -/
theorem Plain.next_literal (h : s.Plain m .literal q (c :: text)) : s.Plain m (s.after true c) (m.step q c).2 text :=
  h.2

/-- Whether blanks are pending does not matter to a squeezed text. -/
theorem Plain.of_pending {pending' : Bool} (h : s.Plain m (.code before pending) q text) :
    s.Plain m (.code before pending') q text := by
  cases text <;> exact h

/-- The scanner finds the same tokens in the rest of a text and in what squeezing makes of it. -/
theorem run_squeezer (hstart : m.finish m.start = []) (hblank : m.Breaks s.blanks m.start) {state : SqueezeState α}
    (h : s.Plain m state q (s.squeezer.run state text)) :
    m.run q (s.squeezer.run state text) = rest m state q text := by
  induction text generalizing state q with
  | nil =>
    rcases state with ⟨before, _ | _⟩ | _
    · rfl
    · show m.finish q = m.finish q ++ m.finish m.start
      rw [hstart, List.append_nil]
    · rfl
  | cons c text ih =>
    rcases state with ⟨before, pending⟩ | _
    · by_cases hc : c ∈ s.blanks
      · -- The blank is left out, and ends what the scanner holds.
        rw [squeezer_run_blank hc] at h ⊢
        rw [ih h.of_pending]
        cases pending with
        | false => rw [rest, rest, Scanner.run, h.breaks c hc]
        | true => rw [rest, rest, Scanner.run, hblank c hc, hstart, List.nil_append]
      · by_cases hspace : (pending && before.any s.word && s.word c) = true
        · -- The pending blanks become one space, which ends the word before it.
          rw [squeezer_run_word hc hspace] at h ⊢
          have hbreak := h.breaks s.space s.space_blank
          have hnext := h.next
          rw [after_space, hbreak] at hnext
          rw [Scanner.run, hbreak, Scanner.run, ih hnext.next, rest_after]
          obtain ⟨⟨rfl, -⟩, -⟩ : (pending = true ∧ _) ∧ _ := by simpa only [Bool.and_eq_true] using hspace
          rfl
        · -- Nothing is written for the pending blanks, but the character alone ends what the scanner holds.
          rw [squeezer_run_other hc hspace] at h ⊢
          rw [Scanner.run, ih h.next, rest_after]
          cases pending with
          | false => rfl
          | true => rw [h.splits hspace, rest, Scanner.run, List.append_assoc]
    · rw [squeezer_run_literal] at h ⊢
      rw [Scanner.run, ih h.next_literal, rest_after]
      rfl

/-- Where squeezing is behind a squeezed text. -/
def reach (s : Spacing α) : SqueezeState α → List α → SqueezeState α
  | state, [] => state
  | state, c :: text => s.reach (s.after state.inLiteral c) text

/-- Two plain texts one after the other. -/
theorem Plain.append {state : SqueezeState α} {a b : List α} (ha : s.Plain m state q a)
    (hb : s.Plain m (s.reach state a) (m.reach q a) b) : s.Plain m state q (a ++ b) := by
  induction a generalizing state q with
  | nil => exact hb
  | cons c a ih => exact ⟨ha.1, ih ha.2 hb⟩

/-- A blank behind a plain text that ends outside quotes ends what the scanner holds. -/
theorem Plain.breaks_reach {state : SqueezeState α} {a : List α} (ha : s.Plain m state q a)
    (hcode : (s.reach state a).inLiteral = false) : m.Breaks s.blanks (m.reach q a) := by
  induction a generalizing state q with
  | nil => exact ha.resolve_left (ne_true_of_eq_false hcode)
  | cons c a ih => exact ih ha.2 hcode

/-- How a scanner treats a character that is a token by itself, such as a semicolon. -/
structure Single (s : Spacing α) (m : Scanner α σ τ) (c : α) (token : τ) : Prop where
  start : m.finish m.start = []
  blank : m.Breaks s.blanks m.start
  step : m.step m.start c = ([token], m.start)
  notQuote : c ≠ s.quote
  notWord : s.word c = false

variable {token : τ}

omit [DecidableEq α] in
/-- The scanner starts anew at the character at the start. -/
theorem Single.splits (hc : Single s m c token) : m.Splits m.start c := by
  rw [Scanner.Splits, hc.step, hc.start, List.nil_append]

/-- Behind the character squeezing is outside quotes. -/
theorem Single.after (hc : Single s m c token) : s.after false c = .code (some c) false := by
  rw [Spacing.after, beq_false_of_ne hc.notQuote, if_pos rfl]

/-- The character repeated is plain. -/
theorem Single.plain_replicate (hc : Single s m c token) (hbreak : m.Breaks s.blanks q) (hq : m.Splits q c) (n : Nat) :
    s.Plain m (.code before pending) q (List.replicate n c) := by
  induction n generalizing before pending q with
  | zero => exact .inr hbreak
  | succ n ih =>
    refine ⟨.inr ⟨hbreak, .inr hq⟩, ?_⟩
    rw [hq, hc.step]
    show s.Plain m (s.after false c) m.start (List.replicate n c)
    rw [hc.after]
    exact ih hc.blank hc.splits

/-- A text whose squeezed form is a plain text and some trailing characters has the tokens of the plain text and a
token for each of the trailing characters. -/
theorem Single.scan_eq (hc : Single s m c token) {plain : List α} (hplain : s.Plain m s.squeezer.start m.start plain)
    (hcode : (s.reach s.squeezer.start plain).inLiteral = false) (hsplit : m.Splits (m.reach m.start plain) c) {n : Nat}
    (h : s.squeeze text = plain ++ List.replicate n c) : m.scan text = m.scan plain ++ List.replicate n token := by
  have hbreak := hplain.breaks_reach hcode
  have hends : s.Plain m (s.reach s.squeezer.start plain) (m.reach m.start plain) (List.replicate n c) := by
    cases hstate : s.reach s.squeezer.start plain with
    | code before pending => exact hc.plain_replicate hbreak hsplit n
    | literal => rw [hstate] at hcode; cases hcode
  have hwhole : s.Plain m s.squeezer.start m.start (s.squeeze text) := by
    rw [h]
    exact hplain.append hends
  calc m.scan text
      = m.scan (s.squeeze text) := (run_squeezer hc.start hc.blank hwhole).symm
    _ = m.output m.start plain ++ m.run (m.reach m.start plain) (List.replicate n c) := by
        rw [h, Scanner.scan, Scanner.run_append]
    _ = m.output m.start plain ++ (m.finish (m.reach m.start plain) ++ List.replicate n token) := by
        rw [Scanner.run_replicate hc.start hc.step hsplit]
    _ = m.scan plain ++ List.replicate n token := by
        rw [Scanner.scan, Scanner.run_eq, List.append_assoc]

end

section

/-! ### Changing the blanks between tokens -/

/-- A line consists of pieces, each a token with the blanks before it, and of blanks at the end. -/
inductive Spells : List (List α × List α) → List α → Prop
  | last {gap : List α} (hgap : ∀ c ∈ gap, c ∈ s.blanks) : Spells [] gap
  | piece {gap token line : List α} {pieces : List (List α × List α)} (hgap : ∀ c ∈ gap, c ∈ s.blanks)
      (hline : Spells pieces line) : Spells ((gap, token) :: pieces) (gap ++ (token ++ line))

/-- The line of pieces. -/
def spell (last : List α) (pieces : List (List α × List α)) : List α :=
  pieces.foldr (fun piece line => piece.1 ++ (piece.2 ++ line)) last

omit [DecidableEq α] in
/-- The line of pieces is spelled by them. -/
theorem spells_spell {last : List α} (hlast : ∀ c ∈ last, c ∈ s.blanks) {pieces : List (List α × List α)}
    (hgaps : ∀ piece ∈ pieces, ∀ c ∈ piece.1, c ∈ s.blanks) : s.Spells pieces (spell last pieces) := by
  induction pieces with
  | nil => exact .last hlast
  | cons piece pieces ih =>
    exact .piece (hgaps piece (List.mem_cons_self ..)) (ih fun p hp => hgaps p (List.mem_cons_of_mem _ hp))

/-- Blanks were inserted or changed between the tokens of a line: the tokens stay, and wherever there were blanks there
still are some. -/
def Respaced (tokens : List (List α)) (line line' : List α) : Prop :=
  ∃ pieces pieces', s.Spells pieces line ∧ s.Spells pieces' line' ∧ pieces.map Prod.snd = tokens ∧
    List.Forall₂ (fun piece piece' => piece'.2 = piece.2 ∧ (piece.1 ≠ [] → piece'.1 ≠ [])) pieces pieces'

/-- Squeezing writes the text as it stands and ends outside quotes. -/
def Verbatim : SqueezeState α → List α → Prop
  | state, [] => state.inLiteral = false
  | state, c :: text => (state.inLiteral = true ∨ c ∉ s.blanks) ∧ Verbatim (s.after state.inLiteral c) text

instance decidableVerbatim : ∀ (state : SqueezeState α) (text : List α), Decidable (s.Verbatim state text)
  | state, [] => inferInstanceAs (Decidable (state.inLiteral = false))
  | state, c :: text =>
    have := decidableVerbatim (s.after state.inLiteral c) text
    inferInstanceAs (Decidable (_ ∧ _))

/-- Tokens with a space between two words. -/
def tight : Option α → List (List α) → List α
  | _, [] => []
  | before, token :: tokens =>
    (if before.any s.word && token.head?.any s.word then [s.space] else []) ++ (token ++ tight token.getLast? tokens)

/-- Pieces with a space between two words that blanks separate. -/
def joined : Option α → Bool → List (List α × List α) → List α
  | _, _, [] => []
  | before, pending, piece :: pieces =>
    (if (pending || !piece.1.isEmpty) && before.any s.word && piece.2.head?.any s.word then [s.space] else []) ++
      (piece.2 ++ joined piece.2.getLast? false pieces)

variable {s} {before : Option α} {pending : Bool} {c : α} {text line : List α}

/-- Squeezing remembers of blanks only that there were some. -/
theorem squeezer_run_blanks {gap : List α} (hgap : ∀ c ∈ gap, c ∈ s.blanks) :
    s.squeezer.run (.code before pending) (gap ++ line) =
      s.squeezer.run (.code before (pending || !gap.isEmpty)) line := by
  induction gap generalizing pending with
  | nil => simp
  | cons c gap ih =>
    rw [List.cons_append, squeezer_run_blank (hgap c (List.mem_cons_self ..)),
      ih fun d hd => hgap d (List.mem_cons_of_mem _ hd)]
    simp

/-- Squeezing goes on with a text that it writes as it stands. -/
theorem squeezer_run_verbatim {inLiteral : Bool} (h : s.Verbatim (s.after inLiteral c) text) :
    s.squeezer.run (s.after inLiteral c) (text ++ line) =
      text ++ s.squeezer.run (.code (c :: text).getLast? false) line := by
  induction text generalizing c inLiteral with
  | nil =>
    have hcode : s.after inLiteral c = .code (some c) false := by
      unfold Verbatim after at h
      unfold after
      split
      · rfl
      · next hne => rw [if_neg hne] at h; cases h
    rw [hcode]
    rfl
  | cons d text ih =>
    obtain ⟨hd, hrest⟩ := h
    rw [List.getLast?_cons_cons, List.cons_append, List.cons_append, ← ih hrest]
    cases hstate : s.after inLiteral c with
    | literal => rfl
    | code before pending =>
      rw [hstate] at hd
      obtain rfl : pending = false := by
        unfold after at hstate
        split at hstate <;> cases hstate
        rfl
      exact squeezer_run_other (hd.resolve_left Bool.false_ne_true) (by simp)

/-- What squeezing makes of pieces. -/
theorem squeezer_run_spells {pieces : List (List α × List α)} (h : s.Spells pieces line)
    (hsolid : ∀ piece ∈ pieces, piece.2 ≠ [] ∧ s.Verbatim (.code none false) piece.2) :
    s.squeezer.run (.code before pending) line = s.joined before pending pieces := by
  induction h generalizing before pending with
  | @last gap hgap =>
    rw [← List.append_nil gap, squeezer_run_blanks hgap]
    rfl
  | @piece gap token line pieces hgap hline ih =>
    have hrest := fun before pending => @ih before pending fun piece hpiece =>
      hsolid piece (List.mem_cons_of_mem _ hpiece)
    obtain ⟨hne, hverbatim⟩ := hsolid _ (List.mem_cons_self ..)
    cases token with
    | nil => exact absurd rfl hne
    | cons c token =>
      obtain ⟨hc, htoken⟩ := hverbatim
      have hblank := hc.resolve_left Bool.false_ne_true
      have hwrite : s.squeezer.run (s.after false c) (token ++ line) =
          token ++ s.joined (c :: token).getLast? false pieces := by
        rw [← hrest]
        exact squeezer_run_verbatim htoken
      rw [squeezer_run_blanks hgap, joined, List.cons_append, List.head?_cons, Option.any_some]
      by_cases hspace : ((pending || !gap.isEmpty) && before.any s.word && s.word c) = true
      · rw [squeezer_run_word hblank hspace, hwrite, if_pos hspace]
        rfl
      · rw [squeezer_run_other hblank hspace, hwrite, if_neg hspace]
        rfl

omit [DecidableEq α] in
/-- Tokens are joined by no more spaces than there are pairs of words. -/
theorem length_joined_le (before : Option α) (pieces : List (List α × List α)) :
    (s.joined before false pieces).length ≤ (s.tight before (pieces.map Prod.snd)).length := by
  induction pieces generalizing before with
  | nil => exact le_rfl
  | cons piece pieces ih =>
    have hrest := ih piece.2.getLast?
    rw [joined, List.map_cons, tight]
    simp only [List.length_append, Bool.false_or]
    split_ifs with hgap hwords
    · omega
    · simp_all
    · simp only [List.length_nil, List.length_singleton]; omega
    · omega

omit [DecidableEq α] in
/-- Where every pair of words is apart, it still is when the blanks have changed. -/
theorem joined_eq_tight {pieces pieces' : List (List α × List α)}
    (h : s.joined before false pieces = s.tight before (pieces.map Prod.snd))
    (hsame : List.Forall₂ (fun piece piece' => piece'.2 = piece.2 ∧ (piece.1 ≠ [] → piece'.1 ≠ [])) pieces pieces') :
    s.joined before false pieces' = s.tight before (pieces.map Prod.snd) := by
  induction hsame generalizing before with
  | nil => rfl
  | @cons piece piece' pieces pieces' hpiece _ ih =>
    obtain ⟨htoken, hgap⟩ := hpiece
    have hle := length_joined_le (s := s) piece.2.getLast? pieces
    rw [joined, List.map_cons, tight] at h
    rw [joined, List.map_cons, tight, htoken]
    by_cases hwords : (before.any s.word && piece.2.head?.any s.word) = true
    · have hblank : piece.1 ≠ [] := by
        -- A missing space would make the line too short.
        intro hempty
        have hlen := congrArg List.length h
        simp only [hempty, hwords, List.isEmpty_nil, Bool.not_true, Bool.or_self, Bool.false_and,
          Bool.false_eq_true, if_false, if_true, List.length_append, List.length_nil, List.length_singleton] at hlen
        omega
      have hspace : ∀ {gap : List α}, gap ≠ [] →
          ((false || !gap.isEmpty) && before.any s.word && piece.2.head?.any s.word) = true := by
        intro gap hne
        rw [Bool.and_assoc, hwords, List.isEmpty_eq_false_iff.mpr hne]
        rfl
      rw [if_pos (hspace hblank), if_pos hwords] at h
      rw [if_pos (hspace (hgap hblank)), if_pos hwords]
      rw [ih (List.append_cancel_left (List.append_cancel_left h))]
    · have hspace : ∀ {gap : List α},
          ¬ ((false || !gap.isEmpty) && before.any s.word && piece.2.head?.any s.word) = true := by
        intro gap hspace
        rw [Bool.and_assoc, Bool.and_eq_true] at hspace
        exact hwords hspace.2
      rw [if_neg hspace, if_neg hwords] at h
      rw [if_neg hspace, if_neg hwords]
      rw [ih (List.append_cancel_left (List.append_cancel_left h))]

omit [DecidableEq α] in
/-- The pieces have the same tokens. -/
theorem map_snd_of_same {pieces pieces' : List (List α × List α)}
    (hsame : List.Forall₂ (fun piece piece' => piece'.2 = piece.2 ∧ (piece.1 ≠ [] → piece'.1 ≠ [])) pieces pieces') :
    pieces'.map Prod.snd = pieces.map Prod.snd := by
  induction hsame with
  | nil => rfl
  | cons hpiece _ ih => rw [List.map_cons, List.map_cons, hpiece.1, ih]

/-- Blanks inserted or changed between tokens do not change the squeezed line. -/
theorem Respaced.squeeze_eq {tokens : List (List α)} {line' : List α} (h : s.Respaced tokens line line')
    (hsolid : ∀ token ∈ tokens, token ≠ [] ∧ s.Verbatim (.code none false) token)
    (htight : s.squeeze line = s.tight none tokens) : s.squeeze line' = s.squeeze line := by
  obtain ⟨pieces, pieces', hline, hline', rfl, hsame⟩ := h
  have hpieces : ∀ piece ∈ pieces, piece.2 ≠ [] ∧ s.Verbatim (.code none false) piece.2 := fun piece hpiece =>
    hsolid piece.2 (List.mem_map_of_mem hpiece)
  have hpieces' : ∀ piece ∈ pieces', piece.2 ≠ [] ∧ s.Verbatim (.code none false) piece.2 := fun piece hpiece =>
    hsolid piece.2 (map_snd_of_same hsame ▸ List.mem_map_of_mem hpiece)
  have hjoined : s.joined none false pieces = s.tight none (pieces.map Prod.snd) :=
    (squeezer_run_spells hline hpieces).symm.trans htight
  calc s.squeeze line'
      = s.joined none false pieces' := squeezer_run_spells hline' hpieces'
    _ = s.tight none (pieces.map Prod.snd) := joined_eq_tight hjoined hsame
    _ = s.squeeze line := htight.symm

end

end Spacing

end AuditeDB.Scanners
