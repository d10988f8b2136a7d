import Mathlib
import AuditeDB.Schema
import AuditeDB.Library.Scanner

/-!
# What the exact-schema check compares

An existing database is accepted only when the statement it stores for a table or an index has the same normal form as
the expected one. The tokens of a statement are given by a scanner of SQL, with its literals, quoted names, comments
and operators of several characters. The normal form is what squeezing leaves of the statement, and none of the
expected statements has neighbouring tokens that could be mistaken for one.
-/

namespace AuditeDB

open Scanners

/-- The kinds of SQL tokens. -/
inductive SqlTokenKind where
  | word
  | number
  | text
  | blob
  | name
  | variable
  | operator
  | illegal
deriving DecidableEq

/-- An SQL token, as it is spelled. -/
structure SqlToken where
  kind : SqlTokenKind
  text : List Char
deriving DecidableEq

/-- The token of a semicolon. -/
def semicolon : SqlToken := ⟨.operator, [';']⟩

/-- What the scanner of SQL holds. -/
inductive SqlState where
  | start
  | word (held : List Char)
  | number (held : List Char)
  | operator (held : List Char)
  | quoted (quote : Char) (held : List Char)
  | closed (quote : Char) (held : List Char)
  | blob (held : List Char)
  | bracket (held : List Char)
  | variable (held : List Char)
  | lineComment
  | blockComment (star : Bool)
deriving DecidableEq

/-- The characters of keywords and names. -/
def isSqlNameChar (c : Char) : Bool := isSqlWordChar c || c == '$' || 128 ≤ c.toNat

/-- The operators of several characters, and their beginnings. -/
def sqlOperators : List (List Char) :=
  [['-', '>'], ['-', '>', '>'], ['=', '='], ['<', '='], ['<', '>'], ['<', '<'], ['>', '='], ['>', '>'], ['!', '='],
    ['|', '|']]

/-- The tokens in what the scanner holds when the text ends there. -/
def finishSql : SqlState → List SqlToken
  | .start => []
  | .word held => [⟨.word, held⟩]
  | .number held => [⟨.number, held⟩]
  | .operator held => [⟨if held = ['!'] then .illegal else .operator, held⟩]
  | .quoted _ held => [⟨.illegal, held⟩]
  | .closed quote held => [⟨if quote = '\'' then .text else .name, held⟩]
  | .blob held => [⟨.illegal, held⟩]
  | .bracket held => [⟨.illegal, held⟩]
  | .variable held => [⟨.variable, held⟩]
  | .lineComment => []
  | .blockComment _ => []

/-- The first character of a token. -/
def beginSql (c : Char) : List SqlToken × SqlState :=
  if isAsciiWhitespaceChar c then ([], .start)
  else if c ∈ ['\'', '"', Char.ofNat 96] then ([], .quoted c [c])
  else if c = '[' then ([], .bracket [c])
  else if c.isDigit then ([], .number [c])
  else if c ∈ ['?', '$', '@', ':', '#'] then ([], .variable [c])
  else if isSqlNameChar c then ([], .word [c])
  else if c ∈ ['(', ')', ';', ',', '+', '*', '%', '&', '~'] then ([⟨.operator, [c]⟩], .start)
  else if c ∈ ['-', '/', '=', '<', '>', '!', '|', '.'] then ([], .operator [c])
  else ([⟨.illegal, [c]⟩], .start)

/-- A character that ends what the scanner holds and begins anew. -/
def restartSql (q : SqlState) (c : Char) : List SqlToken × SqlState :=
  (finishSql q ++ (beginSql c).1, (beginSql c).2)

/-- The next character. A number goes on with letters, dots and the sign of an exponent, whether or not it is one. -/
def stepSql : SqlState → Char → List SqlToken × SqlState
  | .start, c => beginSql c
  | .word held, c =>
    if isSqlNameChar c then ([], .word (held ++ [c]))
    else if c = '\'' ∧ held ∈ [['x'], ['X']] then ([], .blob (held ++ [c]))
    else restartSql (.word held) c
  | .number held, c =>
    if isSqlNameChar c ∨ c = '.' ∨ c ∈ ['+', '-'] ∧ held.getLast? ∈ [some 'e', some 'E'] ∧ 'x' ∉ held ∧ 'X' ∉ held then
      ([], .number (held ++ [c]))
    else restartSql (.number held) c
  | .operator held, c =>
    if held ++ [c] = ['-', '-'] then ([], .lineComment)
    else if held ++ [c] = ['/', '*'] then ([], .blockComment false)
    else if held = ['.'] ∧ c.isDigit then ([], .number (held ++ [c]))
    else if held ++ [c] ∈ sqlOperators then ([], .operator (held ++ [c]))
    else restartSql (.operator held) c
  | .quoted quote held, c =>
    if c = quote then ([], .closed quote (held ++ [c])) else ([], .quoted quote (held ++ [c]))
  | .closed quote held, c =>
    if c = quote then ([], .quoted quote (held ++ [c])) else restartSql (.closed quote held) c
  | .blob held, c => if c = '\'' then ([⟨.blob, held ++ [c]⟩], .start) else ([], .blob (held ++ [c]))
  | .bracket held, c => if c = ']' then ([⟨.name, held ++ [c]⟩], .start) else ([], .bracket (held ++ [c]))
  | .variable held, c =>
    if isSqlNameChar c then ([], .variable (held ++ [c])) else restartSql (.variable held) c
  | .lineComment, c => ([], if c = '\n' then .start else .lineComment)
  | .blockComment star, c => ([], if star ∧ c = '/' then .start else .blockComment (c == '*'))

/-- The scanner of SQL. -/
def sqlScanner : Scanner Char SqlState SqlToken := ⟨.start, stepSql, finishSql⟩

/-- The tokens of a statement. -/
def sqlTokens (sql : String) : List SqlToken := sqlScanner.scan sql.toList

/-- The tokens of a statement without the semicolons at its end. -/
def statementTokens (sql : String) : List SqlToken :=
  (sqlTokens sql).rdropWhile (· = semicolon)

/-- The ASCII white space. -/
def asciiWhitespace : List Char := [' ', '\t', '\n', '\r', Char.ofNat 12]

/-- White space is not made of word characters. -/
theorem isSqlWordChar_blank : ∀ c ∈ asciiWhitespace, isSqlWordChar c = false := by
  intro c hc
  fin_cases hc <;> decide

/-- What the normal form knows of the characters. -/
def sqlSpacing : Spacing Char where
  blanks := asciiWhitespace
  space := ' '
  quote := '\''
  word := isSqlWordChar
  space_blank := by decide
  quote_not_blank := by decide
  quote_not_word := by decide
  blank_not_word := isSqlWordChar_blank

/-- The statements that the checks compare with, as the source spells them. -/
def expectedStatements : List String :=
  ["\n" ++ worldFormatTableSql ++ "\n", "\n" ++ casBodiesTableSql ++ "\n", "\n" ++ casStateTableSql ++ "\n",
    eventHeadersIndexShapeSql]

/-- ASCII white space was inserted or changed between the tokens of a statement. -/
def RespacedSql (sql sql' : String) : Prop :=
  sqlSpacing.Respaced ((sqlTokens sql).map SqlToken.text) sql.toList sql'.toList

/-- The normal form of a statement, as characters. -/
def trimmed (line : List Char) : List Char := (sqlSpacing.squeeze line).rdropWhile (· == ';')

/-- What makes the check of a statement exact: in its normal form no token depends on its neighbours, also when a
semicolon follows, and the statement is nothing but its tokens with white space between them. -/
structure Unambiguous (line : List Char) : Prop where
  plain : sqlSpacing.Plain sqlScanner sqlSpacing.squeezer.start sqlScanner.start (trimmed line)
  code : (sqlSpacing.reach sqlSpacing.squeezer.start (trimmed line)).inLiteral = false
  splits : sqlScanner.Splits (sqlScanner.reach sqlScanner.start (trimmed line)) ';'
  solid : ∀ token ∈ sqlScanner.scan line, token.text ≠ [] ∧ sqlSpacing.Verbatim (.code none false) token.text
  tight : sqlSpacing.squeeze line = sqlSpacing.tight none ((sqlScanner.scan line).map SqlToken.text)

instance (line : List Char) : Decidable (Unambiguous line) :=
  decidable_of_iff (_ ∧ _ ∧ _ ∧ _ ∧ _)
    ⟨fun h => ⟨h.1, h.2.1, h.2.2.1, h.2.2.2.1, h.2.2.2.2⟩, fun h => ⟨h.plain, h.code, h.splits, h.solid, h.tight⟩⟩

/-- The white space of the source and of squeezing. -/
theorem isAsciiWhitespaceChar_iff (c : Char) : isAsciiWhitespaceChar c = true ↔ c ∈ sqlSpacing.blanks := by
  simp [isAsciiWhitespaceChar, sqlSpacing, asciiWhitespace, or_assoc]

/-- The state of squeezing that belongs to a state of the loop. -/
def loopState (inString : Bool) (out : List Char) : SqueezeState Char :=
  if inString then .literal else .code out.head? false

/-- A character other than a quote stays inside a literal, or outside. -/
theorem after_of_ne {c : Char} (hc : c ≠ '\'') (inString : Bool) (out : List Char) :
    sqlSpacing.after inString c = loopState inString (c :: out) := by
  rw [Spacing.after, show (c == sqlSpacing.quote) = false from beq_false_of_ne hc]
  cases inString <;> rfl

/-- A character that squeezing writes. -/
theorem reverse_written {c : Char} {line rest out : List Char} (h : line = c :: rest) :
    rest.reverse ++ c :: out = line.reverse ++ out := by
  rw [h, List.reverse_cons, List.append_assoc, List.singleton_append]

/-- White space outside literals. -/
theorem squeezer_run_whitespace {c : Char} (hc : isAsciiWhitespaceChar c = true) (rest out : List Char) :
    sqlSpacing.squeezer.run (loopState false out) (c :: rest) =
      if out.head?.any isSqlWordChar && rest.head?.any isSqlWordChar
      then ' ' :: sqlSpacing.squeezer.run (loopState false (' ' :: out)) rest
      else sqlSpacing.squeezer.run (loopState false out) rest :=
  (Spacing.squeezer_run_blank ((isAsciiWhitespaceChar_iff c).mp hc)).trans Spacing.squeezer_run_pending

/-- The loop squeezes the statement: two quotes in a literal are the end of a literal and the start of another. -/
theorem normalizeSql_eq (inString : Bool) (line out : List Char) :
    normalizeSql inString line out = (sqlSpacing.squeezer.run (loopState inString out) line).reverse ++ out := by
  have hquote : '\'' ∉ sqlSpacing.blanks := sqlSpacing.quote_not_blank
  fun_induction normalizeSql inString line out with
  | case1 inString out => rfl
  | case2 rest out ih =>
    have hsecond : sqlSpacing.squeezer.run (.code (some '\'') false) ('\'' :: rest) =
        '\'' :: sqlSpacing.squeezer.run .literal rest := Spacing.squeezer_run_other hquote (by simp)
    rw [ih]
    exact (reverse_written hsecond).trans (reverse_written rfl)
  | case3 rest out _ ih =>
    rw [ih]
    exact reverse_written rfl
  | case4 c rest out _ hc ih =>
    rw [ih, ← after_of_ne hc true out]
    exact reverse_written Spacing.squeezer_run_literal
  | case5 rest out ih =>
    rw [ih]
    exact reverse_written (Spacing.squeezer_run_other hquote (by simp))
  | case6 c hc hblank before out next rest hwords ih =>
    rw [ih]
    exact reverse_written ((squeezer_run_whitespace hblank _ _).trans (if_pos hwords))
  | case7 c hc hblank before out next rest hwords ih =>
    rw [ih, squeezer_run_whitespace hblank, if_neg (by exact hwords)]
  | case8 c rest out hc hblank hends ih =>
    have hwords : ¬ (out.head?.any isSqlWordChar && rest.head?.any isSqlWordChar) = true := by
      cases out with
      | nil => simp
      | cons before out =>
        cases rest with
        | nil => simp
        | cons next rest => exact absurd rfl (hends before out next rest rfl)
    rw [ih, squeezer_run_whitespace hblank, if_neg hwords]
  | case9 c rest out hc hblank ih =>
    rw [ih, ← after_of_ne hc false out]
    exact reverse_written (Spacing.squeezer_run_other (fun h => hblank ((isAsciiWhitespaceChar_iff c).mpr h)) (by simp))

/-- The normal form of a statement. -/
theorem normalizedSchemaSql_eq (sql : String) : normalizedSchemaSql sql = String.ofList (trimmed sql.toList) := by
  rw [normalizedSchemaSql, normalizeSql_eq, List.append_nil]
  rfl

/-- Two statements have the same normal form. -/
theorem normalizedSchemaSql_inj {sql sql' : String} :
    normalizedSchemaSql sql = normalizedSchemaSql sql' ↔ trimmed sql.toList = trimmed sql'.toList := by
  rw [normalizedSchemaSql_eq, normalizedSchemaSql_eq]
  exact ⟨fun h => String.ofList_injective h, congrArg String.ofList⟩

/-- The scanner reads a semicolon as a token by itself. -/
theorem single_semicolon : Spacing.Single sqlSpacing sqlScanner ';' semicolon where
  start := rfl
  blank := by decide +kernel
  step := by decide +kernel
  notQuote := by decide
  notWord := by decide +kernel

/-- What trimming takes away. -/
theorem squeeze_eq_trimmed (line : List Char) :
    ∃ n, sqlSpacing.squeeze line = trimmed line ++ List.replicate n ';' := by
  refine ⟨((sqlSpacing.squeeze line).rtakeWhile (· == ';')).length, ?_⟩
  have hends : ∀ c ∈ (sqlSpacing.squeeze line).rtakeWhile (· == ';'), c = ';' := fun c hc =>
    eq_of_beq (List.mem_rtakeWhile_imp (p := fun c => c == ';') hc)
  exact (List.eq_replicate_of_mem hends) ▸ (List.rdropWhile_append_rtakeWhile (p := fun c => c == ';') ..).symm

/-- Semicolons at the end of a list of tokens are dropped. -/
theorem rdropWhile_semicolons (tokens : List SqlToken) (n : Nat) :
    (tokens ++ List.replicate n semicolon).rdropWhile (· = semicolon) = tokens.rdropWhile (· = semicolon) := by
  induction n with
  | zero => rw [List.replicate_zero, List.append_nil]
  | succ n ih =>
    rw [List.replicate_succ', ← List.append_assoc, List.rdropWhile_concat_pos _ _ _ (by exact decide_eq_true rfl), ih]

/-- A statement with an unambiguous normal form has its tokens, up to semicolons at the end. -/
theorem Unambiguous.tokens_eq {expected line : List Char} (hexpected : Unambiguous expected)
    (h : trimmed line = trimmed expected) :
    (sqlScanner.scan line).rdropWhile (· = semicolon) =
      (sqlScanner.scan (trimmed expected)).rdropWhile (· = semicolon) := by
  obtain ⟨n, hsqueeze⟩ := squeeze_eq_trimmed line
  rw [h] at hsqueeze
  rw [single_semicolon.scan_eq hexpected.plain hexpected.code hexpected.splits hsqueeze, rdropWhile_semicolons]

/-- A property of the characters of a literal. -/
theorem toList_literal (P : List Char → Prop) {line : List Char} (h : P line) : P (String.ofList line).toList := by
  rwa [String.toList_ofList]

set_option maxRecDepth 4000 in
/-- The expected statements are unambiguous. -/
theorem unambiguous_expectedStatements : ∀ sql ∈ expectedStatements, Unambiguous sql.toList := by
  have hlines : ∀ {sql : String}, Unambiguous ('\n' :: (sql.toList ++ ['\n'])) →
      Unambiguous ("\n" ++ sql ++ "\n").toList := by
    intro sql h
    rwa [String.toList_append, String.toList_append]
  have hworldFormat : Unambiguous ('\n' :: (worldFormatTableSql.toList ++ ['\n'])) :=
    toList_literal (fun line => Unambiguous ('\n' :: (line ++ ['\n']))) (by decide +kernel)
  have hcasBodies : Unambiguous ('\n' :: (casBodiesTableSql.toList ++ ['\n'])) :=
    toList_literal (fun line => Unambiguous ('\n' :: (line ++ ['\n']))) (by decide +kernel)
  have hcasState : Unambiguous ('\n' :: (casStateTableSql.toList ++ ['\n'])) :=
    toList_literal (fun line => Unambiguous ('\n' :: (line ++ ['\n']))) (by decide +kernel)
  have hindex : Unambiguous eventHeadersIndexShapeSql.toList := toList_literal Unambiguous (by decide +kernel)
  intro sql hsql
  simp only [expectedStatements, List.mem_cons, List.not_mem_nil, or_false] at hsql
  obtain rfl | rfl | rfl | rfl := hsql
  · exact hlines hworldFormat
  · exact hlines hcasBodies
  · exact hlines hcasState
  · exact hindex

/-- The check of a table or an index is exact: a stored statement with the normal form of an expected one has its tokens,
up to semicolons at the end, and white space inserted or changed between the tokens is accepted. -/
theorem normalizedSchemaSql_exact (expected : String) (hexpected : expected ∈ expectedStatements) (sql : String) :
    (normalizedSchemaSql sql = normalizedSchemaSql expected → statementTokens sql = statementTokens expected) ∧
      (RespacedSql expected sql → normalizedSchemaSql sql = normalizedSchemaSql expected) := by
  have hline := unambiguous_expectedStatements expected hexpected
  refine ⟨fun h => ?_, fun h => ?_⟩
  · exact (hline.tokens_eq (normalizedSchemaSql_inj.mp h)).trans (hline.tokens_eq rfl).symm
  · have hsqueeze := Spacing.Respaced.squeeze_eq h (fun token htoken => ?_) hline.tight
    · rw [normalizedSchemaSql_inj, trimmed, trimmed, hsqueeze]
    · obtain ⟨token', htoken', rfl⟩ := List.mem_map.mp htoken
      exact hline.solid token' htoken'

namespace Sample

/-- The pieces of the statement of the index, with white space that depends on where it stands. -/
def indexPieces (tab gap : List Char) : List (List Char × List Char) :=
  [([], "CREATE".toList), (tab, "INDEX".toList), ([' '], "idx_event_headers_event_id".toList),
    ([' '], "ON".toList), ([' '], "event_headers".toList), (gap, ['(']), (gap, "event_id".toList), ([], [')'])]

/-- The statement of the index with a tab, two more spaces and a line break. -/
def respacedIndex : String := String.ofList (Spacing.spell ['\n'] (indexPieces ['\t'] [' ']))

/-- White space was inserted and changed. -/
theorem respaced_index : RespacedSql eventHeadersIndexShapeSql respacedIndex := by
  have hindex : eventHeadersIndexShapeSql.toList = Spacing.spell [] (indexPieces [' '] []) := by decide +kernel
  have htokens : (indexPieces [' '] []).map Prod.snd = (sqlTokens eventHeadersIndexShapeSql).map SqlToken.text := by
    decide +kernel
  have hgaps : ∀ piece ∈ indexPieces [' '] [], ∀ c ∈ piece.1, c ∈ sqlSpacing.blanks := by
    simp [indexPieces, sqlSpacing, asciiWhitespace]
  have hgaps' : ∀ piece ∈ indexPieces ['\t'] [' '], ∀ c ∈ piece.1, c ∈ sqlSpacing.blanks := by
    simp [indexPieces, sqlSpacing, asciiWhitespace]
  refine ⟨indexPieces [' '] [], indexPieces ['\t'] [' '], ?_, ?_, htokens, ?_⟩
  · rw [hindex]
    exact Spacing.spells_spell _ (by simp) hgaps
  · rw [respacedIndex, String.toList_ofList]
    exact Spacing.spells_spell _ (by simp [sqlSpacing, asciiWhitespace]) hgaps'
  · simp [indexPieces]

end Sample

/-- The statement of the index with other white space. -/
theorem normalizedSchemaSql_exact_index :
    RespacedSql eventHeadersIndexShapeSql Sample.respacedIndex ∧
      normalizedSchemaSql Sample.respacedIndex = normalizedSchemaSql eventHeadersIndexShapeSql ∧
      statementTokens Sample.respacedIndex = statementTokens eventHeadersIndexShapeSql := by
  have hexact := normalizedSchemaSql_exact eventHeadersIndexShapeSql (by simp [expectedStatements]) Sample.respacedIndex
  exact ⟨Sample.respaced_index, hexact.2 Sample.respaced_index, hexact.1 (hexact.2 Sample.respaced_index)⟩

end AuditeDB
