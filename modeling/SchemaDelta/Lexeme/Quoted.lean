/-
**Quoted text.**

Names stand between backticks, single or double quotes, without a way to write the quote itself.
In strings a backslash takes away the meaning of the next character, and the quote is written
twice to stand for itself.  The body of a string keeps its escapes when it is read;
`SchemaDelta.Text.unescape` resolves them.

Main definitions:

* `SchemaDelta.Lexeme.quotedIdentifier`, `SchemaDelta.Lexeme.identifier` — names;
* `SchemaDelta.Text.splitAtQuote?` — where the body of a string ends;
* `SchemaDelta.Lexeme.quotedBody`, `SchemaDelta.Lexeme.quotedString` — strings;
* `SchemaDelta.Text.unquote` — a name without its quotes;
* `SchemaDelta.Text.unescape` — the text that the body of a string stands for;
* `SchemaDelta.Lexeme.verbatim` — the part of a statement that is kept as it is written;
* `SchemaDelta.Lexeme.statementEnd` — the semicolon.

Main results:

* `SchemaDelta.Text.append_of_splitAtQuote?` — the body, the quote and the rest are the text.
-/

import SchemaDelta.Lexeme.Word

set_option relaxedAutoImplicit false
set_option autoImplicit false

namespace SchemaDelta

/-! ### Quotes -/

/-- The quote that stands around strings and may stand around names. -/
abbrev singleQuote : Char := '\x27'

/-- The other quote that may stand around strings and names. -/
abbrev doubleQuote : Char := '\x22'

/-- The quote that stands around names only. -/
abbrev backtick : Char := '\x60'

namespace Text

/-- The body of a string and what follows its closing quote.  A backslash protects the next
character, and two quotes in a row are part of the body. -/
def splitAtQuote? (quote : Char) : Text → Option (Text × Text)
  | [] => none
  | [c] => if c = '\\' then none else if c = quote then some ([], []) else none
  | c :: d :: t =>
    if c = '\\' then (splitAtQuote? quote t).map fun p => (c :: d :: p.1, p.2)
    else if c = quote then
      if d = quote then (splitAtQuote? quote t).map fun p => (c :: d :: p.1, p.2)
      else some ([], d :: t)
    else (splitAtQuote? quote (d :: t)).map fun p => (c :: p.1, p.2)

theorem append_of_splitAtQuote? {quote : Char} {t body rest : Text}
    (h : splitAtQuote? quote t = some (body, rest)) : body ++ quote :: rest = t := by
  fun_induction splitAtQuote? quote t generalizing body rest with
  | case1 => cases h
  | case2 => cases h
  | case3 => cases h; rfl
  | case4 => cases h
  | case5 d t ih =>
    obtain ⟨p, hp, heq⟩ := Option.map_eq_some_iff.1 h
    cases heq
    simp [ih hp]
  | case6 t _ ih =>
    obtain ⟨p, hp, heq⟩ := Option.map_eq_some_iff.1 h
    cases heq
    simp [ih hp]
  | case7 => cases h; rfl
  | case8 c d t _ _ ih =>
    obtain ⟨p, hp, heq⟩ := Option.map_eq_some_iff.1 h
    cases heq
    simp [ih hp]

/-- The quotes that may stand around a name. -/
def isNameQuote (c : Char) : Bool :=
  c == backtick || c == singleQuote || c == doubleQuote

/-- A name without the white space around it and without one pair of equal quotes. -/
def unquote (t : Text) : Text :=
  match trim t with
  | [] => []
  | [c] => [c]
  | c :: d :: t =>
    let inner := d :: t
    if isNameQuote c && inner.getLast? == some c then inner.dropLast else c :: inner

/-- The character that a backslash and the given character stand for, with the backslash itself
where it is kept for the sake of patterns. -/
def escaped : Char → Text
  | 'n' => ['\n']
  | 't' => ['\t']
  | 'r' => ['\r']
  | '0' => [Char.ofNat 0]
  | 'b' => [Char.ofNat 8]
  | 'Z' => [Char.ofNat 26]
  | '%' => ['\\', '%']
  | '_' => ['\\', '_']
  | c => [c]

/-- The text that the body of a string stands for: escapes are resolved and a doubled quote is
taken once. -/
def unescape (quote : Char) : Text → Text
  | [] => []
  | [c] => [c]
  | c :: d :: t =>
    if c = '\\' then escaped d ++ unescape quote t
    else if c = quote ∧ d = quote then quote :: unescape quote t
    else c :: unescape quote (d :: t)

end Text

namespace Lexeme

open Rule

/-! ### Names -/

/-- A name between two of the given quotes, which it does not contain. -/
def namedBetween (quote : Char) : Rule Unit := do
  let _ ← char quote
  let _ ← span1 fun c => c != quote
  let _ ← char quote

/-- A quoted name, with its quotes. -/
def quotedIdentifier : Rule Text :=
  matched (firstOf [namedBetween backtick, namedBetween singleQuote, namedBetween doubleQuote])

/-- A name, quoted or bare. -/
def identifier : Rule Text :=
  quotedIdentifier <|> bareIdentifier

/-! ### Strings -/

/-- A string between two of the given quotes; its value is the body, escapes intact. -/
def quotedBody (quote : Char) : Rule Text
  | [] => .mismatch ⟨[], []⟩
  | c :: t =>
    if c = quote then
      match Text.splitAtQuote? quote t with
      | some (body, rest) => .ok body rest
      | none => .mismatch ⟨c :: t, []⟩
    else .mismatch ⟨c :: t, []⟩

/-- A string in single or double quotes: its quote and its body. -/
def quotedString : Rule (Char × Text) :=
  (Prod.mk singleQuote <$> quotedBody singleQuote) <|>
    (Prod.mk doubleQuote <$> quotedBody doubleQuote)

/-! ### The parts of a statement that are not looked into -/

/-- A character that neither ends a statement nor may open a quoted text or a comment. -/
def isPlain (c : Char) : Bool :=
  !(c == ';' || c == singleQuote || c == doubleQuote || c == backtick || c == '#' || c == '-' ||
    c == '/')

/-- The pieces of a statement that is kept as it is written: a comment, a quoted text, plain
characters, or a dash or slash that opens no comment. -/
def verbatimPieces : List (Rule Unit) :=
  [discard comment, discard (quotedBody singleQuote), discard (quotedBody doubleQuote),
    discard (quotedBody backtick), discard (span1 isPlain), discard (oneOf "-/")]

/-- Everything up to the semicolon that ends a statement, which is none inside a quoted text or a
comment. -/
def verbatim : Rule Text :=
  matched (many (firstOf verbatimPieces))

/-- The semicolon that ends a statement. -/
def statementEnd : Rule Unit := do
  gap0
  let _ ← char ';'

end Lexeme

end SchemaDelta
