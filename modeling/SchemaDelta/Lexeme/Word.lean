/-
**Words: keywords and bare identifiers.**

A word character is a letter or a number of any script, or an underscore.  A keyword is read without
regard to case and must not run on into another word character, so that `key` is not found at the
start of `keys`.

Two letters are taken for the same when their lower-case forms agree; the comparison goes over as
many characters as the keyword and the text both have, and the text must then hold at least the
bytes of the keyword, which are what is read.  On ASCII this is comparison without regard to case.

Main definitions:

* `SchemaDelta.isWordChar` — the characters of words;
* `SchemaDelta.Text.agreesWith` — comparison of a text with a word;
* `SchemaDelta.Lexeme.letters` — the letters of a word in either case;
* `SchemaDelta.Lexeme.keyword`, `SchemaDelta.Lexeme.keywords` — a keyword and a phrase of them;
* `SchemaDelta.Lexeme.bareIdentifier` — a run of word characters.
-/

import SchemaDelta.Lexeme.Gap
import SchemaDelta.Text.Alphabetic
import SchemaDelta.Text.Lowercase
import SchemaDelta.Text.Numeric

set_option relaxedAutoImplicit false
set_option autoImplicit false

namespace SchemaDelta

/-- A character that words consist of. -/
def isWordChar (c : Char) : Bool :=
  isAlphabetic c || isNumeric c || c == '_'

namespace Text

/-- Put a word in front of a list of words unless it is empty. -/
def consWord (w : Text) (ws : List Text) : List Text :=
  if w.isEmpty then ws else w :: ws

/-- The words of a text, which white space keeps apart. -/
def words (t : Text) : List Text :=
  let parts := t.foldr
    (fun c (parts : Text × List Text) =>
      if isBlankChar c then ([], consWord parts.1 parts.2) else (c :: parts.1, parts.2))
    ([], [])
  consWord parts.1 parts.2

/-- A text agrees with a word when their characters are the same letters, place by place, for as
long as both last. -/
def agreesWith : Text → Text → Bool
  | [], _ => true
  | _, [] => true
  | c :: t, d :: w => lowerChar c == lowerChar d && agreesWith t w

end Text

namespace Lexeme

open Rule

/-! ### Keywords -/

/-- Read the bytes of a word where the text agrees with it. -/
def letters (word : Text) : Rule Text := fun s =>
  if s.agreesWith word then
    match s.splitAtByte? word.byteLength with
    | some (front, rest) => .ok front rest
    | none => .mismatch ⟨s, []⟩
  else .mismatch ⟨s, []⟩

/-- A keyword that does not run on into another word character. -/
def wholeWord (word : Text) : Rule Text := do
  let w ← letters word
  absent (satisfy isWordChar)
  return w

/-- Keywords one after the other, with gaps between them. -/
def wholeWords : List Text → Rule Unit
  | [] => pure ()
  | [w] => discard (wholeWord w)
  | w :: v :: ws => do
    let _ ← wholeWord w
    gap1
    wholeWords (v :: ws)

/-- The keyword with the given spelling. -/
def keyword (word : String) : Rule Text :=
  wholeWord word.toList

/-- The phrase whose words are those of the given text. -/
def keywords (phrase : String) : Rule Text :=
  matched (wholeWords (Text.words phrase.toList))

/-! ### Bare identifiers -/

/-- A run of word characters. -/
def bareIdentifier : Rule Text :=
  span1 isWordChar

end Lexeme

end SchemaDelta
