/-
**Text as a list of characters.**

Every rule of this library reads and writes `Text`, the list of the Unicode scalar values of a
text, so that rules are recursions on lists.  Sizes in bytes of the UTF-8 encoding are a measure on
it, used where a place in a text is reported and where a word is compared with the start of a text.

Main definitions:

* `SchemaDelta.Text` — lists of characters;
* `SchemaDelta.Text.byteLength` — the size of the UTF-8 encoding;
* `SchemaDelta.Text.splitAtByte?` — a text cut after a number of bytes;
* `SchemaDelta.Text.isBlankChar`, `SchemaDelta.Text.trimStart`, `SchemaDelta.Text.trim` — white
  space of Unicode and its removal at the ends;
* `SchemaDelta.Text.doubled` — a text with one character written twice;
* `SchemaDelta.Text.firstLine` — what stands before the first line end.

Main results:

* `SchemaDelta.Text.byteLength_append` — sizes add up;
* `SchemaDelta.Text.append_of_splitAtByte?` — a cut loses nothing;
* `SchemaDelta.Text.splitAtByte?_byteLength` — a cut after a whole leading text gives it back.
-/

import SchemaDelta.Text.Span

set_option relaxedAutoImplicit false
set_option autoImplicit false

namespace SchemaDelta

/-- A text is the list of its characters. -/
abbrev Text := List Char

namespace Text

/-! ### Sizes in bytes -/

/-- The number of bytes of the UTF-8 encoding of a text. -/
def byteLength : Text → Nat
  | [] => 0
  | c :: t => c.utf8Size + byteLength t

@[simp] theorem byteLength_nil : byteLength [] = 0 := rfl

@[simp] theorem byteLength_cons (c : Char) (t : Text) :
    byteLength (c :: t) = c.utf8Size + byteLength t := rfl

@[simp] theorem byteLength_append (s t : Text) :
    byteLength (s ++ t) = byteLength s + byteLength t := by
  induction s with
  | nil => simp
  | cons c s ih => simp [ih, Nat.add_assoc]

/-- The first `n` bytes of a text and the others, where the cut falls between two characters. -/
def splitAtByte? : Nat → Text → Option (Text × Text)
  | 0, t => some ([], t)
  | _ + 1, [] => none
  | n + 1, c :: t =>
    if c.utf8Size ≤ n + 1 then
      (splitAtByte? (n + 1 - c.utf8Size) t).map fun parts => (c :: parts.1, parts.2)
    else none

@[simp] theorem splitAtByte?_zero (t : Text) : splitAtByte? 0 t = some ([], t) := by
  cases t <;> rfl

theorem append_of_splitAtByte? {n : Nat} {t a b : Text} (h : splitAtByte? n t = some (a, b)) :
    a ++ b = t := by
  induction t generalizing n a b with
  | nil => cases n <;> simp_all [splitAtByte?]
  | cons c t ih =>
    cases n with
    | zero => simp at h; simp [← h.1, ← h.2]
    | succ n =>
      simp only [splitAtByte?] at h
      split at h
      · obtain ⟨⟨a', b'⟩, hab, heq⟩ := Option.map_eq_some_iff.1 h
        simp only [Prod.mk.injEq] at heq
        simp [← heq.1, ← heq.2, ih hab]
      · cases h

theorem splitAtByte?_byteLength (s t : Text) : splitAtByte? (byteLength s) (s ++ t) = some (s, t) := by
  induction s with
  | nil => simp
  | cons c s ih =>
    have hpos : 0 < c.utf8Size := Char.utf8Size_pos c
    obtain ⟨n, hn⟩ : ∃ n, byteLength (c :: s) = n + 1 := ⟨byteLength (c :: s) - 1, by simp; omega⟩
    have hle : c.utf8Size ≤ n + 1 := by rw [← hn]; simp
    have hsub : n + 1 - c.utf8Size = byteLength s := by rw [← hn]; simp
    rw [hn]
    simp [splitAtByte?, hle, hsub, ih]

/-! ### White space at the ends -/

/-- The code points with the Unicode property `White_Space`. -/
def blankSpans : List Span :=
  [(0x9, 0xD), (0x20, 0x20), (0x85, 0x85), (0xA0, 0xA0), (0x1680, 0x1680), (0x2000, 0x200A),
   (0x2028, 0x2029), (0x202F, 0x202F), (0x205F, 0x205F), (0x3000, 0x3000)]

/-- White space in the sense of Unicode. -/
def isBlankChar (c : Char) : Bool :=
  inSpans blankSpans c.toNat

/-- A text without the white space in front. -/
def trimStart (t : Text) : Text :=
  t.dropWhile isBlankChar

/-- A text without the white space at its end. -/
def trimEnd (t : Text) : Text :=
  (t.reverse.dropWhile isBlankChar).reverse

/-- A text without the white space at both ends. -/
def trim (t : Text) : Text :=
  trimEnd (trimStart t)

/-- A text is blank when it is white space throughout. -/
def isBlank (t : Text) : Bool :=
  t.all isBlankChar

/-! ### Writing one character twice, and lines -/

/-- A text in which every occurrence of `c` is written twice. -/
def doubled (c : Char) (t : Text) : Text :=
  t.flatMap fun x => if x = c then [c, c] else [x]

@[simp] theorem doubled_nil (c : Char) : doubled c [] = [] := rfl

@[simp] theorem doubled_cons (c x : Char) (t : Text) :
    doubled c (x :: t) = (if x = c then [c, c] else [x]) ++ doubled c t := rfl

theorem doubled_append (c : Char) (s t : Text) :
    doubled c (s ++ t) = doubled c s ++ doubled c t := by
  simp [doubled, List.flatMap_append]

/-- A text that lacks `c` is its own doubling. -/
theorem doubled_of_not_mem {c : Char} {t : Text} (h : c ∉ t) : doubled c t = t := by
  induction t with
  | nil => rfl
  | cons x t ih =>
    simp only [List.mem_cons, not_or] at h
    simp [Ne.symm h.1, ih h.2]

/-- What stands before the first line end, which is a line feed with or without a carriage return
in front. -/
def firstLine : Text → Text
  | [] => []
  | '\n' :: _ => []
  | '\r' :: '\n' :: _ => []
  | c :: t => c :: firstLine t

/-- Texts written after each other with `sep` between neighbours. -/
def joinWith (sep : Text) (parts : List Text) : Text :=
  sep.intercalate parts

@[simp] theorem joinWith_nil (sep : Text) : joinWith sep [] = [] := rfl

@[simp] theorem joinWith_singleton (sep t : Text) : joinWith sep [t] = t := by
  simp [joinWith, List.intercalate]

theorem joinWith_cons_cons (sep s t : Text) (ts : List Text) :
    joinWith sep (s :: t :: ts) = s ++ sep ++ joinWith sep (t :: ts) := by
  simp [joinWith, List.intercalate]

end Text

end SchemaDelta
