/-
**The grammar of indices and foreign keys.**

An index definition is introduced by `PRIMARY KEY`, `UNIQUE`, `FULLTEXT`, `SPATIAL`, `KEY` or
`INDEX`.  All but the primary key may have a name; a storage method may stand before and after the
columns.  Foreign keys are recognised and kept as they are written.

Main definitions:

* `SchemaDelta.Source.indexDefinition` — an index definition;
* `SchemaDelta.Source.foreignKeyDefinition` — a foreign key;
* `SchemaDelta.Source.referenceDefinition` — what follows the columns of a foreign key.
-/

import SchemaDelta.Lexeme.Quoted
import SchemaDelta.Source.Tree

set_option relaxedAutoImplicit false
set_option autoImplicit false

namespace SchemaDelta.Source

open Rule Lexeme

/-! ### Parts of an index -/

/-- Either word for an index. -/
def indexWord : Rule Text :=
  keyword "key" <|> keyword "index"

/-- The word for an index after a word that may stand without it. -/
def indexWord? : Rule (Option Text) :=
  optional (gap1 *> indexWord)

/-- The symbol of a constraint, which is none of the words that may follow the symbol. -/
def constraintSymbol : Rule Text := do
  absent (firstOf [keyword "primary", keyword "unique", keyword "foreign"])
  identifier

/-- The word `CONSTRAINT` with its symbol, if there is one, up to the next word. -/
def constraintStart : Rule Unit := do
  let _ ← keyword "constraint"
  let _ ← optional (gap1 *> constraintSymbol)
  gap1

/-- The name of an index, which is not the word that announces a storage method. -/
def indexName : Rule Text := do
  absent (keyword "using")
  identifier

/-- A storage method, with or without the word that announces it. -/
def indexType : Rule IndexMethod := do
  let _ ← optional (keyword "using" *> gap1)
  firstOf
    [(fun _ => .btree) <$> keyword "btree",
      (fun _ => .hash) <$> keyword "hash",
      (fun _ => .rtree) <$> keyword "rtree"]

/-- A run of ASCII digits. -/
def digits1 : Rule Text :=
  span1 Char.isDigit

/-- An indexed column; a length and a direction may follow it and are not kept. -/
def indexColumn : Rule Text := do
  let name ← identifier
  let _ ← optional (gap0 *> parenthesized digits1)
  let _ ← optional (gap1 *> (keyword "asc" <|> keyword "desc"))
  return name

/-- The columns of an index in parentheses. -/
def indexColumns : Rule (List Text) :=
  parenthesized (commaList indexColumn)

/-! ### Indices -/

/-- What follows the words that introduce an index. -/
def indexBody (kind : IndexKind) (named : Bool) : Rule Index := do
  let name ← if named then optional (gap1 *> indexName) else pure none
  let before ← optional (gap1 *> indexType)
  gap0
  let columns ← indexColumns
  let after ← optional (gap1 *> indexType)
  return { kind, name, before, columns, after }

/-- A primary key. -/
def primaryDefinition : Rule Index := do
  let _ ← optional constraintStart
  let _ ← keywords "primary key"
  indexBody .primary false

/-- A unique index. -/
def uniqueDefinition : Rule Index := do
  let _ ← optional constraintStart
  let _ ← keyword "unique"
  let _ ← indexWord?
  indexBody .unique true

/-- An index for text search. -/
def fulltextDefinition : Rule Index := do
  let _ ← keyword "fulltext"
  let _ ← indexWord?
  indexBody .fulltext true

/-- An index on geometry. -/
def spatialDefinition : Rule Index := do
  let _ ← keyword "spatial"
  let _ ← indexWord?
  indexBody .spatial true

/-- An index without further properties. -/
def plainDefinition : Rule Index := do
  let _ ← indexWord
  indexBody .plain true

/-- An index definition. -/
def indexDefinition : Rule Index :=
  firstOf
    [primaryDefinition, uniqueDefinition, fulltextDefinition, spatialDefinition, plainDefinition]

/-! ### Foreign keys -/

/-- How a foreign key is matched. -/
def matchOption : Rule Unit := do
  let _ ← keyword "match"
  gap1
  let _ ← firstOf [keyword "full", keyword "partial", keyword "simple"]

/-- What happens when the row that a foreign key refers to is deleted or updated. -/
def actionOption : Rule Unit := do
  let _ ← keyword "on"
  gap1
  let _ ← keyword "delete" <|> keyword "update"
  gap1
  let _ ← firstOf
    [keyword "restrict", keyword "cascade", keywords "set null", keywords "set default",
      keywords "no action"]

/-- The table and the columns that a foreign key refers to, with its options. -/
def referenceDefinition : Rule Unit := do
  let _ ← keyword "references"
  gap1
  let _ ← identifier
  gap0
  let _ ← indexColumns
  let _ ← many (gap1 *> (matchOption <|> actionOption))

/-- A foreign key, as it is written. -/
def foreignKeyDefinition : Rule Text :=
  matched do
    let _ ← optional constraintStart
    let _ ← keywords "foreign key"
    let _ ← optional (gap1 *> indexName)
    gap0
    let _ ← indexColumns
    gap1
    referenceDefinition

end SchemaDelta.Source
