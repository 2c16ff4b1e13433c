/-! Patterns for names: a star stands for any run of characters, a question mark for any one character, and every other
character for itself. Whether a pattern fits is worked out in a table with an entry for each beginning of the text and each
beginning of the pattern. Files whose names speak of secrets are recognised by such patterns. -/

namespace ContractMigration.Glob

/-- Truth values in rows. -/
structure Table where
  rows : Array (Array Bool)

namespace Table

/-- A table in which nothing holds. -/
def blank (height width : Nat) : Table := ⟨Array.replicate height (Array.replicate width false)⟩

/-- The entry in row `i` and column `j`, if the table reaches that far. -/
def get? (t : Table) (i j : Nat) : Option Bool := t.rows[i]?.bind fun row => row[j]?

/-- Sets the entry in row `i` and column `j`, if the table reaches that far. -/
def set? (t : Table) (i j : Nat) (b : Bool) : Option Table := do
  let row ← t.rows[i]?
  if j < row.size then some ⟨t.rows.setIfInBounds i (row.setIfInBounds j b)⟩ else none

end Table

/-- Works out the entry behind sign `j` in the first row: stars alone fit the empty text. -/
def fillFirst? (pattern : Array Char) (t : Table) (j : Nat) : Option Table := do
  let sign ← pattern[j]?
  if sign = '*' then
    let before ← t.get? 0 j
    t.set? 0 (j + 1) before
  else
    return t

/-- Works out the entry behind sign `j` in the row behind character `i`: a star takes nothing, or the character besides what
it took before. -/
def fill? (pattern text : Array Char) (i : Nat) (t : Table) (j : Nat) : Option Table := do
  let sign ← pattern[j]?
  if sign = '*' then
    let nothing ← t.get? (i + 1) j
    let besides ← t.get? i (j + 1)
    t.set? (i + 1) (j + 1) (nothing || besides)
  else
    let c ← text[i]?
    if sign = '?' ∨ c = sign then
      let before ← t.get? i j
      t.set? (i + 1) (j + 1) before
    else
      return t

/-- Works out the row behind character `i`. -/
def fillRow? (pattern text : Array Char) (t : Table) (i : Nat) : Option Table :=
  (List.range pattern.size).foldlM (fill? pattern text i) t

/-- Whether a pattern fits a text; there is no answer if the table is left. -/
def fits? (pattern text : List Char) : Option Bool := do
  let p := pattern.toArray
  let s := text.toArray
  let t ← (Table.blank (s.size + 1) (p.size + 1)).set? 0 0 true
  let t ← (List.range p.size).foldlM (fillFirst? p) t
  let t ← (List.range s.size).foldlM (fillRow? p s) t
  t.get? s.size p.size

/-- Names of files that hold secrets. -/
def sensitivePatterns : List String :=
  [".env", ".env.*", "*.pem", "*.key", "*.p12", "*secret*", "*secrets*", "*credential*", "*mnemonic*", "id_rsa",
    "id_dsa"]

/-- The lower case of a letter, as far as it lies in ASCII; the Kelvin sign is the only other letter with one. -/
def lower (c : Char) : Char := if c = '\u212a' then 'k' else c.toLower

/-- Whether a name is that of a file with secrets, whatever the case of its letters. -/
def isSensitive (name : String) : Bool :=
  sensitivePatterns.any fun p => fits? p.toList (name.toList.map lower) == some true

end ContractMigration.Glob
