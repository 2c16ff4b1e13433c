import ContractMigration.Text.Segments

/-! Paths inside a repository: segments joined by slashes. A path is canonical when none of its segments is empty, a dot
or two dots. -/

namespace ContractMigration.Path

/-- The segment that names the directory itself. -/
def dot : List Char := ['.']

/-- The segment that names the directory above. -/
def dotDot : List Char := ['.', '.']

/-- Follows one segment; `stack` holds the segments so far, the last one first. -/
def step (stack : List (List Char)) (segment : List Char) : List (List Char) :=
  if segment = [] ∨ segment = dot then stack
  else if segment = dotDot then stack.tail
  else segment :: stack

/-- Follows segments from the root; steps above the root stay there. -/
def follow (segments : List (List Char)) : List (List Char) := (segments.foldl step []).reverse

/-- The canonical form of a path. -/
def normalizeChars (path : List Char) : List Char := Text.joinWith ['/'] (follow (Text.segments '/' path))

/-- The canonical form of a path. -/
def normalize (path : String) : String := String.ofList (normalizeChars path.toList)

/-- Every backslash becomes a slash. -/
def slashed (path : List Char) : List Char := Text.replaceChar '\\' '/' path

/-- The components of a path: its segments without empty ones and dots. -/
def components (path : List Char) : List (List Char) :=
  (Text.segments '/' path).filter fun s => !s.isEmpty && s != dot

/-- What a path consists of: the root of the system, the directory itself, the one above, and names. -/
inductive Component
  | root
  | current
  | above
  | name (s : List Char)

/-- Whether the component leads to a place below the one before it, or stays there. -/
def Component.isInner : Component → Bool
  | .root => false
  | .current => true
  | .above => false
  | .name _ => true

/-- The component of a segment. An empty segment and a dot have none. -/
def component? (s : List Char) : Option Component :=
  if s = [] ∨ s = dot then none else if s = dotDot then some .above else some (.name s)

/-- A path taken apart. The root of the system and a dot count only in front. -/
def takenApart (path : List Char) : List Component :=
  let front := if Text.startsWith ['/'] path then [Component.root]
    else if (Text.segments '/' path).head? = some dot then [.current] else []
  front ++ (Text.segments '/' path).filterMap component?

/-- The directory of a path. -/
def parent (path : List Char) : List Char := Text.joinWith ['/'] (components path).dropLast

end ContractMigration.Path
