import ContractMigration.Solidity.Extract

/-! Where a source that is not well formed goes wrong. If one closing symbol makes it well formed, that symbol is missing
behind the last piece of text it can follow and the comments there; otherwise the first token behind the complete
declarations is at fault. -/

namespace ContractMigration.Solidity

/-- A line and a column, both from one; columns count bytes. -/
structure Position where
  line : Nat
  column : Nat
  deriving DecidableEq

namespace Position

def start : Position := ⟨1, 1⟩

/-- The position behind a character. -/
def next (p : Position) (c : Char) : Position := if c = '\n' then ⟨p.line + 1, 1⟩ else ⟨p.line, p.column + c.utf8Size⟩

/-- The position behind a text. -/
def after (p : Position) (s : List Char) : Position := s.foldl next p

def text (p : Position) : String := "line " ++ toString p.line ++ ", column " ++ toString p.column

end Position

/-- What is wrong with a source. -/
inductive Diagnosis
  | missing (closer : String) (place : Position)
  | unexpected (place : Position)
  deriving DecidableEq

/-- The words for a diagnosis. -/
def Diagnosis.message : Diagnosis → String
  | .missing c p => "missing " ++ c ++ " at " ++ p.text
  | .unexpected p => malformed ++ " at " ++ p.text

/-- The symbols that close something. -/
def closers : List String := ["\x7d", ";", ")", "]"]

/-- The size of the piece of text at the front: a string, a run of letters and digits, or one character. -/
def pieceSize (s : List Char) : Nat := ((stringSize? true s).getD 1).max (s.takeWhile isWordChar).length

/-- Where pieces of text end, and where the comments behind each piece end, from the front on. `start` is how much text
precedes, and the fuel is more than the text is long. -/
def pieceEnds : (fuel : Nat) → (start : Nat) → List Char → List (Nat × Nat)
  | 0, _, _ => []
  | fuel + 1, start, s =>
    let s' := s.drop (layoutSize s)
    if s'.isEmpty then []
    else
      let start := start + layoutSize s + pieceSize s'
      let rest := s'.drop (pieceSize s')
      let gap := rest.take (layoutSize rest)
      (start, start + (gap.length - (lastBlank gap).length)) :: pieceEnds fuel start rest

/-- The symbol that makes the source well formed when it stands there. -/
def repairAt? (s : List Char) (place : Nat) : Option String :=
  closers.find? fun c => (parse? (String.ofList (s.take place ++ c.toList ++ s.drop place))).isSome

/-- The last of the places where one symbol is missing. -/
def missing? (s : List Char) : List (Nat × Nat) → Option Diagnosis
  | [] => none
  | (e, shown) :: r => match missing? s r with
    | some d => some d
    | none => (repairAt? s e).map fun c => .missing c (Position.start.after (s.take shown))

/-- The place of the first token behind the complete declarations. -/
def firstUnread (source : String) : Position :=
  let unread := match parsePhrases source with
    | some (_, c) => c.text.length
    | none => source.length
  Position.start.after (source.toList.take (source.length - unread))

/-- What is wrong with a source, if anything is. -/
def diagnose? (source : String) : Option Diagnosis :=
  if (parse? source).isSome then none
  else some ((missing? source.toList (pieceEnds (source.length + 1) 0 source.toList)).getD
    (.unexpected (firstUnread source)))

end ContractMigration.Solidity
