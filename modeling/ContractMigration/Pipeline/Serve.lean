import ContractMigration.Pipeline.Basic
import ContractMigration.Session.Drive

/-! One request to a pipeline that nobody else uses. -/

namespace ContractMigration.Pipeline

/-- What a pipeline meets when all collaborators answer at once. -/
def promptSetting (p : Pipeline) (answer : (q : Question) → q.Answer) : Setting Outside Product Unit where
  call := p.call
  answer _ q := (.ready (answer q), ())

/-- Serves one request from an empty cache. -/
def serve (p : Pipeline) (answer : (q : Question) → q.Answer) (fuel : Nat) (k : Key) (st : Stage) :
    Except Failure (Artifact Product) :=
  let x := p.promptSetting answer
  let asked := Session.ask x fuel "" k st (.start p.newCache, ())
  let s := (Session.passUntilAnswered x fuel [""] [""] fuel asked).1
  ((s.caller? "").bind Caller.answer?).getD (.error (.internal "the request was not answered"))

end ContractMigration.Pipeline
