/-! Bounds on configured values and on what collaborators return. -/

namespace ContractMigration.Limits

/-- Moves a value between the bounds; the upper bound wins if they cross. -/
def clamp (value low high : Int) : Int := min (max value low) high

/-- Moves a natural number between the bounds; the upper bound wins if they cross. -/
def clampNat (value low high : Nat) : Nat := min (max value low) high

def minTtlSeconds : Nat := 1
def maxTtlSeconds : Nat := 7 * 24 * 60 * 60
def maxRepositories : Nat := 1024
def maxAnalysisWorkers : Nat := 64
def maxFetches : Nat := 64
def maxTransforms : Nat := 32
def minSourceBytes : Nat := 1024
def maxSourceBytes : Nat := 16 * 1024 * 1024

/-- How many characters of a reply that could not be read are kept. -/
def maxRawChars : Nat := 4000

/-- At least one worker, at most `most`. -/
def workers (value most : Nat) : Nat := clampNat value 1 most

/-- A lifetime between one second and a week. -/
def ttlSeconds (value : Nat) : Nat := clampNat value minTtlSeconds maxTtlSeconds

end ContractMigration.Limits
