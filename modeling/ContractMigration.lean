import ContractMigration.Digest.Sha256
import ContractMigration.Limits
import ContractMigration.Repository.Key
import ContractMigration.Repository.Import
import ContractMigration.Repository.Ingest
import ContractMigration.Solidity.Token
import ContractMigration.Solidity.Diagnosis
import ContractMigration.Analysis.Json
import ContractMigration.Plan.Reply
import ContractMigration.Report.Json
import ContractMigration.Config
import ContractMigration.Stage
import ContractMigration.Cache.Basic
import ContractMigration.Session.Drive
import ContractMigration.Pipeline.Basic
import ContractMigration.Checkout.Host
import ContractMigration.CommandLine.Run
import ContractMigration.Main
import ContractMigration.Proofs.Cache.Contents
import ContractMigration.Proofs.Cache.Epochs
import ContractMigration.Proofs.Cache.Usage
import ContractMigration.Proofs.Cache.Steps
import ContractMigration.Proofs.Cache.Origins
import ContractMigration.Proofs.Cache.Coherence
import ContractMigration.Proofs.Cache.Renewal
import ContractMigration.Proofs.Cache.Clearing
import ContractMigration.Proofs.Pipeline.Tasks
import ContractMigration.Proofs.Session.Moves
import ContractMigration.Proofs.Pipeline.Lineage
import ContractMigration.Proofs.Pipeline.Generations
import ContractMigration.Proofs.Session.Leading
import ContractMigration.Proofs.Cache.Lifetimes
import ContractMigration.Proofs.Cache.SingleFlight
import ContractMigration.Proofs.Session.Progress
import ContractMigration.Proofs.Session.Tickets
import ContractMigration.Proofs.Session.Conduct
import ContractMigration.Proofs.Cache.Cold
import ContractMigration.Proofs.Pipeline.Demands
import ContractMigration.Proofs.Pipeline.Requests
import ContractMigration.Proofs.Pipeline.Refusals
import ContractMigration.Proofs.Pipeline.Warming
import ContractMigration.Proofs.Pipeline.Once
import ContractMigration.Proofs.Pipeline.Order
import ContractMigration.Proofs.Pipeline.Alone
import ContractMigration.Proofs.Digest.Framing
import ContractMigration.Proofs.Graph.FirstSeen
import ContractMigration.Proofs.Graph.EntryPoints
import ContractMigration.Proofs.Report.Issues
import ContractMigration.Proofs.Report.Unchanged
import ContractMigration.Proofs.Report.Rules
import ContractMigration.Proofs.Report.Exactness
import ContractMigration.Proofs.Plan.Grouping
import ContractMigration.Proofs.Session.Exchanges
import ContractMigration.Proofs.Pipeline.Accounting
import ContractMigration.Proofs.Text.Affixes
import ContractMigration.Proofs.Text.Blocks
import ContractMigration.Proofs.Json.Spelling
import ContractMigration.Proofs.Json.Scanning
import ContractMigration.Proofs.Json.Locality
import ContractMigration.Proofs.Json.Grammar
import ContractMigration.Proofs.Json.Parsing
import ContractMigration.Proofs.Json.Faults
import ContractMigration.Proofs.Json.Careful
import ContractMigration.Proofs.Json.Records
import ContractMigration.Proofs.Plan.ReadBack
import ContractMigration.Proofs.Plan.Replies
import ContractMigration.Proofs.Solidity.Reading
import ContractMigration.Proofs.Solidity.Depth
import ContractMigration.Proofs.Solidity.Layout
import ContractMigration.Proofs.Solidity.Lexing
import ContractMigration.Proofs.Solidity.Phrases
import ContractMigration.Proofs.Solidity.Names
import ContractMigration.Proofs.Solidity.Extraction
import ContractMigration.Proofs.Solidity.Abreast
import ContractMigration.Proofs.Solidity.Pragmas
import ContractMigration.Proofs.Analysis.Isolation
import ContractMigration.Proofs.Json.Documents
import ContractMigration.Proofs.Plan.Bare
import ContractMigration.Proofs.Repository.ReadBack
import ContractMigration.Proofs.Analysis.ReadBack
import ContractMigration.Proofs.Plan.RoundTrips
import ContractMigration.Proofs.Pipeline.Degrading
import ContractMigration.Proofs.Solidity.Elements
import ContractMigration.Proofs.Solidity.Spaces
import ContractMigration.Proofs.Graph.Construction
import ContractMigration.Proofs.Repository.Spelling
import ContractMigration.Proofs.Cache.Recency
import ContractMigration.Proofs.Cache.Replacement
import ContractMigration.Proofs.Session.Deliveries
import ContractMigration.Proofs.Pipeline.Reseeding
import ContractMigration.Proofs.Analysis.Reordering
import ContractMigration.Proofs.Report.Verdicts
import ContractMigration.Proofs.Report.Outcomes
import ContractMigration.Proofs.Pipeline.Revalidation
import ContractMigration.Proofs.Solidity.Places
import ContractMigration.Proofs.Solidity.Units
import ContractMigration.Proofs.Text.Cuts
import ContractMigration.Proofs.Tally
import ContractMigration.Proofs.Repository.Listing
import ContractMigration.Proofs.Repository.Trees
import ContractMigration.Proofs.Checkout.Guarded
import ContractMigration.Proofs.Repository.Routes
import ContractMigration.Proofs.Repository.Separators
import ContractMigration.Proofs.Repository.Normalization
import ContractMigration.Proofs.Checkout.Patterns
import ContractMigration.Proofs.Plan.Contents
import ContractMigration.Proofs.Repository.Identifiers
import ContractMigration.Proofs.Repository.Relisting
import ContractMigration.Proofs.Report.Context
import ContractMigration.Proofs.Pipeline.Planning
import ContractMigration.Proofs.Report.Skipping
import ContractMigration.Proofs.Report.Confidence
import ContractMigration.Proofs.Cache.Failing
import ContractMigration.Proofs.Session.Failing
import ContractMigration.Proofs.Json.Members
import ContractMigration.Proofs.Config
import ContractMigration.Proofs.Checkout.DefaultKey
import ContractMigration.Proofs.Checkout.Paths
import ContractMigration.Proofs.Graph.Calls
import ContractMigration.Proofs.Numbered
import ContractMigration.Proofs.Solidity.Walk
import ContractMigration.Proofs.Solidity.Quotations
import ContractMigration.Proofs.Cache.Staging
import ContractMigration.Proofs.Session.Staging
import ContractMigration.Proofs.Pipeline.Staging
