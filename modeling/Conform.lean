import Conform.Session
import Conform.Proofs.Triples
import Conform.Proofs.Value.Equality
import Conform.Proofs.Value.Keys
import Conform.Proofs.Value.Reordering
import Conform.Proofs.Path.Following
import Conform.Proofs.Path.Pointer
import Conform.Proofs.Path.Search
import Conform.Proofs.Schema.Tree
import Conform.Proofs.Schema.Walk
import Conform.Proofs.Schema.Acceptance
import Conform.Proofs.Schema.Agreement
import Conform.Proofs.Schema.Rebuilding
import Conform.Proofs.Schema.Faults
import Conform.Proofs.Schema.Forms
import Conform.Proofs.Schema.Calls
import Conform.Proofs.Schema.DepthLimit
import Conform.Proofs.Schema.Idempotence
import Conform.Proofs.Schema.Placement
import Conform.Proofs.Schema.Reordering
import Conform.Proofs.Schema.Blame
import Conform.Proofs.Schema.Unions
import Conform.Proofs.Schema.Construction
import Conform.Proofs.JsonSchema.Validity
import Conform.Proofs.JsonSchema.Agreement
import Conform.Proofs.JsonSchema.Export
import Conform.Proofs.Logging.Lineage
import Conform.Proofs.Logging.Runs
import Conform.Proofs.Logging.Setups
import Conform.Proofs.Yaml.Tree
import Conform.Proofs.Yaml.Places
import Conform.Proofs.Yaml.Data
import Conform.Proofs.Yaml.Building
import Conform.Proofs.Yaml.Pointers
import Conform.Proofs.Yaml.Misfits
import Conform.Proofs.Yaml.Flaws.Scanning
import Conform.Proofs.Yaml.Flaws.Tokens
import Conform.Proofs.Yaml.Flaws.Composition
import Conform.Proofs.Document
import Conform.Proofs.Json.Text
import Conform.Proofs.Json.Words
import Conform.Proofs.Json.Scanning
import Conform.Proofs.Json.Tokens
import Conform.Proofs.Json.Composition
import Conform.Proofs.Json.Loading
import Conform.Proofs.Value.Numbers
import Conform.Proofs.Value.Abridged
import Conform.Proofs.Schema.Missing
import Conform.Proofs.Schema.Definability
import Conform.Proofs.Path.Dotted
import Conform.Proofs.Schema.RemainingDepth
import Conform.Proofs.Schema.Nesting
