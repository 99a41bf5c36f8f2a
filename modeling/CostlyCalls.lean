import CostlyCalls.Main
import CostlyCalls.Session
import CostlyCalls.Proofs.Exactness
import CostlyCalls.Proofs.Interleaving
import CostlyCalls.Proofs.Numbering
import CostlyCalls.Proofs.Snapshot.RoundTrip
import CostlyCalls.Proofs.Selection
import CostlyCalls.Proofs.Suppressions
import CostlyCalls.Proofs.TypeGrowth
import CostlyCalls.Proofs.Composition
import CostlyCalls.Proofs.Crashes
import CostlyCalls.Proofs.Registration
import CostlyCalls.Proofs.Regions
import CostlyCalls.Proofs.RuleKeys
import CostlyCalls.Proofs.StopPoint
import CostlyCalls.Proofs.CheckCommand
import CostlyCalls.Proofs.BreadthFirst
import CostlyCalls.Proofs.Registries
import CostlyCalls.Proofs.KeyOrder
import CostlyCalls.Proofs.JsonReport
import CostlyCalls.Proofs.SarifReport
import CostlyCalls.Proofs.Paths
import CostlyCalls.Proofs.DiscoveredFiles
import CostlyCalls.Proofs.Snapshot.EditedFields
import CostlyCalls.Proofs.Snapshot.MemberOrder
import CostlyCalls.Proofs.SuppressedPaths
import CostlyCalls.Proofs.FailFast
import CostlyCalls.Proofs.Operations
import CostlyCalls.Proofs.ConsoleReport
import CostlyCalls.Proofs.Worklist
import CostlyCalls.Proofs.Messages
