import Skew.Catalog.Methods
import Skew.Cli.Directory
import Skew.Entity.Copy
import Skew.Entity.Path
import Skew.Inspection
import Skew.Main
import Skew.Proofs.Admission
import Skew.Proofs.Assembly
import Skew.Proofs.Authorities
import Skew.Proofs.ChildStamps
import Skew.Proofs.ClassCalls
import Skew.Proofs.ClassResults
import Skew.Proofs.Declarations
import Skew.Proofs.Defaults
import Skew.Proofs.Depth
import Skew.Proofs.Envelopes
import Skew.Proofs.EqualDocuments
import Skew.Proofs.Evolution
import Skew.Proofs.Fallback
import Skew.Proofs.ForwardedCalls
import Skew.Proofs.Labels
import Skew.Proofs.ListGrowth
import Skew.Proofs.Markers
import Skew.Proofs.Marks
import Skew.Proofs.MigrationCalls
import Skew.Proofs.MigrationRows
import Skew.Proofs.MigrationRuns
import Skew.Proofs.NestedDocuments
import Skew.Proofs.Normalization
import Skew.Proofs.OlderNodes
import Skew.Proofs.OngoingMigrations
import Skew.Proofs.PlainViews
import Skew.Proofs.Propagation
import Skew.Proofs.Reachability
import Skew.Proofs.ReachedRows
import Skew.Proofs.RecordLists
import Skew.Proofs.Reduction
import Skew.Proofs.Registration
import Skew.Proofs.Releases
import Skew.Proofs.Resetting
import Skew.Proofs.Retouching
import Skew.Proofs.Returning
import Skew.Proofs.SamePrimitives
import Skew.Proofs.Shapes
import Skew.Proofs.Soundness
import Skew.Proofs.Twins
import Skew.Proofs.WholeNumbers
import Skew.Proofs.WrittenForms
import Skew.Routine
