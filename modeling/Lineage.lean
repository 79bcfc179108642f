import Lineage.Log.Hub
import Lineage.Main
import Lineage.Proofs.Check.Leaves
import Lineage.Proofs.Check.Refusals
import Lineage.Proofs.Check.Snapshot
import Lineage.Proofs.Command.CountKeys
import Lineage.Proofs.Command.Counting
import Lineage.Proofs.Command.ProperTrees
import Lineage.Proofs.Config.Loading
import Lineage.Proofs.Config.Overrides
import Lineage.Proofs.Log.Handlers
import Lineage.Proofs.NodeForms.Conduct
import Lineage.Proofs.NodeForms.Interchange
import Lineage.Proofs.NodeForms.PlantedData
import Lineage.Proofs.Selector.Alternatives
import Lineage.Proofs.Selector.Matching
import Lineage.Proofs.Selector.Parsing
import Lineage.Proofs.Selector.QuotedValues
import Lineage.Proofs.Selector.Scanning
import Lineage.Proofs.Selector.Spelling
import Lineage.Proofs.Selector.ViablePrefix
import Lineage.Proofs.Store.Comparison
import Lineage.Proofs.Store.Growth
import Lineage.Proofs.Store.StructuralEquality
import Lineage.Proofs.Tree.Editing
import Lineage.Proofs.Tree.InStore
import Lineage.Proofs.Tree.Zipper
import Lineage.Proofs.Walk.Ancestry
import Lineage.Proofs.Walk.Annotation
import Lineage.Proofs.Walk.AnnotationNotes
import Lineage.Proofs.Walk.AppendingTrace
import Lineage.Proofs.Walk.AppendingVisitors
import Lineage.Proofs.Walk.CallForms
import Lineage.Proofs.Walk.Completion
import Lineage.Proofs.Walk.Deletion
import Lineage.Proofs.Walk.LevelEnds
import Lineage.Proofs.Walk.LoopFollowsRecursion
import Lineage.Proofs.Walk.NoFailure
import Lineage.Proofs.Walk.OnwardIndices
import Lineage.Proofs.Walk.OpeningAndClosing
import Lineage.Proofs.Walk.OutOfRangeIndices
import Lineage.Proofs.Walk.Preorder
import Lineage.Proofs.Walk.Recursion
import Lineage.Proofs.Walk.Reversal
import Lineage.Proofs.Walk.ThinningVisitors
import Lineage.Proofs.Walk.Turn
import Lineage.Proofs.Walk.VisitorManners
import Lineage.Script
import Lineage.Visit
