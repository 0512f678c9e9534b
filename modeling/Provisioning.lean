import Provisioning.Tree.Measure
import Provisioning.Request.Verify
import Provisioning.Samples.Equipment
import Provisioning.Samples.Documents
import Provisioning.Loader
import Provisioning.Workspace
import Provisioning.Proofs.Directory
import Provisioning.Proofs.Tree.Nodes
import Provisioning.Proofs.Tree.OtherKeys
import Provisioning.Proofs.Traced
import Provisioning.Proofs.Decode.Strictness
import Provisioning.Proofs.Tree.Edit
import Provisioning.Proofs.Schema.Reading
import Provisioning.Proofs.Tree.Pruning
import Provisioning.Proofs.Schema.Skipped
import Provisioning.Proofs.Schema.ReadsLike
import Provisioning.Proofs.Decode.Tolerance
import Provisioning.Proofs.Decode.NumberKeys
import Provisioning.Proofs.Tree.Sameness
import Provisioning.Proofs.Tree.Dropping
import Provisioning.Proofs.Tree.Insertion
import Provisioning.Proofs.Decode.Settled
import Provisioning.Proofs.Decode.Contexts
import Provisioning.Proofs.Decode.Course
import Provisioning.Proofs.Decode.Watched
import Provisioning.Proofs.Decode.Failures
import Provisioning.Proofs.Decode.NormalForm
import Provisioning.Proofs.Decode.LostEntries
import Provisioning.Proofs.Tree.Order
import Provisioning.Proofs.Decode.Results
import Provisioning.Proofs.Decode.EntryOrder
import Provisioning.Proofs.Profile.RoundTrip
import Provisioning.Proofs.Schema.Makes
import Provisioning.Proofs.Profile.Instances
import Provisioning.Proofs.Loading.Contract
import Provisioning.Proofs.Loading.FailedStreams
import Provisioning.Proofs.Decode.DepthLimit
import Provisioning.Proofs.Request.Verdicts
import Provisioning.Proofs.Context.PluginRuns
import Provisioning.Proofs.Context.Registration
import Provisioning.Proofs.Context.Stacks
import Provisioning.Proofs.Decode.TypeTags
import Provisioning.Proofs.Schema.FlatRecords
import Provisioning.Proofs.Profile.EitherType
import Provisioning.Proofs.Decode.RootTag
import Provisioning.Proofs.Decode.Admits
import Provisioning.Proofs.Decode.TaggedNodes
import Provisioning.Proofs.Decode.StrictKeys
import Provisioning.Proofs.Profile.TaggedEntries
import Provisioning.Proofs.Profile.Grammar
import Provisioning.Proofs.Request.Requirements
import Provisioning.Proofs.Text.ByteOrder
import Provisioning.Proofs.Profile.CatalogLookup
import Provisioning.Proofs.Tree.InOrder
import Provisioning.Proofs.Decode.KeptOrder
import Provisioning.Proofs.Tree.EntryWays
import Provisioning.Proofs.Schema.SkippedWays
import Provisioning.Proofs.Decode.KeyTags
import Provisioning.Proofs.Decode.ReportedOnce
import Provisioning.Proofs.Profile.Classes
import Provisioning.Proofs.Decode.PathTexts
import Provisioning.Proofs.Schema.ReadParts
import Provisioning.Proofs.Tree.Outline
import Provisioning.Proofs.Decode.ReportedPaths
import Provisioning.Decode.Traversal
import Provisioning.Proofs.Decode.OnePath
import Provisioning.Proofs.Decode.Removals
