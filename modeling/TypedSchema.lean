import TypedSchema.Files.Tree
import TypedSchema.Main
import TypedSchema.Proofs.Decode.Growth
import TypedSchema.Proofs.Decode.Filling
import TypedSchema.Proofs.Registry.WellFormed
import TypedSchema.Proofs.Values.Plain
import TypedSchema.Proofs.Decode.Tables
import TypedSchema.Proofs.Decode.Objects
import TypedSchema.Proofs.Conformance
import TypedSchema.Proofs.Compile.Denotes
import TypedSchema.Proofs.Compile.Run
import TypedSchema.Proofs.Compile.Progress
import TypedSchema.Proofs.Compile.Resolving
import TypedSchema.Proofs.Compile.Binding
import TypedSchema.Proofs.Compile.Visiting
import TypedSchema.Proofs.Compile.Compiled
import TypedSchema.Proofs.KeyPreservation
import TypedSchema.Proofs.Compile.Owning
import TypedSchema.Proofs.FaithfulBinding
import TypedSchema.Proofs.Registry.Reach
import TypedSchema.Proofs.Decode.Recasting
import TypedSchema.Proofs.Decode.Refilling
import TypedSchema.Proofs.Decode.Returning
import TypedSchema.Proofs.RoundTrip
import TypedSchema.Proofs.Registry.Closed
import TypedSchema.Proofs.Compile.Generations
import TypedSchema.Proofs.Types.Bound
import TypedSchema.Proofs.Decode.Layers
import TypedSchema.Proofs.Decode.Faults
import TypedSchema.Proofs.FaultSurface
import TypedSchema.Proofs.Decode.Fillable
import TypedSchema.Proofs.Values.Settled
import TypedSchema.Proofs.Decode.Steady
import TypedSchema.Proofs.Decode.SteadyCasts
import TypedSchema.Proofs.OrderIndependence
import TypedSchema.Proofs.Respelling
import TypedSchema.Proofs.Decode.Assigning
import TypedSchema.Proofs.Registry.Alike
import TypedSchema.Proofs.InitializerRefinement
import TypedSchema.Proofs.RequiredKeys
import TypedSchema.Proofs.Decode.Dispatching
import TypedSchema.Proofs.DispatchStability
import TypedSchema.Proofs.Compile.References
import TypedSchema.Proofs.Compile.Failing
import TypedSchema.Proofs.Compile.Breaking
import TypedSchema.Proofs.Compile.Searching
import TypedSchema.Proofs.Compile.Completing
import TypedSchema.Proofs.Compile.Listing
import TypedSchema.Proofs.CycleDetection
import TypedSchema.Proofs.Compile.Agreeing
import TypedSchema.Proofs.Compile.Affording
import TypedSchema.Proofs.Compile.Filling
import TypedSchema.Proofs.Reordering
import TypedSchema.Proofs.Registry.Subtyping
import TypedSchema.Proofs.InheritanceOrder
import TypedSchema.Proofs.ConsistentBinding
import TypedSchema.Proofs.Decode.Renaming
import TypedSchema.Proofs.PassthroughTargets
import TypedSchema.Proofs.Decode.Stopping
import TypedSchema.Proofs.ErrorPaths
import TypedSchema.Proofs.Decode.Recognizing
import TypedSchema.Proofs.CastIdempotence
import TypedSchema.Proofs.EnumerationTables
import TypedSchema.Proofs.EnumerationValues
import TypedSchema.Proofs.DocumentLoading
import TypedSchema.Proofs.Files.Writing
import TypedSchema.Proofs.Command.Running
import TypedSchema.Proofs.BatchOutputs
import TypedSchema.Proofs.NameTranslation
import TypedSchema.Proofs.Compile.Accounts
import TypedSchema.Proofs.Compile.Ending
import TypedSchema.Proofs.Compile.Rounds
import TypedSchema.Proofs.Compile.Counting
import TypedSchema.Proofs.CompileBounds
import TypedSchema.Proofs.Values.Ranks
import TypedSchema.Proofs.Decode.Continuing
import TypedSchema.Proofs.DecodeTermination
import TypedSchema.Proofs.Decode.Items
import TypedSchema.Proofs.ListCoercion
import TypedSchema.Proofs.NameInversion
import TypedSchema.Proofs.ArgumentBinding
import TypedSchema.Proofs.EncodersAgree
import TypedSchema.Proofs.Time.Calendar
import TypedSchema.Proofs.Time.Reading
import TypedSchema.Proofs.TimestampTexts
import TypedSchema.Proofs.Values.Comparing
import TypedSchema.Proofs.ConstantMatching
import TypedSchema.Proofs.Naming.Regaining
import TypedSchema.Proofs.Decode.Rebuilding
import TypedSchema.Proofs.KeywordReturn
import TypedSchema.Proofs.ReferenceNames
import TypedSchema.Proofs.Compile.Discovering
import TypedSchema.Proofs.DiscoveredTypes
import TypedSchema.Proofs.Values.Nearest
import TypedSchema.Proofs.Values.Narrowing
import TypedSchema.Proofs.UnconstrainedData
import TypedSchema.Proofs.Values.Reading
import TypedSchema.Proofs.HeldDocuments
