import Companions.Identity
import Companions.TypeDef
import Companions.Table
import Companions.Json.Token
import Companions.Json.Decode
import Companions.Codec.TypeDef
import Companions.Image.Encoding
import Companions.Marker
import Companions.Authoring
import Companions.Codec.Config
import Companions.Resolver
import Companions.File.Disk
import Companions.PostProcess
import Companions.CommandLine.Program
import Companions.Main
import Companions.Proofs.Relation.Termination
import Companions.Proofs.Unchanged
import Companions.Proofs.Rerun
import Companions.Proofs.Image.Listing
import Companions.Proofs.Output
import Companions.Proofs.Difference
import Companions.Proofs.Mentions
import Companions.Proofs.Account
import Companions.Proofs.Image.Assembled
import Companions.Proofs.Relation.Conformance
import Companions.Proofs.Relation.Transitivity
import Companions.Proofs.Identity
import Companions.Proofs.Resolution
import Companions.Proofs.Closure
import Companions.Proofs.Injection
import Companions.Proofs.Transparency
import Companions.Proofs.InPlace
import Companions.Proofs.Permutation
import Companions.Proofs.Grouping
import Companions.Proofs.Authoring
import Companions.Proofs.LiveIndex
import Companions.Proofs.Relation.Search
import Companions.Proofs.Image.Anchor
import Companions.Proofs.Relation.Augment
import Companions.Proofs.Repetition
import Companions.Proofs.Relation.Ancestry
import Companions.Proofs.Marker
import Companions.Proofs.Relation.Variance
import Companions.Proofs.Image.DepthFirst
import Companions.Proofs.Image.Naming
import Companions.Proofs.Saving
import Companions.Proofs.Codec.Config
