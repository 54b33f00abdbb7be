import ModuleGraph.Interchange
import ModuleGraph.Json.Writer
import ModuleGraph.Loader.Interleaving
import ModuleGraph.Session
import ModuleGraph.Settings.Store
import ModuleGraph.Proofs.Expansion
import ModuleGraph.Proofs.Ownership
import ModuleGraph.Proofs.StatusLaw
import ModuleGraph.Proofs.Registration
import ModuleGraph.Proofs.Closure
import ModuleGraph.Proofs.Finality
import ModuleGraph.Proofs.Admission
import ModuleGraph.Proofs.Position
import ModuleGraph.Proofs.Outcome
import ModuleGraph.Proofs.Termination
import ModuleGraph.Proofs.Resolution
import ModuleGraph.Proofs.Slashes
import ModuleGraph.Proofs.FileFetch
import ModuleGraph.Proofs.FileLoads
import ModuleGraph.Proofs.FewModules
import ModuleGraph.Proofs.Containment
import ModuleGraph.Proofs.Location
import ModuleGraph.Proofs.OwnPath
import ModuleGraph.Proofs.ProjectPath
import ModuleGraph.Proofs.Moments
import ModuleGraph.Proofs.Records
import ModuleGraph.Proofs.Reload
import ModuleGraph.Proofs.Retry
import ModuleGraph.Proofs.Languages
import ModuleGraph.Proofs.Dispatch
import ModuleGraph.Proofs.Buffers
import ModuleGraph.Proofs.Repetition
import ModuleGraph.Proofs.Release
import ModuleGraph.Proofs.Identity
import ModuleGraph.Proofs.Precedence
import ModuleGraph.Proofs.Manifests
import ModuleGraph.Proofs.Declarations
import ModuleGraph.Proofs.Parts
import ModuleGraph.Proofs.Walk
import ModuleGraph.Proofs.Refusal
import ModuleGraph.Proofs.Lowered
import ModuleGraph.Proofs.Extraction
import ModuleGraph.Proofs.StringValue
import ModuleGraph.Proofs.Cooking
import ModuleGraph.Proofs.Escape
import ModuleGraph.Proofs.TomlNames
import ModuleGraph.Proofs.Documents
import ModuleGraph.Proofs.SettingsLayers
import ModuleGraph.Proofs.NearestSettings
import ModuleGraph.Proofs.TomlStrings
import ModuleGraph.Proofs.TomlLines
import ModuleGraph.Proofs.WrittenFiles
import ModuleGraph.Proofs.SavedSettings
