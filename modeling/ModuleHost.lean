import ModuleHost.Hot.Schedule
import ModuleHost.Main
import ModuleHost.Watch.Notice
import ModuleHost.Proofs.Hot.Change
import ModuleHost.Proofs.Hot.Exclusion
import ModuleHost.Proofs.Hot.Locality
import ModuleHost.Proofs.Hot.Requests
import ModuleHost.Proofs.Hot.Callbacks
import ModuleHost.Proofs.Hot.Deliveries
import ModuleHost.Proofs.Hot.Tenure
import ModuleHost.Proofs.Hot.Backlog
import ModuleHost.Proofs.Hot.Losses
import ModuleHost.Proofs.Hot.Renewal
import ModuleHost.Proofs.Hot.Provenance
import ModuleHost.Proofs.Hot.Isolation
import ModuleHost.Proofs.Hot.Independence
import ModuleHost.Proofs.Hot.Cleanup
import ModuleHost.Proofs.Hot.MessageCourses
import ModuleHost.Proofs.Hot.MessageRoundtrip
import ModuleHost.Proofs.Text.Offsets
import ModuleHost.Proofs.Watch.Mirror
import ModuleHost.Proofs.Wrap.Edits
import ModuleHost.Proofs.Wrap.Piece
import ModuleHost.Proofs.Wrap.Items
import ModuleHost.Proofs.Wrap.Groups
import ModuleHost.Proofs.Wrap.Weave
import ModuleHost.Proofs.Wrap.Exported
import ModuleHost.Proofs.Wrap.Recall
import ModuleHost.Proofs.Wrap.Refusals
import ModuleHost.Proofs.Wrap.Detached
import ModuleHost.Proofs.Wrap.Boundaries
import ModuleHost.Proofs.Wrap.Bindings
import ModuleHost.Proofs.Wrap.OwnNames
import ModuleHost.Proofs.Wrap.Dependencies
import ModuleHost.Proofs.Wrap.Valueless
import ModuleHost.Proofs.Wrap.Placement
import ModuleHost.Proofs.Wrap.Reexports
import ModuleHost.Proofs.Wrap.Registration
import ModuleHost.Proofs.Wrap.Variables
import ModuleHost.Proofs.Wrap.Decorators
import ModuleHost.Proofs.Wrap.Substitution
import ModuleHost.Proofs.Files.ModulePaths
import ModuleHost.Proofs.Watch.MissedWrites
import ModuleHost.Proofs.Wrap.Splitting
import ModuleHost.Proofs.Files.UrlPaths
import ModuleHost.Proofs.Wrap.Quoting
import ModuleHost.Proofs.Wrap.Names
import ModuleHost.Proofs.Wrap.Severed
import ModuleHost.Proofs.Wrap.Aligned
