import ConsoleKit.Bundle
import ConsoleKit.Files.Extensionality
import ConsoleKit.Frame.Reader
import ConsoleKit.Main
import ConsoleKit.Proofs.Deployment.Overwriting
import ConsoleKit.Proofs.Deployment.Reproduction
import ConsoleKit.Proofs.Exchange.Trace
import ConsoleKit.Proofs.Exchange.Scheduling
import ConsoleKit.Proofs.Deployment.Course
import ConsoleKit.Proofs.Deployment.Interruption
import ConsoleKit.Proofs.Files.Entering
import ConsoleKit.Proofs.Deployment.Handling
import ConsoleKit.Proofs.Deployment.Clearance
import ConsoleKit.Proofs.Deployment.Finishing
import ConsoleKit.Proofs.Deployment.Likeness
import ConsoleKit.Proofs.Deployment.ListingOrder
import ConsoleKit.Proofs.Files.Ancestors
import ConsoleKit.Proofs.Files.Kinds
import ConsoleKit.Proofs.Files.Parents
import ConsoleKit.Proofs.Deployment.Additions
import ConsoleKit.Proofs.Deployment.Conflicts
import ConsoleKit.Proofs.Deployment.Termination
import ConsoleKit.Proofs.Deployment.Containment
import ConsoleKit.Proofs.Deployment.Counting
import ConsoleKit.Proofs.Deployment.Resolution
import ConsoleKit.Proofs.Deployment.Inventory
import ConsoleKit.Proofs.Deployment.Repetition
import ConsoleKit.Proofs.Deployment.Overlay
import ConsoleKit.Proofs.Deployment.Links
import ConsoleKit.Proofs.CommandLine
import ConsoleKit.Proofs.Deployment.Blame
import ConsoleKit.Proofs.Deployment.Spelling
import ConsoleKit.Proofs.Deployment.Messages
import ConsoleKit.Proofs.Planning
import ConsoleKit.Proofs.Addressing
import ConsoleKit.Proofs.Frame.RoundTrip
import ConsoleKit.Proofs.Deployment.Skeleton
import ConsoleKit.Proofs.Exchange.Outcome
import ConsoleKit.Proofs.Frame.Bytewise
import ConsoleKit.Proofs.Frame.Strictness
import ConsoleKit.Proofs.Text.Cut
import ConsoleKit.Proofs.Deployment.Nesting
import ConsoleKit.Proofs.Rendering
import ConsoleKit.Proofs.Text.Subparts
