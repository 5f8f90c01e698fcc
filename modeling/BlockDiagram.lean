import BlockDiagram.Graph.Text
import BlockDiagram.Journal.Deployment
import BlockDiagram.Proofs.Program.Occurrence
import BlockDiagram.Proofs.Program.Recursion
import BlockDiagram.Proofs.Program.Termination
import BlockDiagram.Proofs.Program.Bisimulation
import BlockDiagram.Proofs.Program.Unambiguity
import BlockDiagram.Proofs.Document.Denotation
import BlockDiagram.Proofs.Inspection
import BlockDiagram.Proofs.Json.Members
import BlockDiagram.Proofs.Text.Utf8
import BlockDiagram.Proofs.Document.Attributes
import BlockDiagram.Proofs.Document.Description
import BlockDiagram.Proofs.Document.Table
import BlockDiagram.Proofs.Document.Defect
import BlockDiagram.Proofs.Document.Depiction
import BlockDiagram.Proofs.Validation.CycleCut
import BlockDiagram.Proofs.Document.RoundTrip
import BlockDiagram.Proofs.Program.Unreached
import BlockDiagram.Proofs.Validation.Renaming
import BlockDiagram.Proofs.Program.Leaf
import BlockDiagram.Proofs.Document.Respelling
import BlockDiagram.Proofs.Program.Braces
import BlockDiagram.Proofs.Program.Lines
import BlockDiagram.Proofs.Document.Repetition
import BlockDiagram.Proofs.Program.Levels
import BlockDiagram.Proofs.Graph.History
import BlockDiagram.Proofs.Files.Parent
import BlockDiagram.Proofs.Files.Directories
import BlockDiagram.Proofs.Deployment.Course
import BlockDiagram.Proofs.Deployment.Plan
import BlockDiagram.Proofs.Deployment.Footprint
import BlockDiagram.Proofs.Deployment.Again
import BlockDiagram.Proofs.Text.Segments
import BlockDiagram.Proofs.Validation.Schedule
import BlockDiagram.Proofs.Validation.Wording
import BlockDiagram.Proofs.Graph.Serial
import BlockDiagram.Proofs.Validation.CycleCourse
