import BlockSketch.Main
import BlockSketch.Disk.Memory
import BlockSketch.Workspace.Edit
import BlockSketch.Proofs.Program.Printing
import BlockSketch.Proofs.Program.Sharing
import BlockSketch.Proofs.Program.Hoisting
import BlockSketch.Proofs.Document.Coverage
import BlockSketch.Proofs.Workspace.Integrity
import BlockSketch.Proofs.Program.Editing
import BlockSketch.Proofs.Document.Acceptance
import BlockSketch.Proofs.Program.Arrangement
import BlockSketch.Proofs.Workspace.RootOrder
import BlockSketch.Proofs.Workspace.Reach
import BlockSketch.Proofs.Text.Tidying
import BlockSketch.Proofs.Program.Termination
import BlockSketch.Proofs.Program.Layout
import BlockSketch.Proofs.Program.Skipping
import BlockSketch.Proofs.Document.Naming
import BlockSketch.Proofs.Program.Slots
import BlockSketch.Proofs.Workspace.Removal
import BlockSketch.Proofs.Workspace.Undo
import BlockSketch.Proofs.Program.Quotation
import BlockSketch.Proofs.Case.Fences
import BlockSketch.Proofs.Program.Literals
import BlockSketch.Proofs.Program.Lasting
import BlockSketch.Proofs.Catalogue.Listing
import BlockSketch.Proofs.Program.VariableNames
import BlockSketch.Proofs.Text.Places
