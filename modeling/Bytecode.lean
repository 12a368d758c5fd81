import Bytecode.Folder
import Bytecode.Main
import Bytecode.Proofs.Address.Canonical
import Bytecode.Proofs.Command.Layers
import Bytecode.Proofs.Command.Outcome
import Bytecode.Proofs.Command.Warnings
import Bytecode.Proofs.Document.RoundTrip
import Bytecode.Proofs.Document.Truncation
import Bytecode.Proofs.Render.Comments
import Bytecode.Proofs.Render.Formats
import Bytecode.Proofs.Render.Labels
import Bytecode.Proofs.Render.Lines
import Bytecode.Proofs.Render.Quoted
import Bytecode.Proofs.Render.References
import Bytecode.Proofs.Render.Room
import Bytecode.Proofs.Store.Acceptance
import Bytecode.Proofs.Store.Contract
import Bytecode.Proofs.Store.Growth
import Bytecode.Proofs.Store.Slices
