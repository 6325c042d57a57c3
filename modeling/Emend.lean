import Emend.Host.RustTree
import Emend.Host.Spans
import Emend.Host.Table
import Emend.Proofs.Acceptance
import Emend.Proofs.Cuts
import Emend.Proofs.Forest
import Emend.Proofs.Outcomes
import Emend.Proofs.Programs
import Emend.Proofs.StableOrder
import Emend.Proofs.Weaving
import Emend.Query
import Emend.Session
import Emend.Settings.Change
import Emend.Template.Cache
import Emend.Proofs.Invariance
import Emend.Proofs.Insertions
import Emend.Proofs.Placeholders
import Emend.Proofs.TemplateGrammar
import Emend.Proofs.TemplateCache
import Emend.Proofs.Decoding
import Emend.Proofs.Subtrees
import Emend.Proofs.Selection
import Emend.Proofs.Widening
import Emend.Proofs.Listings
import Emend.Proofs.WholeLines
import Emend.Proofs.Wrapping
import Emend.Proofs.Dedenting
import Emend.Proofs.Statements
import Emend.Proofs.Hulls
import Emend.Proofs.KeptSpans
import Emend.Proofs.MovedEdits
import Emend.Proofs.NormalForms
import Emend.Proofs.PathGrammar
import Emend.Proofs.Indentation
import Emend.Proofs.Bindings
import Emend.Proofs.Braces
import Emend.Proofs.MachineWords
import Emend.Proofs.Breakdowns
import Emend.Proofs.Literals
import Emend.Proofs.Offsets
import Emend.Proofs.TrailingNewlines
import Emend.Proofs.Validation
import Emend.Proofs.Walking
