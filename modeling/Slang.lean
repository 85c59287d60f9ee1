import Slang.Main
import Slang.Tree.Printer
import Slang.Proofs.Grammar.Complete
import Slang.Proofs.Typing.Complete
import Slang.Proofs.Reported
import Slang.Proofs.Folding.Program
import Slang.Proofs.Outline.Augmented
import Slang.Proofs.Options
import Slang.Proofs.Layout
import Slang.Proofs.Places
import Slang.Proofs.Recovery
import Slang.Proofs.RoundTrip
import Slang.Proofs.Calls.Ends
import Slang.Proofs.Guards.Source
import Slang.Proofs.Guards.Asked
import Slang.Proofs.Diagnostics
import Slang.Proofs.Lines.Rendered
import Slang.Proofs.Forest
import Slang.Proofs.Linked
import Slang.Proofs.Reuse
import Slang.Proofs.Exchange
import Slang.Proofs.Batch
import Slang.Proofs.Folding.Exact
import Slang.Proofs.Layers
import Slang.Proofs.Layers.Loaded
import Slang.Proofs.Flags
import Slang.Proofs.Verdict
import Slang.Proofs.Files
import Slang.Proofs.Scaffold
import Slang.Proofs.Scaffold.Again
import Slang.Proofs.Descriptors
import Slang.Proofs.Written.Program
