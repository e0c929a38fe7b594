import DocBlock.Text.Offset
import DocBlock.Main
import DocBlock.Proofs.Conservation
import DocBlock.Proofs.Overflow
import DocBlock.Proofs.Survival
import DocBlock.Proofs.Replacement
import DocBlock.Proofs.Boundary
import DocBlock.Proofs.Definition
import DocBlock.Proofs.Rerun
import DocBlock.Proofs.Provenance
import DocBlock.Proofs.Transparency
import DocBlock.Proofs.Attempts
import DocBlock.Proofs.Recovery
import DocBlock.Proofs.Layout
import DocBlock.Proofs.HeadedOnce
import DocBlock.Proofs.BoilerplateReread
import DocBlock.Proofs.Opacity
import DocBlock.Proofs.History
import DocBlock.Proofs.Bracketing
import DocBlock.Proofs.Spelling
import DocBlock.Proofs.Mining
import DocBlock.Proofs.Places
import DocBlock.Proofs.Parameters
import DocBlock.Proofs.ReturnValue
import DocBlock.Proofs.MarkedComment
import DocBlock.Proofs.ExitCode
import DocBlock.Proofs.Loading
import DocBlock.Proofs.Outcome
