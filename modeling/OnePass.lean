import OnePass.Main
import OnePass.Proofs.Caret
import OnePass.Proofs.Composition
import OnePass.Proofs.Containment
import OnePass.Proofs.Display
import OnePass.Proofs.EndOfInput
import OnePass.Proofs.Environments
import OnePass.Proofs.ErrorBound
import OnePass.Proofs.Evaluation
import OnePass.Proofs.Height
import OnePass.Proofs.LabelCheck
import OnePass.Proofs.Layout
import OnePass.Proofs.Lexical.Lines
import OnePass.Proofs.ListingText
import OnePass.Proofs.Lowering
import OnePass.Proofs.Names
import OnePass.Proofs.Redeclaration
import OnePass.Proofs.Renaming
import OnePass.Proofs.Restoration
import OnePass.Proofs.Termination
import OnePass.Proofs.Terminator
