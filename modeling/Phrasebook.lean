import Phrasebook.Batch.Execute
import Phrasebook.Command.Encoding
import Phrasebook.CommandLine.Run
import Phrasebook.Main
import Phrasebook.Proofs.Batch.Execute
import Phrasebook.Proofs.Batch.Lines
import Phrasebook.Proofs.Batch.Outputs
import Phrasebook.Proofs.Grammar.Encoding
import Phrasebook.Proofs.Command.Resolve
import Phrasebook.Proofs.Grammar.PrintCompile
import Phrasebook.Proofs.Input.Respelling
import Phrasebook.Proofs.Value.Places
import Phrasebook.Proofs.Value.Span
import Phrasebook.Proofs.Value.Spelling
import Phrasebook.Proofs.Grammar.Language
import Phrasebook.Proofs.Batch.Steps
import Phrasebook.Proofs.Command.Candidates
import Phrasebook.Proofs.Grammar.Predictive
import Phrasebook.Proofs.Batch.Await
import Phrasebook.Proofs.Grammar.Sayable
import Phrasebook.Proofs.Grammar.Soundness
import Phrasebook.Proofs.Command.Literals
import Phrasebook.Proofs.Command.Arguments
import Phrasebook.Proofs.Input.Layout
import Phrasebook.Proofs.Input.Plain
import Phrasebook.Proofs.Command.Decoding
import Phrasebook.Proofs.Command.Escaping
import Phrasebook.Proofs.Command.Integers
import Phrasebook.Proofs.Grammar.WellFormed
import Phrasebook.Proofs.Input.Faults
import Phrasebook.Proofs.Grammar.Nesting
import Phrasebook.Proofs.Grammar.Composition
import Phrasebook.Proofs.Command.Encoding
import Phrasebook.Proofs.Number.Notation
import Phrasebook.Proofs.CommandFile
import Phrasebook.Proofs.Value.JsonText
import Phrasebook.Proofs.CommandLine.Run
import Phrasebook.Proofs.Grammar.Trimming
import Phrasebook.Proofs.Grammar.Closing
import Phrasebook.Proofs.Rounds
import Phrasebook.Proofs.Grammar.Scanning
import Phrasebook.Proofs.Input.Progress
