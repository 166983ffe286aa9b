import LineBasic.Main
import LineBasic.Proofs.Calculus
import LineBasic.Proofs.Mild
import LineBasic.Proofs.Steady
import LineBasic.Proofs.Control
import LineBasic.Proofs.Steps
import LineBasic.Proofs.FrameStack
import LineBasic.Proofs.Nesting
import LineBasic.Proofs.Enclosing
import LineBasic.Proofs.Mirror
import LineBasic.Proofs.Recovery
import LineBasic.Proofs.Isolation
import LineBasic.Proofs.Origins
import LineBasic.Proofs.Indents
import LineBasic.Proofs.Around
import LineBasic.Proofs.Sections
import LineBasic.Proofs.Attempts
import LineBasic.Proofs.Clauses
import LineBasic.Proofs.Finally
import LineBasic.Proofs.BigStep
import LineBasic.Proofs.Worlds
import LineBasic.Proofs.StepLaws
import LineBasic.Proofs.Refinement
import LineBasic.Proofs.LabelIndex
import LineBasic.Proofs.References
import LineBasic.Proofs.Names
import LineBasic.Proofs.Storage
import LineBasic.Proofs.Types
import LineBasic.Proofs.Capitals
import LineBasic.Proofs.Twins
import LineBasic.Proofs.Echoes
import LineBasic.Proofs.LetterCase
import LineBasic.Proofs.Reading
import LineBasic.Proofs.Relocation
import LineBasic.Proofs.Carriage
import LineBasic.Proofs.Convoy
import LineBasic.Proofs.Comments
import LineBasic.Proofs.Budget
import LineBasic.Proofs.Sizes
import LineBasic.Proofs.Capacity
import LineBasic.Proofs.Exits
import LineBasic.Proofs.Rounding
import LineBasic.Proofs.Presence
import LineBasic.Proofs.Counting
import LineBasic.Proofs.Rounds
import LineBasic.Proofs.Laps
import LineBasic.Proofs.Sites
import LineBasic.Proofs.Swap
import LineBasic.Proofs.Cases
import LineBasic.Proofs.Addresses
import LineBasic.Proofs.Assignment
import LineBasic.Proofs.Removal
import LineBasic.Proofs.FailedCalls
import LineBasic.Proofs.OwnLines
import LineBasic.Proofs.Pairing
import LineBasic.Proofs.ArrayForm
import LineBasic.Proofs.Subscripts
import LineBasic.Proofs.Overwriting
import LineBasic.Proofs.Requests
import LineBasic.Proofs.Handles
import LineBasic.Proofs.ReadWrite
import LineBasic.Proofs.Appending
import LineBasic.Proofs.RoundTrip
import LineBasic.Proofs.Functions
import LineBasic.Proofs.TextSearch
import LineBasic.Proofs.Numerals
import LineBasic.Proofs.TextNumbers
import LineBasic.Proofs.Tracing
import LineBasic.Proofs.Painting
import LineBasic.Proofs.Locations
import LineBasic.Proofs.ArrayNames
