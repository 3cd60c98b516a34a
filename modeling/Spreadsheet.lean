import Spreadsheet.Exchange.Expr
import Spreadsheet.Main
import Spreadsheet.Proofs.Accepting
import Spreadsheet.Proofs.Accounting
import Spreadsheet.Proofs.Aggregates
import Spreadsheet.Proofs.Alarms
import Spreadsheet.Proofs.Alignment
import Spreadsheet.Proofs.Ample
import Spreadsheet.Proofs.Areas
import Spreadsheet.Proofs.Blanks
import Spreadsheet.Proofs.Boards
import Spreadsheet.Proofs.Callable
import Spreadsheet.Proofs.Calls
import Spreadsheet.Proofs.CaseGrowth
import Spreadsheet.Proofs.Ceiling
import Spreadsheet.Proofs.Characters
import Spreadsheet.Proofs.CleanCalls
import Spreadsheet.Proofs.Collapse
import Spreadsheet.Proofs.Columns
import Spreadsheet.Proofs.Comparison
import Spreadsheet.Proofs.Counts
import Spreadsheet.Proofs.Cutoff
import Spreadsheet.Proofs.Decimals
import Spreadsheet.Proofs.DocumentNumbers
import Spreadsheet.Proofs.Documents
import Spreadsheet.Proofs.Doubles
import Spreadsheet.Proofs.Editing
import Spreadsheet.Proofs.EndToken
import Spreadsheet.Proofs.Entries
import Spreadsheet.Proofs.Exact
import Spreadsheet.Proofs.Expression
import Spreadsheet.Proofs.Extremes
import Spreadsheet.Proofs.Finite
import Spreadsheet.Proofs.FirstError
import Spreadsheet.Proofs.FixedDecimals
import Spreadsheet.Proofs.Folding
import Spreadsheet.Proofs.Fuel
import Spreadsheet.Proofs.Grammar
import Spreadsheet.Proofs.History
import Spreadsheet.Proofs.Intervals
import Spreadsheet.Proofs.Invariant
import Spreadsheet.Proofs.Isolation
import Spreadsheet.Proofs.Leaves
import Spreadsheet.Proofs.LetterCase
import Spreadsheet.Proofs.Literals
import Spreadsheet.Proofs.Loading
import Spreadsheet.Proofs.Lockstep
import Spreadsheet.Proofs.Masking
import Spreadsheet.Proofs.Members
import Spreadsheet.Proofs.Names
import Spreadsheet.Proofs.Nearest
import Spreadsheet.Proofs.Nesting
import Spreadsheet.Proofs.NumberWidth
import Spreadsheet.Proofs.Numerals
import Spreadsheet.Proofs.Occurrences
import Spreadsheet.Proofs.Operators
import Spreadsheet.Proofs.Ordinary
import Spreadsheet.Proofs.Origins
import Spreadsheet.Proofs.Parsing
import Spreadsheet.Proofs.Plain
import Spreadsheet.Proofs.Quoting
import Spreadsheet.Proofs.Readers
import Spreadsheet.Proofs.Reading
import Spreadsheet.Proofs.Repetition
import Spreadsheet.Proofs.Rereading
import Spreadsheet.Proofs.Resolution
import Spreadsheet.Proofs.Respelling
import Spreadsheet.Proofs.Results
import Spreadsheet.Proofs.Retyping
import Spreadsheet.Proofs.Rings
import Spreadsheet.Proofs.Scalars
import Spreadsheet.Proofs.ShortestDecimals
import Spreadsheet.Proofs.Sound
import Spreadsheet.Proofs.Spelling
import Spreadsheet.Proofs.Steady
import Spreadsheet.Proofs.Strict
import Spreadsheet.Proofs.StyleKeys
import Spreadsheet.Proofs.Substitution
import Spreadsheet.Proofs.Substrings
import Spreadsheet.Proofs.Texts
import Spreadsheet.Proofs.Tiling
import Spreadsheet.Proofs.Uncached
import Spreadsheet.Proofs.Vocabulary
import Spreadsheet.Proofs.Wider
import Spreadsheet.Proofs.Words
