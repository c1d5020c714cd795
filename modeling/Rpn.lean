import Rpn.Bytes
import Rpn.Constant.Builtin
import Rpn.Constant.Code
import Rpn.Constant.Compile
import Rpn.Constant.Expr
import Rpn.Constant.Failure
import Rpn.Constant.Grammar
import Rpn.Constant.Interpreter
import Rpn.Constant.Language
import Rpn.Constant.Layout
import Rpn.Constant.Lexeme
import Rpn.Constant.Operation
import Rpn.Constant.Real
import Rpn.Constant.Strand
import Rpn.Constant.Value
import Rpn.Emulator
import Rpn.Emulator.Narration
import Rpn.Error
import Rpn.Expander
import Rpn.Expander.Pattern
import Rpn.Feed
import Rpn.Listing
import Rpn.Literal
import Rpn.Machine
import Rpn.Machine.Narration
import Rpn.Operator
import Rpn.Proofs.Machine.Effect
import Rpn.Register
import Rpn.Stack
import Rpn.Symbol
import Rpn.Table
import Rpn.Text.Blank
import Rpn.Text.Decimal
import Rpn.Text.Letter
import Rpn.Text.Printable
import Rpn.Text.Quoted
import Rpn.Text.Template
import Rpn.Text.Utf8
import Rpn.Tokens
import Rpn.Proofs.Machine.LockStep
import Rpn.Proofs.ExpressionTree
import Rpn.Proofs.Emulator.Effect
import Rpn.Proofs.Emulator.FailedTick
import Rpn.Proofs.Emulator.Run
import Rpn.Proofs.Listing
import Rpn.Proofs.Emulator.Setting
import Rpn.Proofs.Emulator.Rearrangement
import Rpn.Proofs.Emulator.History
import Rpn.Proofs.Expander.Items
import Rpn.Proofs.Text.Blank
import Rpn.Proofs.Listing.Statement
import Rpn.Proofs.Listing.RoundTrip
import Rpn.Proofs.Constant.Language
import Rpn.Proofs.Constant.Identifier
import Rpn.Proofs.Constant.Lexing
import Rpn.Proofs.Constant.Parsing
import Rpn.Proofs.Constant.Running
import Rpn.Proofs.Constant.Folding
import Rpn.Proofs.Expander.Delimiter
import Rpn.Proofs.Machine.Height
import Rpn.Proofs.Emulator.Reachable
import Rpn.Proofs.Machine.Fault
import Rpn.Proofs.Emulator.Fault
import Rpn.Proofs.Emulator.Iteration
import Rpn.Proofs.Machine.Concatenation
import Rpn.Proofs.Emulator.Reset
import Rpn.Proofs.Literal.Grammar
import Rpn.Proofs.Literal.Classification
import Rpn.Proofs.Tokens.Runs
import Rpn.Proofs.Tokens.Joining
import Rpn.Proofs.Machine.Origin
import Rpn.Proofs.Emulator.Origin
import Rpn.Proofs.Listing.Concatenation
import Rpn.Proofs.Word
import Rpn.Proofs.Operator
import Rpn.Proofs.Machine.Application
import Rpn.Proofs.Machine.Reading
import Rpn.Proofs.Literal.Spelling
import Rpn.Proofs.Listing.FirstWrong
import Rpn.Proofs.Constant.Prefixed
import Rpn.Proofs.Constant.Numeral
import Rpn.Proofs.Constant.Reading
import Rpn.Proofs.Constant.Literal
import Rpn.Proofs.Emulator.Assignment
import Rpn.Proofs.Expander.Matches
import Rpn.Proofs.Expander.Nesting
import Rpn.Proofs.Machine.Reversal
import Rpn.Proofs.Expander.History
import Rpn.Proofs.Tokens.Tidy
import Rpn.Proofs.Emulator.Tidy
import Rpn.Proofs.Expander.Rewriting
import Rpn.Proofs.Listing.Directive
import Rpn.Proofs.Feed
