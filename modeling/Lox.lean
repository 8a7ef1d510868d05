import Lox.Main
import Lox.Session
import Lox.Token.Fields
import Lox.Tree
import Lox.Proofs.Grammar
import Lox.Proofs.Reader
import Lox.Proofs.Reading
import Lox.Proofs.Acceptance
import Lox.Proofs.Recovery
import Lox.Proofs.Boundaries
import Lox.Proofs.LongestMatch
import Lox.Proofs.Execution
import Lox.Proofs.LineNumbers
import Lox.Proofs.Relining
import Lox.Proofs.Separation
import Lox.Proofs.LineEnds
import Lox.Proofs.Concatenation
import Lox.Proofs.Layout
import Lox.Proofs.Safety
import Lox.Proofs.Blame
import Lox.Proofs.Ledger
import Lox.Proofs.Typing
import Lox.Proofs.EntryPoints
import Lox.Proofs.Walking
import Lox.Proofs.Ahead
import Lox.Proofs.Pending
import Lox.Proofs.Prompting
import Lox.Proofs.Commands
import Lox.Proofs.Layering
import Lox.Proofs.Overriding
import Lox.Proofs.ValidPrefix
import Lox.Proofs.Repairs
import Lox.Proofs.Parenthesised
import Lox.Proofs.PostOrder
import Lox.Proofs.Telling
import Lox.Proofs.Terminated
import Lox.Proofs.Sameness
import Lox.Proofs.Numerals
import Lox.Proofs.Rendering
import Lox.Proofs.ReportLines
import Lox.Proofs.Marks
import Lox.Proofs.Bounds
