import Lox.Commands
import Lox.Grammar
import Lox.Layout
import Lox.Main
import Lox.Parser.Moments
import Lox.Parser.Openings
import Lox.Parser.Recovery
import Lox.Scan.Rounds
import Lox.Segment.Cut
import Lox.Proofs.Parser.Outcome
import Lox.Proofs.Parser.Completeness
import Lox.Proofs.Parser.Reachable
import Lox.Proofs.Parser.ViablePrefix
import Lox.Proofs.Parser.PanicMode
import Lox.Proofs.Parser.NestingLimit
import Lox.Proofs.Parser.Walk
import Lox.Proofs.Parser.Moments
import Lox.Proofs.Parser.Safety
import Lox.Proofs.Parser.Fresh
import Lox.Proofs.Parser.Boundary
import Lox.Proofs.Parser.Relabel
import Lox.Proofs.Parser.Language
import Lox.Proofs.Segment.Longest
import Lox.Proofs.Segment.Unique
import Lox.Proofs.Segment.Blank
import Lox.Proofs.Segment.Read
import Lox.Proofs.Scan.Reading
import Lox.Proofs.Scan.Lines
import Lox.Proofs.Scan.Layout
import Lox.Proofs.Scan.LineBreak
import Lox.Proofs.Scan.Mending
import Lox.Proofs.Scan.Safety
import Lox.Proofs.Text.Front
import Lox.Proofs.Text.Digits
import Lox.Proofs.Text.Quoted
import Lox.Proofs.Number.ReadBack
import Lox.Proofs.Number.Printed
import Lox.Proofs.Expr.Printed
import Lox.Proofs.Session.Findings
import Lox.Proofs.Session.Commands
import Lox.Proofs.Session.Sinks
import Lox.Proofs.Session.Dump
import Lox.Proofs.CommandLine.File
import Lox.Proofs.CommandLine.Prompt
import Lox.Cursor.Moves
import Lox.Proofs.Cursor.Moves
import Lox.Proofs.Cursor.Position
import Lox.Proofs.Cursor.Equality
import Lox.Proofs.Number.Order
import Lox.Proofs.Number.Plain
import Lox.Proofs.Scan.Numeral
