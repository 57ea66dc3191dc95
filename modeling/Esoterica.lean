import Esoterica.Word
import Esoterica.Text
import Esoterica.Text.Control
import Esoterica.Text.Utf8
import Esoterica.Error
import Esoterica.Input
import Esoterica.Output
import Esoterica.Stack
import Esoterica.Plane.Direction
import Esoterica.Plane.Pointer
import Esoterica.Json
import Esoterica.Json.Reader
import Esoterica.Language
import Esoterica.Options
import Esoterica.Options.Reader
import Esoterica.Image
import Esoterica.Image.Ppm
import Esoterica.Machine
import Esoterica.Machine.Note
import Esoterica.Machine.Run
import Esoterica.Machine.Snapshot
import Esoterica.Machine.State
import Esoterica.Brainfuck.Machine
import Esoterica.Brainfuck.Program
import Esoterica.Brainfuck.Tape
import Esoterica.Befunge.Dice
import Esoterica.Befunge.Field
import Esoterica.Befunge.Machine
import Esoterica.Befunge.Op
import Esoterica.Malbolge.Machine
import Esoterica.Malbolge.Op
import Esoterica.Malbolge.Program
import Esoterica.Malbolge.Trits
import Esoterica.Whitespace.Heap
import Esoterica.Whitespace.Machine
import Esoterica.Whitespace.Op
import Esoterica.Whitespace.Program
import Esoterica.Piet.Block
import Esoterica.Piet.Codels
import Esoterica.Piet.Color
import Esoterica.Piet.Command
import Esoterica.Piet.Machine
import Esoterica.Piet.Trace
import Esoterica.Program
import Esoterica.Reference
import Esoterica.Reference.Chapter
import Esoterica.Source
import Esoterica.CommandLine.Arguments
import Esoterica.CommandLine.Directory
import Esoterica.CommandLine.Host
import Esoterica.CommandLine.Request
import Esoterica.Main
import Esoterica.Proofs.Word
import Esoterica.Proofs.Loading
import Esoterica.Proofs.Machine.Cycles
import Esoterica.Proofs.Machine.Conclusion
import Esoterica.Proofs.Machine.Faults
import Esoterica.Proofs.Machine.Reaches
import Esoterica.Proofs.Machine.Lockstep
import Esoterica.Proofs.Brainfuck.Code
import Esoterica.Proofs.Brainfuck.Refinement
import Esoterica.Proofs.Brainfuck.Brackets
import Esoterica.Proofs.Brainfuck.Extent
import Esoterica.Proofs.Whitespace.Grammar
import Esoterica.Proofs.Whitespace.RoundTrip
import Esoterica.Proofs.Program.Accepted
import Esoterica.Proofs.Program.Faults
import Esoterica.Proofs.Program.Accounting
import Esoterica.Proofs.Piet.Fill
import Esoterica.Proofs.Piet.Exit
import Esoterica.Proofs.Piet.Cycle
import Esoterica.Proofs.Piet.Course
import Esoterica.Proofs.Piet.Slide
import Esoterica.Proofs.Piet.Retry
import Esoterica.Proofs.Piet.Appearance
import Esoterica.Proofs.Machine.Limits
import Esoterica.Proofs.Program.Limits
import Esoterica.Proofs.Machine.Underflow
import Esoterica.Proofs.Program.Underflow
import Esoterica.Proofs.Befunge.Shape
import Esoterica.Proofs.Befunge.Walk
import Esoterica.Proofs.Befunge.Torus
import Esoterica.Proofs.Befunge.Strides
import Esoterica.Proofs.Befunge.Comment
import Esoterica.Proofs.Befunge.Dialects
import Esoterica.Proofs.Malbolge.Loader
import Esoterica.Proofs.Malbolge.Cycle
import Esoterica.Proofs.Whitespace.Flow
import Esoterica.Proofs.Image.Layout
import Esoterica.Proofs.Image.Formats
import Esoterica.Proofs.Image.Painting
import Esoterica.Proofs.Image.RoundTrip
import Esoterica.Proofs.Piet.Canvas
import Esoterica.Proofs.Source.Rows
import Esoterica.Proofs.Source.Fence
import Esoterica.Proofs.Befunge.Jump
import Esoterica.Proofs.Befunge.Memory
import Esoterica.Proofs.Befunge.Quotation
import Esoterica.Proofs.Stack.Height
import Esoterica.Proofs.Stack.Roll
import Esoterica.Proofs.Stack.Limit
import Esoterica.Proofs.Piet.Ignored
import Esoterica.Proofs.Word.Division
import Esoterica.Proofs.Input.Reading
import Esoterica.Proofs.Befunge.Printing
import Esoterica.Proofs.Source.Grid
import Esoterica.Proofs.Whitespace.Literal
import Esoterica.Proofs.Source.Letters
import Esoterica.Proofs.Malbolge.Filling
import Esoterica.Proofs.Piet.Trace
import Esoterica.Proofs.Program.Overshoot
