import FrontEnd.Scan.Scanner
import FrontEnd.Scan.Rules
import FrontEnd.Cursor.Text
import FrontEnd.Cursor.Source
import FrontEnd.Input.Decoder
import FrontEnd.Input.Script
import FrontEnd.Recording
import FrontEnd.Parse.Engine
import FrontEnd.Table.Routine
import FrontEnd.Proofs.Operators.Printing
import FrontEnd.Proofs.Operators.Barring
import FrontEnd.Proofs.Parse.Unwinding
import FrontEnd.Proofs.Text.Encoding
import FrontEnd.Proofs.Input.Decoding
import FrontEnd.Proofs.Cursor.View
import FrontEnd.Proofs.Scan.Simulation
import FrontEnd.Proofs.Scan.Strategies
import FrontEnd.Proofs.Scan.Spans
import FrontEnd.Proofs.Scan.Failure
import FrontEnd.Proofs.Parse.Sessions
import FrontEnd.Proofs.Parse.Locality
import FrontEnd.Proofs.Scan.Calls
import FrontEnd.Proofs.Scan.Ending
import FrontEnd.Proofs.Replaying
import FrontEnd.Proofs.Scan.Reuse
import FrontEnd.Proofs.Text.Sequences
import FrontEnd.Proofs.Input.Exactness
import FrontEnd.Proofs.Parse.Taking
import FrontEnd.Proofs.Parse.Termination
import FrontEnd.Proofs.Input.Buffering
import FrontEnd.Proofs.Input.Accounting
import FrontEnd.Proofs.Parse.Nesting
import FrontEnd.Proofs.Parse.Tightness
import FrontEnd.Proofs.Parse.Looseness
import FrontEnd.Proofs.Parse.Repetition
import FrontEnd.Proofs.Text.Lookup
import FrontEnd.Proofs.Cursor.Histories
import FrontEnd.Proofs.Cursor.Boundaries
import FrontEnd.Proofs.Cursor.Bounded
import FrontEnd.Proofs.Scan.Draining
import FrontEnd.Proofs.Scan.LongestRuns
