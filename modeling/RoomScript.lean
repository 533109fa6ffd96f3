import RoomScript.Assembler
import RoomScript.Calculator
import RoomScript.Cli.Arguments
import RoomScript.Cli.Program
import RoomScript.Decimal.Shortest
import RoomScript.Doc
import RoomScript.Doc.Yaml
import RoomScript.Engine
import RoomScript.Fault
import RoomScript.Flags
import RoomScript.Headless
import RoomScript.Host
import RoomScript.Interpreter.Control
import RoomScript.Interpreter.Handlers
import RoomScript.Interpreter.Memory
import RoomScript.Interpreter.Reaction
import RoomScript.Interpreter.Staging
import RoomScript.Json.Basic
import RoomScript.Json.Number
import RoomScript.Json.Parser
import RoomScript.Layout
import RoomScript.Listing
import RoomScript.Machine
import RoomScript.Main
import RoomScript.Notice
import RoomScript.Opcode
import RoomScript.Payload.Basic
import RoomScript.Payload.Flow
import RoomScript.Payload.Memory
import RoomScript.Payload.Operands
import RoomScript.Payload.Stage
import RoomScript.Payload.Zone
import RoomScript.Pool
import RoomScript.Record.Config
import RoomScript.Record.Form
import RoomScript.Record.Payloads
import RoomScript.Record.State
import RoomScript.Script
import RoomScript.Session
import RoomScript.Single
import RoomScript.Table
import RoomScript.Text.Blank
import RoomScript.Text.Hex
import RoomScript.Thread
import RoomScript.Trace
import RoomScript.Cli.Folder
import RoomScript.Proofs.Effect
import RoomScript.Proofs.Run
import RoomScript.Proofs.ControlState
import RoomScript.Proofs.Building
import RoomScript.Proofs.Grammar
import RoomScript.Proofs.Assembly
import RoomScript.Proofs.Place
import RoomScript.Proofs.Alignment
import RoomScript.Proofs.Keeping
import RoomScript.Proofs.Nesting
import RoomScript.Proofs.Dispatch
import RoomScript.Proofs.Meaning
import RoomScript.Proofs.Statements
import RoomScript.Proofs.Structured
import RoomScript.Proofs.Blob
import RoomScript.Proofs.Events
import RoomScript.Proofs.RoomLoad
import RoomScript.Proofs.Moved
import RoomScript.Proofs.Relocation
import RoomScript.Proofs.Recycling
import RoomScript.Proofs.Turns
import RoomScript.Proofs.Isolation
import RoomScript.Proofs.Faulting
import RoomScript.Proofs.History
import RoomScript.Proofs.Selection
import RoomScript.Proofs.Levels
import RoomScript.Proofs.Trail
import RoomScript.Proofs.Sweeping
import RoomScript.Proofs.Decoding
import RoomScript.Proofs.Budget
import RoomScript.Proofs.Subroutines
import RoomScript.Proofs.Listings
import RoomScript.Proofs.RoundTrip
import RoomScript.Proofs.Sleeping
import RoomScript.Proofs.Pieces
import RoomScript.Proofs.Format
import RoomScript.Proofs.EarlyStop
import RoomScript.Proofs.Injection
import RoomScript.Proofs.FlagTable
import RoomScript.Proofs.Arithmetic
import RoomScript.Proofs.Registry
