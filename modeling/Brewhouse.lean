import Brewhouse.Bench.Line
import Brewhouse.Bench.Pins
import Brewhouse.Board.Instruments
import Brewhouse.Board.Station
import Brewhouse.Brewery
import Brewhouse.Configuration
import Brewhouse.Configuration.Document
import Brewhouse.Console.Basic
import Brewhouse.Control
import Brewhouse.Controller
import Brewhouse.Document
import Brewhouse.Equipment
import Brewhouse.Exact.Binary
import Brewhouse.Exact.Decimal
import Brewhouse.Fault
import Brewhouse.Journal
import Brewhouse.Proofs.Board.Frame
import Brewhouse.Proofs.Board.Metered
import Brewhouse.Proofs.Board.Relays
import Brewhouse.Proofs.Board.Window
import Brewhouse.Proofs.Brewery.Consent
import Brewhouse.Proofs.Brewery.Relays
import Brewhouse.Proofs.Brewery.SwitchOff
import Brewhouse.Proofs.Configuration
import Brewhouse.Proofs.Console.Answering
import Brewhouse.Proofs.Console.Framing
import Brewhouse.Proofs.Console.Handover
import Brewhouse.Proofs.Console.Session
import Brewhouse.Proofs.Console.Writing
import Brewhouse.Proofs.Control.Filling
import Brewhouse.Proofs.Control.Heating
import Brewhouse.Proofs.Control.Hysteresis
import Brewhouse.Proofs.Control.Regulation
import Brewhouse.Proofs.Controller.Agreement
import Brewhouse.Proofs.Controller.Ceiling
import Brewhouse.Proofs.Controller.Leftover
import Brewhouse.Proofs.Controller.Lifecycle
import Brewhouse.Proofs.Controller.Memory
import Brewhouse.Proofs.Controller.Refill
import Brewhouse.Proofs.Controller.Regulated
import Brewhouse.Proofs.Controller.Run
import Brewhouse.Proofs.Controller.Targets
import Brewhouse.Proofs.Controller.Trace
import Brewhouse.Proofs.Exact.Arithmetic
import Brewhouse.Proofs.Exact.Pattern
import Brewhouse.Proofs.Exact.Rounding
import Brewhouse.Proofs.Exact.Significand
import Brewhouse.Proofs.Exact.Single
import Brewhouse.Proofs.Exact.Value
import Brewhouse.Proofs.Exact.Word
import Brewhouse.Proofs.Place
import Brewhouse.Proofs.Recipe.Amount
import Brewhouse.Proofs.Recipe.Caseless
import Brewhouse.Proofs.Recipe.Conversion
import Brewhouse.Proofs.Recipe.Cutting
import Brewhouse.Proofs.Recipe.Grammar
import Brewhouse.Proofs.Recipe.Joined
import Brewhouse.Proofs.Recipe.Location
import Brewhouse.Proofs.Recipe.Meaning
import Brewhouse.Proofs.Recipe.NormalForm
import Brewhouse.Proofs.Recipe.Numeral
import Brewhouse.Proofs.Recipe.Phrase
import Brewhouse.Proofs.Recipe.Tiling
import Brewhouse.Proofs.Script.Cascade
import Brewhouse.Proofs.Script.Effects
import Brewhouse.Proofs.Script.Prologue
import Brewhouse.Proofs.Script.RampUp
import Brewhouse.Proofs.Script.Timing
import Brewhouse.Proofs.Text.StatusLine
import Brewhouse.Proofs.Upload.Dialogue
import Brewhouse.Proofs.Upload.Language
import Brewhouse.Proofs.Upload.Loader
import Brewhouse.Proofs.Upload.Program
import Brewhouse.Proofs.Upload.Projection
import Brewhouse.Proofs.Upload.Registers
import Brewhouse.Proofs.Upload.Tally
import Brewhouse.Proofs.Upload.Transmittable
import Brewhouse.Recipe.Compile
import Brewhouse.Recipe.Lexeme
import Brewhouse.Recipe.Phrase
import Brewhouse.Recipe.Scan
import Brewhouse.Script
import Brewhouse.Statement
import Brewhouse.Telemetry
import Brewhouse.Text.Characters
import Brewhouse.Upload.Checked
import Brewhouse.Upload.Loader
import Brewhouse.Upload.Program
import Brewhouse.Upload.Projection
import Brewhouse.Upload.Registers
