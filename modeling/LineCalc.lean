import LineCalc.CommandLine.Program
import LineCalc.Listing
import LineCalc.Main
import LineCalc.Number.Bits
import LineCalc.OneShot
import LineCalc.Proofs.Acceptance
import LineCalc.Proofs.Layout
import LineCalc.Proofs.Postorder
import LineCalc.Proofs.Meaning
import LineCalc.Tour
import LineCalc.Proofs.Agreement
import LineCalc.Proofs.Naming
import LineCalc.Proofs.Interpretation
import LineCalc.Proofs.Region
import LineCalc.Proofs.Alongside
import LineCalc.Proofs.Trailing
import LineCalc.Proofs.Sequencing
import LineCalc.Proofs.Stopping
import LineCalc.Proofs.Feeding
import LineCalc.Proofs.Location
import LineCalc.Proofs.Batches
import LineCalc.Proofs.Supply
import LineCalc.Proofs.Balance
import LineCalc.Proofs.Dangling
import LineCalc.Proofs.Handles
import LineCalc.Proofs.Numerals
import LineCalc.Proofs.Printing
import LineCalc.Proofs.Segmentation
import LineCalc.Proofs.Rounding
import LineCalc.Proofs.Effects
import LineCalc.Proofs.Departure
import LineCalc.Proofs.Unfilled
import LineCalc.Proofs.Places
import LineCalc.Proofs.Journal
import LineCalc.Proofs.Store
import LineCalc.Proofs.Readback
import LineCalc.Proofs.Logging
import LineCalc.Proofs.Conservation
import LineCalc.Proofs.Answers
import LineCalc.Proofs.Scripts
import LineCalc.Proofs.Dialogue
import LineCalc.Proofs.Extents
import LineCalc.Proofs.Alignment
import LineCalc.Proofs.Atomicity
import LineCalc.Proofs.Sealing
import LineCalc.Proofs.Retention
import LineCalc.Proofs.Unbound
import LineCalc.Proofs.Layering
import LineCalc.Proofs.Underlining
import LineCalc.Proofs.Nearness
import LineCalc.Proofs.Shortness
import LineCalc.Proofs.Canonical
