import Blockwork.Chain.Structure
import Blockwork.Controller
import Blockwork.Main
import Blockwork.Program.Format
import Blockwork.Proofs.Bodies
import Blockwork.Proofs.Calls
import Blockwork.Proofs.Natives
import Blockwork.Proofs.Resolution
import Blockwork.Proofs.Runs
import Blockwork.Proofs.Trees
import Blockwork.Session.Progress
import Blockwork.Text.Lower
import Blockwork.Value.Order
import Blockwork.Proofs.Gate
import Blockwork.Proofs.FrameRuns
import Blockwork.Proofs.Reference
import Blockwork.Proofs.Simulation
import Blockwork.Proofs.ControlBlocks
import Blockwork.Proofs.Agreement
import Blockwork.Proofs.Evaluations
import Blockwork.Proofs.Unseen
import Blockwork.Proofs.Stops
import Blockwork.Proofs.Cancellation
import Blockwork.Proofs.Contexts
import Blockwork.Proofs.Isolation
import Blockwork.Proofs.Termination
import Blockwork.Proofs.JsonNumbers
import Blockwork.Proofs.JsonRecords
import Blockwork.Proofs.ChainNumbers
import Blockwork.Proofs.Loading
import Blockwork.Proofs.Snapshots
import Blockwork.Proofs.Ends
import Blockwork.Proofs.Workers
import Blockwork.Proofs.Registries
import Blockwork.Proofs.Protocol
import Blockwork.Proofs.Preparation
import Blockwork.Proofs.Defects
import Blockwork.Proofs.Lookups
import Blockwork.Proofs.Origins
import Blockwork.Proofs.CallDepth
import Blockwork.Proofs.Grammar
import Blockwork.Proofs.Completions
import Blockwork.Proofs.Reuse
import Blockwork.Proofs.Shifts
import Blockwork.Proofs.Neutrality
import Blockwork.Proofs.Scopes
import Blockwork.Proofs.Locations
import Blockwork.Proofs.Gathering
import Blockwork.Proofs.Parameters
import Blockwork.Proofs.SnapshotStream
import Blockwork.Proofs.ArgumentEdits
import Blockwork.Proofs.EditHistories
import Blockwork.Proofs.Recording
import Blockwork.Proofs.RegistryHistories
import Blockwork.Proofs.Listings
import Blockwork.Proofs.ListingLines
import Blockwork.Proofs.Labels
import Blockwork.Proofs.FloatOrder
import Blockwork.Proofs.FloatWords
import Blockwork.Proofs.FloatRounding
import Blockwork.Proofs.WholeNumbers
import Blockwork.Proofs.NumberTexts
import Blockwork.Proofs.LowerCase
import Blockwork.Proofs.Numerals
import Blockwork.Proofs.LooseOrder
import Blockwork.Proofs.Writes
import Blockwork.Proofs.Expectations
import Blockwork.Proofs.TomlEnds
import Blockwork.Proofs.FrontMatter
import Blockwork.Proofs.Paths
import Blockwork.Proofs.Folders
import Blockwork.Proofs.SelectedTests
