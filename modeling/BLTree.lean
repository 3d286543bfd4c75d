import BLTree.Command.Run
import BLTree.Fault
import BLTree.Json.Decode
import BLTree.Json.Encode
import BLTree.Load
import BLTree.Main
import BLTree.Statement.Kernel
import BLTree.Text.Decimal
import BLTree.Text.Quoted
import BLTree.Workspace.Basic
import BLTree.Workspace.Forest
import BLTree.Proofs.Addresses
import BLTree.Proofs.Assembly
import BLTree.Proofs.BlockEditing
import BLTree.Proofs.Brackets
import BLTree.Proofs.Colours
import BLTree.Proofs.Commands
import BLTree.Proofs.Conservation
import BLTree.Proofs.Construction
import BLTree.Proofs.Contracts
import BLTree.Proofs.Drawings
import BLTree.Proofs.Flaws
import BLTree.Proofs.Forests
import BLTree.Proofs.Grammar
import BLTree.Proofs.Json.Acceptance
import BLTree.Proofs.Json.Budgets
import BLTree.Proofs.Json.Duplicates
import BLTree.Proofs.Json.Extents
import BLTree.Proofs.Json.Fronts
import BLTree.Proofs.Json.Indifference
import BLTree.Proofs.Json.Leaves
import BLTree.Proofs.Json.Levels
import BLTree.Proofs.Json.Listing
import BLTree.Proofs.Json.Patience
import BLTree.Proofs.Json.Placement
import BLTree.Proofs.Json.Places
import BLTree.Proofs.Json.ProgramConformance
import BLTree.Proofs.Json.Records
import BLTree.Proofs.Json.Reordering
import BLTree.Proofs.Json.Results
import BLTree.Proofs.Json.RoundTrip
import BLTree.Proofs.Json.Schema
import BLTree.Proofs.Json.Skipping
import BLTree.Proofs.Json.Structures
import BLTree.Proofs.Json.TreeConformance
import BLTree.Proofs.Json.Trees
import BLTree.Proofs.Json.Truncation
import BLTree.Proofs.Json.TwoTexts
import BLTree.Proofs.Kernel
import BLTree.Proofs.Labels
import BLTree.Proofs.Offenders
import BLTree.Proofs.Positions
import BLTree.Proofs.ProgramRuns
import BLTree.Proofs.Replacement
import BLTree.Proofs.Runs
import BLTree.Proofs.Summaries
import BLTree.Proofs.Swaps
import BLTree.Proofs.Words
