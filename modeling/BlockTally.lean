import BlockTally.About
import BlockTally.Counter.Run
import BlockTally.Draft
import BlockTally.Program.Listing
import BlockTally.Proofs.Contract
import BlockTally.Proofs.Program.Growth
import BlockTally.Proofs.Program.Insertion
import BlockTally.Proofs.Program.WellFormed
import BlockTally.Proofs.Program.Conformity
import BlockTally.Proofs.Program.Linked
import BlockTally.Proofs.Exhaustion
import BlockTally.Proofs.Workspace.Sound
import BlockTally.Proofs.Workspace.FactFinding
import BlockTally.Proofs.Workspace.Contracts
import BlockTally.Proofs.Workspace.Types
import BlockTally.Proofs.Workspace.Constants
import BlockTally.Proofs.Counter.Buffer
import BlockTally.Proofs.Counter.Increment
import BlockTally.Proofs.Calls
import BlockTally.Proofs.Counter.Labels
import BlockTally.Proofs.Program.Instrumentation
import BlockTally.Proofs.Counter.Run
import BlockTally.Proofs.Counter.Outcome
import BlockTally.Proofs.Counter.Phis
import BlockTally.Proofs.Counter.Machine
import BlockTally.Proofs.Counter.Counting
import BlockTally.Proofs.Calls.BreadthFirst
import BlockTally.Proofs.Calls.Levels
import BlockTally.Proofs.Counter.Numbering
import BlockTally.Proofs.Workspace.Reading
import BlockTally.Proofs.Ty.Spelling
import BlockTally.Proofs.Workspace.Attaching
import BlockTally.Proofs.Workspace.Interning
import BlockTally.Proofs.Workspace.RoundTrip
import BlockTally.Proofs.Workspace.Reflection
import BlockTally.Proofs.Workspace.Safety
import BlockTally.Proofs.Workspace.Staleness
import BlockTally.Proofs.Facts.Features
import BlockTally.Proofs.Facts.Uses
import BlockTally.Proofs.Program.Layout
import BlockTally.Proofs.Workspace.Tracking
import BlockTally.Proofs.Workspace.Steps
import BlockTally.Proofs.Workspace.Upkeep
import BlockTally.Proofs.Counter.Upkeep
import BlockTally.Proofs.Counter.Operations
import BlockTally.Proofs.Workspace.Serving
import BlockTally.Proofs.Counter.Supply
import BlockTally.Proofs.Counter.Failure
import BlockTally.Proofs.Workspace.Readable
import BlockTally.Proofs.Counter.Completion
import BlockTally.Proofs.Ty.Meaning
import BlockTally.Proofs.Ty.Longer
import BlockTally.Proofs.Counter.Typing
import BlockTally.Proofs.Counter.Status
import BlockTally.Proofs.Program.Allotment
import BlockTally.Proofs.Counter.Allotment
import BlockTally.Proofs.Program.Building
import BlockTally.Proofs.Draft
import BlockTally.Proofs.Session
import BlockTally.Proofs.Workspace.Filing
import BlockTally.Proofs.Workspace.Rereading
import BlockTally.Proofs.Workspace.Recall
import BlockTally.Proofs.Counter.Presenting
import BlockTally.Proofs.Counter.RepeatedIncrements
import BlockTally.Proofs.Counter.Renumbering
import BlockTally.Proofs.Counter.Rerun
import BlockTally.Proofs.Agreement
import BlockTally.Proofs.Program.Pairing
import BlockTally.Proofs.Program.Contents
import BlockTally.Proofs.Program.Twins
import BlockTally.Proofs.Calls.Twins
import BlockTally.Proofs.Workspace.Pairing
import BlockTally.Proofs.Counter.Pairing
import BlockTally.Proofs.Counter.Twins
import BlockTally.Proofs.Ty.Telling
import BlockTally.Proofs.Workspace.Recording
import BlockTally.Proofs.Workspace.Denoting
import BlockTally.Proofs.Workspace.Answers
import BlockTally.Proofs.Workspace.Components
import BlockTally.Proofs.Workspace.Requests
import BlockTally.Proofs.Workspace.Turns
import BlockTally.Proofs.Workspace.Services
import BlockTally.Proofs.Counter.Turns
import BlockTally.Proofs.Counter.Anomalies
import BlockTally.Proofs.Counter.Ordering
import BlockTally.Proofs.Counter.Provisioning
import BlockTally.Proofs.Workspace.UnnumberedTypes
import BlockTally.Proofs.Counter.Layout
import BlockTally.Proofs.Facts.History
import BlockTally.Proofs.Facts.Checking
import BlockTally.Proofs.Program.Spending
import BlockTally.Proofs.Counter.Spending
import BlockTally.Proofs.Counter.Accounting
import BlockTally.Proofs.Ty.Sorting
import BlockTally.Proofs.Ty.Decorating
import BlockTally.Proofs.Workspace.Finding
import BlockTally.Proofs.Program.Residence
import BlockTally.Proofs.Workspace.Marking
import BlockTally.Proofs.Program.Lines
