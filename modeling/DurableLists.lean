import DurableLists.Bytes.Lemmas
import DurableLists.Config.Text
import DurableLists.Session
import DurableLists.Proofs.Recovery
import DurableLists.Proofs.Crash
import DurableLists.Proofs.Corruption
import DurableLists.Proofs.Burst
import DurableLists.Proofs.Grouping
import DurableLists.Proofs.Chunking
import DurableLists.Proofs.OpenTail
import DurableLists.Proofs.Justification
import DurableLists.Proofs.Visibility
import DurableLists.Proofs.Eviction
import DurableLists.Proofs.Publication
import DurableLists.Proofs.Shape
import DurableLists.Proofs.Erasure
import DurableLists.Proofs.Refinement
import DurableLists.Proofs.Refusal
import DurableLists.Proofs.Atomicity
import DurableLists.Proofs.Command.Grammar
import DurableLists.Proofs.Locality
import DurableLists.Proofs.Latching
import DurableLists.Proofs.Tx.Mishaps
import DurableLists.Proofs.Removal
import DurableLists.Proofs.TimeLeft
import DurableLists.Proofs.Trimming
import DurableLists.Proofs.Positions
import DurableLists.Proofs.Listing
import DurableLists.Proofs.Buckets
import DurableLists.Proofs.Acceptance
import DurableLists.Proofs.GuardOrder
import DurableLists.Proofs.Application
import DurableLists.Proofs.Progress
