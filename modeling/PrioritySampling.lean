import PrioritySampling.Export.Envelope
import PrioritySampling.Inspect
import PrioritySampling.MinMaxHeap.Blueprint
import PrioritySampling.MinMaxHeap.Operation
import PrioritySampling.Pool.Command
import PrioritySampling.Proofs.Tree
import PrioritySampling.Reservoir.Blueprint
import PrioritySampling.Proofs.Order
import PrioritySampling.Proofs.Climb
import PrioritySampling.Proofs.Sink
import PrioritySampling.Proofs.Contents
import PrioritySampling.Proofs.Storage
import PrioritySampling.Proofs.Extremes
import PrioritySampling.Proofs.Histories
import PrioritySampling.Proofs.Selection
import PrioritySampling.Proofs.Disposal
import PrioritySampling.Proofs.Ledger
import PrioritySampling.Proofs.Books
import PrioritySampling.Proofs.Listing
import PrioritySampling.Proofs.Steps
import PrioritySampling.Proofs.Sufficiency
import PrioritySampling.Proofs.Ranking
import PrioritySampling.Proofs.Sharing
import PrioritySampling.Proofs.Whereabouts
import PrioritySampling.Proofs.Collectors
import PrioritySampling.Proofs.Lexemes
import PrioritySampling.Proofs.Reading
import PrioritySampling.Proofs.Replay
import PrioritySampling.Proofs.Admission
import PrioritySampling.Proofs.Sorting
import PrioritySampling.Proofs.Alike
import PrioritySampling.Proofs.Renewal
import PrioritySampling.Proofs.Magnitudes
import PrioritySampling.Proofs.Envelopes
import PrioritySampling.Proofs.Refusals
import PrioritySampling.Proofs.Growth
import PrioritySampling.Proofs.Merging
import PrioritySampling.Proofs.Preview
import PrioritySampling.Proofs.Priorities
import PrioritySampling.Proofs.Guarded
import PrioritySampling.Proofs.Safety
import PrioritySampling.Proofs.Construction
import PrioritySampling.Proofs.Classification
import PrioritySampling.Proofs.Levels
import PrioritySampling.Proofs.Repair
import PrioritySampling.Proofs.Recency
