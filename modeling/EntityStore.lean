import EntityStore.Samples.Catalog
import EntityStore.Tx.Program
import EntityStore.Proofs.Shards
import EntityStore.Proofs.Storages
import EntityStore.Proofs.Moves
import EntityStore.Proofs.Statements
import EntityStore.Proofs.Closings
import EntityStore.Proofs.Sessions
import EntityStore.Proofs.Chronicle
import EntityStore.Proofs.Visibility
import EntityStore.Proofs.Publication
import EntityStore.Proofs.Congruence
import EntityStore.Proofs.Serial
import EntityStore.Proofs.Diary
import EntityStore.Proofs.Serializability
import EntityStore.Proofs.Commits
import EntityStore.Proofs.Steps
import EntityStore.Proofs.Attempts
import EntityStore.Proofs.Calls
import EntityStore.Proofs.Programs
import EntityStore.Proofs.OneCommit
import EntityStore.Proofs.Retries
import EntityStore.Proofs.PointView
import EntityStore.Proofs.Footprint
import EntityStore.Proofs.Staleness
import EntityStore.Proofs.CommitOutcome
import EntityStore.Proofs.Aborts
import EntityStore.Proofs.Balance
import EntityStore.Proofs.Callbacks
import EntityStore.Proofs.Closed
import EntityStore.Proofs.SetReads
import EntityStore.Proofs.FlatForms
import EntityStore.Proofs.StoredKeys
import EntityStore.Proofs.ScanLimits
import EntityStore.Proofs.CanonicalOrder
import EntityStore.Proofs.Latest
import EntityStore.Proofs.Transparency
import EntityStore.Proofs.WriteModes
import EntityStore.Proofs.Copies
import EntityStore.Proofs.Partings
import EntityStore.Proofs.Snapshots
import EntityStore.Proofs.WriteAttempts
import EntityStore.Proofs.Versions
import EntityStore.Proofs.Invalidation
import EntityStore.Proofs.Tables
import EntityStore.Proofs.DryRuns
import EntityStore.Proofs.Nesting
import EntityStore.Proofs.BeforeCommit
import EntityStore.Proofs.MergeEffect
import EntityStore.Proofs.Prefixes
import EntityStore.Proofs.Contiguity
import EntityStore.Proofs.ActiveMarker
import EntityStore.Proofs.PrefixReads
import EntityStore.Proofs.BatchReads
import EntityStore.Proofs.FieldNames
import EntityStore.Proofs.Identification
import EntityStore.Proofs.BoundKinds
import EntityStore.Proofs.LogIdentifiers
import EntityStore.Proofs.CancellationDelays
import EntityStore.Proofs.Tracking
import EntityStore.Proofs.StoreOrder
