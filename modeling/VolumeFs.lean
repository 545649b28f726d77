import VolumeFs.Path.Lemmas
import VolumeFs.Proofs.FailureKinds
import VolumeFs.Proofs.Fingerprint
import VolumeFs.Proofs.ParentPaths
import VolumeFs.Proofs.PooledBuffers
import VolumeFs.Proofs.Records
import VolumeFs.Proofs.Scenario.Descriptors
import VolumeFs.Proofs.Scenario.Teardown
import VolumeFs.Proofs.SessionLifecycle
import VolumeFs.Proofs.Store.Namespace
import VolumeFs.Proofs.Store.PutFiles
import VolumeFs.Proofs.Store.Refusals
import VolumeFs.Proofs.Stream.Chunking
import VolumeFs.Proofs.Stream.Cursor
import VolumeFs.Proofs.Stream.Durability
import VolumeFs.Proofs.Stream.Freshness
import VolumeFs.Proofs.Stream.MissingParents
import VolumeFs.Proofs.Stream.ReadFailures
import VolumeFs.Proofs.Stream.Target
import VolumeFs.Proofs.Volume.AbsolutePaths
import VolumeFs.Proofs.Volume.CountedAttempts
import VolumeFs.Proofs.Volume.Deletion
import VolumeFs.Proofs.Volume.Enumeration
import VolumeFs.Proofs.Volume.MakingDirectories
import VolumeFs.Proofs.Volume.Rearranged
import VolumeFs.Proofs.Volume.Renaming
import VolumeFs.Proofs.Volume.ReportedFailures
import VolumeFs.Proofs.Volume.SharedInodes
import VolumeFs.Proofs.Volume.StatusList
import VolumeFs.Proofs.Volume.Subtree
import VolumeFs.Proofs.Volume.Watched
import VolumeFs.Scenario.Run
