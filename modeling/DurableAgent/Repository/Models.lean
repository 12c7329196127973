import DurableAgent.Domain.Base

/-!
# Repository snapshots

What an index of the repository records of each file, and of the whole.
-/

namespace DurableAgent

inductive FileChangeKind where
  | NEW | UNCHANGED | MODIFIED | DELETED
  deriving DecidableEq, Repr

/-- One file in a content-addressed repository snapshot. -/
structure RepositoryFile where
  snapshotId : String
  relativePath : String
  contentHash : String
  sizeBytes : Nat
  changeKind : FileChangeKind := .NEW
  isDeleted : Bool := false
  deriving DecidableEq

/-- Manifest identifying exactly which repository contents a run used. -/
structure RepositorySnapshot where
  snapshotId : String
  root : String
  manifestHash : String
  fileCount : Nat
  totalBytes : Nat
  files : List RepositoryFile := []
  deriving DecidableEq

/-- Complete index output, including deleted tombstones and warnings. -/
structure RepositoryIndex where
  snapshot : RepositorySnapshot
  warnings : List String := []
  deriving DecidableEq

end DurableAgent
