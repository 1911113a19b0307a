import Syq.Restricted.Ledger

/-!
# Requests and responses of a restricted receiver

The requests a connection may send, with the data the grant's bookkeeping reads.
File contents are represented by their length.
-/

namespace Syq.Restricted

/-- One operation of an `Apply` request. -/
inductive Op where
  | mkdir (path : Path)
  | symlink (path : Path)
  | mknod (path : Path)
  | hardlink (path source : Path)
  | setMeta (path : Path) (directory : Bool)
  | setFileMetaIfSame (path : Path)
  | rmdir (path : Path)
  | unlink (path : Path)
  | remove (path : Path)
  deriving DecidableEq

structure SmallPut where
  path : Path
  data : Nat
  inplace : Bool
  deriving DecidableEq

structure SmallPatch where
  path : Path
  copyId : CopyId
  block : Nat
  len : Nat
  data : Nat
  /-- For each block, whether the existing file's is reused. -/
  reuse : List Bool
  updateInPlace : Bool
  deriving DecidableEq

/-- The new data of a patch: the blocks it does not reuse. -/
def SmallPatch.newBytes (patch : SmallPatch) : Nat :=
  (patch.reuse.zipIdx.map fun (reused, index) =>
    if reused then 0 else min patch.block (patch.len - index * patch.block)).sum

structure SmallCopyFile where
  path : Path
  size : Nat
  deriving DecidableEq

structure SmallCopyPayload where
  index : Nat
  data : Nat
  deriving DecidableEq

inductive Request where
  | hello
  | tcpListen
  | scan
  | listDir
  | nativeRemove
  | statMany
  | checkOperatorDirectory
  | checkOperatorDirectoryAncestry
  | registerSourceRoots
  | createOperatorDirectory
  | anchorDestination
  | destinationFilesystemInfo
  | partialPaths
  | apply (ops : List Op)
  | planBatch
  | probePartial
  | prepare (path : Path) (size : Nat) (inplace : Bool) (copyId : CopyId) (createIfMissing : Bool)
      (update : Bool)
  | hashAndHold
  | finishBasis (path : Path)
  | seedBasis (path : Path) (copyId : CopyId) (len : Nat)
  | copyLocal
  | hashBlocks
  | readRange
  | readSmallBatch
  | writeRange (path : Path) (copyId : CopyId) (data : Nat)
  | finalize (path : Path) (copyId : CopyId)
  | putSmallBatch (puts : List SmallPut)
  | fileHash
  | canonicalize
  | transportStats
  | destinationResults
  | finishDestinationResults
  | shutdown
  | copySmallFiles (payloads : List SmallCopyPayload)
  | listDirDetails
  | readStream
  | stopReadStream
  | writeStreamFence
  | shrinkReadStream
  | listDirNoFollowFinal
  | mappingChunk
  | pruneLookup
  | configureHashing
  | validateDigest
  | descriptorCopy
  | bindStream
  | configurePreservation
  | nativeMap
  | prepareSmallFiles (files : List SmallCopyFile)
  | stageBasis (path : Path) (copyId : CopyId) (len : Nat)
  | hashWindow
  | reuseComparedRange (path : Path) (copyId : CopyId)
  | readComparedRange
  | createSendBudget
  | hashExistingBatch
  | readDifferingBatch
  | patchSmallBatch (patches : List SmallPatch)
  | patchBegin (patch : SmallPatch) (dataLen : Nat)
  | patchData (data : Nat)
  | patchEnd
  | widenDirectories (directories : List Path)
  | checkOperatorDirectoryAncestryWithAccess
  | checkSearchableOperatorDirectory
  | receiverUser
  | prepareDestinationPath
  | restoreDestinationPath
  | newFileOwner
  deriving DecidableEq

/-- The file a request writes, by destination path and partial. -/
def fileKey : Request → Option FileKey
  | .prepare path _ _ copyId _ _ | .stageBasis path copyId _ | .seedBasis path copyId _
  | .writeRange path copyId _ | .reuseComparedRange path copyId | .finalize path copyId =>
    some (path, copyId)
  | _ => none

/-- Requests the server executes and then settles. -/
def Request.tracked : Request → Bool
  | .hello | .scan | .tcpListen | .transportStats | .writeStreamFence | .destinationResults
  | .finishDestinationResults | .shutdown | .restoreDestinationPath => false
  | _ => true

/-! ## Responses -/

structure WireError where
  message : String
  conditionNotMet : Bool
  unchanged : Bool
  /-- Only a replacement may change the file's metadata. -/
  replaceRequired : Bool
  /-- The class an ordinary copy reports for this failure. -/
  failureClass : String
  deriving DecidableEq

/-- The executor changed nothing before it failed. -/
def WireError.isUnchanged (error : WireError) : Bool :=
  error.unchanged || error.conditionNotMet

structure SmallPatchError where
  error : WireError
  matched : Bool
  staleCondition : Bool
  written : Bool
  deriving DecidableEq

/-- Whether the sender tries the file again. -/
def SmallPatchError.retried (error : SmallPatchError) : Bool :=
  !error.matched && !error.written

inductive SmallCopyDisposition where
  | copied
  | quickChecked
  | contentMatched
  | excluded
  deriving DecidableEq

structure SmallCopyFileResult where
  disposition : SmallCopyDisposition
  error : Option WireError
  repaired : Bool
  deriving DecidableEq

inductive SmallCopyOutcome where
  | published (results : List SmallCopyFileResult)
  | unsupportedTarget
  | capacityShort
  | stagingFailed (error : WireError)
  | needsBlockReuse
  deriving DecidableEq

/-- The responses settlement tells apart. -/
inductive Response where
  | endpointError (error : WireError)
  | err (message : String)
  | applied (results : List (Option WireError))
  | widenedDirectories (results : List (Option WireError))
  /-- Each file was kept or not, or failed. -/
  | patchedBatch (results : List (Except SmallPatchError Bool))
  | publishedBatch (results : List (Option WireError))
  | smallFilesCopied (outcome : SmallCopyOutcome)
  | smallFilesPrepared (needed : List Bool)
  | prepared (hasCandidates : Bool) (partialSize : Option Nat)
  | other

end Syq.Restricted
