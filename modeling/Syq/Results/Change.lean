import Syq.Lib.Collections

/-!
# Changes and failures a destination reports

What the destination's results say about one settled change: the change itself, and
the message and class of its failure.
-/

namespace Syq.Results

/-- What a path holds. -/
inductive Kind where
  | dir
  | file
  | symlink
  | fifo
  | socket
  | charDev
  | blockDev
  | other
  deriving DecidableEq

/-- One change the destination settled. -/
inductive Change where
  | publishFile (size : Nat)
  | linkFile
  | ensureDirectory
  | createSymlink
  | createSpecial
  | setMetadata (kind : Kind)
  | keepFile
  | deleteNonDirectory
  | deleteDirectory
  deriving DecidableEq

namespace Change

/-- A change to a file: its contents, a name for it, or its metadata. -/
def isFile : Change → Bool
  | publishFile _ | linkFile | keepFile | setMetadata .file => true
  | _ => false

/-- A change that, succeeding, leaves the file's contents complete. -/
def completesFile : Change → Bool
  | publishFile _ | linkFile | keepFile => true
  | _ => false

/-- A change the existing-object policy may keep from being made. -/
def isCreation : Change → Bool
  | publishFile _ | createSymlink | createSpecial | linkFile => true
  | _ => false

/-- The ordinary record's action and kind, where known. -/
def action : Change → String × Option String
  | publishFile _ | linkFile | keepFile => ("transfer_file", some "file")
  | ensureDirectory => ("create_directory", some "dir")
  | createSymlink => ("create_symlink", some "symlink")
  | createSpecial => ("create_special", some "special")
  | setMetadata .dir => ("create_directory", some "dir")
  | setMetadata .file => ("transfer_file", some "file")
  | setMetadata .symlink => ("create_symlink", some "symlink")
  | setMetadata _ => ("create_special", some "special")
  | deleteNonDirectory => ("delete", none)
  | deleteDirectory => ("delete", some "dir")

end Change

/-- Why a change failed. -/
structure Failure where
  message : String
  errorClass : String
  deriving DecidableEq

/-- A failure the receiver knows only by its message. -/
def Failure.io (message : String) : Failure :=
  ⟨message, "io"⟩

def maxDiagnosticBytes : Nat := 1024

/-- The longest run of whole characters within `bytes` bytes. -/
def takeBytes : Nat → List Char → List Char
  | _, [] => []
  | bytes, char :: rest =>
    if char.utf8Size ≤ bytes then char :: takeBytes (bytes - char.utf8Size) rest else []

/-- A diagnostic cut at a character boundary, nothing if it is empty. -/
def boundedDiagnostic (error : String) : Option String :=
  let text := takeBytes maxDiagnosticBytes error.toList
  if text = [] then none
  else if text.length < error.toList.length then some (String.ofList (text ++ ['…']))
  else some error

/-- A text that was cut is not cut again. -/
theorem takeBytes_takeBytes_concat (bytes : Nat) (text : List Char) (mark : Char) :
    takeBytes bytes (takeBytes bytes text ++ [mark]) = takeBytes bytes text ∨
      takeBytes bytes (takeBytes bytes text ++ [mark]) = takeBytes bytes text ++ [mark] := by
  induction text generalizing bytes with
  | nil =>
    by_cases fits : mark.utf8Size ≤ bytes
    · exact .inr (by simp [takeBytes, fits])
    · exact .inl (by simp [takeBytes, fits])
  | cons char rest ih =>
    by_cases fits : char.utf8Size ≤ bytes
    · simpa [takeBytes, fits] using ih (bytes - char.utf8Size)
    · by_cases markFits : mark.utf8Size ≤ bytes
      · exact .inr (by simp [takeBytes, fits, markFits])
      · exact .inl (by simp [takeBytes, fits, markFits])

/-- Bounding a diagnostic again changes nothing. -/
theorem boundedDiagnostic_idem {error bounded : String}
    (cut : boundedDiagnostic error = some bounded) : boundedDiagnostic bounded = some bounded := by
  unfold boundedDiagnostic at cut
  dsimp only at cut
  split at cut
  · cases cut
  · rename_i ne
    split at cut
    · cases cut
      unfold boundedDiagnostic
      rcases takeBytes_takeBytes_concat maxDiagnosticBytes error.toList '…' with same | same
      · simp [same, ne]
      · simp [same]
    · rename_i whole
      cases cut
      simp [boundedDiagnostic, ne, whole]

end Syq.Results
