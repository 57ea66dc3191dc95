import Esoterica.CommandLine.Directory

/-!
The command line over the files, the outputs and the clock of the system.
-/

namespace Esoterica.CommandLine

/-- The reason for an error number of the system, which may come with a minus sign. -/
def reasonOf (code : UInt32) (details : String) : String :=
  match code.toInt32.toInt.natAbs with
  | 20 => PathError.throughFile.text
  | 21 => PathError.isDirectory.text
  | 36 => PathError.nameTooLong.text
  | number => s!"{details} (os error {number})"

/-- The reason of a failed access. -/
def systemReason : IO.Error → String
  | .noFileOrDirectory _ _ _ => PathError.missing.text
  | .inappropriateType _ code details => reasonOf code details
  | .permissionDenied _ code details => reasonOf code details
  | .invalidArgument _ code details => reasonOf code details
  | other => other.toString

/-- The system as a host. -/
def systemHost : Host IO where
  readFile path := do
    try
      let bytes ← IO.FS.readBinFile path
      return .ok bytes.toList
    catch error => return .error (systemReason error)
  writeFile path bytes := do
    try
      IO.FS.writeBinFile path (ByteArray.mk bytes.toArray)
      return .ok ()
    catch error => return .error (systemReason error)
  print text := do
    let stream ← IO.getStdout
    stream.putStr text
    stream.flush
  complain text := do
    let stream ← IO.getStderr
    stream.putStr text
    stream.flush
  now := IO.monoNanosNow
  chance := return .ofNat (← IO.rand 0 (UInt64.size - 1))

end Esoterica.CommandLine

def main (line : List String) : IO UInt32 :=
  Esoterica.CommandLine.perform Esoterica.CommandLine.systemHost line
