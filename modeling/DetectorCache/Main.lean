import DetectorCache.CommandLine
import Std.Time.DateTime.Timestamp

set_option autoImplicit false

namespace DetectorCache

def readFile? (path : String) : IO (Option Octets) := do
  try
    return some (← IO.FS.readBinFile path).toList
  catch _ =>
    return none

def readFiles : List String → IO (List (Octets × Octets))
  | [] => return []
  | path :: paths => do
    let others ← readFiles paths
    match ← readFile? path with
    | none => return others
    | some content => return (path.toUTF8.toList, content) :: others

def currentStamp : IO Octets := do
  let now ← Std.Time.Timestamp.now
  return Timestamp.text now.toNanosecondsSinceUnixEpoch.val

def writeOctets (stream : IO.FS.Stream) (text : Octets) : IO Unit := do
  stream.write ⟨text.toArray⟩
  stream.flush

end DetectorCache

open DetectorCache

def main (args : List String) : IO UInt32 := do
  let files ← readFiles args
  let outcome := CommandLine.run (fun path => files.lookup path) {} (args.map (·.toUTF8.toList))
  writeOctets (← IO.getStdout) outcome.output
  writeOctets (← IO.getStderr) (outcome.diagnostic.shown (← currentStamp))
  return outcome.exit.code.toUInt32
