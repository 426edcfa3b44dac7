import Std.Time.DateTime
import Utterance.CommandLine

/-!
# The program

The outer layer of the command line: it fetches the files that a request names and those they
include, runs the request, and writes out what came of it.
-/

namespace Utterance.Program

/-! ## Files -/

/-- The text of a place. -/
def placeText (place : List String) : String :=
  if place.isEmpty then "." else "/".intercalate place

/-- What is found at a place. -/
inductive Found where
  | nothing
  | folder
  | file (content : Content)

/-- The number of the error that says that a path is a directory. -/
def folderCode : UInt32 := 21

/-- Whether an error says that a path is a directory. -/
def saysFolder : IO.Error → Bool
  | .inappropriateType _ code _ => code == folderCode
  | _ => false

/-- Looks at a place. -/
def find (place : List String) : IO Found := do
  try
    let bytes ← IO.FS.readBinFile (placeText place)
    return .file (match String.fromUTF8? bytes with
      | some s => .text s
      | none => .bytes bytes.toList)
  catch e => return if saysFolder e then .folder else .nothing

/-- The files with the directory at a place, if there is one. -/
def addFolder (files : Files) (place : List String) : IO Files := do
  match ← find place with
  | .folder => return { files with folders := files.folders ++ [place] }
  | _ => return files

/-- The files with what is found at a place, and the lines found there. -/
def look (files : Files) (place : List String) : IO (Files × List String) := do
  let files ← addFolder files place.dropLast
  match ← find place with
  | .nothing => return (files, [])
  | .folder => return ({ files with folders := files.folders ++ [place] }, [])
  | .file content =>
    return (files.insert place content, (content.lines.toOption).getD [])

/-- The files with what is found along paths and the paths that are included there. -/
partial def gather (files : Files) (seen : List (List String)) : List Path → IO Files
  | [] => return files
  | p :: rest => do
    let place := p.resolve files.cwd
    if seen.contains place then gather files seen rest
    else
      let (files, lines) ← look files place
      gather files (place :: seen) (rest ++ Grammar.includes p lines)

/-- The paths of a request, each also with the extension of a grammar. -/
def paths (r : CommandLine.Request) : List Path :=
  r.paths.flatMap fun s => Path.ofString s :: (Grammar.filePath s).toOption.toList

/-- Writes the files that a run has changed. -/
def store (before after : Files) : IO Unit := do
  for (place, content) in after.entries do
    if before.get? place != some content then
      match content with
      | .text s => IO.FS.writeFile (placeText place) s
      | .bytes bs => IO.FS.writeBinFile (placeText place) ⟨bs.toArray⟩

/-! ## Times -/

/-- A number with leading zeros. -/
def padded (width : Nat) (n : Int) : String :=
  let digits := toString n
  Text.replicate (width - digits.length) "0" ++ digits

/-- Random hexadecimal digits in groups. -/
def identifier : IO String := do
  let bytes ← IO.getRandomBytes 16
  let digits := bytes.toList.flatMap fun b => Text.hexDigits 2 b.toNat
  let group (first count : Nat) : String := String.ofList ((digits.drop first).take count)
  return "-".intercalate [group 0 8, group 8 4, group 12 4, group 16 4, group 20 12]

/-- The times that a run shows, by the clock as it is now. -/
def readClock : IO CommandLine.Times := do
  let now ← Std.Time.Timestamp.now
  let t := Std.Time.PlainDateTime.ofWallTime
    (Std.Time.WallTime.ofNanoseconds now.toNanosecondsSinceUnixEpoch)
  let date := padded 4 t.date.year.toInt ++ "-" ++ padded 2 t.date.month.val ++ "-"
    ++ padded 2 t.date.day.val
  let time := padded 2 t.time.hour.val ++ ":" ++ padded 2 t.time.minute.val ++ ":"
    ++ padded 2 t.time.second.val
  let nanos := t.time.nanosecond.val
  return {
    line := date ++ " " ++ time ++ "," ++ padded 3 (nanos / 1000000)
    start := date ++ " " ++ time
    stamp :=
      { id := ← identifier
        time := date ++ "T" ++ time ++ "." ++ padded 6 (nanos / 1000) ++ "Z" } }

/-! ## Runs -/

/-- Whether a request may ask for a line of input. -/
def asks (r : CommandLine.Request) : Bool :=
  match r.command with
  | some (.parse p) => p.file.isNone
  | _ => false

/-- Runs a command line. The result is the exit code. -/
def run (args : List String) : IO UInt32 := do
  let request := CommandLine.Request.ofArgs args
  let here : Files := { Files.empty with cwd := (Path.ofString (toString (← IO.currentDir))).parts }
  let files ← match request with
    | .ok r => gather here [] (paths r)
    | .error _ => pure here
  let input ← match request with
    | .ok r => if asks r then (← IO.getStdin).getLine else pure ""
    | .error _ => pure ""
  let (c, result) := CommandLine.run args { files, input, times := ← readClock }
  store files c.files
  IO.print c.out
  IO.eprint c.err
  match result with
  | .ok code => return code.toUInt32
  | .error e =>
    IO.eprintln e.message
    return 1

end Utterance.Program

/-- The program. -/
def main (args : List String) : IO UInt32 := Utterance.Program.run args
