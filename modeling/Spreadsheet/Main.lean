import Spreadsheet.Command

/-! # The program

Reads the files that the arguments name, runs the command on them, and writes what comes of it.
-/
namespace Spreadsheet.Program

def toBytes (t : Text) : ByteArray := ⟨t.toArray⟩

def ofBytes (b : ByteArray) : Text := b.data.toList

def pathName (t : Text) : String := String.ofList t.chars

def fileError : IO.Error → FileError
  | .noFileOrDirectory .. => .notFound
  | .inappropriateType _ _ details =>
    if details = "Not a directory" then .notDirectory else .isDirectory
  | .invalidArgument _ _ details =>
    if details = "File name too long" then .nameTooLong else .invalidName
  | .permissionDenied .. => .other (Text.ofString "permission denied")
  | e => .other (Text.ofString (toString e))

def isStdin (path : Text) : Bool :=
  path.head? = some slash
    && Device.ofPlace? (.outside (FileTree.settle (pathNames path))) = some .stdin

def readFile (path : Text) : IO (Except FileError Contents) := do
  if isStdin path then return .ok .stdin
  try
    return .ok (.text (ofBytes (← IO.FS.readBinFile (pathName path))))
  catch e =>
    return .error (fileError e)

def appendFile (path contents : Text) : IO (Except FileError Unit) := do
  try
    IO.FS.withFile (pathName path) .append fun h => h.write (toBytes contents)
    return .ok ()
  catch e =>
    return .error (fileError e)

partial def readAll (stream : IO.FS.Stream) (sofar : ByteArray) : IO ByteArray := do
  let piece ← stream.read 65536
  if piece.isEmpty then return sofar else readAll stream (sofar ++ piece)

/-- Makes the log file of a command with these options, and reads all that it may ask for. -/
def gather (o : Command.Options) : IO Command.World := do
  let config := if o.config.isEmpty then Settings.defaultPath else o.config
  let stdin ←
    if (config :: o.names).any isStdin || o.names.contains Source.stdinName then
      readAll (← IO.getStdin) .empty
    else pure .empty
  let settings ← readFile config
  let target := match (Settings.load ⟨fun _ => settings, ofBytes stdin⟩ o.config).1 with
    | .ok s => Command.logTarget (o.verbosity.getD s.verbosity) s.logFile
    | .error _ => .nowhere
  let opened ← match target with
    | .file path => appendFile path []
    | _ => pure (.ok ())
  let contents ← o.names.mapM fun path => return (path, ← readFile path)
  let files : Files := fun path =>
    if path = config then settings else (contents.lookup path).getD (.error .notFound)
  return ⟨⟨files, ofBytes stdin⟩, fun _ => opened.map fun _ => files⟩

def logText (log : List Log.Entry) : Text := log.flatMap fun e => e.line ++ [Text.newline]

def emit (r : Command.Result) : IO Unit := do
  (← IO.getStdout).write (toBytes r.stdout)
  (← IO.getStdout).flush
  let stderr ← IO.getStderr
  match r.target with
  | .nowhere => pure ()
  | .stderr => stderr.write (toBytes (logText r.log))
  | .file path => let _ ← appendFile path (logText r.log)
  stderr.write (toBytes r.stderr)

end Spreadsheet.Program

open Spreadsheet in
def main (args : List String) : IO UInt32 := do
  let args := args.map Text.ofString
  let world ← match Command.Options.parse args with
    | .ok o => Program.gather o
    | .error _ => pure ⟨⟨fun _ => .error .notFound, []⟩, fun _ => .error .notFound⟩
  match Command.command world args with
  | some r =>
    Program.emit r
    return r.exitCode.toUInt32
  | none =>
    (← IO.getStderr).putStrLn "a cell depends on itself"
    return 2
