import Highlighting.Command.Run

/-! The program: reads the files that a command line names, prints, and exits. -/

namespace Highlighting

/-- The number of a system error, whose sign means nothing. -/
def errorNumber (code : UInt32) : Nat := code.toInt32.toInt.natAbs

/-- Why the system did not read a file. -/
def ReadFault.ofError (e : IO.Error) : ReadFault :=
  match e with
  | .noFileOrDirectory .. => .missing
  | .inappropriateType _ code _ => if errorNumber code = 20 then .notDirectory else .directory
  | .invalidArgument _ code _ =>
    if errorNumber code = 36 then .nameTooLong else .other (toString e)
  | e => .other (toString e)

/-- The bytes of a stream up to its end, after those that were read. -/
partial def readAll (stream : IO.FS.Stream) (read : ByteArray) : IO ByteArray := do
  let bytes ← stream.read 65536
  if bytes.isEmpty then pure read else readAll stream (read ++ bytes)

def readText (bytes : IO ByteArray) : IO (Except ReadFault String) := do
  match ← bytes.toBaseIO with
  | .ok bytes => pure (textOf bytes)
  | .error e => pure (.error (.ofError e))

/-- The user's configuration. Without a directory to keep it in there is none. -/
def readUserConfig : IO (Except ReadFault String) := do
  match Config.file? (← IO.getEnv "XDG_CONFIG_HOME") (← IO.getEnv "HOME") with
  | none => pure (.error .missing)
  | some path => readText (IO.FS.readBinFile path)

def printHelp : IO Unit := do
  IO.println (Config.directoryName ++ " [--config FILE] COMMAND")
  IO.println ("Commands: " ++ ", ".intercalate Given.usage.commands)

def runProgram (words : List String) : IO UInt32 := do
  let outcome ← match Arguments.ofWords words with
    | .error fault => do
      if fault = .helpWanted then printHelp
      pure fault.outcome
    | .ok a => do
      let config ← match a.config with
        | some path => readText (IO.FS.readBinFile path)
        | none => readUserConfig
      let input ← match a.command.input? with
        | none => pure (.error .missing)
        | some path =>
          if isStandardInput path then readText (do readAll (← IO.getStdin) .empty)
          else readText (IO.FS.readBinFile path)
      pure (a.run config .empty input)
  IO.print outcome.output
  match outcome.error with
  | some message => IO.eprintln message
  | none => pure ()
  pure outcome.exit.toUInt32

end Highlighting

def main (words : List String) : IO UInt32 := Highlighting.runProgram words
