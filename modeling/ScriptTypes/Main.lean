import ScriptTypes.Command

/-! The program: reads the inputs that the command line names and prints what the command leaves behind. -/

namespace ScriptTypes.Command

/-- The text of bytes, if they are text. -/
def decodeText (bytes : ByteArray) : Except ReadError String :=
  match String.fromUTF8? bytes with
  | some text => .ok text
  | none => .error .notText

/-- The number of a failed operation may come with its sign changed. -/
def systemNumber (code : UInt32) : Nat :=
  if code.toNat < 0x80000000 then code.toNat else 0x100000000 - code.toNat

/-- What the system says about a failed operation. -/
def readError : IO.Error → ReadError
  | .otherError n r | .resourceBusy n r | .resourceVanished n r | .unsupportedOperation n r | .hardwareFault n r
  | .unsatisfiedConstraints n r | .illegalOperation n r | .protocolError n r | .timeExpired n r
  | .alreadyExists _ n r | .interrupted _ n r | .noFileOrDirectory _ n r | .invalidArgument _ n r
  | .permissionDenied _ n r | .resourceExhausted _ n r | .inappropriateType _ n r | .noSuchThing _ n r =>
      .ofNumber (systemNumber n) r
  | .unexpectedEof => .system "unexpected end of file" 0
  | .userError r => .system r 0

def readPath (path : String) : IO Input := do
  try return ⟨some path, decodeText (← IO.FS.readBinFile path)⟩
  catch e => return ⟨some path, .error (readError e)⟩

def readStdin : IO Input := do
  try return ⟨none, decodeText (← (← IO.getStdin).readBinToEnd)⟩
  catch e => return ⟨none, .error (readError e)⟩

/-- Carry out a command line. -/
def perform (args : List String) : IO UInt32 := do
  match parse args with
  | none =>
      IO.eprintln "usage: check [--format text|json] [--color auto|always|never] [files]"
      return 2
  | some o =>
      let inputs ← if o.paths.isEmpty then pure [← readStdin] else o.paths.mapM readPath
      let outcome := run o.format inputs
      IO.print outcome.stdout
      (← IO.getStdout).flush
      IO.eprint outcome.stderr
      return outcome.code.toUInt32

end ScriptTypes.Command

def main (args : List String) : IO UInt32 :=
  ScriptTypes.Command.perform args
