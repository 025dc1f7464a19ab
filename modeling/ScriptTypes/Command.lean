import ScriptTypes.Diagnostic.Report
import ScriptTypes.Program

/-! The command line. A command checks its inputs one after the other, prints the types of their names, and stops at
the first error. -/

namespace ScriptTypes.Command

inductive Format where
  | text | json
deriving DecidableEq, Repr

/-- What a command line asks for. Without paths, the standard input is checked. -/
structure Options where
  format : Format
  paths : List String
deriving DecidableEq, Repr

def Format.ofName? : String → Option Format
  | "text" => some .text
  | "json" => some .json
  | _ => none

/-- When to use colours. None are used, so the choice is only read. -/
def isColor (name : String) : Bool :=
  ["auto", "always", "never"].contains name

/-- The arguments after the name of the command. -/
def Options.parse (o : Options) : List String → Option Options
  | [] => some o
  | "--" :: paths => some { o with paths := o.paths ++ paths }
  | "--format" :: name :: args => do
      let format ← Format.ofName? name
      Options.parse { o with format } args
  | "--color" :: name :: args => if isColor name then Options.parse o args else none
  | arg :: args =>
      match arg.splitOn "=" with
      | ["--format", name] => do
          let format ← Format.ofName? name
          Options.parse { o with format } args
      | ["--color", name] => if isColor name then Options.parse o args else none
      | _ =>
          if arg.startsWith "-" && arg ≠ "-" then none
          else Options.parse { o with paths := o.paths ++ [arg] } args

/-- Read a whole command line: options, the name of the command, and its arguments. -/
def parse : List String → Option Options
  | "check" :: args => Options.parse ⟨.text, []⟩ args
  | "--color" :: name :: args => if isColor name then parse args else none
  | arg :: args =>
      match arg.splitOn "=" with
      | ["--color", name] => if isColor name then parse args else none
      | _ => none
  | [] => none

/-- Why a text cannot be read: what the system says, with its number, or bytes that are no text. -/
inductive ReadError where
  | system (reason : String) (number : Nat)
  | notText
deriving DecidableEq, Repr

namespace ReadError

/-- What the system says for the numbers that reading a file can lead to. -/
def reason? : Nat → Option String
  | 2 => some "No such file or directory"
  | 5 => some "Input/output error"
  | 13 => some "Permission denied"
  | 20 => some "Not a directory"
  | 21 => some "Is a directory"
  | 36 => some "File name too long"
  | 40 => some "Too many levels of symbolic links"
  | _ => none

def ofNumber (number : Nat) (otherwise : String) : ReadError :=
  .system ((reason? number).getD otherwise) number

def missing : ReadError := ofNumber 2 ""

def directory : ReadError := ofNumber 21 ""

def message : ReadError → String
  | .system reason number => reason ++ " (os error " ++ toString number ++ ")"
  | .notText => "stream did not contain valid UTF-8"

end ReadError

/-- A text to check: a file, or the standard input. -/
structure Input where
  path : Option String
  text : Except ReadError String

/-- The name of the standard input. -/
def stdinName : String := "<stdin>"

def Input.name (i : Input) : String :=
  i.path.getD stdinName

/-- The message for an input that cannot be read. -/
def Input.readMessage (i : Input) (e : ReadError) : String :=
  match i.path with
  | some path => path ++ ": " ++ e.message
  | none => e.message

/-- What a command leaves behind. -/
structure Outcome where
  code : Nat
  stdout : String
  stderr : String
deriving DecidableEq, Repr

/-- An error as it is reported. -/
def report (format : Format) (files : Files) (e : Error) : String :=
  let (d, files) := e.diagnostic.run files
  match format with
  | .text => d.text files
  | .json => Text.Json.object [("diagnostics", Text.Json.array [d.json])] ++ "\n"

/-- The names of an input with their types. -/
def listing (format : Format) (header : Bool) (name : String) (checked : Checked) : String :=
  match format with
  | .text =>
      let lines := checked.texts.map fun (name, type) => name ++ ": " ++ type ++ "\n"
      String.join (if header then ("// " ++ name ++ "\n") :: lines else lines)
  | .json =>
      let bindings := checked.texts.map fun (name, type) =>
        Text.Json.object [("name", Text.Json.string name), ("type", Text.Json.string type)]
      Text.Json.object [("file", Text.Json.string name), ("bindings", Text.Json.array bindings)] ++ "\n"

/-- Check one input: what is printed, and the report of an error if there is one. -/
def checkInput (format : Format) (header : Bool) (i : Input) : String × Option String :=
  match i.text with
  | .error e => ("", some (report format [] (.unreadable (i.readMessage e))))
  | .ok text =>
      let files := [⟨i.name, text⟩]
      match check text with
      | .error e => ("", some (report format files e))
      | .ok checked =>
          (listing format header i.name checked,
            checked.error.map fun e => report format files (.type (e.map Atom.ofVar)))

/-- Check inputs up to the first error. Each of several inputs has a header. -/
def run (format : Format) (inputs : List Input) : Outcome :=
  go (inputs.length > 1) "" inputs
where
  go (header : Bool) (stdout : String) : List Input → Outcome
    | [] => ⟨0, stdout, ""⟩
    | i :: inputs =>
        match checkInput format header i with
        | (out, none) => go header (stdout ++ out) inputs
        | (out, some err) => ⟨1, stdout ++ out, err⟩

end ScriptTypes.Command
