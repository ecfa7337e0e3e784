/-
# The command line program

Options are read, the configuration is loaded and overridden, the engine is
started, and one exchange is made. The report holds the lines printed for the
exchange, the exit code, and the complaint of a run that failed.
-/
import HttpExchange.Cli.Exchange
import HttpExchange.Config.Document

namespace HttpExchange
namespace Cli

structure Report where
  exit : Nat
  lines : List String := []
  complaint : Option String := none
  deriving DecidableEq, Repr

/-- A list of configuration issues, with their parts spelled out. -/
def spellIssues (issues : List ConfigIssue) : String :=
  let spell : ConfigIssue → String
    | .zeroWatermark => "ZeroWatermark"
    | .emptyThreadName => "EmptyThreadName"
    | .unknownLogLevel level => "UnknownLogLevel(" ++ Text.quote level ++ ")"
  "[" ++ ", ".intercalate (issues.map spell) ++ "]"

def kindOf : FileError → String
  | .notFound => "NotFound"
  | .denied => "PermissionDenied"
  | .notDirectory => "NotADirectory"
  | .isDirectory => "IsADirectory"
  | .nameTooLong => "InvalidFilename"
  | .linkLoop => "FilesystemLoop"
  | .notText => "InvalidData"

def spellFileError (e : FileError) : String :=
  let parts := "kind: " ++ kindOf e ++ ", message: " ++ Text.quote e.words
  match e.number? with
  | some n => "Os \x7b code: " ++ toString n ++ ", " ++ parts ++ " \x7d"
  | none => "Error \x7b " ++ parts ++ " \x7d"

def spellConfigError : ConfigError → String
  | .file e => "Io(" ++ spellFileError e ++ ")"
  | .malformed => "Parse"
  | .invalid issues => "Validation(" ++ spellIssues issues ++ ")"

def spellCallError : CallError → String
  | .duplicateStream h => "DuplicateStream(StreamHandle(" ++ toString h.id ++ "))"
  | .invalidArgument what => "InvalidArgument(" ++ Text.quote what ++ ")"
  | .invalidConfig issues => "InvalidConfig(" ++ spellIssues issues ++ ")"
  | .terminated => "Terminated"
  | .spawn why => "Spawn(" ++ why ++ ")"

def complaint (spelled : String) : String := "Error: " ++ spelled

/-- The configuration with the options put over it. -/
def Options.override (o : Options) (c : Config) : Config :=
  { c with
    flowControl := { c.flowControl with explicit := c.flowControl.explicit || o.explicitFlowControl }
    network := { preferred := o.network.getD c.network.preferred } }

/-- The configuration of a run. `contents` gives the contents of files. -/
def Options.load (o : Options) (contents : String → Except FileError Bytes) :
    Except ConfigError Config :=
  (match o.config with
    | some path => Config.load (contents path)
    | none => .ok {}).map o.override

/-- Enough moves for an exchange with a body of the given length: each byte
takes at most a turn and a reading. -/
def movesFor (length : Nat) : Nat := 4 * length + 64

def Exchange.report (x : Exchange) : Report :=
  match x.ending with
  | some .finished => { exit := 0, lines := x.lines }
  | some (.refused e) =>
    { exit := 1, lines := x.lines, complaint := some (complaint (spellCallError e)) }
  | _ => { exit := 1, lines := x.lines, complaint := some (complaint "Elapsed(())") }

def Options.run (o : Options) (c : Config) (draws : Draws) : Report :=
  match Engine.start c true draws with
  | .error (.refused e) => { exit := 1, complaint := some (complaint (spellCallError e)) }
  | .error (.fault _) => { exit := 101 }
  | .ok engine =>
    ((Exchange.begin engine.build o).run (movesFor (Text.Utf8.encode o.body).length)).report

def report (contents : String → Except FileError Bytes) (draws : Draws)
    (args : List String) : Report :=
  match readOptions args with
  | .help => { exit := 0 }
  | .misuse => { exit := 2 }
  | .run o =>
    match o.load contents with
    | .error e => { exit := 1, complaint := some (complaint (spellConfigError e)) }
    | .ok c => o.run c draws

end Cli
end HttpExchange
