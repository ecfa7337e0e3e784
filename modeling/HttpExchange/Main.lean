/-
# The program

Reads the files it is asked to, takes the seed of its draws, and prints what
`Cli.report` says.
-/
import HttpExchange.Cli.Report

namespace HttpExchange
namespace Cli

def usage : String :=
  "Send one request through an engine over a loopback pipeline\n\n"
    ++ "Usage: exchange [OPTIONS]\n\nOptions:\n"
    ++ "  -c, --config <CONFIG>          TOML configuration file\n"
    ++ "      --explicit-flow-control    Gate response data on credit\n"
    ++ "      --network <NETWORK>        Preferred network: generic, wlan or wwan\n"
    ++ "      --scheme <SCHEME>          [default: https]\n"
    ++ "      --body <BODY>              Request body [default: hello from stream-engine]\n"
    ++ "      --credit <CREDIT>          Bytes granted at a time [default: 8]\n"
    ++ "      --error-code <ERROR_CODE>  Ask for this error\n"
    ++ "  -h, --help                     Print help\n"

/-- The number of a system error, which some calls report in the negative. -/
def systemNumber (code : UInt32) : Nat :=
  if 0x80000000 ≤ code.toNat then 0x100000000 - code.toNat else code.toNat

def contentsOf (path : String) : IO (Except FileError Bytes) := do
  try
    let bytes ← IO.FS.readBinFile path
    return .ok bytes.toList
  catch e =>
    let code : UInt32 := match e with
      | .noFileOrDirectory _ code _ => code
      | .inappropriateType _ code _ => code
      | .invalidArgument _ code _ => code
      | .permissionDenied _ code _ => code
      | .otherError code _ => code
      | _ => 2
    return .error ((FileError.ofNumber? (systemNumber code)).getD .notFound)

def runProgram (args : List String) : IO UInt32 := do
  let seed ← IO.rand 0 0xffffffff
  let request := readOptions args
  let contents ← match request with
    | .run o =>
      match o.config with
      | some path => contentsOf path
      | none => pure (.error .notFound)
    | _ => pure (.error .notFound)
  let r := report (fun _ => contents) ({ value := UInt64.ofNat seed } : Generator) args
  match request with
  | .help => IO.print usage
  | .misuse => IO.eprint usage
  | .run _ => pure ()
  for line in r.lines do
    IO.println line
  if let some complaint := r.complaint then
    IO.eprintln complaint
  return UInt32.ofNat r.exit

end Cli
end HttpExchange

def main (args : List String) : IO UInt32 := HttpExchange.Cli.runProgram args
