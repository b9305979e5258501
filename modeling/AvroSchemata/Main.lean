import AvroSchemata.Command.Run
set_option autoImplicit false

namespace AvroSchemata.Command

def numbered (code : UInt32) (details : String) : String :=
  details ++ " (os error " ++ toString code ++ ")"

def saveWording : IO.Error → String
  | .noFileOrDirectory _ code details => numbered code details
  | .inappropriateType _ code details | .invalidArgument _ code details
  | .noSuchThing _ code details | .permissionDenied _ code details
  | .resourceExhausted _ code details => numbered code details
  | .resourceBusy code details | .hardwareFault code details
  | .otherError code details => numbered code details
  | e => toString e

def save (path text : String) : IO Unit :=
  IO.FS.withFile path .write fun file => do
    file.putStr text
    file.flush

end AvroSchemata.Command

open AvroSchemata.Command

def main (arguments : List String) : IO UInt32 := do
  match Ending.ofArguments arguments with
  | .misused =>
    IO.eprintln "Usage: [--list] [--pretty] [-v] [-o PATH] [TYPE]..."
    return 2
  | .failed reason =>
    IO.eprintln (failureMessage reason)
    return 1
  | .printed text =>
    IO.print text
    return 0
  | .saved path text =>
    try
      save path text
      return 0
    catch e =>
      IO.eprintln (saveMessage path (saveWording e))
      return 1
