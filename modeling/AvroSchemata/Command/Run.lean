import AvroSchemata.Catalogue
import AvroSchemata.Command.Arguments
import AvroSchemata.Command.Place
set_option autoImplicit false

namespace AvroSchemata.Command

def catalogue (pretty : Bool) : Catalogue (Descriptor 0) :=
  (Catalogue.builtin Fin.elim0).withSettings { layout := if pretty then .pretty else .compact }

def schemaText (pretty : Bool) (name : String) : Except Failure String :=
  (catalogue pretty).schema (Descriptor.shape Fin.elim0) name

def linesText (lines : List String) : String := "\n".intercalate lines ++ "\n"

def Invocation.text (run : Invocation) : Except Failure String :=
  linesText <$>
    if run.list then .ok (catalogue run.pretty).names
    else run.types.mapM (schemaText run.pretty)

inductive Ending where
  | misused
  | failed (reason : Failure)
  | printed (text : String)
  | saved (path text : String)
  deriving DecidableEq, Repr

def Invocation.ending (run : Invocation) : Ending :=
  match run.text with
  | .error reason => .failed reason
  | .ok text =>
    match run.output? with
    | none => .printed text
    | some path => .saved path text

def Ending.ofArguments (arguments : List String) : Ending :=
  match Invocation.ofArguments? arguments with
  | none => .misused
  | some run => run.ending

def failureMessage (reason : Failure) : String := "Error: " ++ reason.message

def saveMessage (path wording : String) : String :=
  "Error: Failed to write " ++ path ++ ": " ++ wording

abbrev Places := String → Except PlaceFailure Place

structure Report where
  code : Nat
  printed : String := ""
  message? : Option String := none
  saved? : Option (Place × String) := none
  deriving DecidableEq, Repr

/-- The report of a run, by default of one that is started in an empty folder. -/
def Ending.report (ending : Ending) (places : Places := Place.ofPath) : Report :=
  match ending with
  | .misused => { code := 2 }
  | .failed reason => { code := 1, message? := some (failureMessage reason) }
  | .printed text => { code := 0, printed := text }
  | .saved path text =>
    match places path with
    | .ok .output => { code := 0, printed := text }
    | .ok place => { code := 0, saved? := some (place, text) }
    | .error reason => { code := 1, message? := some (saveMessage path reason.message) }

/-- The content of a file after the run, if the run has written it. Paths that lead to the same
place are the same file. -/
def Report.content? (r : Report) (path : String) (places : Places := Place.ofPath) :
    Option String :=
  match r.saved?, places path with
  | some (.file folder name, text), .ok place =>
    if place = .file folder name then some text else none
  | _, _ => none

/-- The first line of a text whose last line is ended as well. A line ends with a line break, and
a carriage return in front of one belongs to it. -/
def firstLine (cs : List Char) : List Char :=
  let line := cs.takeWhile (· != '\n')
  if line.getLast? = some '\r' then line.dropLast else line

def Report.messageLine? (r : Report) : Option String :=
  r.message?.map fun message => String.ofList (firstLine message.toList)

end AvroSchemata.Command
