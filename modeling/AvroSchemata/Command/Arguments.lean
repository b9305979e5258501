set_option autoImplicit false

/-!
The arguments of the command line. Options and names of types stand in any order, and after "--"
there are only names. Arguments that break a rule have no meaning at all.
-/

namespace AvroSchemata.Command

inductive Request where
  | type (name : String)
  | list
  | pretty
  | verbose
  | output (path : String)
  deriving DecidableEq, Repr

structure Reading where
  requests : List Request
  awaitsPath : Bool
  deriving DecidableEq, Repr

def attachedPath (path : List Char) : Option Reading :=
  if path = [] then none else some ⟨[.output (String.ofList path)], false⟩

/-- The short options behind one dash. A path takes all that follows, less an equals sign. -/
def readShort : List Char → Option Reading
  | [] => some ⟨[], false⟩
  | 'v' :: rest => (readShort rest).map fun r => ⟨.verbose :: r.requests, r.awaitsPath⟩
  | ['o'] => some ⟨[], true⟩
  | 'o' :: '=' :: path => attachedPath path
  | 'o' :: path => attachedPath path
  | _ => none

def readLong (option : List Char) : Option Reading :=
  match String.ofList (option.takeWhile (· != '=')), option.dropWhile (· != '=') with
  | "list", [] => some ⟨[.list], false⟩
  | "pretty", [] => some ⟨[.pretty], false⟩
  | "verbose", [] => some ⟨[.verbose], false⟩
  | "output", [] => some ⟨[], true⟩
  | "output", _ :: path => attachedPath path
  | _, _ => none

/-- One argument in front of "--". A lone dash is the name of a type. -/
def readArgument (argument : String) : Option Reading :=
  match argument.toList with
  | '-' :: '-' :: option => readLong option
  | '-' :: c :: letters => readShort (c :: letters)
  | _ => some ⟨[.type argument], false⟩

def isPath (argument : String) : Bool :=
  match argument.toList with
  | [] => false
  | ['-'] => true
  | c :: _ => c != '-'

def requests? : List String → Option (List Request)
  | [] => some []
  | argument :: rest =>
    if argument = "--" then some (rest.map .type)
    else
      match readArgument argument with
      | none => none
      | some ⟨found, false⟩ => (requests? rest).map (found ++ ·)
      | some ⟨found, true⟩ =>
        match rest with
        | [] => none
        | path :: rest =>
          if isPath path then (requests? rest).map (found ++ .output path :: ·) else none

def Request.typeName? : Request → Option String
  | .type name => some name
  | .list | .pretty | .verbose | .output _ => none

def Request.path? : Request → Option String
  | .output path => some path
  | .list | .pretty | .verbose | .type _ => none

/-- A run of the command: the types to write, or the list of all names, and where to. -/
structure Invocation where
  types : List String
  list : Bool
  pretty : Bool
  output? : Option String
  deriving DecidableEq, Repr

/-- The run that is asked for. Only names and verbosity may be given more than once, and there is
no run without names unless it is for the list. -/
def Invocation.ofRequests? (requests : List Request) : Option Invocation :=
  let types := requests.filterMap Request.typeName?
  let paths := requests.filterMap Request.path?
  if requests.count .list ≤ 1 ∧ requests.count .pretty ≤ 1 ∧ paths.length ≤ 1 ∧
      (types ≠ [] ∨ .list ∈ requests) then
    some ⟨types, .list ∈ requests, .pretty ∈ requests, paths.head?⟩
  else none

def Invocation.ofArguments? (arguments : List String) : Option Invocation :=
  requests? arguments >>= Invocation.ofRequests?

end AvroSchemata.Command
