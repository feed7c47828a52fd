import WireSchema.Diagnostic
import WireSchema.Layout

/-!
# Faults of schema files

Everything that can stop the compilation of a schema file, with the message for it.
-/

namespace WireSchema

/-- Names that lead nowhere, or to the wrong sort of declaration. -/
inductive ResolutionCause where
  | importNotFound (path : String)
  | unknownKind (name : String)
  | unknownValue (name : String)
  | notAnInterface (name : String)
  | notAnInteger (name : String)
  | enumValueOutOfRange (field : String) (value : Int)
  deriving DecidableEq, Repr

def ResolutionCause.message : ResolutionCause → String
  | importNotFound path => "Unable to find import \"" ++ path ++ "\""
  | unknownKind name => "Unknown type " ++ name
  | unknownValue name => "Unknown value " ++ name
  | notAnInterface name => name ++ " is not an interface"
  | notAnInteger name => name ++ " is not an integer value"
  | enumValueOutOfRange field value =>
    "Value " ++ toString value ++ " of enum field " ++ field ++
      " does not fit in a signed 32 bit integer"

/-- Declarations that conflict with each other. -/
inductive ValidationCause where
  | duplicateName (name : String)
  | duplicateMethodOrdinal (interface : String) (ordinal : UInt32) (first second : String)
  | methodOrdinalOverflow (interface method : String)
  deriving DecidableEq, Repr

def ValidationCause.message : ValidationCause → String
  | duplicateName name => name ++ " is declared more than once"
  | duplicateMethodOrdinal interface ordinal first second =>
    "Methods " ++ first ++ " and " ++ second ++ " of " ++ interface ++ " both have ordinal @" ++
      toString ordinal.toNat
  | methodOrdinalOverflow interface method =>
    "Implicit ordinal of method " ++ interface ++ "." ++ method ++
      " is out of range (maximum is " ++ toString Text.maxOrdinal ++ ")"

/-- A fault in the declarations of a module, at the given line. -/
inductive BuildFault where
  | resolution (line : UInt32) (cause : ResolutionCause)
  | validation (line : UInt32) (cause : ValidationCause)
  deriving DecidableEq, Repr

namespace BuildFault

def line : BuildFault → UInt32
  | resolution line _ | validation line _ => line

def message : BuildFault → String
  | resolution _ cause => cause.message
  | validation _ cause => cause.message

end BuildFault

/-- Lists a chain of imports, outermost first, as lines that say which file was imported by which,
the latest import first. Each line starts with a line feed. -/
def importLines : List String → String
  | outer :: inner :: rest =>
    importLines (inner :: rest) ++ "\n  " ++ inner ++ " was imported by " ++ outer
  | _ => ""

/-- What stops the compilation of a schema file. -/
inductive SchemaFault where
  | scan (d : Diagnostic)
  | grammar (d : Diagnostic)
  | record (file : String) (cause : RecordCause)
  | build (file : String) (fault : BuildFault)
  | circular (chain : List String)
  | layout (fault : LayoutFault)
  | unreadable (path reason : String)
  deriving DecidableEq, Repr

namespace SchemaFault

def message : SchemaFault → String
  | scan d | grammar d => d.message
  | record file cause => file ++ ": Error: " ++ cause.message
  | build file fault => file ++ ":" ++ toString fault.line.toNat ++ ": Error: " ++ fault.message
  | circular chain =>
    let blamed := match chain.getLast? with
      | some file => file ++ ": Error: Circular import chain"
      | none => "Error: Circular import chain"
    blamed ++ importLines chain
  | layout fault => fault.message
  | unreadable path reason => path ++ ": Error: " ++ reason

end SchemaFault

end WireSchema
