/-!
# Faults

Everything that can go wrong while assembly text is read, listed or run, one constructor per cause.
A fault belongs to a kind, and most faults have a wording of their own. A fault of the kinds that
concern values ends the reading of a source quietly (`Fault.endsReading`).
-/

namespace Dalvik

inductive Fault where
  /-- Access flags were asked of something that is no integer. -/
  | unsupportedFlags (type : String)
  /-- A signature without a parameter list has no name. -/
  | namelessSignature (signature : String)
  | invalidSignature
  | missingDescriptor
  | noLiteral (text : String)
  | lineExhausted
  | invalidPolicy (policy : String)
  /-- A reader was started without a source or without a node. -/
  | missingSource
  /-- A reader was started on something that is no source. -/
  | foreignSource (type : String)
  | unreadableSource
  | unknownPolicy (policy : String)
  | expectedDot (got : String)
  | expectedKeyword (expected got : String)
  | expectedDescriptor (got : String)
  | expectedSuper (got : String)
  | expectedClass
  | unexpectedEndOfLine
  | invalidStatement (statement : String)
  | expectedSignature
  /-- A local variable's debug information with a wrong number of values. -/
  | localValues (got : Nat)
  /-- A writer was given a delegate of another shape. -/
  | wrongDelegate (type : String)
  | sealedMember (base : String)
  | foreignParent
  | notASignature (type : String)
  | inactiveMethod
  | abstractMethod
  | badLocals
  | overloadMismatch (name : String)
  | ambiguousOverload (name : String)
  | noSuchMethod (signature : String)
  | noSuchField (name : String)
  | noSuchInner (name : String)
  | invalidKey
  | emptyKey
  | abstractClass
  | unsetField (name : String)
  | readOnlyField (owner name : String)
  | nullClass
  | noSuchClass (name : String)
  | unregistered (method : String)
  | argumentCount (expected got : Nat)
  | argumentType (expected got : String)
  /-- An instruction name that no instruction has, met while a method is loaded. -/
  | invalidOpcode (name : String)
  /-- An instruction name that no instruction has, met at the console. -/
  | unknownInstruction (name : String)
  /-- An error of the running program, with the name of its class. -/
  | raised (name message : String)
  | namelessAction
  | noAction (name : String)
  | noSuchRegister (name : String)
  | operandType
  | operandCount
  | numeral
  | partCount
  | undecodable
  | noElement
  | noEntry
  /-- An operation that the thing at hand does not have. -/
  | noOperation
  | zeroDivisor
  | tooLarge
  | negativeShift
  | packing
  | endless
  | endOfSource
  | folder
  /-- A file was asked for that has not been looked for yet. -/
  | unseenFile (path : String)
  | halted (code : Nat)
  deriving DecidableEq, Repr, Inhabited

namespace Fault

inductive Kind where
  | malformed
  | value
  | encoding
  | type
  | position
  | key
  | operation
  | exhausted
  | division
  | range
  | unsupported
  | execution
  | classLookup
  | methodLookup
  | fieldLookup
  | registerLookup
  | opcode
  | recursion
  | packing
  | sourceEnd
  | folder
  /-- A request to whoever runs the program: for a file, or to stop. -/
  | request
  deriving DecidableEq, Repr

def Kind.name : Kind → String
  | .malformed => "SyntaxError"
  | .value => "ValueError"
  | .encoding => "UnicodeDecodeError"
  | .type => "TypeError"
  | .position => "IndexError"
  | .key => "KeyError"
  | .operation => "AttributeError"
  | .exhausted => "StopIteration"
  | .division => "ZeroDivisionError"
  | .range => "OverflowError"
  | .unsupported => "UnsupportedOperation"
  | .execution => "ExecutionError"
  | .classLookup => "NoSuchClassError"
  | .methodLookup => "NoSuchMethodError"
  | .fieldLookup => "NoSuchFieldError"
  | .registerLookup => "NoSuchRegisterError"
  | .opcode => "InvalidOpcodeError"
  | .recursion => "RecursionError"
  | .packing => "error"
  | .sourceEnd => "EOFError"
  | .folder => "IsADirectoryError"
  | .request => "SystemExit"

def kind : Fault → Kind
  | unsupportedFlags _ | namelessSignature _ | invalidSignature | foreignSource _ | wrongDelegate _
  | sealedMember _ | foreignParent | badLocals | argumentType _ _ | operandType | operandCount => .type
  | missingDescriptor | noLiteral _ | invalidPolicy _ | missingSource | unreadableSource
  | unknownPolicy _ | notASignature _ | nullClass | argumentCount _ _ | namelessAction | numeral
  | partCount | negativeShift => .value
  | undecodable => .encoding
  | lineExhausted => .exhausted
  | expectedDot _ | expectedKeyword _ _ | expectedDescriptor _ | expectedSuper _ | expectedClass
  | unexpectedEndOfLine | invalidStatement _ | expectedSignature | localValues _
  | unknownInstruction _ => .malformed
  | inactiveMethod | abstractMethod | abstractClass | readOnlyField _ _ => .unsupported
  | overloadMismatch _ | ambiguousOverload _ | noSuchMethod _ | unregistered _ => .methodLookup
  | noSuchField _ | unsetField _ => .fieldLookup
  | noSuchInner _ | noSuchClass _ => .classLookup
  | invalidKey | emptyKey | noAction _ | noEntry => .key
  | invalidOpcode _ => .opcode
  | raised _ _ => .execution
  | noSuchRegister _ => .registerLookup
  | noElement => .position
  | noOperation => .operation
  | zeroDivisor => .division
  | tooLarge => .range
  | packing => .packing
  | endless => .recursion
  | endOfSource => .sourceEnd
  | folder => .folder
  | unseenFile _ | halted _ => .request

def message? : Fault → Option String
  | unsupportedFlags t => some s!"Unsupported type: <class '{t}'>"
  | namelessSignature s => some s!"Invalid method signature: could not find name ({s})"
  | invalidSignature => some "Invalid method signature"
  | missingDescriptor => some "Invalid method signature - expected '('"
  | noLiteral t => some s!"Could not find any matching primitive type for {t}"
  | lineExhausted => some ""
  | invalidPolicy p => some s!"Invalid error handler: {p}"
  | missingSource => some "Invalid source or visitor (nullptr)"
  | foreignSource t => some s!"Invalid source type: <class '{t}'>"
  | unreadableSource => some "Source object is not readable!"
  | unknownPolicy p => some s!"Invalid error handling type: {p}"
  | expectedDot g => some s!"Expected '.' before token - got '{g}'"
  | expectedKeyword e g => some s!"Expected '{e}' - got '{g}'"
  | expectedDescriptor g => some s!"Expected type descriptor - got '{g}'"
  | expectedSuper g => some s!"Expected super-class type descriptor - got '{g}'"
  | expectedClass => some "Expected a class defintion - got EOF"
  | unexpectedEndOfLine => some "Unexpected EOL (end of line)"
  | invalidStatement s => some s!"Invalid statement: \"{s}\""
  | expectedSignature => some "Expected a method signature - got None"
  | localValues n => some s!"Expected 3 values in \".local\" statement - got {n}"
  | wrongDelegate t => some s!"Invalid Visitor type - expected subclass of <class '{t}'>"
  | sealedMember b => some s!"{b} cannot be sub-classed!"
  | foreignParent => some "Parent of this memeber must be an instance of SmaliMember"
  | notASignature t => some s!"Expected a method signature - got {t}"
  | inactiveMethod => some "VM not activated!"
  | abstractMethod => some "Abstract methods cannot e executed!"
  | badLocals => some "Invalid locals argument type"
  | overloadMismatch n => some s!"Attempted to call {n}() with invalid arguments"
  | ambiguousOverload n => some s!"Attempted to call {n}() - multiple variants present"
  | noSuchMethod s => some s!"Method with signature \"{s}\" not found"
  | noSuchField n => some s!"Field with name '{n}' not found"
  | noSuchInner n => some s!"Class with name \"{n}\" not found!"
  | invalidKey => some "Invalid key"
  | emptyKey => some "Invalid Key"
  | abstractClass => some "Class is abstract and cannot be instantiated directly!"
  | unsetField n => some s!"Field not found: {n}"
  | readOnlyField o n => some s!"Attempt to write in read-only field \"{o}{n}\""
  | nullClass => some "SmaliClass object is null!"
  | noSuchClass n => some s!"Class \"{n}\" not defined!"
  | unregistered m => some s!"Method not registered! {m}"
  | argumentCount e g => some s!"Invalid argument count! - expected {e}, got {g}"
  | argumentType e g => some s!"Invalid type for parameter, expected {e} - got <class '{g}'>"
  | invalidOpcode n | unknownInstruction n => some s!"Invalid OpCode: {n}"
  | raised _ m => some m
  | namelessAction => some "Opcode name must be non-null!"
  | noAction n => some s!"Could not find executor for opcode: {n}"
  | noSuchRegister n => some s!"Register with name {n} not found!"
  | operandType | operandCount | numeral | partCount | undecodable | noElement | noEntry
  | noOperation | zeroDivisor | tooLarge | negativeShift | packing | endless | endOfSource | folder
  | unseenFile _ | halted _ => none

def errorName? : Fault → Option String
  | raised n _ => some n
  | _ => none

/-- Whether a fault ends the reading of a source without a report: the end of the source itself, and
every fault that concerns a value. -/
def endsReading (f : Fault) : Bool :=
  match f.kind with
  | .sourceEnd | .value | .encoding | .unsupported => true
  | _ => false

/-- Whether a fault is a request, which only whoever runs the program can answer. -/
def isRequest (f : Fault) : Bool :=
  f.kind == .request

/-- A fault in one line: its kind, and its wording if it has one. -/
def summary (f : Fault) : String :=
  match f.message? with
  | some m => s!"{f.kind.name}: {m}"
  | none => f.kind.name

end Fault

end Dalvik
