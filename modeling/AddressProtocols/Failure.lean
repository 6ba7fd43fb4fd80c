import AddressProtocols.Table

/-!
# Failures and how they are reported

* `ErrorCode` lists the stable codes of failures, in order of precedence, and
  `ErrorCode.chooseReported` picks the code to report when several violations are found at once;
* `Failure` says what went wrong, as a cause;
* `Report` is a failure as its receiver sees it: a kind, a code, a message and particulars of the
  kind.  `Failure.report` gives the report of a failure.
-/

namespace AddressProtocols

/-! ### Error codes -/

/-- The codes of failures, the one of highest precedence first. -/
inductive ErrorCode where
  | duplicateCode
  | duplicateName
  | protocolInvalid
  | unknownName
  | unknownCode
  | varintRange
  | varintOverflow
  | varintTruncated
  | table
  deriving DecidableEq, Repr

namespace ErrorCode

def all : List ErrorCode :=
  [duplicateCode, duplicateName, protocolInvalid, unknownName, unknownCode, varintRange,
    varintOverflow, varintTruncated, table]

def text : ErrorCode → Text
  | duplicateCode => Text.ofString "ERR_DUPLICATE_CODE"
  | duplicateName => Text.ofString "ERR_DUPLICATE_NAME"
  | protocolInvalid => Text.ofString "ERR_PROTOCOL_INVALID"
  | unknownName => Text.ofString "ERR_UNKNOWN_NAME"
  | unknownCode => Text.ofString "ERR_UNKNOWN_CODE"
  | varintRange => Text.ofString "ERR_VARINT_RANGE"
  | varintOverflow => Text.ofString "ERR_VARINT_OVERFLOW"
  | varintTruncated => Text.ofString "ERR_VARINT_TRUNCATED"
  | table => Text.ofString "ERR_TABLE"

/-- The precedence of a spelling, the lowest number winning; unknown spellings come last. -/
def rank (spelling : Text) : Nat := (all.map text).idxOf spelling

/-- The first spelling of least rank. -/
def chooseReported : List Text → Option Text
  | [] => none
  | spelling :: rest =>
    match chooseReported rest with
    | none => some spelling
    | some other => some (if rank other < rank spelling then other else spelling)

end ErrorCode

/-! ### Causes -/

inductive Failure where
  /-- The code of `incoming` belongs to `existing`. -/
  | codeTaken (incoming existing : Descriptor)
  /-- The name of `incoming` belongs to `existing`. -/
  | nameTaken (incoming existing : Descriptor)
  | descriptor (fault : Descriptor.Fault)
  | unknownName (segment : Text)
  | unknownCode (code : Nat)
  | varintRange (fault : Varint.RangeFault)
  | varint (fault : Varint.Malformed)
  | table (fault : Table.Fault)

namespace Failure

def code : Failure → ErrorCode
  | codeTaken _ _ => .duplicateCode
  | nameTaken _ _ => .duplicateName
  | descriptor _ => .protocolInvalid
  | unknownName _ => .unknownName
  | unknownCode _ => .unknownCode
  | varintRange _ => .varintRange
  | varint (.overflow _) => .varintOverflow
  | varint _ => .varintTruncated
  | table _ => .table

def noName (segment : Text) : Text := Text.ofString "no protocol with name: " ++ segment

def noCode (code : Text) : Text := Text.ofString "no protocol with code: " ++ code

def message : Failure → Text
  | codeTaken incoming existing =>
    Text.ofString "protocol code " ++ Text.ofNat incoming.code ++
      Text.ofString " already taken by " ++ existing.name.quoted
  | nameTaken incoming _ =>
    Text.ofString "protocol by the name " ++ incoming.name.quoted ++
      Text.ofString " already exists"
  | descriptor fault => fault.message
  | unknownName segment => noName segment
  | unknownCode code => noCode (Text.ofNat code)
  | varintRange fault => fault.message
  | varint fault => fault.message
  | table fault => fault.message

end Failure

/-! ### Reports -/

/-- The kinds of reports, each with its particulars. -/
inductive Report.Kind where
  | general
  | registration (incoming existing : Value)
  | invalidProtocol
  | unknownName (segment : Value)
  | unknownCode (code : Value)
  | malformedVarint (offset : Value)
  | varintRange
  | table

/-- A failure as its receiver sees it.  The code is a text unless the report was put together from
other values. -/
structure Report where
  kind : Report.Kind
  code : Value
  message : Text

namespace Report

/-- A report of values; a message that counts as false gives way to the code. -/
def withMessage (kind : Kind) (code message : Value) : Report :=
  ⟨kind, code, if message.isTruthy then message.display else code.display⟩

/-- The report that a name is not registered. -/
def ofUnknownName (segment : Value) : Report :=
  ⟨.unknownName segment, .text ErrorCode.unknownName.text, Failure.noName segment.display⟩

/-- The report that a code is not registered. -/
def ofUnknownCode (code : Value) : Report :=
  ⟨.unknownCode code, .text ErrorCode.unknownCode.text, Failure.noCode code.display⟩

/-- Whether a report blames a value that was handed over. -/
def blamesValue (r : Report) : Bool :=
  match r.kind with
  | .invalidProtocol | .malformedVarint _ | .varintRange | .table => true
  | _ => false

/-- Whether a report says that bytes hold no varint. -/
def blamesVarint (r : Report) : Bool :=
  match r.kind with
  | .malformedVarint _ => true
  | _ => false

/-- Whether a report says that something was not found. -/
def blamesLookup (r : Report) : Bool :=
  match r.kind with
  | .unknownName _ | .unknownCode _ => true
  | _ => false

end Report

namespace Failure

def kind : Failure → Report.Kind
  | codeTaken incoming existing => .registration incoming.value existing.value
  | nameTaken incoming existing => .registration incoming.value existing.value
  | descriptor _ => .invalidProtocol
  | unknownName segment => .unknownName (.text segment)
  | unknownCode code => .unknownCode (.int code)
  | varintRange _ => .varintRange
  | varint fault =>
    .malformedVarint (match fault.offset? with | some n => .int n | none => .null)
  | table _ => .table

def report (f : Failure) : Report := ⟨f.kind, .text f.code.text, f.message⟩

end Failure

end AddressProtocols
