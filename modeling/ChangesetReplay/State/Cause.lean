import ChangesetReplay.State.Key

/-! # Causes of failure

Why a store call or an instruction failed, the class each cause belongs to, and its wording. -/

namespace ChangesetReplay

/-- The class of a failure. -/
inductive CauseKind where
  | malformedReference
  | invalidSelection
  | schemaViolation
  | boundsViolation
  | relationViolation
  | malformedLog
deriving DecidableEq

namespace CauseKind

def text : CauseKind → String
  | malformedReference => "malformed reference"
  | invalidSelection => "invalid selection"
  | schemaViolation => "schema violation"
  | boundsViolation => "bounds violation"
  | relationViolation => "relation violation"
  | malformedLog => "malformed log"

def name : CauseKind → String
  | malformedReference => "malformedReference"
  | invalidSelection => "invalidSelection"
  | schemaViolation => "schemaViolation"
  | boundsViolation => "boundsViolation"
  | relationViolation => "relationViolation"
  | malformedLog => "malformedLog"

/-- Whether trying again could succeed. Replay is deterministic, so it never could. -/
def isRetryable (_ : CauseKind) : Bool := false

end CauseKind

inductive Cause where
  | unknownString (id : UInt32)
  | badStringRange (offset size : UInt32)
  | unknownObjectRef (index : UInt32) (created : Nat)
  | objectNotFound (table object : String)
  | objectTableMismatch (expected actual : String)
  | unknownTableKey (table : TableKey)
  | unknownColumnKey (table : String) (column : ColumnKey)
  | unknownObjectKey (table : String) (object : ObjectKey)
  | noTableSelected
  | noContainerSelected
  | staleSelection
  | selectedTableMissing (table : String)
  | selectedColumnMissing (table column : String)
  | notAList (table column : String)
  | notALinkList (table column : String)
  | tableExists (table : String)
  | tableNotFound (table : String)
  | tableIsLinkTarget (table origin : String)
  | columnExists (table column : String)
  | columnNotFound (table column : String)
  | invalidColumnDef (column reason : String)
  | primaryKeyColumn (table column : String)
  | primaryKeyMismatch (table reason : String)
  | objectExists (table key : String)
  | typeMismatch (field expected got : String)
  | notNullable (field : String)
  | notAScalar (field : String)
  | nullIncrement (field : String)
  | invalidTimestamp (field : String) (nanoseconds : Int32)
  | indexOutOfBounds (index length : Nat)
  | linkTargetMismatch (field expected actual : String)
  | invalidSnapshot (reason : String)
  | keyInUse (table key : String)
deriving DecidableEq

namespace Cause

def kind : Cause → CauseKind
  | unknownString .. | badStringRange .. | unknownObjectRef .. | objectNotFound ..
  | objectTableMismatch .. | unknownTableKey .. | unknownColumnKey .. | unknownObjectKey .. =>
    .malformedReference
  | noTableSelected | noContainerSelected | staleSelection | selectedTableMissing ..
  | selectedColumnMissing .. | notAList .. | notALinkList .. => .invalidSelection
  | tableExists .. | tableNotFound .. | tableIsLinkTarget .. | columnExists ..
  | columnNotFound .. | invalidColumnDef .. | primaryKeyColumn .. | primaryKeyMismatch ..
  | objectExists .. | typeMismatch .. | notNullable .. | notAScalar .. | nullIncrement ..
  | invalidTimestamp .. => .schemaViolation
  | indexOutOfBounds .. => .boundsViolation
  | linkTargetMismatch .. => .relationViolation
  | invalidSnapshot .. | keyInUse .. => .malformedLog

def message : Cause → String
  | unknownString id => s!"unknown interned string: {id.toNat}"
  | badStringRange offset size =>
    s!"string range {offset.toNat}+{size.toNat} is outside the changeset buffer"
  | unknownObjectRef index created =>
    s!"back-reference to created object {index.toNat}, but only {created} created so far"
  | objectNotFound table object => s!"object {object} not found in table '{table}'"
  | objectTableMismatch expected actual =>
    s!"object belongs to table '{actual}', expected '{expected}'"
  | unknownTableKey table => s!"unknown table key: {table.text}"
  | unknownColumnKey table column => s!"unknown column key {column.text} in table '{table}'"
  | unknownObjectKey table object => s!"unknown object key {object.text} in table '{table}'"
  | noTableSelected => "no table selected"
  | noContainerSelected => "no list or link list selected"
  | staleSelection => "selection was invalidated by an earlier erase"
  | selectedTableMissing table => s!"cannot select table '{table}': no such table"
  | selectedColumnMissing table column =>
    s!"cannot select '{column}': no such column in table '{table}'"
  | notAList table column => s!"column '{column}' in table '{table}' is not a list"
  | notALinkList table column => s!"column '{column}' in table '{table}' is not a link list"
  | tableExists table => s!"table already exists: {table}"
  | tableNotFound table => s!"table not found: {table}"
  | tableIsLinkTarget table origin => s!"table '{table}' is the link target of table '{origin}'"
  | columnExists table column => s!"column '{column}' already exists in table '{table}'"
  | columnNotFound table column => s!"column '{column}' not found in table '{table}'"
  | invalidColumnDef column reason => s!"invalid definition for column '{column}': {reason}"
  | primaryKeyColumn table column => s!"column '{column}' is the primary key of table '{table}'"
  | primaryKeyMismatch table reason => s!"primary key mismatch in table '{table}': {reason}"
  | objectExists table key =>
    s!"object with primary key {key} already exists in table '{table}'"
  | typeMismatch field expected got =>
    s!"type mismatch for field '{field}': expected {expected}, got {got}"
  | notNullable field => s!"field '{field}' is not nullable"
  | notAScalar field => s!"field '{field}' is a list, not a scalar"
  | nullIncrement field => s!"cannot add to null integer field '{field}'"
  | invalidTimestamp field nanoseconds =>
    s!"timestamp for field '{field}' has {nanoseconds.toInt} nanoseconds, " ++
      "expected 0..1000000000"
  | indexOutOfBounds index length => s!"index {index} out of bounds for list of length {length}"
  | linkTargetMismatch field expected actual =>
    s!"link in field '{field}' must target table '{expected}', got '{actual}'"
  | invalidSnapshot reason => s!"invalid snapshot: {reason}"
  | keyInUse table key => s!"{key} is already in use in table '{table}'"

end Cause

end ChangesetReplay
