import PropertyGraph.Row.Key
import PropertyGraph.Value.Display

/-!
# What can go wrong

An error is its cause. The kind of an error says who can mend it (the caller, the store, nobody) and stands in front of
its message; the wording of the causes is in `GraphError.detail` and nowhere else. An error of throttling is the only
one that a later attempt of the same request can clear.
-/

namespace PropertyGraph

/-- The kinds of errors. -/
inductive ErrorKind where
  | invalidInput | notFound | conditionFailed | throughput | store | internal | notImplemented | invalidCursor
  | configuration | json
  deriving DecidableEq, Repr

/-- What a message of the kind begins with. -/
def ErrorKind.label : ErrorKind → String
  | .invalidInput => "Invalid input"
  | .notFound => "Not found"
  | .conditionFailed => "Item already exists"
  | .throughput => "Throughput exceeded"
  | .store => "Store error"
  | .internal => "Internal error"
  | .notImplemented => "Not implemented"
  | .invalidCursor => "Invalid cursor"
  | .configuration => "Configuration error"
  | .json => "JSON error"

/-- What a caller can get wrong. -/
inductive InputFault where
  /-- A side of a relationship is mirrored by a number of sides other than one. -/
  | unpairedSide (edge typeName field : String) (mirrors : Nat)
  | filterNotObject
  | fieldFilterNotObject (field : String)
  | unknownComparison (name : String)
  | boundsNotTwo (field : String)
  | boundsNotNumbers (field : String)
  | operandNotScalar (comparison field : String)
  | payloadNotObject (typeName : String)
  | reservedField (field typeName : String)
  | edgeFieldNotObject (field typeName : String)
  | tooManyNodes (field typeName : String) (count : Nat)
  | entryNotObject (typeName : String)
  | dataNotObjects (typeName : String)
  | unknownEdge (typeName field : String)
  | noRootId
  | noIdToDelete
  | noIdsToDelete
  deriving DecidableEq, Repr

/-- What a store refuses. -/
inductive StoreFault where
  | rowWithoutKey
  | writeRejected (id : String)
  | batchWriteTooLarge (count most : Nat)
  | batchGetTooLarge (count most : Nat)
  | unknownIndex (name : String)
  | wrongPartitionKey (name : String)
  | limitNotPositive
  deriving DecidableEq, Repr

/-- Why the attributes of a row are not those of a node or an edge. -/
inductive RowFault where
  | missing (name : String)
  | notString (name : String) (content : Value)
  | ttlNotInteger (id : String) (content : Value)
  | foreignSortKey (dataType id neighbor : String)
  | withoutKey

/-- Why a cursor is none. -/
inductive CursorFault where
  | notBase64
  | notNames
  | missing (name : String)
  deriving DecidableEq, Repr

/-- Why settings are refused. -/
inductive SettingsFault where
  /-- The document is not a settings document at all. -/
  | unreadable
  /-- The content at a place is of the wrong sort or out of range. -/
  | badContent (place : String)
  | empty (name : String)
  | outOfRange (name : String) (most value : Nat)
  | notPositive (name : String)
  | backoffOrder
  | negativeGrace
  | badLevel (level : String)
  deriving DecidableEq, Repr

/-- What can go wrong, by cause. -/
inductive GraphError where
  | input (fault : InputFault)
  | noNode (id : String)
  | noRow (key : Key)
  | rowExists (key : Key)
  | throttled
  | store (fault : StoreFault)
  | row (fault : RowFault)
  | connections (typeName : String)
  | cursor (fault : CursorFault)
  | settings (fault : SettingsFault)
  | notJson
  /-- A failure that something outside the library reports in its own words. -/
  | reported (kind : ErrorKind) (detail : String)

/-- The wording of an input fault. -/
def InputFault.detail : InputFault → String
  | .unpairedSide edge typeName field mirrors =>
    "edge " ++ edge ++ " on " ++ typeName ++ "." ++ field ++ " has " ++ toString mirrors ++
      " mirrored counterparts, expected 1"
  | .filterNotObject => "filter must be an object"
  | .fieldFilterNotObject field => "filter for " ++ field ++ " must be an object of operators"
  | .unknownComparison name => "unknown filter operator " ++ name
  | .boundsNotTwo field => "between on " ++ field ++ " takes exactly two bounds"
  | .boundsNotNumbers field => "between bounds on " ++ field ++ " must be numbers"
  | .operandNotScalar comparison field => comparison ++ " on " ++ field ++ " takes a scalar operand"
  | .payloadNotObject typeName => "create payload for " ++ typeName ++ " must be an object"
  | .reservedField field typeName => "field " ++ field ++ " on " ++ typeName ++ " is reserved"
  | .edgeFieldNotObject field typeName => "edge field " ++ field ++ " on " ++ typeName ++ " expects a nested object"
  | .tooManyNodes field typeName count =>
    "edge field " ++ field ++ " on " ++ typeName ++ " accepts one node, got " ++ toString count
  | .entryNotObject typeName => "data entries for " ++ typeName ++ " must be objects"
  | .dataNotObjects typeName => "data for " ++ typeName ++ " must be an object or an array of objects"
  | .unknownEdge typeName field => "no edge definition for " ++ typeName ++ "." ++ field
  | .noRootId => "no root id passed"
  | .noIdToDelete => "cannot delete, no id passed"
  | .noIdsToDelete => "cannot delete, no ids passed"

/-- The wording of a store's refusal. -/
def StoreFault.detail : StoreFault → String
  | .rowWithoutKey => "item is missing key attributes " ++ Attribute.id ++ " and " ++ Attribute.dataType
  | .writeRejected id => "write rejected for " ++ id
  | .batchWriteTooLarge count most => "batch write of " ++ toString count ++ " requests exceeds " ++ toString most
  | .batchGetTooLarge count most => "batch get of " ++ toString count ++ " keys exceeds " ++ toString most
  | .unknownIndex name => "index " ++ name ++ " does not exist"
  | .wrongPartitionKey name => name ++ " is not the partition key of the queried table or index"
  | .limitNotPositive => "limit must be positive"

/-- The wording of a row fault. -/
def RowFault.detail : RowFault → String
  | .missing name => "attribute " ++ name ++ " is missing"
  | .notString name content => "attribute " ++ name ++ " is not a string: " ++ content.display
  | .ttlNotInteger id content => Attribute.ttl ++ " on " ++ id ++ " is not an integer: " ++ content.display
  | .foreignSortKey dataType id neighbor =>
    "sort key " ++ dataType ++ " on " ++ id ++ " does not end with neighbor " ++ neighbor
  | .withoutKey => "row is missing key attributes " ++ Attribute.id ++ " and " ++ Attribute.dataType

/-- The wording of a cursor fault. -/
def CursorFault.detail : CursorFault → String
  | .notBase64 => "<base64>"
  | .notNames => "<json>"
  | .missing name => "start key is missing " ++ name

/-- The wording of a settings fault. -/
def SettingsFault.detail : SettingsFault → String
  | .unreadable => "<toml>"
  | .badContent place => "<value> for key " ++ Text.quoted place
  | .empty name => name ++ " must not be empty"
  | .outOfRange name most value =>
    name ++ " must be between 1 and " ++ toString most ++ ", got " ++ toString value
  | .notPositive name => name ++ " must be positive"
  | .backoffOrder => "write.base_backoff_ms must not exceed write.max_backoff_ms"
  | .negativeGrace => "delete.grace_minutes must not be negative"
  | .badLevel level => "invalid log level " ++ Text.quoted level

namespace GraphError

/-- The kind of an error. -/
def kind : GraphError → ErrorKind
  | .input _ => .invalidInput
  | .noNode _ => .notFound
  | .noRow _ => .notFound
  | .rowExists _ => .conditionFailed
  | .throttled => .throughput
  | .store _ => .store
  | .row _ => .internal
  | .connections _ => .notImplemented
  | .cursor _ => .invalidCursor
  | .settings _ => .configuration
  | .notJson => .json
  | .reported kind _ => kind

/-- What an error says besides its kind. -/
def detail : GraphError → String
  | .input fault => fault.detail
  | .noNode id => "no node with id " ++ id
  | .noRow key => key.display
  | .rowExists key => key.display
  | .throttled => "provisioned throughput exceeded"
  | .store fault => fault.detail
  | .row fault => fault.detail
  | .connections typeName => "connections on " ++ typeName ++ ": linking to existing nodes is not supported"
  | .cursor fault => fault.detail
  | .settings fault => fault.detail
  | .notJson => "not a value of the expected form"
  | .reported _ detail => detail

/-- The message of an error: its kind, then what it says. -/
def message (e : GraphError) : String := e.kind.label ++ ": " ++ e.detail

/-- Whether a later attempt of the same request may succeed. -/
def isRetryable (e : GraphError) : Bool := e.kind = .throughput

end GraphError

end PropertyGraph
