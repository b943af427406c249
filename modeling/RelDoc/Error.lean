import RelDoc.Command.Operator
import RelDoc.Exchange.Basic
import RelDoc.Statement.Basic
import RelDoc.Value.Inspect

/-!
# Errors

Why an operation fails. Every error is a cause with what it is about; `Error.category` sorts the
causes and `Error.message` words them. Two categories matter to callers: a statement that uses a
construct without a counterpart (`unsupported`) and a broken rule of the library itself
(`assertion`).
-/

namespace RelDoc

/-- The kinds of fragments that the plan of a statement is put together from. -/
inductive FragmentKind where
  | command
  | operand
  | filter
  | collection
  | document
  | update
  | projection
  | sortKey
deriving DecidableEq

/-- Places that take a value and no column. -/
inductive ValuePlace where
  | assignment
  | insert
  | offset
  | fetch
deriving DecidableEq

/-- Places that take a column and no value. -/
inductive ColumnPlace where
  | selection
  | orderBy
deriving DecidableEq

/-- Constructs without a counterpart. -/
inductive Unsupported where
  | insertFromSelect
  | join (kind : JoinKind) (table : String)
  | groupBy
  | distinct
  | nestedStatement (table outer : String)
  | foreignColumn (qualifier column table : String)
  | nullLiteral
  | function (name : String)
  | arithmetic (operator : Arithmetic)
  | comparison (operator : Comparison)
  | columnComparison (left right : String)
  | comparisonWithoutColumn
  | nullness (isNegated : Bool)
  | membership (isNegated : Bool)
  | pattern (isNegated : Bool)
  | between (isNegated : Bool)
  | identifierAssigned
  | assignedTwice (field : String)
  | columnAsValue (field : String) (place : ValuePlace)
  | valueAsColumn (place : ColumnPlace)
  | hiddenSort (field : String)
  | countValue (stage : CountStage) (value : Value)
  | countDocument (stage : CountStage)
  | binarySubtype (subtype : UInt8)
  | valueKind (kind : Value.Kind)

/-- What a writer of documents refuses. -/
inductive WriterFault where
  | valueWithoutName
  | valueOutside
  | containerWithoutName
  | rootWritten
  | arrayOutside
  /-- A document ended after a field name; the name, if the writer keeps it. -/
  | fieldWithoutValue (name : Option String)
  | endDocumentInArray
  | endDocumentUnopened
  | endArrayInDocument
  | endArrayUnopened
  /-- A second name before the value of the first; the first, if the writer keeps it. -/
  | namedTwice (name : String) (previous : Option String)
  | nameOutside (name : String)
  | openContainers
  | noRoot
  | incomplete
deriving DecidableEq

inductive Assertion where
  | exchange (fault : Exchange.Fault FragmentKind)
  | writer (fault : WriterFault)
  | columnOutsideStatement (column : String)
  | columnIsValue
  | rowWidth (values columns : Nat)
  | nullLiteral
  | containerLiteral
  | repeatedField (name : String)
  | emptyCombination (operator : Combinator)
  | emptyInsert
  | fieldNamedTwice (clause : FieldClause) (field : String)
  | noFields (clause : FieldClause)

inductive ConfigurationFault where
  | malformed
  | blankConnection
  | blankDatabase
  | tableTwice (table : String)
  | blankCollection (table : String)
  | blankField (column table : String)
deriving DecidableEq

inductive StoreFault where
  | emptyCommand
  | missingString (key : String)
  | missingArray (key : String)
  | nonDocuments (key : String)
  | unknownCommand (name : String)
  | duplicateKey (collection : String) (id : Value)
  | missingDocument (key : String)
  | immutableId
  | deleteLimit (limit : Option Value)
  | emptyStage
  | stageDocument (stage : String)
  | stageInteger (stage : String) (argument : Value)
  | stageNegative (stage : String)
  | zeroLimit
  | unknownStage (stage : String)
  | mixedProjection
  | sortDirection (direction : Value)
  | clauses (operator : String)
  | unknownOperator (operator : String)
  | rowsForCount
  | countForRows

inductive Error where
  | unsupported (cause : Unsupported)
  | assertion (cause : Assertion)
  | uuidLength (length : Nat)
  | nameWithZero (name : String)
  | unmappedTable (table : String)
  | unmappedColumn (column table : String)
  | missingParameter (position supplied : Nat)
  | unusedParameter (position supplied : Nat)
  | configuration (cause : ConfigurationFault)
  | store (cause : StoreFault)
  /-- No failure that is reported: a sort was handed a comparison that does not order its rows. It
  stops with this, or it leaves the rows in an order that nothing specifies. -/
  | disorder

inductive ErrorCategory where
  | unsupported
  | assertion
  | serialization
  | metadata
  | parameter
  | configuration
  | store
  /-- Outside of the errors that are reported. -/
  | disorder
deriving DecidableEq

namespace Arithmetic

def name : Arithmetic → String
  | add => "Add"
  | subtract => "Subtract"
  | multiply => "Multiply"
  | divide => "Divide"
  | modulo => "Modulo"

end Arithmetic

namespace JoinKind

def name : JoinKind → String
  | inner => "Inner"
  | left => "Left"
  | right => "Right"
  | full => "Full"
  | cross => "Cross"

end JoinKind

namespace ValuePlace

def name : ValuePlace → String
  | assignment => "an assignment"
  | insert => "an insert"
  | offset => "OFFSET"
  | fetch => "FETCH"

end ValuePlace

namespace ColumnPlace

def name : ColumnPlace → String
  | selection => "selection"
  | orderBy => "ORDER BY"

end ColumnPlace

namespace Value.Kind

def name : Value.Kind → String
  | null => "Null"
  | undefined => "Undefined"
  | boolean => "Boolean"
  | int32 => "Int32"
  | int64 => "Int64"
  | double => "Double"
  | string => "String"
  | array => "Array"
  | document => "EmbeddedDocument"
  | dateTime => "DateTime"
  | objectId => "ObjectId"
  | binary => "Binary"
  | regex => "RegularExpression"
  | dbPointer => "DbPointer"
  | code => "JavaScriptCode"
  | codeWithScope => "JavaScriptCodeWithScope"
  | timestamp => "Timestamp"
  | symbol => "Symbol"
  | decimal => "Decimal128"
  | minKey => "MinKey"
  | maxKey => "MaxKey"

end Value.Kind

namespace Unsupported

/-- `NOT ` in front of a negated test. -/
def negation (isNegated : Bool) : String := if isNegated then "NOT " else ""

def text : Unsupported → String
  | insertFromSelect => "INSERT ... SELECT"
  | join kind table => kind.name ++ " join with table " ++ table
  | groupBy => "GROUP BY"
  | distinct => "SELECT DISTINCT"
  | nestedStatement table outer =>
    "statement on table " ++ table ++ " nested in a statement on table " ++ outer
  | foreignColumn qualifier column table =>
    "column " ++ qualifier ++ "." ++ column ++ " from a table other than " ++ table
  | nullLiteral => "NULL literal"
  | function name => "function " ++ name
  | arithmetic operator => "arithmetic expression (" ++ operator.name ++ ")"
  | comparison operator => "comparison operator '" ++ operator.symbol ++ "'"
  | columnComparison left right => "comparison between columns " ++ left ++ " and " ++ right
  | comparisonWithoutColumn => "comparison without a column"
  | nullness isNegated => "IS " ++ negation isNegated ++ "NULL predicate"
  | membership isNegated => negation isNegated ++ "IN predicate"
  | pattern isNegated => negation isNegated ++ "LIKE predicate"
  | between isNegated => negation isNegated ++ "BETWEEN predicate"
  | identifierAssigned => "assigning a new identifier in an update"
  | assignedTwice field => "field " ++ field ++ " assigned twice in one update"
  | columnAsValue field place => "column " ++ field ++ " used as a value in " ++ place.name
  | valueAsColumn place => place.name ++ " on a value instead of a column"
  | hiddenSort field => "ORDER BY " ++ field ++ " which is not part of the selection"
  | countValue stage value => stage.token ++ " with value " ++ value.display
  | countDocument stage => stage.token ++ " with a document value"
  | binarySubtype subtype => "binary subtype " ++ binarySubtypeName subtype
  | valueKind kind => "wire type " ++ kind.name

end Unsupported

namespace WriterFault

def text : WriterFault → String
  | valueWithoutName => "value written into a document without a field name"
  | valueOutside => "value written outside of a document"
  | containerWithoutName => "nested container started without a field name"
  | rootWritten => "root document already written"
  | arrayOutside => "array written outside of a document"
  | fieldWithoutValue (some name) => "document ended while field " ++ name ++ " has no value"
  | fieldWithoutValue none => "document ended while a field has no value"
  | endDocumentInArray => "end_document called inside an array"
  | endDocumentUnopened => "end_document called without an open document"
  | endArrayInDocument => "end_array called inside a document"
  | endArrayUnopened => "end_array called without an open array"
  | namedTwice name (some previous) =>
    "field " ++ name ++ " named while field " ++ previous ++ " has no value"
  | namedTwice name none => "field " ++ name ++ " named while another field has no value"
  | nameOutside name => "field " ++ name ++ " named outside of a document"
  | openContainers => "document writer finished with open containers"
  | noRoot => "document writer finished without a root document"
  | incomplete => "json writer finished with an incomplete document"

end WriterFault

namespace Assertion

/-- The wording, given the names of the kinds of fragments. -/
def text (kindName : FragmentKind → String) : Assertion → String
  | exchange fault => fault.message kindName
  | writer fault => fault.text
  | columnOutsideStatement column => "column " ++ column ++ " referenced outside of a statement"
  | columnIsValue => "column reference translated into a value"
  | rowWidth values columns =>
    "values list has " ++ toString values ++ " values for " ++ toString columns ++ " columns"
  | nullLiteral => "literal values must not be null"
  | containerLiteral => "literal values must be scalars"
  | repeatedField name => "field " ++ name ++ " appears twice in a document"
  | emptyCombination operator => operator.token ++ " filter needs at least one sub-filter"
  | emptyInsert => "insert needs at least one document"
  | fieldNamedTwice clause field => clause.token ++ " names field " ++ field ++ " twice"
  | noFields clause => clause.token ++ " needs at least one field"

end Assertion

namespace ConfigurationFault

def text : ConfigurationFault → String
  | malformed => "malformed configuration"
  | blankConnection => "connection string is empty"
  | blankDatabase => "database name is empty"
  | tableTwice table => "table " ++ table ++ " is mapped twice"
  | blankCollection table => "table " ++ table ++ " has an empty collection name"
  | blankField column table => "column " ++ column ++ " of table " ++ table ++ " maps to an empty field name"

end ConfigurationFault

namespace StoreFault

def text : StoreFault → String
  | emptyCommand => "empty command document"
  | missingString key => "command is missing string field " ++ key
  | missingArray key => "command is missing array field " ++ key
  | nonDocuments key => key ++ " must contain documents"
  | unknownCommand name => "unsupported command " ++ name
  | duplicateKey collection id => "duplicate key in collection " ++ collection ++ ": _id " ++ id.display
  | missingDocument key => "missing document field " ++ key
  | immutableId => "the " ++ idField ++ " field is immutable"
  | deleteLimit none => "delete limit must be 0 or 1, got None"
  | deleteLimit (some limit) => "delete limit must be 0 or 1, got Some(" ++ limit.inspect ++ ")"
  | emptyStage => "empty pipeline stage"
  | stageDocument stage => stage ++ " expects a document"
  | stageInteger stage argument => stage ++ " expects an integer, got " ++ argument.display
  | stageNegative stage => stage ++ " must not be negative"
  | zeroLimit => "$limit must be positive"
  | unknownStage stage => "unsupported pipeline stage " ++ stage
  | mixedProjection => "$project cannot mix inclusion and exclusion"
  | sortDirection direction => "$sort direction must be 1 or -1, got " ++ direction.display
  | clauses operator => operator ++ " expects an array of filters"
  | unknownOperator operator => "unsupported query operator " ++ operator
  | rowsForCount => "command produced rows, not a count"
  | countForRows => "command produced a count, not rows"

end StoreFault

namespace ErrorCategory

/-- What stands in front of every message of the category. -/
def heading : ErrorCategory → String
  | unsupported => "Feature not supported: "
  | assertion => "Assertion failed: "
  | serialization => "Serialization error: "
  | metadata => "Metadata error: "
  | parameter => "Parameter error: "
  | configuration => "Configuration error: "
  | store => "Backend error: "
  | disorder => ""

end ErrorCategory

namespace Error

def category : Error → ErrorCategory
  | unsupported _ => .unsupported
  | assertion _ => .assertion
  | uuidLength _ => .serialization
  | nameWithZero _ => .serialization
  | unmappedTable _ => .metadata
  | unmappedColumn _ _ => .metadata
  | missingParameter _ _ => .parameter
  | unusedParameter _ _ => .parameter
  | configuration _ => .configuration
  | store _ => .store
  | disorder => .disorder

/-- The wording without the heading, given the names of the kinds of fragments. -/
def text (kindName : FragmentKind → String) : Error → String
  | unsupported cause => cause.text
  | assertion cause => cause.text kindName
  | uuidLength length => "uuid binary must be 16 bytes, got " ++ toString length
  | nameWithZero name =>
    "BSON error. Kind: Malformed BSON bytes. Message: cstring with interior null: " ++ Escaped.encode name ++ "."
  | unmappedTable table => "table " ++ table ++ " is not mapped"
  | unmappedColumn column table => "column " ++ column ++ " of table " ++ table ++ " is not mapped"
  | missingParameter position supplied =>
    "no value for parameter " ++ toString position ++ ", " ++ toString supplied ++ " supplied"
  | unusedParameter position supplied =>
    "parameter " ++ toString position ++ " of " ++ toString supplied ++ " is not referenced by the command"
  | configuration cause => cause.text
  | store cause => cause.text
  | disorder => "user-provided comparison function does not correctly implement a total order"

def message (kindName : FragmentKind → String) (e : Error) : String :=
  e.category.heading ++ e.text kindName

def isUnsupported (e : Error) : Bool := e.category = .unsupported

def isAssertion (e : Error) : Bool := e.category = .assertion

end Error
end RelDoc
