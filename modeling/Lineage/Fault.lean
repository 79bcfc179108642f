import Lineage.Datum

namespace Lineage

/-- The complaints that this library makes about its own inputs, by their topics:
    `VisitParentsError` and the classes below it. -/
inductive Complaint.Topic where
  | general
  | argument
  | selector
  | config
  deriving DecidableEq, Repr

/-- A complaint about an input: what it says, an optional code, the text it is
    about and further details. -/
structure Complaint where
  topic : Complaint.Topic
  message : String
  code : Option String
  subject : Option String
  details : Datum

namespace Complaint

/-- The code that goes with every complaint on a topic. -/
def Topic.code? : Topic → Option String
  | .general => none
  | .argument => some "INVALID_ARGUMENT"
  | .selector => some "SELECTOR_PARSE_ERROR"
  | .config => some "CONFIG_ERROR"

/-- Details that are absent or empty are an empty mapping. -/
def normalDetails (details : Datum) : Datum :=
  if details.isTrue then details else .mapping []

/-- A complaint on no topic, with a code of the caller's choice. -/
def general (message : String) (code : Option String) (details : Datum) : Complaint :=
  ⟨.general, message, code, none, normalDetails details⟩

/-- A complaint on a topic, which settles its code. -/
def about (topic : Topic) (message : String) (subject : Option String) (details : Datum) :
    Complaint :=
  ⟨topic, message, topic.code?, subject, normalDetails details⟩

end Complaint

/-- The sorts of failures that callers tell apart. -/
inductive Category where
  | type
  | value
  | key
  | index
  | state
  | unimplemented
  | interrupt
  | depth
  | overflow
  | system
  | memory
  | file
  | decoding
  | validation
  | complaint (topic : Complaint.Topic)
  deriving DecidableEq, Repr

/-- The failures that mean "not comparable" when they come up while two
    property values are compared. -/
def Category.isMismatch : Category → Bool
  | type | value | decoding | validation => true
  | complaint topic => topic ≠ .general
  | _ => false

/-- What the interpreter was at when it had gone down as many levels as it may. -/
inductive Descending where
  | converting
  | comparing
  | writing
  | readingList
  | readingMapping
  deriving DecidableEq, Repr

/-- How many levels the interpreter may go down. It counts the calls that are in
    progress too, so that what is refused is in truth a little less deep. -/
def maxLevels : Nat := 1000

/-- What a message on too many levels ends with. -/
def Descending.suffix : Descending → String
  | converting => ""
  | comparing => " in comparison"
  | writing => " while getting the repr of an object"
  | readingList => " while decoding a JSON array from a unicode string"
  | readingMapping => " while decoding a JSON object from a unicode string"

/-- Why something failed. -/
inductive Cause where
  | noLength (kind : Kind)
  | missingKey (key : Scalar)
  | badIndex (container index : Kind)
  | unordered (operator : String) (left right : Kind)
  | labelNotText (position : Nat) (kind : Kind)
  | keyNotText (kind : Kind)
  | notJoinable (kind : Kind)
  | unhashable (kind : Kind)
  | abstractCheck
  | unknownAction (shown : String)
  | unknownLevel (shown : String)
  | longInteger (digits : Nat)
  | unwritableInteger
  | undecodable (message : String)
  | invalidFields (message : String)
  | tooDeep (descending : Descending)
  | isDirectory (path : String)
  | complaint (complaint : Complaint)
  | raised (category : Category) (message : String)

namespace Cause

/-- The sort of failure that a cause brings about. -/
def category : Cause → Category
  | noLength _ | badIndex .. | unordered .. | labelNotText .. | keyNotText _ | notJoinable _
  | unhashable _ => .type
  | missingKey _ => .key
  | abstractCheck => .unimplemented
  | unknownAction _ | unknownLevel _ | longInteger _ | unwritableInteger => .value
  | undecodable _ => .decoding
  | invalidFields _ => .validation
  | tooDeep _ => .depth
  | isDirectory _ => .file
  | complaint c => .complaint c.topic
  | raised category _ => category

/-- How a container names the index that it refuses. -/
def badIndexMessage : Kind → Kind → String
  | .text, index => "string indices must be integers, not '" ++ index.name ++ "'"
  | .action, index => "string indices must be integers, not '" ++ index.name ++ "'"
  | container, index => container.name ++ " indices must be integers or slices, not " ++ index.name

/-- The wording of a cause. -/
def message : Cause → String
  | noLength kind => "object of type '" ++ kind.name ++ "' has no len()"
  | missingKey key => key.shown
  | badIndex container index => badIndexMessage container index
  | unordered operator left right =>
    "'" ++ operator ++ "' not supported between instances of '" ++ left.name ++ "' and '" ++
      right.name ++ "'"
  | labelNotText position kind =>
    "sequence item " ++ toString position ++ ": expected str instance, " ++ kind.name ++ " found"
  | keyNotText kind => "attribute name must be string, not '" ++ kind.name ++ "'"
  | notJoinable kind => "can only concatenate str (not \"" ++ kind.name ++ "\") to str"
  | unhashable kind => "unhashable type: '" ++ kind.name ++ "'"
  | abstractCheck => ""
  | unknownAction shown => shown ++ " is not a valid Action"
  | unknownLevel shown => "Unknown level: " ++ shown
  | longInteger digits =>
    "Exceeds the limit (4300 digits) for integer string conversion: value has " ++
      toString digits ++ " digits; use sys.set_int_max_str_digits() to increase the limit"
  | unwritableInteger =>
    "Exceeds the limit (4300 digits) for integer string conversion; " ++
      "use sys.set_int_max_str_digits() to increase the limit"
  | undecodable message => message
  | invalidFields message => message
  | tooDeep descending => "maximum recursion depth exceeded" ++ descending.suffix
  | isDirectory path => "[Errno 21] Is a directory: " ++ Text.quoted path
  | complaint c => c.message
  | raised .key message => Text.quoted message
  | raised _ message => message

end Cause

/-- A failure: its cause and the notes attached to it on its way out. -/
structure Fault where
  cause : Cause
  notes : List String

namespace Fault

instance : Inhabited Fault := ⟨⟨.tooDeep .converting, []⟩⟩

/-- A failure without notes. -/
def of (cause : Cause) : Fault := ⟨cause, []⟩

/-- The sort of a failure is that of its cause. -/
def category (fault : Fault) : Category := fault.cause.category

/-- The wording of a failure leaves its notes out. -/
def message (fault : Fault) : String := fault.cause.message

/-- The failure with one more note. -/
def note (fault : Fault) (text : String) : Fault :=
  { fault with notes := fault.notes ++ [text] }

end Fault

end Lineage
