import CallGuard.StringFormat.Address
import CallGuard.StringFormat.Calendar
import CallGuard.StringFormat.Uuid

/-!
# String formats

The formats that a type can ask of a string.
-/

namespace CallGuard

inductive StringFormat where
  | email
  | url
  | uuid
  | date
  | datetime
  deriving DecidableEq

namespace StringFormat

/-- Whether a text has the format. -/
def accepts (format : StringFormat) (text : String) : Bool :=
  match format with
  | email => isEmail text.toList
  | url => isUrl text.toList
  | uuid => isUuid text.toList
  | date => isDate text.toList
  | datetime => isTimestamp text.toList

/-- The name of a format. -/
def name : StringFormat → String
  | email => "email"
  | url => "url"
  | uuid => "uuid"
  | date => "date"
  | datetime => "datetime"

/-- The name of a format in inspections. -/
def constructorName : StringFormat → String
  | email => "Email"
  | url => "Url"
  | uuid => "Uuid"
  | date => "Date"
  | datetime => "DateTime"

end StringFormat

end CallGuard
