import DocumentSchema.Json.Printer
import DocumentSchema.Schema.Kind

/-!
# Faults of documents

Why a document cannot be written for its schema, and why what a store holds cannot be read for it.
-/

set_option autoImplicit false

namespace DocumentSchema

/-- Why a value does not fit its field. -/
inductive EncodeError where
  | typeMismatch (field : String) (expected : KindName) (found : ValueName)
  | nestingUnsupported (field : String)
  | pointOutOfRange (field : String) (point : Coordinates)
  | nonFiniteNumber (field : String)
  | literalViolation (field value : String)
  | separatorInValue (field value : String) (separator : Char)
  | nullElement (field : String) (index : Nat)
  | emptyElement (field : String) (index : Nat)
  | tupleLength (field : String) (expected found : Nat)
deriving DecidableEq

def EncodeError.message : EncodeError → String
  | .typeMismatch field expected found =>
    "field '" ++ field ++ "' expects " ++ expected.label ++ ", got " ++ found.label
  | .nestingUnsupported field =>
    "field '" ++ field ++
      "' is nested; the flat encoding cannot represent objects, tuples or arrays of objects"
  | .pointOutOfRange field point =>
    "field '" ++ field ++ "' has point (" ++ point.longitude.text ++ ", " ++ point.latitude.text ++
      ") outside the indexable range"
  | .nonFiniteNumber field => "field '" ++ field ++ "' has a non-finite number"
  | .literalViolation field value =>
    "field '" ++ field ++ "' value '" ++ value ++ "' is not one of the allowed literals"
  | .separatorInValue field value separator =>
    "field '" ++ field ++ "' element '" ++ value ++ "' contains the separator '" ++
      separator.toString ++ "'"
  | .nullElement field index =>
    "field '" ++ field ++ "' contains a null element at index " ++ Decimal.natText index
  | .emptyElement field index =>
    "field '" ++ field ++ "' contains an empty element at index " ++ Decimal.natText index ++
      "; the flat encoding cannot tell it from a missing one"
  | .tupleLength field expected found =>
    "tuple field '" ++ field ++ "' expects " ++ Decimal.natText expected ++ " elements, got " ++
      Decimal.natText found

/-- What the reader of a field expects. -/
inductive Expectation where
  | kind (name : KindName)
  | tupleOfDeclaredLength
deriving DecidableEq

def Expectation.label : Expectation → String
  | .kind name => name.label
  | .tupleOfDeclaredLength => "tuple of the declared length"

/-- Why stored data do not fit a field; the data are shown as they are stored. -/
inductive DecodeError where
  | invalidBoolean (field raw : String)
  | invalidNumber (field raw : String)
  | invalidBigInt (field raw : String)
  | invalidDate (field raw : String)
  | invalidPoint (field raw : String)
  | nullInArray (field : String) (index : Nat)
  | typeMismatch (field : String) (expected : Expectation) (raw : String)
  | nestingUnsupported (field : String)
  | notAnObject (raw : String)
deriving DecidableEq

def DecodeError.message : DecodeError → String
  | .invalidBoolean field raw =>
    "field '" ++ field ++ "' expects \"1\" or \"0\", got '" ++ raw ++ "'"
  | .invalidNumber field raw => "field '" ++ field ++ "' expects a number, got '" ++ raw ++ "'"
  | .invalidBigInt field raw => "field '" ++ field ++ "' expects an integer, got '" ++ raw ++ "'"
  | .invalidDate field raw =>
    "field '" ++ field ++ "' expects an epoch timestamp, got '" ++ raw ++ "'"
  | .invalidPoint field raw =>
    "field '" ++ field ++ "' expects 'longitude,latitude', got '" ++ raw ++ "'"
  | .nullInArray field index =>
    "field '" ++ field ++ "' contains null at index " ++ Decimal.natText index ++
      "; only the whole field may be null"
  | .typeMismatch field expected raw =>
    "field '" ++ field ++ "' expects " ++ expected.label ++ ", got '" ++ raw ++ "'"
  | .nestingUnsupported field =>
    "field '" ++ field ++ "' is nested and cannot be read from the flat encoding"
  | .notAnObject raw => "document root must be an object, got '" ++ raw ++ "'"

end DocumentSchema
