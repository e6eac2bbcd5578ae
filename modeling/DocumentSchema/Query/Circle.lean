import DocumentSchema.Coordinates

/-!
# Circles on the map

A circle has an origin, a radius and the unit of the radius. Its text is the body of a clause on a
place.
-/

set_option autoImplicit false

namespace DocumentSchema.Query

/-- The unit of a radius. -/
inductive LengthUnit where
  | meters
  | kilometers
  | feet
  | miles
deriving DecidableEq

def LengthUnit.label : LengthUnit → String
  | .meters => "m"
  | .kilometers => "km"
  | .feet => "ft"
  | .miles => "mi"

/-- A circle on the map. -/
structure Circle where
  origin : Coordinates
  radius : Binary64
  unit : LengthUnit
deriving DecidableEq

namespace Circle

def around (origin : Coordinates) : Circle := ⟨origin, Floating.ofInt .binary64 1, .meters⟩

def standard : Circle := around ⟨Floating.zero, Floating.zero⟩

def withOrigin (origin : Coordinates) (c : Circle) : Circle := { c with origin }

def withLongitude (longitude : Binary64) (c : Circle) : Circle :=
  { c with origin := { c.origin with longitude } }

def withLatitude (latitude : Binary64) (c : Circle) : Circle :=
  { c with origin := { c.origin with latitude } }

def withRadius (radius : Binary64) (c : Circle) : Circle := { c with radius }

def withUnit (unit : LengthUnit) (c : Circle) : Circle := { c with unit }

/-- A finite positive radius around a place that an index can hold. -/
def isValid (c : Circle) : Bool :=
  c.radius.isFinite && !c.radius.le Floating.zero && c.origin.isValid

def text (c : Circle) : String :=
  c.origin.longitude.text ++ " " ++ c.origin.latitude.text ++ " " ++ c.radius.token ++ " " ++
    c.unit.label

end Circle

end DocumentSchema.Query
