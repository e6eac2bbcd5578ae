import DocumentSchema.Floating.Text
import DocumentSchema.Text.Blank
import DocumentSchema.Text.Separated

/-!
# Coordinates

A place on the map is a longitude and a latitude. Its text is the two numbers with a comma between
them. An index holds longitudes up to 180 degrees and latitudes up to 85.05112878 degrees on either
side, the square of the Web Mercator map.
-/

set_option autoImplicit false

namespace DocumentSchema

/-- A longitude and a latitude in degrees. -/
structure Coordinates where
  longitude : Binary64
  latitude : Binary64
deriving DecidableEq

namespace Coordinates

def maxLongitude : Binary64 := Floating.ofInt .binary64 180

def maxLatitude : Binary64 :=
  Floating.ofDecimal .binary64 false (Decimal.ofScaled 8505112878 (-8))

def minLongitude : Binary64 := Floating.ofInt .binary64 (-180)

def minLatitude : Binary64 :=
  Floating.ofDecimal .binary64 true (Decimal.ofScaled 8505112878 (-8))

def isValid (p : Coordinates) : Bool :=
  minLongitude.le p.longitude && p.longitude.le maxLongitude &&
    minLatitude.le p.latitude && p.latitude.le maxLatitude

def text (p : Coordinates) : String := p.longitude.text ++ "," ++ p.latitude.text

def same (p q : Coordinates) : Bool :=
  p.longitude.equal q.longitude && p.latitude.equal q.latitude

def readDegrees? (cs : List Char) : Option Binary64 :=
  (Floating.readChars? .binary64 (Text.trim cs)).filter Floating.isFinite

/-- Reads a place: all before the first comma is the longitude, all after it the latitude. -/
def read? (s : String) : Option Coordinates :=
  match s.toList.dropWhile (· ≠ ',') with
  | [] => none
  | _ :: after => do
    let longitude ← readDegrees? (s.toList.takeWhile (· ≠ ','))
    let latitude ← readDegrees? after
    return ⟨longitude, latitude⟩

end Coordinates

end DocumentSchema
