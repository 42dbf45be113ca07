/-!
# Lines

A line of bytes ends with a newline byte, which belongs to it; the last line of a text may lack one.
-/

namespace TapeMachine.Text

/-- The byte that ends a line. -/
def newline : UInt8 := '\n'.toUInt8

/-- The byte that may stand before a newline, or in its place. -/
def carriageReturn : UInt8 := '\r'.toUInt8

/-- Whether a byte does not end a line. -/
def isWithinLine (b : UInt8) : Bool := b != newline

end TapeMachine.Text
