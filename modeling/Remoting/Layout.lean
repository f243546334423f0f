/-!
# Widths of the wire fields

Both ends of a connection have to agree on these numbers; all are in bytes.
-/

namespace Remoting.Layout

/-- One UTF-16 code unit. -/
def charWidth : Nat := 2

/-- The byte count in front of a text. -/
def textLengthWidth : Nat := 4

/-- The byte count in front of a type name. -/
def nameLengthWidth : Nat := 2

/-- The byte count in front of the payload of an object. -/
def payloadLengthWidth : Nat := 4

end Remoting.Layout
