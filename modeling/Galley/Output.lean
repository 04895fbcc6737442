import Galley.Failure

/-!
# Output

Rendered text is written to a file, to a stream of text or bytes, or to any object that
can be written to.  Files and byte streams receive the UTF-8 form of the text.
-/

namespace Galley
namespace Output

/-- Where text can be written. -/
inductive Target where
  /-- A file. -/
  | file
  /-- A stream of text. -/
  | textStream
  /-- A stream of bytes. -/
  | byteStream
  /-- An object that can be written to, with its mode. -/
  | sink (mode : Option Datum)
  /-- Something that cannot be written to. -/
  | other
  deriving Repr

/-- What a target receives. -/
inductive Written where
  | text (content : String)
  | bytes (content : ByteArray)

/-- Whether the mode of an object says that it takes bytes. -/
def takesBytes (mode : Option Datum) : Bool :=
  match mode with
  | some (.text mode) => mode.toList.contains 'b'
  | _ => false

/-- Write text to a target. -/
def write (content : String) : Target → Except Fault Written
  | .file | .byteStream => .ok (.bytes content.toUTF8)
  | .textStream => .ok (.text content)
  | .sink mode =>
      .ok (if takesBytes mode then .bytes content.toUTF8 else .text content)
  | .other => .error .wrongType

end Output
end Galley
