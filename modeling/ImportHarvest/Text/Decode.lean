import ImportHarvest.Text.Utf16
/-!
The text of a file, whatever bytes it holds. A byte order mark at the start selects the encoding and is left out, once;
without one the bytes are UTF-8. Ill-formed UTF-8 is dropped, unpaired surrogates read as U+FFFD.
-/

namespace ImportHarvest.Text

/-- the encodings that a byte order mark can announce -/
inductive Encoding where
  | utf8
  | utf16 (order : ByteOrder)
  deriving DecidableEq, Repr

/-- the encoding of a file and the bytes after its byte order mark, if it has one -/
def splitMark : Octets → Encoding × Octets
  | 0xEF :: 0xBB :: 0xBF :: rest => (.utf8, rest)
  | 0xFF :: 0xFE :: rest => (.utf16 .little, rest)
  | 0xFE :: 0xFF :: rest => (.utf16 .big, rest)
  | bs => (.utf8, bs)

/-- the text of a file, as characters -/
def decodeChars (bs : Octets) : List Char :=
  match splitMark bs with
  | (.utf8, rest) => utf8Dropping rest
  | (.utf16 order, rest) => utf16Marking order rest

/-- the text of a file -/
def decode (bs : Octets) : String := String.ofList (decodeChars bs)

end ImportHarvest.Text
