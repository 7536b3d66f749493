import Mathlib.Data.List.Basic

namespace HeyNilo

abbrev Bytes := List UInt8

/-- An ASCII literal as the bytes of a `std::string`. -/
def ascii (s : String) : Bytes := s.toList.map fun c => c.toNat.toUInt8

/-- `std::string::find(needle) != npos`. -/
def contains (needle : Bytes) : Bytes → Bool
  | [] => needle.isEmpty
  | c :: cs => needle.isPrefixOf (c :: cs) || contains needle cs

def isContinuation (c : UInt8) : Bool := c &&& 0xC0 == 0x80

/-- The next `k` bytes exist and are continuation bytes. -/
def continued : Nat → Bytes → Bool
  | 0, _ => true
  | _ + 1, [] => false
  | k + 1, c :: rest => isContinuation c && continued k rest

/-- The loop of `sanitizeForJNI`. `copy` counts the continuation bytes of the current character
still to be copied; at `0` the loop looks at a lead byte. -/
def sanitizeLoop : Nat → Bytes → Bytes
  | _, [] => []
  | copy + 1, c :: rest => c :: sanitizeLoop copy rest
  | 0, c :: rest =>
    if c == 0 then sanitizeLoop 0 rest
    else if c < 0x80 then c :: sanitizeLoop 0 rest
    else if c &&& 0xE0 == 0xC0 then
      if continued 1 rest then c :: sanitizeLoop 1 rest else sanitizeLoop 0 rest
    else if c &&& 0xF0 == 0xE0 then
      if continued 2 rest then c :: sanitizeLoop 2 rest else sanitizeLoop 0 rest
    else if c &&& 0xF8 == 0xF0 then
      if continued 3 rest then c :: sanitizeLoop 3 rest else sanitizeLoop 0 rest
    else sanitizeLoop 0 rest

def sanitizeForJNI (input : Bytes) : Bytes := sanitizeLoop 0 input

/-- The replacement loop of `nativeGenerateStream`. Its needle is the multicharacter constant
`'\xE2\x96\x81'`, which `find(char)` narrows to the byte `0x81`; the call then replaces three bytes
from there. `skip` counts the bytes of such a replacement still to be swallowed. -/
def replaceSpaceMarker : Nat → Bytes → Bytes
  | _, [] => []
  | skip + 1, _ :: rest => replaceSpaceMarker skip rest
  | 0, c :: rest =>
    if c == 0x81 then 0x20 :: replaceSpaceMarker 2 rest else c :: replaceSpaceMarker 0 rest

/-- `nativeAddToHistory` keeps at most 800 bytes of an assistant entry. -/
def truncateForHistory (role content : Bytes) : Bytes :=
  if role == ascii "assistant" && decide (800 < content.length) then content.take 800 ++ ascii "..."
  else content

end HeyNilo
