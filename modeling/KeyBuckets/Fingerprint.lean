import KeyBuckets.Error
import KeyBuckets.Text.Hex
import KeyBuckets.Text.Uppercase

/-!
# Fingerprints — the form in which they are handed to a program

Only a fingerprint in canonical form goes on a command line: 40 or 64 upper-case
hexadecimal digits. Other spellings are brought into this form or refused, so nothing
that reads as an option or as another kind of key id gets through.
-/

namespace KeyBuckets.Fingerprint

open Text

/-- A text without the mark of hexadecimal numbers that may stand before it. -/
def withoutMark : List Char → List Char
  | '0' :: 'x' :: cs | '0' :: 'X' :: cs => cs
  | cs => cs

/-- The canonical form of a fingerprint, or why there is none. The text is put in
upper case before its characters are looked at, and the length that counts is the
one after that. -/
def canonicalChars (cs : List Char) : Except FingerprintFault (List Char) :=
  if cs = [] then .error .empty
  else
    let ds := upperCase (withoutMark cs)
    if ¬ ds.all isHexDigit then .error .notHexadecimal
    else if ds.length = 40 ∨ ds.length = 64 then .ok ds
    else .error (.wrongLength ds.length)

/-- The canonical form of a fingerprint. An error shows the text as it was given. -/
def canonical (text : String) : Except Error String :=
  match canonicalChars text.toList with
  | .ok ds => .ok (String.ofList ds)
  | .error fault => .error (.invalidFingerprint text fault)

/-- The value of the first hexadecimal digit, if the text starts with one. -/
def leadingValue? (text : String) : Option Nat :=
  text.toList.head?.bind hexValue?

end KeyBuckets.Fingerprint
