import HierarchyLint.Text.Utf8
import HierarchyLint.Value.Basic

/-!
# The library for documents

What the program knows of the library that reads and writes its documents. The library is handed an
open file and asks for the text of it piece by piece, as the bytes are decoded. So if some bytes are
no text, either their fault ends the reading, or a mistake in the text in front of them has ended it
before.
-/

namespace HierarchyLint.Yaml

/-- Why a text has no value. -/
inductive ReadFault where
  | malformed
  /-- A number or a date that is none; the library does not count this among its own errors. -/
  | valueError (message : String)
  deriving DecidableEq, Repr

structure Library where
  read : List Char → Except ReadFault Value
  /-- The fault with which the reading of bytes that are no text ends, unless a mistake in front of
  them ends it. -/
  undecodable? : List UInt8 → Option Text.Utf8.Fault
  write : (sortKeys : Bool) → Value → String

end HierarchyLint.Yaml
