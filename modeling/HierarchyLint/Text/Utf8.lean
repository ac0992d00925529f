/-!
# UTF-8

`decode` reads the characters that bytes encode. A sequence of two to four bytes begins with a
lead byte, which fixes the length and narrows the second byte so that no character has a longer
encoding than it needs, none is a surrogate, and none lies beyond the last code point. An error
names the bytes that cannot be read. The bytes of a sequence that the end cuts off are counted
from its own start, because they are only judged once the rest has been read; two bytes that begin
a surrogate wait for the third one in the same way.
-/

namespace HierarchyLint.Text.Utf8

inductive Reason where
  | invalidStart
  | invalidContinuation
  | unexpectedEnd
  deriving DecidableEq, Repr

def Reason.message : Reason → String
  | invalidStart => "invalid start byte"
  | invalidContinuation => "invalid continuation byte"
  | unexpectedEnd => "unexpected end of data"

/-- The bytes that cannot be read: the first of them, its index, and how many they are. -/
structure Fault where
  reason : Reason
  lead : Nat
  index : Nat
  count : Nat
  deriving DecidableEq, Repr

def hexByte (n : Nat) : String := String.ofList (List.leftpad 2 '0' (Nat.toDigits 16 n))

def Fault.message (f : Fault) : String :=
  let bytes :=
    if f.count = 1 then "byte 0x" ++ hexByte f.lead ++ " in position " ++ toString f.index
    else "bytes in position " ++ toString f.index ++ "-" ++ toString (f.index + f.count - 1)
  "'utf-8' codec can't decode " ++ bytes ++ ": " ++ f.reason.message

/-- The number of bytes that follow a lead byte, and the bounds of the first of them. -/
def lead? (b : Nat) : Option (Nat × Nat × Nat) :=
  if 0xC2 ≤ b ∧ b ≤ 0xDF then some (1, 0x80, 0xBF)
  else if b = 0xE0 then some (2, 0xA0, 0xBF)
  else if b = 0xED then some (2, 0x80, 0x9F)
  else if 0xE1 ≤ b ∧ b ≤ 0xEF then some (2, 0x80, 0xBF)
  else if b = 0xF0 then some (3, 0x90, 0xBF)
  else if 0xF1 ≤ b ∧ b ≤ 0xF3 then some (3, 0x80, 0xBF)
  else if b = 0xF4 then some (3, 0x80, 0x8F)
  else none

/-- The bits that a lead byte contributes, by the number of bytes that follow it. -/
def leadBits (b following : Nat) : Nat :=
  match following with
  | 1 => b - 0xC0
  | 2 => b - 0xE0
  | _ => b - 0xF0

/-- A sequence that is not complete yet. -/
structure Partial where
  lead : Nat
  index : Nat
  /-- The number of bytes read so far. -/
  count : Nat
  code : Nat
  /-- The number of bytes that are missing, and the bounds of the next one. -/
  missing : Nat
  low : Nat
  high : Nat

/-- Whether the byte behind a lead byte begins a surrogate. -/
def beginsSurrogate (lead b : Nat) : Bool := lead == 0xED && 0xA0 ≤ b && b ≤ 0xBF

/-- Reads bytes from the given index on, in the middle of a sequence or between two. -/
def decodeFrom (index : Nat) : Option Partial → List UInt8 → Except Fault (List Char)
  | none, [] => .ok []
  | some p, [] => .error ⟨.unexpectedEnd, p.lead, 0, p.count⟩
  | none, byte :: bytes =>
    let b := byte.toNat
    if b < 0x80 then (decodeFrom (index + 1) none bytes).map (Char.ofNat b :: ·)
    else match lead? b with
      | none => .error ⟨.invalidStart, b, index, 1⟩
      | some (missing, low, high) =>
        decodeFrom (index + 1) (some ⟨b, index, 1, leadBits b missing, missing, low, high⟩) bytes
  | some p, byte :: bytes =>
    let b := byte.toNat
    if p.low ≤ b ∧ b ≤ p.high then
      let code := 64 * p.code + (b - 0x80)
      if p.missing = 1 then (decodeFrom (index + 1) none bytes).map (Char.ofNat code :: ·)
      else
        decodeFrom (index + 1)
          (some ⟨p.lead, p.index, p.count + 1, code, p.missing - 1, 0x80, 0xBF⟩) bytes
    else
      let cutOff := p.count = 1 ∧ beginsSurrogate p.lead b ∧ bytes = []
      .error ⟨.invalidContinuation, p.lead, if cutOff then 0 else p.index, p.count⟩

def decode (bytes : List UInt8) : Except Fault (List Char) := decodeFrom 0 none bytes

/-- The text with every line end as a line feed: a carriage return is one too, also together with a
line feed behind it. -/
def unifyLineEnds : List Char → List Char
  | [] => []
  | '\r' :: '\n' :: cs => '\n' :: unifyLineEnds cs
  | c :: cs => (if c = '\r' then '\n' else c) :: unifyLineEnds cs

end HierarchyLint.Text.Utf8
