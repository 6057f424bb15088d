/-
  CallLang/Text/Utf8.lean
  =======================
  **Reading bytes as text.**

  Program files are UTF-8.  A malformed sequence is refused at its first byte,
  with the bytes that could have begun a character and the reason why they do
  not.  After decoding, every line end becomes a single line feed.
-/

namespace CallLang.Text

/-- Why a byte sequence is no character. -/
inductive Malformation where
  /-- No character begins with this byte. -/
  | start
  /-- A byte that should continue a character does not. -/
  | continuation
  /-- The bytes end inside a character. -/
  | truncated
deriving DecidableEq, Repr

/-- The malformed bytes: the first of them, where it stands, how many belong to
    the broken character, and what is wrong. -/
structure Undecodable where
  byte : Nat
  offset : Nat
  length : Nat
  reason : Malformation
deriving DecidableEq, Repr

/-- What a first byte announces: the bits it contributes and, for every byte
    that must follow, the range it must lie in.  The narrower ranges keep out
    overlong forms, surrogates and numbers above U+10FFFF. -/
def announced (byte : Nat) : Option (Nat × List (Nat × Nat)) :=
  let tail := (0x80, 0xBF)
  if byte < 0x80 then some (byte, [])
  else if byte < 0xC2 then none
  else if byte < 0xE0 then some (byte - 0xC0, [tail])
  else if byte = 0xE0 then some (0, [(0xA0, 0xBF), tail])
  else if byte = 0xED then some (0x0D, [(0x80, 0x9F), tail])
  else if byte < 0xF0 then some (byte - 0xE0, [tail, tail])
  else if byte = 0xF0 then some (0, [(0x90, 0xBF), tail, tail])
  else if byte < 0xF4 then some (byte - 0xF0, [tail, tail, tail])
  else if byte = 0xF4 then some (4, [(0x80, 0x8F), tail, tail])
  else none

/-- Follows a character through the ranges of its remaining bytes.  Succeeds with
    its code point, or tells how many further bytes fitted and why the next does
    not. -/
def follow : Nat → List (Nat × Nat) → List Nat → Except (Nat × Malformation) Nat
  | bits, [], _ => .ok bits
  | _, _ :: _, [] => .error (0, .truncated)
  | bits, (low, high) :: ranges, byte :: rest =>
    if low ≤ byte ∧ byte ≤ high then
      match follow (bits * 64 + (byte - 0x80)) ranges rest with
      | .ok code => .ok code
      | .error (fitted, reason) => .error (fitted + 1, reason)
    else .error (0, .continuation)

/-- Decodes from an offset on, skipping the bytes that the character before has
    taken. -/
def decodeFrom : Nat → Nat → List Nat → Except Undecodable (List Char)
  | _, _, [] => .ok []
  | offset, skip + 1, _ :: rest => decodeFrom (offset + 1) skip rest
  | offset, 0, byte :: rest =>
    match announced byte with
    | none => .error { byte, offset, length := 1, reason := .start }
    | some (bits, ranges) =>
      match follow bits ranges rest with
      | .error (fitted, reason) => .error { byte, offset, length := fitted + 1, reason }
      | .ok code =>
        match decodeFrom (offset + 1) ranges.length rest with
        | .error fault => .error fault
        | .ok text => .ok (Char.ofNat code :: text)

def decode (bytes : List UInt8) : Except Undecodable (List Char) :=
  decodeFrom 0 0 (bytes.map UInt8.toNat)

/-- A carriage return, with the line feed after it if there is one, is a line
    end like a line feed alone. -/
def unifyLineEnds : List Char → List Char
  | '\r' :: '\n' :: rest => '\n' :: unifyLineEnds rest
  | '\r' :: rest => '\n' :: unifyLineEnds rest
  | c :: rest => c :: unifyLineEnds rest
  | [] => []

end CallLang.Text
