/-
Faults in bytes that should be UTF-8.

A sequence is the lead of a character followed by the bytes that continue it.  The first fault of
bytes is a byte that leads nothing, or a sequence that stops too early, either at a byte that does
not continue it or at the end.

Main definitions:

* `LuaAmbient.Utf8.continuations` — the ranges of the bytes that continue a lead;
* `LuaAmbient.Utf8.Fault` — the bytes of a fault and its reason, with its wording;
* `LuaAmbient.Utf8.firstFault?` — **the first fault of bytes**.
-/

set_option autoImplicit false

namespace LuaAmbient.Utf8

/-- Any byte that continues a sequence. -/
def continuation : UInt8 × UInt8 := (0x80, 0xbf)

/-- The ranges of the bytes that continue a lead, one after the other.  Other bytes lead nothing. -/
def continuations (lead : UInt8) : Option (List (UInt8 × UInt8)) :=
  if lead < 0x80 then some []
  else if lead < 0xc2 then none
  else if lead < 0xe0 then some [continuation]
  else if lead == 0xe0 then some [(0xa0, 0xbf), continuation]
  else if lead == 0xed then some [(0x80, 0x9f), continuation]
  else if lead < 0xf0 then some [continuation, continuation]
  else if lead == 0xf0 then some [(0x90, 0xbf), continuation, continuation]
  else if lead < 0xf4 then some [continuation, continuation, continuation]
  else if lead == 0xf4 then some [(0x80, 0x8f), continuation, continuation]
  else none

/-- What is wrong with bytes. -/
inductive Reason where
  | start
  | continuation
  | ending
deriving Repr, DecidableEq, Inhabited

/-- The wording of a reason. -/
def Reason.message : Reason → String
  | .start => "invalid start byte"
  | .continuation => "invalid continuation byte"
  | .ending => "unexpected end of data"

/-- Bytes that are no character: the first of them, how many they are, and what is wrong. -/
structure Fault where
  /-- The position of the first byte. -/
  position : Nat
  lead : UInt8
  length : Nat
  reason : Reason
deriving Repr, DecidableEq, Inhabited

/-- A byte in two digits. -/
def hexByte (b : UInt8) : String :=
  String.ofList [Nat.digitChar (b.toNat / 16), Nat.digitChar (b.toNat % 16)]

/-- The wording of a fault. -/
def Fault.message (fault : Fault) : String :=
  let first := toString fault.position
  let last := toString (fault.position + fault.length - 1)
  let bytes :=
    if fault.length == 1 then "byte 0x" ++ hexByte fault.lead ++ " in position " ++ first
    else "bytes in position " ++ first ++ "-" ++ last
  "'utf-8' codec can't decode " ++ bytes ++ ": " ++ fault.reason.message

/-- How many bytes continue a sequence, and why it stops before the last of them. -/
def continued : List (UInt8 × UInt8) → List UInt8 → Nat × Option Reason
  | [], _ => (0, none)
  | _ :: _, [] => (0, some .ending)
  | range :: ranges, b :: bs =>
    if range.1 ≤ b && b ≤ range.2 then
      let r := continued ranges bs
      (r.1 + 1, r.2)
    else (0, some .continuation)

/-- The first fault of bytes that start at a position.  Every character takes one step of the
bound. -/
def faultFrom : Nat → Nat → List UInt8 → Option Fault
  | 0, _, _ => none
  | _, _, [] => none
  | bound + 1, position, lead :: rest =>
    match continuations lead with
    | none => some ⟨position, lead, 1, .start⟩
    | some ranges =>
      match continued ranges rest with
      | (n, none) => faultFrom bound (position + n + 1) (rest.drop n)
      | (n, some reason) => some ⟨position, lead, n + 1, reason⟩

/-- The first fault of bytes. -/
def firstFault? (bytes : List UInt8) : Option Fault :=
  faultFrom (bytes.length + 1) 0 bytes

end LuaAmbient.Utf8
