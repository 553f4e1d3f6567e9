import Mathlib.Tactic.Common

/-!
# Go strings

A Go string is a sequence of bytes with no promise of being UTF-8. The functions here are
the parts of `unicode/utf8`, `unicode` and `strings` that the validators of the stream
processor and of the serving plane call.
-/

namespace FraudDetection

/-- A Go string value: its bytes. Comparison with `<` is bytewise, as in Go. -/
abbrev GoString := List UInt8

def ascii (s : String) : GoString := s.toList.map fun c => c.toNat.toUInt8

structure GoError where
  text : String
  deriving DecidableEq, Repr

def continuation (lo hi b : UInt8) : Bool :=
  lo ≤ b && b ≤ hi

/-- Least and greatest second byte that the accept table of `unicode/utf8` allows after `b`. -/
def secondByteRange (b : UInt8) : UInt8 × UInt8 :=
  if b = 0xE0 then (0xA0, 0xBF)
  else if b = 0xED then (0x80, 0x9F)
  else if b = 0xF0 then (0x90, 0xBF)
  else if b = 0xF4 then (0x80, 0x8F)
  else (0x80, 0xBF)

def validSecond (b b1 : UInt8) : Bool :=
  continuation (secondByteRange b).1 (secondByteRange b).2 b1

def decodeRunes : GoString → Option (List Nat)
  | [] => some []
  | b :: rest =>
    if b < 0x80 then (decodeRunes rest).map (b.toNat :: ·)
    else match rest with
      | [] => none
      | b1 :: rest1 =>
        if !validSecond b b1 then none
        else if 0xC2 ≤ b && b ≤ 0xDF then
          (decodeRunes rest1).map (((b.toNat - 0xC0) * 64 + (b1.toNat - 0x80)) :: ·)
        else match rest1 with
          | [] => none
          | b2 :: rest2 =>
            if !continuation 0x80 0xBF b2 then none
            else if 0xE0 ≤ b && b ≤ 0xEF then
              (decodeRunes rest2).map
                (((b.toNat - 0xE0) * 4096 + (b1.toNat - 0x80) * 64 + (b2.toNat - 0x80)) :: ·)
            else match rest2 with
              | [] => none
              | b3 :: rest3 =>
                if !continuation 0x80 0xBF b3 then none
                else if 0xF0 ≤ b && b ≤ 0xF4 then
                  (decodeRunes rest3).map
                    (((b.toNat - 0xF0) * 262144 + (b1.toNat - 0x80) * 4096 +
                      (b2.toNat - 0x80) * 64 + (b3.toNat - 0x80)) :: ·)
                else none

def validString (s : GoString) : Bool :=
  (decodeRunes s).isSome

def isControl (r : Nat) : Bool :=
  r ≤ 0x1F || (0x7F ≤ r && r ≤ 0x9F)

def isSpace (r : Nat) : Bool :=
  (0x09 ≤ r && r ≤ 0x0D) || r = 0x20 || r = 0x85 || r = 0xA0 || r = 0x1680 ||
    (0x2000 ≤ r && r ≤ 0x200A) || r = 0x2028 || r = 0x2029 || r = 0x202F || r = 0x205F || r = 0x3000

/-- `strings.IndexFunc(s, unicode.IsControl) < 0` on a valid string. -/
def noControl (s : GoString) : Bool :=
  ((decodeRunes s).getD []).all (fun r => !isControl r)

def trimSpace (rs : List Nat) : List Nat :=
  ((rs.dropWhile isSpace).reverse.dropWhile isSpace).reverse

def trimmed (s : GoString) : Bool :=
  trimSpace ((decodeRunes s).getD []) == (decodeRunes s).getD []

def runeLen : GoString → Nat
  | [] => 0
  | b :: rest =>
    if b < 0x80 then 1
    else match rest with
      | [] => 0
      | b1 :: rest1 =>
        if !validSecond b b1 then 0
        else if 0xC2 ≤ b && b ≤ 0xDF then 2
        else match rest1 with
          | [] => 0
          | b2 :: rest2 =>
            if !continuation 0x80 0xBF b2 then 0
            else if 0xE0 ≤ b && b ≤ 0xEF then 3
            else match rest2 with
              | [] => 0
              | b3 :: _ =>
                if continuation 0x80 0xBF b3 && 0xF0 ≤ b && b ≤ 0xF4 then 4 else 0

def runeError : GoString := [0xEF, 0xBF, 0xBD]

/-- `strings.Map` with a mapping that drops the single-byte runes for which `drop` holds and keeps
every other rune. A byte that starts no rune becomes `runeError`. The first argument counts the bytes
still to be copied of a rune already started. -/
def mapDropping (drop : UInt8 → Bool) : Nat → GoString → GoString
  | _, [] => []
  | more + 1, b :: rest => b :: mapDropping drop more rest
  | 0, b :: rest =>
    match runeLen (b :: rest) with
    | 0 => runeError ++ mapDropping drop 0 rest
    | 1 => if drop b then mapDropping drop 0 rest else b :: mapDropping drop 0 rest
    | more + 2 => b :: mapDropping drop (more + 1) rest

def startsWithSpace (s : GoString) : Bool :=
  match decodeRunes (s.take (runeLen s)) with
  | some [r] => isSpace r
  | _ => false

/-- `strings.TrimLeftFunc` with `unicode.IsSpace`; the first argument counts the bytes still to be
dropped of a rune already started. -/
def trimLeftSpace : Nat → GoString → GoString
  | _, [] => []
  | more + 1, _ :: rest => trimLeftSpace more rest
  | 0, b :: rest => if startsWithSpace (b :: rest) then trimLeftSpace (runeLen (b :: rest) - 1) rest else b :: rest

def trimRightSpace : Nat → GoString → GoString
  | _, [] => []
  | more + 1, b :: rest => b :: trimRightSpace more rest
  | 0, b :: rest =>
    if trimLeftSpace 0 (b :: rest) = [] then [] else b :: trimRightSpace (runeLen (b :: rest) - 1) rest

def trimSpaceBytes (s : GoString) : GoString := trimRightSpace 0 (trimLeftSpace 0 s)

def itoa (n : Int) : GoString := ascii (toString n)

end FraudDetection
