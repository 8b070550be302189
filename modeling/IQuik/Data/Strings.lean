import Mathlib.Data.List.Basic

namespace IQuik.Data

/-! # Strings

A C string is the list of its bytes before the terminating NUL. Plain `char`
is unsigned on PowerPC, so a byte is compared as it is.
-/

abbrev Str := List UInt8

/-- The bytes of a literal of the source. -/
def str (literal : String) : Str := literal.toList.map fun letter => letter.val.toUInt8

/-- Skips leading spaces. -/
def chomp (s : Str) : Str := s.dropWhile (· = 32)

/-- Splits a line at its first run of spaces: the first word, if there is one,
and what follows. The source writes a NUL over every space of that run, so
the word is a string of its own. -/
def wordSplit : Option Str → Option Str × Str
  | none => (none, [])
  | some line =>
      match chomp line with
      | [] => (none, [])
      | p => (some (p.takeWhile (· ≠ 32)), chomp (p.dropWhile (· ≠ 32)))

def tolower (c : UInt8) : UInt8 := if 65 ≤ c ∧ c ≤ 90 then c + 32 else c

/-- `strcasecmp` finds no difference. -/
def equalNoCase (s t : Str) : Bool := s.map tolower == t.map tolower

/-- The text behind the last slash, as `strrchr (s, '/') + 1`; `none` without
a slash. -/
def afterLastSlash (s : Str) : Option Str :=
  if s.contains 47 then some (s.reverse.takeWhile (· ≠ 47)).reverse else none

/-- The value of a digit in a base up to 36. -/
def digit? (c : UInt8) : Option Nat :=
  if 48 ≤ c ∧ c ≤ 57 then some (c.toNat - 48)
  else if 65 ≤ c ∧ c ≤ 90 then some (c.toNat - 65 + 10)
  else if 97 ≤ c ∧ c ≤ 122 then some (c.toNat - 97 + 10)
  else none

/-- The digit loop of `strtol`: the number so far, whether it overflowed, and
how many digits were read. -/
def strtolDigits (base : Nat) : Str → Nat → Bool → Nat → Nat × Bool × Nat
  | [], i, overflow, count => (i, overflow, count)
  | c :: rest, i, overflow, count =>
      match digit? c with
      | none => (i, overflow, count)
      | some d =>
          if base ≤ d then (i, overflow, count)
          else if 0x7FFFFFFF / base < i ∨ (i = 0x7FFFFFFF / base ∧ 0x7FFFFFFF % base < d) then
            strtolDigits base rest i true (count + 1)
          else strtolDigits base rest (i * base + d) overflow (count + 1)

/-- `s` starts with `0x` or `0X`. -/
def hexPrefix : Str → Bool
  | 48 :: c :: _ => c == 88 || c == 120
  | _ => false

/-- The base `strtol` settles on, and the text after a prefix that shows it. -/
def strtolBase (base : Int) (s : Str) : Nat × Str :=
  if base = 16 then (16, if hexPrefix s then s.drop 2 else s)
  else if base = 0 then
    if s.head? = some 48 then
      if hexPrefix s then (16, s.drop 2) else (8, s)
    else (10, s)
  else if base < 0 ∨ base = 1 ∨ 36 < base then (10, s)
  else (base.toNat, s)

/-- The converted number, and the distance of the end pointer from the start. -/
def strtol (nptr : Str) (base : Int) : Int × Nat :=
  let s := nptr.dropWhile (· ≤ 32)
  match s with
  | [] => (0, 0)
  | sign :: unsigned =>
      let negative := sign == 45
      let s := if sign = 45 ∨ sign = 43 then unsigned else s
      let (base, s) := strtolBase base s
      let save := nptr.length - s.length
      let (i, overflow, count) := strtolDigits base s 0 false 0
      if count = 0 then
        -- nothing was converted: the end is the `x` of a lone `0x`, or the start
        if 2 ≤ save ∧ (nptr[save - 1]?).map tolower = some 120 ∧ nptr[save - 2]? = some 48 then
          (0, save - 1)
        else (0, 0)
      else
        let value : Int :=
          if overflow then (if negative then -0x80000000 else 0x7FFFFFFF)
          else if negative then -i else i
        (value, save + count)

end IQuik.Data
