import DmfOs.Core.Memory
import Mathlib.Data.List.TakeWhile

/-!
# Strings

Strings of C as the bytes before their terminator, and the routines of `string.c`
that read one. The end of the list stands for the terminator.
-/

namespace DmfOs

/-- A string that ends with its first zero byte. -/
structure CStr where
  bytes : List Byte
  /-- The terminator comes after the bytes. -/
  nonzero : ∀ c ∈ bytes, c ≠ 0

/-- The string that starts a buffer whose bytes are followed by a zero. -/
def CStr.ofBuffer (buf : List Byte) : CStr where
  bytes := buf.takeWhile (· ≠ 0)
  nonzero c hc := by simpa using List.mem_takeWhile_imp hc

/-- A character constant. -/
def chr (c : Char) : Byte := .ofNat 8 c.toNat

/-- `strlen`. -/
def strlen (s : CStr) : Word := .ofNat 32 s.bytes.length

/-- The test for a decimal digit; characters are signed. -/
def isDigit (c : Byte) : Bool := (chr '0').sle c && c.sle (chr '9')

/-- The digits that `atol` reads into its accumulator. -/
def atolLoop : List Byte → Word → Word
  | [], acc => acc
  | c :: cs, acc =>
    if !isDigit c then acc else atolLoop cs (acc * 10 + (c.signExtend 32 - (chr '0').signExtend 32))

/-- `atol`. An accumulator that overflows wraps. -/
def atol (ptr : List Byte) : Word :=
  match ptr.dropWhile fun c => c = chr ' ' ∨ c = chr '\t' with
  | [] => 0
  | c :: cs =>
    if c = chr '-' then -atolLoop cs 0
    else if c = chr '+' then atolLoop cs 0
    else atolLoop (c :: cs) 0

end DmfOs
