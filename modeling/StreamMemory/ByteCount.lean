import StreamMemory.Rounding

/-!
# Byte counts

The limit of sizes, counts of kilobytes and megabytes in bytes, and the text of a byte count: whole
bytes below one kilobyte, else two places of the largest unit that is not above the count. A count
above `2 ^ 53` is first rounded to 53 significant binary digits.
-/

set_option autoImplicit false

namespace StreamMemory

/-- A size is a number of 64 bits, so it is below `2 ^ 64`. -/
def sizeLimit : Nat := 0x10000000000000000

/-- Bytes in `n` kilobytes. -/
def kilobytes (n : Nat) : Nat := n * 1024

/-- Bytes in `n` megabytes. -/
def megabytes (n : Nat) : Nat := n * 1048576

inductive ByteUnit where
  | byte | kilobyte | megabyte | gigabyte
  deriving DecidableEq, Repr

namespace ByteUnit

def size : ByteUnit → Nat
  | byte => 1
  | kilobyte => 1024
  | megabyte => 1048576
  | gigabyte => 1073741824

def symbol : ByteUnit → String
  | byte => "B"
  | kilobyte => "KB"
  | megabyte => "MB"
  | gigabyte => "GB"

/-- The largest unit that is not above `n`. -/
def forCount (n : Nat) : ByteUnit :=
  if gigabyte.size ≤ n then gigabyte
  else if megabyte.size ≤ n then megabyte
  else if kilobyte.size ≤ n then kilobyte
  else byte

theorem size_pos (u : ByteUnit) : 0 < u.size := by
  cases u <;> decide

theorem size_forCount_le {n : Nat} (hn : 0 < n) : (forCount n).size ≤ n := by
  unfold forCount
  split
  · assumption
  split
  · assumption
  split
  · assumption
  · exact hn

/-- `n` in hundredths of the unit. -/
def hundredths (u : ByteUnit) (n : Nat) : Nat :=
  divEven (100 * roundToBits 53 n) u.size

end ByteUnit

/-- A number of hundredths with two decimal places. -/
def twoPlaces (h : Nat) : String :=
  toString (h / 100) ++ "." ++ toString (h / 10 % 10) ++ toString (h % 10)

def formatBytes (n : Nat) : String :=
  match ByteUnit.forCount n with
  | .byte => toString n ++ " B"
  | u => twoPlaces (u.hundredths n) ++ " " ++ u.symbol

end StreamMemory
