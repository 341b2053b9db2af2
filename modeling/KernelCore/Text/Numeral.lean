/-!
# Numerals

Numbers in log messages and state dumps: hexadecimal with lower-case digits behind `0x`, and
decimal with a least number of digits.
-/
namespace KernelCore.Text

/-- A number in hexadecimal, as in `0x1000`. -/
def hex (n : Nat) : String := "0x" ++ String.ofList (Nat.toDigits 16 n)

/-- A number in decimal, with zeros in front up to the given width. -/
def padded (width n : Nat) : String :=
  let digits := Nat.toDigits 10 n
  String.ofList (List.replicate (width - digits.length) '0' ++ digits)

end KernelCore.Text
