/-!
# Words of 64 bits

The limits of the integers that fit a machine word of 64 bits, without and with a sign.
-/

namespace ChangeCapture

namespace Word

/-- How many words there are: a number without sign fits a word if it is smaller. -/
def size : Nat := 0x10000000000000000

/-- How many words have their sign set: the magnitude of the least number with sign. -/
def half : Nat := 0x8000000000000000

end Word

end ChangeCapture
