/-
# Words

How many different words there are of 32 and of 64 bits.
-/
namespace Sentential
namespace Word

/-- The range of a 32-bit word. -/
def size32 : Nat := 4294967296

/-- The range of a 64-bit word. -/
def size64 : Nat := 18446744073709551616

/-- A quarter of the range of a 64-bit word. -/
def quarter64 : Nat := 4611686018427387904

end Word
end Sentential
