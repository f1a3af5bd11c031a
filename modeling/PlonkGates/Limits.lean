/-!
# Limits

What is asked for may be too large to be counted or to be kept.
-/

namespace PlonkGates.Limits

/-- The largest number that can count or be an index. -/
def index : Nat := Nat.pow 2 63 - 1

/-- How many bytes there is memory for when a text or a list is repeated or filled up. -/
def memory : Nat := Nat.pow 2 32

/-- The largest number of words that an integer may have. -/
def words : Nat := Nat.pow 2 61 - 7

/-- How many binary digits of an integer a word holds. -/
def wordWidth : Nat := 30

end PlonkGates.Limits
