namespace Jal
namespace Text

abbrev Ranges := List (Nat × Nat)

def Ranges.contains (ranges : Ranges) (c : Char) : Bool :=
  match ranges with
  | [] => false
  | (first, last) :: rest => first ≤ c.toNat && (c.toNat ≤ last || Ranges.contains rest c)

end Text
end Jal
