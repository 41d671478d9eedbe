namespace Eventually

-- A base to an integer exponent is the quotient of these two, at least one of which is one.
def powUp (base : Nat) (exponent : Int) : Nat := Nat.pow base exponent.toNat

def powDown (base : Nat) (exponent : Int) : Nat := Nat.pow base (-exponent).toNat

end Eventually
