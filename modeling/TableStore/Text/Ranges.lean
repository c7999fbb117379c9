namespace TableStore.Text

/-- A set of characters as inclusive ranges of code points. -/
abbrev Ranges := List (Nat × Nat)

def Ranges.covers (ranges : Ranges) (c : Char) : Bool :=
  ranges.any fun r ↦ r.1 ≤ c.toNat && c.toNat ≤ r.2

end TableStore.Text
