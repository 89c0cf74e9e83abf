/-!
# Comparison without regard to case

Names that people type are compared without regard to the case of ASCII letters; all other characters have
to be the same.
-/

namespace ExprCalculus.Text

/-- Whether two texts differ at most in the case of ASCII letters. -/
def sameCaseless (s t : String) : Bool := s.toList.map Char.toLower == t.toList.map Char.toLower

theorem sameCaseless_of_common {s t u : String} (ht : sameCaseless s t = true) (hu : sameCaseless s u = true) :
    sameCaseless t u = true := by
  simp only [sameCaseless, beq_iff_eq] at ht hu ⊢
  exact ht.symm.trans hu

end ExprCalculus.Text
