import TableStore.Proofs.Number.Denotation

namespace TableStore

/-- `n` is the integer nearest to `u / d`, or the even one of two that are as near. -/
structure NearestEven (u : Int) (d : Nat) (n : Int) : Prop where
  near : 2 * (u - n * d).natAbs ≤ d
  even : 2 * (u - n * d).natAbs = d → n % 2 = 0

section

variable {u m n : Int} {d : Nat}

theorem NearestEven.neg (h : NearestEven u d n) : NearestEven (-u) d (-n) := by
  obtain ⟨hnear, heven⟩ := h
  have hdistance : -u - -n * d = -(u - n * d) := by
    rw [Int.neg_mul]
    omega
  refine ⟨by rwa [hdistance, Int.natAbs_neg], fun htie ↦ ?_⟩
  rw [hdistance, Int.natAbs_neg] at htie
  have hn := heven htie
  omega

/-- Two nearest integers are next to each other, and then only one of them is even. -/
theorem NearestEven.unique (hd : 0 < d) (hm : NearestEven u d m) (hn : NearestEven u d n) :
    m = n := by
  obtain ⟨hmnear, hmeven⟩ := hm
  obtain ⟨hnnear, hneven⟩ := hn
  have hsteps : (m - n) * d = (u - n * d) - (u - m * d) := by
    rw [Int.sub_mul]
    omega
  have hclose : ((m - n) * d).natAbs ≤ 1 * d := by omega
  rw [Int.natAbs_mul, Int.natAbs_natCast] at hclose
  have hone : (m - n).natAbs ≤ 1 := Nat.le_of_mul_le_mul_right hclose hd
  rcases (by omega : m = n ∨ m = n + 1 ∨ m = n - 1) with heq | rfl | rfl
  · exact heq
  · rw [show n + 1 - n = 1 by omega, Int.one_mul] at hsteps
    have hmtie := hmeven (by omega)
    have hntie := hneven (by omega)
    omega
  · rw [show n - 1 - n = -1 by omega, Int.neg_one_mul] at hsteps
    have hmtie := hmeven (by omega)
    have hntie := hneven (by omega)
    omega

theorem nearestEven_roundHalfEven (k : Nat) (hd : 0 < d) :
    NearestEven k d (roundHalfEven k d) := by
  have hsplit := Nat.div_add_mod k d
  have hrest := Nat.mod_lt k hd
  have hfloor : ((k / d : Nat) : Int) * d = (d * (k / d) : Nat) := by
    rw [Nat.mul_comm, Int.natCast_mul]
  have hceiling : ((k / d + 1 : Nat) : Int) * d = (d * (k / d) : Nat) + d := by
    rw [Nat.mul_comm, Int.natCast_mul, Int.natCast_add, Int.add_mul]
    omega
  simp only [roundHalfEven]
  split
  · rename_i hlow
    exact ⟨by rw [hfloor]; omega, by rw [hfloor]; omega⟩
  · rename_i hhigh
    exact ⟨by rw [hceiling]; omega, by rw [hceiling]; omega⟩

end

namespace Double.Finite

/-- The value of the double, rounded half to even. -/
def RoundsTo (x : Finite) (n : Int) : Prop := NearestEven x.signedUnits resolution n

theorem roundsTo_toIntHalfEven (x : Finite) : x.RoundsTo x.toIntHalfEven := by
  have hround := nearestEven_roundHalfEven x.units resolution_pos
  simp only [RoundsTo, signedUnits, toIntHalfEven]
  split
  · exact hround.neg
  · exact hround

theorem roundsTo_iff {x : Finite} {n : Int} : x.RoundsTo n ↔ x.toIntHalfEven = n := by
  constructor
  · exact fun h ↦ x.roundsTo_toIntHalfEven.unique resolution_pos h
  · rintro rfl
    exact x.roundsTo_toIntHalfEven

end Double.Finite

end TableStore
