/-!
# Powers

Powers of two, by which binary numbers are scaled, and powers of ten.
-/

namespace FilterForest

def twoTo (n : Nat) : Nat := Nat.pow 2 n

def tenTo (n : Nat) : Nat := Nat.pow 10 n

theorem twoTo_pos (n : Nat) : 0 < twoTo n := Nat.pow_pos (by decide)

theorem tenTo_pos (n : Nat) : 0 < tenTo n := Nat.pow_pos (by decide)

theorem twoTo_add (m n : Nat) : twoTo (m + n) = twoTo m * twoTo n := Nat.pow_add 2 m n

theorem tenTo_add (m n : Nat) : tenTo (m + n) = tenTo m * tenTo n := Nat.pow_add 10 m n

theorem twoTo_le_twoTo {m n : Nat} (h : m ≤ n) : twoTo m ≤ twoTo n :=
  Nat.pow_le_pow_right (by decide) h

theorem twoTo_dvd_twoTo {m n : Nat} (h : m ≤ n) : twoTo m ∣ twoTo n := Nat.pow_dvd_pow 2 h

theorem log2_lt_iff {n k : Nat} (h : n ≠ 0) : n.log2 < k ↔ n < twoTo k := Nat.log2_lt h

theorem lt_twoTo_log2_succ (n : Nat) : n < twoTo (n.log2 + 1) := Nat.lt_log2_self

@[simp] theorem log2_twoTo (n : Nat) : (twoTo n).log2 = n := Nat.log2_two_pow

end FilterForest
