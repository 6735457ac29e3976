import Best1307.Ecc.BigHex
import Best1307.Lib.Lucas

/-!
# The prime of the field

The number that `ecc_p256.c` reduces by is prime. One less than it has a large factor, and so has one less than that
factor, down to factors that trial division tells.
-/

namespace Best1307.Ecc

theorem prime_p256 : p256.Prime := by
  have h1 : Nat.Prime 204061199 := by
    refine Lucas.prime_of_check 11 [(2, 1), (11, 1), (23, 1), (107, 1), (3769, 1)]
      (by norm_num) (by decide) ?_
    simp only [List.forall_mem_cons, List.not_mem_nil, false_imp_iff, implies_true, and_true]
    norm_num
  have h2 : Nat.Prime 34282281433 := by
    refine Lucas.prime_of_check 17 [(2, 3), (3, 1), (7, 1), (204061199, 1)]
      (by norm_num) (by decide +kernel) ?_
    simp only [List.forall_mem_cons, List.not_mem_nil, false_imp_iff, implies_true, and_true, h1]
    norm_num
  have h3 : Nat.Prime 66417393611 := by
    refine Lucas.prime_of_check 6 [(2, 1), (5, 1), (53, 1), (173, 1), (197, 1), (3677, 1)]
      (by norm_num) (by decide +kernel) ?_
    simp only [List.forall_mem_cons, List.not_mem_nil, false_imp_iff, implies_true, and_true]
    norm_num
  have h4 : Nat.Prime 11290956913871 := by
    refine Lucas.prime_of_check 13 [(2, 1), (5, 1), (17, 1), (66417393611, 1)]
      (by norm_num) (by decide +kernel) ?_
    simp only [List.forall_mem_cons, List.not_mem_nil, false_imp_iff, implies_true, and_true, h3]
    norm_num
  have h5 : Nat.Prime 46076956964474543 := by
    refine Lucas.prime_of_check 5 [(2, 1), (23, 1), (18169, 1), (78283, 1), (704251, 1)]
      (by norm_num) (by decide +kernel) ?_
    simp only [List.forall_mem_cons, List.not_mem_nil, false_imp_iff, implies_true, and_true]
    norm_num
  have h6 : Nat.Prime 774023187263532362759620327192479577272145303 := by
    refine Lucas.prime_of_check 3 [(2, 1), (3, 2), (2411, 1), (34282281433, 1), (11290956913871, 1),
      (46076956964474543, 1)]
      (by norm_num) (by decide +kernel) ?_
    simp only [List.forall_mem_cons, List.not_mem_nil, false_imp_iff, implies_true, and_true, h2, h4, h5]
    norm_num
  have h7 : Nat.Prime 835945042244614951780389953367877943453916927241 := by
    refine Lucas.prime_of_check 11 [(2, 3), (3, 3), (5, 1), (774023187263532362759620327192479577272145303, 1)]
      (by norm_num) (by decide +kernel) ?_
    simp only [List.forall_mem_cons, List.not_mem_nil, false_imp_iff, implies_true, and_true, h6]
    norm_num
  refine Lucas.prime_of_check 6 [(2, 1), (3, 1), (5, 2), (17, 1), (257, 1), (641, 1), (1531, 1), (65537, 1),
    (490463, 1), (6700417, 1), (835945042244614951780389953367877943453916927241, 1)]
    (by rw [p256]; norm_num) (by decide +kernel) ?_
  simp only [List.forall_mem_cons, List.not_mem_nil, false_imp_iff, implies_true, and_true, h7]
  norm_num

end Best1307.Ecc
