import Mathlib.Algebra.Group.Action.Defs
import Mathlib.Algebra.GroupWithZero.Nat
import Mathlib.Data.List.Basic
import Mathlib.Algebra.Order.BigOperators.Group.List
import Mathlib.Tactic.Ring

/-!
# Installments

An amount is paid out in a number of installments, each the rounded down
share of what is left. Rounding feeds back into the later shares, yet the
outcome is as even as it can be: with `total = share * parts + extra` the last
`extra` installments are one above the `share` of the others
(`installments_eq`). `FairSplit` says what that means for those paid so far.
-/

namespace Spox.Lib

/-- The installments: each is the share of the rest, rounded down. -/
def installments : Nat → Nat → List Nat
  | _, 0 => []
  | total, parts + 1 =>
      total / (parts + 1) :: installments (total - total / (parts + 1)) parts

/-- **The installments are even**: the shares, then those that also take one
of the remainder. -/
theorem installments_eq (share : Nat) {extra parts : Nat} (h : extra ≤ parts) :
    installments (share * parts + extra) parts =
      List.replicate (parts - extra) share ++ List.replicate extra (share + 1) := by
  induction parts generalizing extra with
  | zero =>
      have hextra : extra = 0 := by omega
      subst hextra
      rfl
  | succ parts ih =>
      rw [installments]
      rcases Nat.lt_or_eq_of_le h with hlt | rfl
      · -- a remainder below the number of parts leaves the share as it is
        have hdiv : (share * (parts + 1) + extra) / (parts + 1) = share := by
          rw [Nat.mul_comm, Nat.mul_add_div (Nat.succ_pos parts), Nat.div_eq_of_lt hlt,
            Nat.add_zero]
        have hrest : share * (parts + 1) + extra - share = share * parts + extra := by
          rw [Nat.mul_succ]
          omega
        rw [hdiv, hrest, ih (by omega), Nat.succ_sub (by omega), List.replicate_succ,
          List.cons_append]
      · -- a full remainder raises every share by one
        have hdiv : (share * (parts + 1) + (parts + 1)) / (parts + 1) = share + 1 := by
          rw [← Nat.succ_mul, Nat.mul_div_cancel _ (Nat.succ_pos parts)]
        have hrest : share * (parts + 1) + (parts + 1) - (share + 1) = share * parts + parts := by
          rw [Nat.mul_succ]
          omega
        rw [hdiv, hrest, ih (Nat.le_refl parts), Nat.sub_self, Nat.sub_self,
          List.replicate_succ]
        rfl

/-- The installments by the quotient and the remainder. -/
theorem installments_divMod {total parts : Nat} (hparts : 0 < parts) :
    installments total parts =
      List.replicate (parts - total % parts) (total / parts) ++
        List.replicate (total % parts) (total / parts + 1) := by
  have h := installments_eq (total / parts) (Nat.le_of_lt (Nat.mod_lt total hparts))
  rwa [Nat.div_add_mod' total parts] at h

/-- What the installments paid so far satisfy. -/
structure FairSplit (total parts : Nat) (paid : List Nat) : Prop where
  length_le : paid.length ≤ parts
  sum_le : paid.sum ≤ total
  sum_eq : paid.length = parts → paid.sum = total
  monotone : paid.Pairwise (· ≤ ·)
  even : ∀ amount ∈ paid, amount = total / parts ∨ amount = total / parts + 1
  rest : total * (parts - paid.length) / parts ≤ total - paid.sum
  exact : ∀ share, total = parts * share → ∀ amount ∈ paid, amount = share

section FairSplit

variable {total parts : Nat} {paid rest : List Nat}

theorem length_installments (total parts : Nat) : (installments total parts).length = parts := by
  induction parts generalizing total with
  | zero => rfl
  | succ parts ih => rw [installments, List.length_cons, ih]

theorem sum_installments (hparts : 0 < parts) (total : Nat) :
    (installments total parts).sum = total := by
  rw [installments_divMod hparts, List.sum_append, List.sum_replicate, List.sum_replicate,
    smul_eq_mul, smul_eq_mul]
  have hmod := Nat.mod_lt total hparts
  have hsplit : parts - total % parts + total % parts = parts := by omega
  calc (parts - total % parts) * (total / parts) + total % parts * (total / parts + 1)
      = (parts - total % parts + total % parts) * (total / parts) + total % parts := by ring
    _ = total := by rw [hsplit, Nat.div_add_mod]

theorem pairwise_installments (hparts : 0 < parts) (total : Nat) :
    (installments total parts).Pairwise (· ≤ ·) := by
  rw [installments_divMod hparts, List.pairwise_append]
  refine ⟨List.pairwise_replicate.mpr (.inr (Nat.le_refl _)),
    List.pairwise_replicate.mpr (.inr (Nat.le_refl _)), ?_⟩
  intro a ha b hb
  rw [List.eq_of_mem_replicate ha, List.eq_of_mem_replicate hb]
  exact Nat.le_succ _

theorem even_installments (hparts : 0 < parts) {amount : Nat}
    (h : amount ∈ installments total parts) :
    amount = total / parts ∨ amount = total / parts + 1 := by
  rw [installments_divMod hparts, List.mem_append] at h
  exact h.imp List.eq_of_mem_replicate List.eq_of_mem_replicate

/-- What is left is at least the share of the installments that are left:
none of them is below any that was paid. -/
theorem rest_installments (hle : (paid ++ rest).Pairwise (· ≤ ·)) :
    rest.length * (paid ++ rest).sum ≤ (paid ++ rest).length * rest.sum := by
  cases rest with
  | nil => simp
  | cons b rest =>
      obtain ⟨-, hrest, hcross⟩ := List.pairwise_append.mp hle
      -- the next installment bounds the paid ones from above, the others from below
      have hpaid : paid.sum ≤ paid.length * b := by
        have h := List.sum_le_card_nsmul paid b fun a ha => hcross a ha b List.mem_cons_self
        rwa [smul_eq_mul] at h
      have hleft : (b :: rest).length * b ≤ (b :: rest).sum := by
        have h := List.card_nsmul_le_sum (b :: rest) b ?_
        · rwa [smul_eq_mul] at h
        · intro a ha
          rcases List.mem_cons.mp ha with rfl | ha
          · exact Nat.le_refl _
          · exact List.rel_of_pairwise_cons hrest ha
      rw [List.sum_append, List.length_append, Nat.mul_add, Nat.add_mul, Nat.add_le_add_iff_right]
      calc (b :: rest).length * paid.sum
          ≤ (b :: rest).length * (paid.length * b) := Nat.mul_le_mul_left _ hpaid
        _ = paid.length * ((b :: rest).length * b) := by ring
        _ ≤ paid.length * (b :: rest).sum := Nat.mul_le_mul_left _ hleft

/-- **Every prefix of the installments is fair.** -/
theorem fairSplit_of_append (hparts : 0 < parts) (h : installments total parts = paid ++ rest) :
    FairSplit total parts paid where
  length_le := by
    have hlen := length_installments total parts
    rw [h, List.length_append] at hlen
    omega
  sum_le := by
    have hsum := sum_installments hparts total
    rw [h, List.sum_append] at hsum
    omega
  sum_eq hall := by
    have hlen := length_installments total parts
    have hsum := sum_installments hparts total
    rw [h, List.length_append] at hlen
    rw [h, List.sum_append, List.eq_nil_of_length_eq_zero (by omega : rest.length = 0)] at hsum
    exact hsum
  monotone := by
    have hle := pairwise_installments hparts total
    rw [h, List.pairwise_append] at hle
    exact hle.1
  even amount hamount :=
    even_installments hparts (h ▸ List.mem_append_left rest hamount)
  rest := by
    have hlen := length_installments total parts
    have hsum := sum_installments hparts total
    have hrest := rest_installments (h ▸ pairwise_installments hparts total)
    rw [← h, hsum, hlen] at hrest
    rw [h, List.length_append] at hlen
    rw [h, List.sum_append] at hsum
    have hleft : parts - paid.length = rest.length := by omega
    have hamount : total - paid.sum = rest.sum := by omega
    rw [hleft, hamount, Nat.div_le_iff_le_mul_add_pred hparts]
    calc total * rest.length = rest.length * total := Nat.mul_comm _ _
      _ ≤ parts * rest.sum := hrest
      _ ≤ parts * rest.sum + (parts - 1) := Nat.le_add_right _ _
  exact share htotal amount hamount := by
    have hdiv : total / parts = share := by rw [htotal, Nat.mul_div_cancel_left _ hparts]
    have hmod : total % parts = 0 := by rw [htotal, Nat.mul_mod_right]
    have hmem : amount ∈ installments total parts := h ▸ List.mem_append_left rest hamount
    rw [installments_divMod hparts, hmod, hdiv, List.replicate_zero, List.append_nil] at hmem
    exact List.eq_of_mem_replicate hmem

end FairSplit

end Spox.Lib
