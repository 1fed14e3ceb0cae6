/-
# The base fee

The fee that every block burns moves towards the demand: a block that used more than half of its limit raises the fee
of the next one, by an eighth at most, and one that used less lowers it.

How far the fee moves is in proportion to the distance from the target. The distance is no more than the target as long
as the block keeps to twice the target, and then no change is more than an eighth (`next_near`); a rise is rounded up to
one, so that a low fee can rise at all.
-/

namespace Searcher
namespace BaseFee

/-- An eighth of the fee, in proportion to the distance from the target. -/
def change (fee distance target : Nat) : Nat := fee * distance / target / 8

/-- The base fee of the next block. A rise is at least one. -/
def next (gasUsed gasLimit fee : Nat) : Nat :=
  let target := gasLimit / 2
  if target = 0 ∨ gasUsed = target then fee
  else if target < gasUsed then fee + max (change fee (gasUsed - target) target) 1
  else fee - change fee (target - gasUsed) target

variable {gasUsed gasLimit fee distance target : Nat}

/-- Up to the target itself, a distance changes the fee by an eighth at most. -/
theorem change_le (h : distance ≤ target) : change fee distance target ≤ fee / 8 := by
  have hshare : fee * distance / target ≤ fee :=
    Nat.div_le_of_le_mul (Nat.mul_comm target fee ▸ Nat.mul_le_mul_left fee h)
  exact Nat.div_le_div_right hshare

/-- **The base fee moves by an eighth at most,** up or down, after a block that used no more than twice the target. Only
where an eighth is nothing does it rise by one nevertheless. -/
theorem next_near (h : gasUsed ≤ 2 * (gasLimit / 2)) :
    fee - fee / 8 ≤ next gasUsed gasLimit fee ∧ next gasUsed gasLimit fee ≤ fee + max (fee / 8) 1 := by
  have hrise : change fee (gasUsed - gasLimit / 2) (gasLimit / 2) ≤ fee / 8 := change_le (by omega)
  have hfall : change fee (gasLimit / 2 - gasUsed) (gasLimit / 2) ≤ fee / 8 := change_le (by omega)
  unfold next
  dsimp only
  split
  · omega
  · split <;> omega

/-- **The base fee rises exactly after a block that used more than its target.** -/
theorem lt_next_iff : fee < next gasUsed gasLimit fee ↔ gasLimit / 2 ≠ 0 ∧ gasLimit / 2 < gasUsed := by
  unfold next
  dsimp only
  split
  · omega
  · split <;> omega

end BaseFee
end Searcher
