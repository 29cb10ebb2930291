import Spox.Contract.Soundness
import Spox.Lib.Index

/-!
# Reward claim registry — the two linked lists

The registrations and the indexed withdrawals are each kept in a map and in
a doubly linked list next to it. In every reachable world, and between any
two business events of a call, either list walks exactly the keys of its map
in the order in which they were inserted.
-/

namespace Spox.RewardClaims

open Spox.Lib

variable {σ : Type} {views : Views σ} {R : σ → σ → Prop} {base : Nat} {w : World σ}

/-- `registration-ll` walks the live registrations, oldest first. -/
def RegistrationList (w : World σ) : Prop :=
  Indexes w.registry.registrationLl (fun key => (w.registry.registrations key).isSome)
    (creations w.log)

theorem Inv.registrationList (h : Inv base w) : RegistrationList w :=
  h.list.indexes h.created

/-- **Registration list integrity.** The walk from the head visits every key
of `registrations` once, in the order of creation, and ends at the tail; the
links are mutual and no other key has a node. `v` is any world between two
business events of a call made in `w`, `w` itself included, so no walk meets
a node without a registration and no append or removal misses a neighbour. -/
theorem registration_list_integrity (h : Reachable views R w) {v : World σ}
    (hv : Runs (Change views R) (fun _ => True) w v) : RegistrationList v := by
  obtain ⟨base, hinv⟩ := h.inv
  exact (hinv.runs hv).registrationList

theorem registration_list_integrity_thinned :
    liveKeys Chain.thinned = [Chain.key, Chain.keyOf Chain.latecomer] ∧
      RegistrationList Chain.thinned :=
  ⟨by decide, registration_list_integrity
    ⟨_, _, Chain.run_thinned (R := fun _ _ => True)⟩ .refl⟩

end Spox.RewardClaims
