import Spox.Keeper.Withdrawals

/-!
# Keeper — the paginated views are complete

Each of the four views pages through a linked list. At a chain tip that
stays put the loop over its pages ends after exactly as many calls as the
list has hundreds, with a row for each entry the view keeps, in the order of
insertion; so do the two loops of the client.
-/

namespace Spox.Keeper

open Spox.Lib Spox.RewardClaims Spox.Client

variable {σ : Type} {views : Views σ} {R : σ → σ → Prop} {base : Nat} {w : World σ}

/-! ## The keys of the rows -/

theorem registrationRow_map_key (hinv : Inv base w) {key : RegistrationKey}
    (hkey : key ∈ liveKeys w) :
    (registrationRow w.registry key).map RegistrationRow.toRegistrationKey = some key := by
  obtain ⟨row, hrow⟩ := Option.isSome_iff_exists.mp (hinv.mem_liveKeys.mp hkey)
  rw [registrationRow, hrow]
  rfl

theorem withdrawalRow_map_key (hinv : Inv base w) {key : WithdrawalKey}
    (hkey : key ∈ indexedKeys w) :
    (withdrawalRow w.registry key).map WithdrawalRow.toWithdrawalKey = some key := by
  obtain ⟨height, hheight⟩ := Option.isSome_iff_exists.mp (hinv.mem_indexedKeys.mp hkey)
  rw [withdrawalRow, hheight]
  rfl

/-! ## Completeness -/

/-- **Paginated views are complete.** The two linked lists hold the live
registrations and the indexed withdrawals by the time of their insertion;
each view reads all of its list, keeps the entries that pass its filter and
drops no row; and the loops of the client end with those rows. -/
theorem paginated_views_complete (h : Reachable views R w) (hfit : views.HeightsFit) :
    w.registry.registrationLl.Represents (liveKeys w) ∧
    w.registry.pendingWithdrawalLl.Represents (indexedKeys w) ∧
    ReadsAll 100
      (fun cursor => Except.ok (ε := Error) (RewardClaims.getPendingClaims views w cursor))
      (liveKeys w) (pendingAt views w) PendingClaimRow.key
      ((liveKeys w).filterMap (pendingRowAt views w)) ∧
    ReadsAll 100 (fun cursor => Except.ok (ε := Error) (getRegistrations w cursor))
      (liveKeys w) (fun _ => true) RegistrationRow.toRegistrationKey
      ((liveKeys w).filterMap (registrationRow w.registry)) ∧
    ReadsAll 100 (fun cursor => callRead w (RewardClaims.getPendingWithdrawals views cursor))
      (indexedKeys w) (readyAt views w) id ((indexedKeys w).filterMap (readyRow views w)) ∧
    ReadsAll 100 (fun cursor => Except.ok (ε := Error) (getWithdrawals w cursor))
      (indexedKeys w) (fun _ => true) WithdrawalRow.toWithdrawalKey
      ((indexedKeys w).filterMap (withdrawalRow w.registry)) ∧
    (∃ claims, claims.map PendingClaim.row = (liveKeys w).filterMap (pendingRowAt views w) ∧
      ∀ calls, getAllPendingClaims views w calls =
        if calls < pageCount 100 (liveKeys w).length then none else some (.ok claims)) ∧
    (∃ withdrawals, withdrawals.map PendingWithdrawal.withdrawalKey =
        (indexedKeys w).filterMap (readyRow views w) ∧
      ∀ calls, getAllPendingWithdrawals views w calls =
        if calls < pageCount 100 (indexedKeys w).length then none
        else some (.ok withdrawals)) := by
  obtain ⟨base, hinv⟩ := h.inv
  have hstored := h.stored
  refine ⟨hinv.list, hinv.index, ?_, ?_, ?_, ?_, ?_, ?_⟩
  · exact readsAll_of_pages (by decide) hinv.visits liveKeys_nodup
      (fun _ _ hks => by rw [getPendingClaims_page hks]) fun key _ => pendingRowAt_map_key key
  · exact readsAll_of_pages (by decide) hinv.visits liveKeys_nodup
      (fun _ _ hks => by rw [getRegistrations_page hks])
      fun key hkey => registrationRow_map_key hinv hkey
  · exact readsAll_of_pages (by decide) hinv.visits_index indexedKeys_nodup
      (fun _ _ hks => by rw [callRead, getPendingWithdrawals_page hfit hstored hks])
      fun key _ => by rw [Option.map_id]; rfl
  · exact readsAll_of_pages (by decide) hinv.visits_index indexedKeys_nodup
      (fun _ _ hks => by rw [getWithdrawals_page hks])
      fun key hkey => withdrawalRow_map_key hinv hkey
  · refine ⟨_, ?_, (getPendingClaims_readsAll hinv).loop⟩
    rw [List.map_filterMap]
    exact List.filterMap_congr fun key _ => claimAt_map_row hinv key
  · exact ⟨_, map_filterMap_withdrawalAt hstored _,
      (getPendingWithdrawals_readsAll hfit hinv hstored).loop⟩

/-- One registration and one withdrawal that is ready: one call lists each. -/
theorem paginated_views_complete_ready :
    indexedKeys Chain.ready = [Chain.withdrawalKey] ∧
      ∃ withdrawals, withdrawals.map PendingWithdrawal.withdrawalKey = [Chain.withdrawalKey] ∧
        getAllPendingWithdrawals Chain.bounded Chain.ready 1 = some (.ok withdrawals) := by
  obtain ⟨-, -, -, -, -, -, -, withdrawals, hrows, hloop⟩ :=
    paginated_views_complete Chain.reachable_ready Chain.bounded_heightsFit
  refine ⟨by decide, withdrawals, hrows.trans (by decide), ?_⟩
  rw [hloop, if_neg (by decide)]

end Spox.Keeper
