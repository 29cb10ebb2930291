import Spox.Contract.Changes

/-!
# Reward claim registry — the invariant

`Inv base w` couples the three representations of "which registrations are
live" (the map, the linked list and the log), the same three for indexed
withdrawals, and the contract's balance, where `base` is the balance it was
deployed with. Every step of the abstract machine keeps it (`Change.inv`).
-/

namespace Spox.RewardClaims

open Spox.Lib

variable {σ : Type}

structure Inv (base : Nat) (w : World σ) : Prop where
  list : w.registry.registrationLl.Represents (liveKeys w)
  created : ∀ key, (w.registry.registrations key).isSome = true → key ∈ creations w.log
  rows : ∀ key row, w.registry.registrations key = some row → RowOk key row
  solvent : w.stx currentContract = base + received w.log + escrowTotal w
  index : w.registry.pendingWithdrawalLl.Represents (indexedKeys w)
  indexed : ∀ key, (w.registry.pendingWithdrawals key).isSome = true →
    key ∈ indexings w.log

/-! ## Money in and out of escrow -/

section Escrow

variable (w : World σ) (amount : Nat) (account : Principal)

@[simp] theorem escrow_registry : (w.escrow amount account).registry = w.registry := by
  unfold World.escrow; split <;> rfl

@[simp] theorem escrow_ext : (w.escrow amount account).ext = w.ext := by
  unfold World.escrow; split <;> rfl

@[simp] theorem refund_registry : (w.refund amount account).registry = w.registry := by
  unfold World.refund; split <;> rfl

@[simp] theorem refund_ext : (w.refund amount account).ext = w.ext := by
  unfold World.refund; split <;> rfl

@[simp] theorem burnEscrow_registry : (w.burnEscrow amount).registry = w.registry := by
  unfold World.burnEscrow; split <;> rfl

@[simp] theorem burnEscrow_ext : (w.burnEscrow amount).ext = w.ext := by
  unfold World.burnEscrow; split <;> rfl

theorem escrow_stx :
    (w.escrow amount account).stx currentContract = w.stx currentContract + amount := by
  unfold World.escrow
  split
  · simp [World.move]
  · omega

theorem refund_stx (h : account ≠ currentContract) :
    (w.refund amount account).stx currentContract = w.stx currentContract - amount := by
  unfold World.refund
  split
  · simp [World.move, Ne.symm h]
  · omega

theorem burnEscrow_stx :
    (w.burnEscrow amount).stx currentContract = w.stx currentContract - amount := by
  unfold World.burnEscrow
  split
  · simp
  · omega

/-- The token event of a transfer, if anything moves. -/
def transferEvents (sender recipient : Principal) : List Event :=
  if 0 < amount then [.stxTransfer amount sender recipient] else []

/-- The token event of a burn, if anything is burned. -/
def burnEvents : List Event :=
  if 0 < amount then [.stxBurn amount currentContract] else []

theorem escrow_log : (w.escrow amount account).log =
    w.log ++ transferEvents amount account currentContract := by
  unfold World.escrow transferEvents; split <;> simp

theorem refund_log : (w.refund amount account).log =
    w.log ++ transferEvents amount currentContract account := by
  unfold World.refund transferEvents; split <;> simp

theorem burnEscrow_log : (w.burnEscrow amount).log = w.log ++ burnEvents amount := by
  unfold World.burnEscrow burnEvents; split <;> simp

variable (sender recipient : Principal)

@[simp] theorem creations_transferEvents :
    creations (transferEvents amount sender recipient) = [] := by
  unfold transferEvents; split <;> rfl

@[simp] theorem indexings_transferEvents :
    indexings (transferEvents amount sender recipient) = [] := by
  unfold transferEvents; split <;> rfl

@[simp] theorem claims_transferEvents :
    claims (transferEvents amount sender recipient) = [] := by
  unfold transferEvents; split <;> rfl

@[simp] theorem received_transferEvents :
    received (transferEvents amount sender recipient) = 0 := by
  unfold transferEvents; split <;> rfl

@[simp] theorem creations_burnEvents : creations (burnEvents amount) = [] := by
  unfold burnEvents; split <;> rfl

@[simp] theorem indexings_burnEvents : indexings (burnEvents amount) = [] := by
  unfold burnEvents; split <;> rfl

@[simp] theorem claims_burnEvents : claims (burnEvents amount) = [] := by
  unfold burnEvents; split <;> rfl

@[simp] theorem received_burnEvents : received (burnEvents amount) = 0 := by
  unfold burnEvents; split <;> rfl

end Escrow

/-! ## What the escrow events leave alone -/

/-- The events of a registration, its top-ups and its cancellation. -/
def Event.isEscrow : Event → Bool
  | .registerForClaims .. => true
  | .addClaims .. => true
  | .cancelRegistration .. => true
  | .stxTransfer .. => true
  | _ => false

/-- A step that is about a registration and its escrow only. -/
structure EscrowOnly (w w' : World σ) : Prop where
  maxProcessedDistribution :
    w'.registry.maxProcessedDistribution = w.registry.maxProcessedDistribution
  pendingWithdrawals : w'.registry.pendingWithdrawals = w.registry.pendingWithdrawals
  active : w'.registry.signerManagerCallActive = w.registry.signerManagerCallActive
  ext : w'.ext = w.ext
  log : ∃ es, w'.log = w.log ++ es ∧ ∀ e ∈ es, e.isEscrow = true

section EscrowOnly

variable {w w' : World σ} (key : RegistrationKey) (row : Registration)

theorem isEscrow_transferEvents {amount : Nat} {sender recipient : Principal} {last : Event}
    (hlast : last.isEscrow = true) :
    ∀ e ∈ transferEvents amount sender recipient ++ [last], e.isEscrow = true := by
  intro e he
  rcases List.mem_append.mp he with he | he
  · unfold transferEvents at he
    split at he
    · rw [List.mem_singleton.mp he]
      rfl
    · cases he
  · rw [List.mem_singleton.mp he]
    exact hlast

theorem registered_log (w : World σ) (start : Nat) : (w.registered key row start).log =
    w.log ++ (transferEvents row.prepaidUstx row.sponsor currentContract ++
      [.registerForClaims key row.sponsor start row.oneClaimPerRewardCycle row.remainingClaims
        row.prepaidUstx]) := by
  simp [World.registered, escrow_log]

theorem toppedUp_log (w : World σ) (numClaims escrowed : Nat) :
    (w.toppedUp key row numClaims escrowed).log =
      w.log ++ (transferEvents escrowed row.sponsor currentContract ++
        [.addClaims key row.sponsor numClaims escrowed]) := by
  simp [World.toppedUp, escrow_log]

theorem cancelled_log (w : World σ) : (w.cancelled key row).log =
    w.log ++ (transferEvents row.prepaidUstx currentContract row.sponsor ++
      [.cancelRegistration key row.sponsor row.prepaidUstx]) := by
  simp [World.cancelled, refund_log]

theorem registered_registrations (w : World σ) (start : Nat) :
    (w.registered key row start).registry.registrations =
      Function.update w.registry.registrations key (some row) := by
  simp [World.registered]

theorem toppedUp_registrations (w : World σ) (numClaims escrowed : Nat) :
    (w.toppedUp key row numClaims escrowed).registry.registrations =
      Function.update w.registry.registrations key (some
        { row with
          remainingClaims := row.remainingClaims + numClaims
          prepaidUstx := row.prepaidUstx + escrowed }) := by
  simp [World.toppedUp]

theorem cancelled_registrations (w : World σ) : (w.cancelled key row).registry.registrations =
    Function.update w.registry.registrations key none := by
  simp [World.cancelled]

theorem escrowOnly_registered (w : World σ) (start : Nat) :
    EscrowOnly w (w.registered key row start) where
  maxProcessedDistribution := by simp [World.registered]
  pendingWithdrawals := by simp [World.registered]
  active := by simp [World.registered]
  ext := by simp [World.registered]
  log := ⟨_, registered_log key row w start, isEscrow_transferEvents rfl⟩

theorem escrowOnly_toppedUp (w : World σ) (numClaims escrowed : Nat) :
    EscrowOnly w (w.toppedUp key row numClaims escrowed) where
  maxProcessedDistribution := by simp [World.toppedUp]
  pendingWithdrawals := by simp [World.toppedUp]
  active := by simp [World.toppedUp]
  ext := by simp [World.toppedUp]
  log := ⟨_, toppedUp_log key row w numClaims escrowed, isEscrow_transferEvents rfl⟩

theorem escrowOnly_cancelled (w : World σ) : EscrowOnly w (w.cancelled key row) where
  maxProcessedDistribution := by simp [World.cancelled]
  pendingWithdrawals := by simp [World.cancelled]
  active := by simp [World.cancelled]
  ext := by simp [World.cancelled]
  log := ⟨_, cancelled_log key row w, isEscrow_transferEvents rfl⟩

theorem EscrowOnly.claims_eq (h : EscrowOnly w w') : claims w'.log = claims w.log := by
  obtain ⟨es, hlog, hes⟩ := h.log
  have hnone : claims es = [] := List.filterMap_eq_nil_iff.mpr fun e he => by
    have hescrow := hes e he
    cases e <;> first | rfl | cases hescrow
  rw [hlog, claims_append, hnone, List.append_nil]

theorem EscrowOnly.indexings_eq (h : EscrowOnly w w') : indexings w'.log = indexings w.log := by
  obtain ⟨es, hlog, hes⟩ := h.log
  have hnone : indexings es = [] := List.filterMap_eq_nil_iff.mpr fun e he => by
    have hescrow := hes e he
    cases e <;> first | rfl | cases hescrow
  rw [hlog, indexings_append, hnone, List.append_nil]

end EscrowOnly

/-! ## The live keys and the escrow total under one map write -/

section MapWrites

variable {w w' : World σ} {key : RegistrationKey} {row row' : Registration}

theorem prepaid_of_some (h : w.registry.registrations key = some row) :
    prepaid w key = row.prepaidUstx := by
  simp [prepaid, h]

theorem prepaid_of_ne {value : Option Registration} {q : RegistrationKey}
    (h : w'.registry.registrations = Function.update w.registry.registrations key value)
    (hq : q ≠ key) : prepaid w' q = prepaid w q := by
  simp [prepaid, h, hq]

theorem liveKeys_nodup : (liveKeys w).Nodup := insertionOrder_nodup

theorem liveKeys_insert (hfree : w.registry.registrations key = none)
    (hlog : creations w'.log = creations w.log ++ [key])
    (hmap : w'.registry.registrations =
      Function.update w.registry.registrations key (some row)) :
    liveKeys w' = liveKeys w ++ [key] := by
  rw [liveKeys, hlog, hmap]
  refine insertionOrder_concat (by simp [hfree]) (by simp) fun q hq => ?_
  simp [hq]

theorem liveKeys_replace (hlive : (w.registry.registrations key).isSome = true)
    (hlog : creations w'.log = creations w.log)
    (hmap : w'.registry.registrations =
      Function.update w.registry.registrations key (some row)) :
    liveKeys w' = liveKeys w := by
  rw [liveKeys, hlog, hmap]
  refine insertionOrder_congr fun q => ?_
  by_cases hq : q = key
  · simp [hq, hlive]
  · simp [hq]

theorem liveKeys_delete (hlog : creations w'.log = creations w.log)
    (hmap : w'.registry.registrations =
      Function.update w.registry.registrations key none) :
    liveKeys w' = (liveKeys w).erase key := by
  rw [liveKeys, hlog, hmap]
  refine insertionOrder_erase (by simp) fun q hq => ?_
  simp [hq]

theorem escrowTotal_congr (hkeys : liveKeys w' = liveKeys w)
    (hmap : w'.registry.registrations = w.registry.registrations) :
    escrowTotal w' = escrowTotal w := by
  have hprepaid : prepaid w' = prepaid w := by
    funext q
    simp [prepaid, hmap]
  rw [escrowTotal, hkeys, hprepaid, escrowTotal]

theorem escrowTotal_insert (hfree : w.registry.registrations key = none)
    (hkeys : liveKeys w' = liveKeys w ++ [key])
    (hmap : w'.registry.registrations =
      Function.update w.registry.registrations key (some row)) :
    escrowTotal w' = escrowTotal w + row.prepaidUstx := by
  have hold : (liveKeys w).map (prepaid w') = (liveKeys w).map (prepaid w) := by
    refine List.map_congr_left fun q hq => prepaid_of_ne hmap ?_
    rintro rfl
    simp [liveKeys, mem_insertionOrder, hfree] at hq
  have hnew : prepaid w' key = row.prepaidUstx := prepaid_of_some (by simp [hmap])
  simp [escrowTotal, hkeys, hold, hnew]

theorem escrowTotal_replace (hkey : key ∈ liveKeys w)
    (hrow : w.registry.registrations key = some row) (hkeys : liveKeys w' = liveKeys w)
    (hmap : w'.registry.registrations =
      Function.update w.registry.registrations key (some row')) :
    escrowTotal w' + row.prepaidUstx = escrowTotal w + row'.prepaidUstx := by
  have hne : ∀ q, q ≠ key → prepaid w' q = prepaid w q := fun q hq => prepaid_of_ne hmap hq
  have hnew : prepaid w' key = row'.prepaidUstx := prepaid_of_some (by simp [hmap])
  have h := sum_update_add liveKeys_nodup hkey hne
  rw [prepaid_of_some hrow, hnew] at h
  rw [escrowTotal, hkeys, h, escrowTotal]

theorem escrowTotal_delete (hkey : key ∈ liveKeys w)
    (hrow : w.registry.registrations key = some row)
    (hkeys : liveKeys w' = (liveKeys w).erase key)
    (hmap : w'.registry.registrations =
      Function.update w.registry.registrations key none) :
    escrowTotal w' + row.prepaidUstx = escrowTotal w := by
  have hold : ((liveKeys w).erase key).map (prepaid w') =
      ((liveKeys w).erase key).map (prepaid w) := by
    refine List.map_congr_left fun q hq => prepaid_of_ne hmap ?_
    rintro rfl
    exact liveKeys_nodup.not_mem_erase hq
  rw [escrowTotal, hkeys, hold, escrowTotal, ← sum_erase_add hkey, prepaid_of_some hrow]

end MapWrites

/-! ## Consequences -/

section Consequences

variable {base : Nat} {w : World σ} {key : RegistrationKey} {row : Registration}

theorem Inv.mem_liveKeys (h : Inv base w) :
    key ∈ liveKeys w ↔ (w.registry.registrations key).isSome = true := by
  rw [liveKeys, mem_insertionOrder]
  exact ⟨fun hk => hk.2, fun hk => ⟨h.created key hk, hk⟩⟩

theorem Inv.mem_indexedKeys (h : Inv base w) {key : WithdrawalKey} :
    key ∈ indexedKeys w ↔ (w.registry.pendingWithdrawals key).isSome = true := by
  rw [indexedKeys, mem_insertionOrder]
  exact ⟨fun hk => hk.2, fun hk => ⟨h.indexed key hk, hk⟩⟩

theorem Inv.live (h : Inv base w) (hrow : w.registry.registrations key = some row) :
    key ∈ liveKeys w :=
  h.mem_liveKeys.mpr (by simp [hrow])

theorem Inv.prepaid_le_escrowTotal (h : Inv base w)
    (hrow : w.registry.registrations key = some row) :
    row.prepaidUstx ≤ escrowTotal w := by
  rw [escrowTotal, ← sum_erase_add (h.live hrow), prepaid_of_some hrow]
  omega

/-- The contract can pay what any one registration has in escrow. -/
theorem Inv.prepaid_le (h : Inv base w)
    (hrow : w.registry.registrations key = some row) :
    row.prepaidUstx ≤ w.stx currentContract := by
  have := h.prepaid_le_escrowTotal hrow
  rw [h.solvent]
  omega

end Consequences

/-! ## Preservation -/

section Preservation

variable {base : Nat} {w w' : World σ} {key : RegistrationKey} {row : Registration}

theorem inv_deployed (stx : Principal → Nat) (ext : σ) :
    Inv (stx currentContract) (World.deployed stx ext) where
  list := DList.represents_empty
  created := fun key h => by simp [World.deployed, Registry.deployed] at h
  rows := fun key row h => by simp [World.deployed, Registry.deployed] at h
  solvent := rfl
  index := DList.represents_empty
  indexed := fun key h => by simp [World.deployed, Registry.deployed] at h

/-- The invariant reads only part of the world. -/
theorem Inv.congr (h : Inv base w)
    (hregistrations : w'.registry.registrations = w.registry.registrations)
    (hlist : w'.registry.registrationLl = w.registry.registrationLl)
    (hpending : w'.registry.pendingWithdrawals = w.registry.pendingWithdrawals)
    (hindex : w'.registry.pendingWithdrawalLl = w.registry.pendingWithdrawalLl)
    (hcreations : creations w'.log = creations w.log)
    (hindexings : indexings w'.log = indexings w.log)
    (hstx : w'.stx currentContract + received w.log =
      w.stx currentContract + received w'.log) :
    Inv base w' := by
  have hkeys : liveKeys w' = liveKeys w := by
    rw [liveKeys, hcreations, hregistrations, liveKeys]
  have hwkeys : indexedKeys w' = indexedKeys w := by
    rw [indexedKeys, hindexings, hpending, indexedKeys]
  have htotal : escrowTotal w' = escrowTotal w := escrowTotal_congr hkeys hregistrations
  refine ⟨?_, ?_, ?_, ?_, ?_, ?_⟩
  · rw [hlist, hkeys]; exact h.list
  · rw [hregistrations, hcreations]; exact h.created
  · rw [hregistrations]; exact h.rows
  · have := h.solvent
    rw [htotal]
    omega
  · rw [hindex, hwkeys]; exact h.index
  · rw [hpending, hindexings]; exact h.indexed

theorem Inv.emit (h : Inv base w) {es : List Event} (hc : creations es = [])
    (hi : indexings es = []) (hr : received es = 0) : Inv base (w.emit es) :=
  h.congr rfl rfl rfl rfl (by simp [hc]) (by simp [hi]) (by simp [hr])

theorem Event.readings_of_isOutside {e : Event} (h : e.isOutside = true) :
    e.created = none ∧ e.indexing = none ∧ e.claim = none := by
  cases e <;> first | exact ⟨rfl, rfl, rfl⟩ | simp [Event.isOutside] at h

theorem outside_readings {es : List Event} (h : ∀ e ∈ es, e.isOutside = true) :
    creations es = [] ∧ indexings es = [] ∧ claims es = [] :=
  ⟨List.filterMap_eq_nil_iff.mpr fun e he => (Event.readings_of_isOutside (h e he)).1,
    List.filterMap_eq_nil_iff.mpr fun e he => (Event.readings_of_isOutside (h e he)).2.1,
    List.filterMap_eq_nil_iff.mpr fun e he => (Event.readings_of_isOutside (h e he)).2.2⟩

theorem Outside.inv {R : σ → σ → Prop} (h : Outside R w w') (hinv : Inv base w) :
    Inv base w' := by
  obtain ⟨es, hlog, hes, hstx⟩ := h.log
  obtain ⟨hc, hi, -⟩ := outside_readings hes
  refine hinv.congr h.registrations h.registrationLl h.pendingWithdrawals
    h.pendingWithdrawalLl (by simp [hlog, hc]) (by simp [hlog, hi]) ?_
  rw [hstx, hlog, received_append]
  omega

/-- A step that leaves the withdrawals and the readings of the log alone. -/
structure Quiet (w w' : World σ) : Prop where
  pendingWithdrawals : w'.registry.pendingWithdrawals = w.registry.pendingWithdrawals
  pendingWithdrawalLl : w'.registry.pendingWithdrawalLl = w.registry.pendingWithdrawalLl
  creations : creations w'.log = creations w.log
  indexings : indexings w'.log = indexings w.log
  received : received w'.log = received w.log

theorem Inv.index_of_quiet (h : Inv base w) (hquiet : Quiet w w') :
    w'.registry.pendingWithdrawalLl.Represents (indexedKeys w') := by
  rw [indexedKeys, hquiet.indexings, hquiet.pendingWithdrawals, hquiet.pendingWithdrawalLl]
  exact h.index

theorem Inv.indexed_of_quiet (h : Inv base w) (hquiet : Quiet w w') (key : WithdrawalKey)
    (hkey : (w'.registry.pendingWithdrawals key).isSome = true) :
    key ∈ RewardClaims.indexings w'.log := by
  rw [hquiet.indexings]
  rw [hquiet.pendingWithdrawals] at hkey
  exact h.indexed key hkey

/-- Rewriting a live row moves the balance with the row's escrow. -/
theorem Inv.replaced (row' : Registration) (h : Inv base w)
    (hrow : w.registry.registrations key = some row) (hrow' : RowOk key row')
    (hmap : w'.registry.registrations =
      Function.update w.registry.registrations key (some row'))
    (hlist : w'.registry.registrationLl = w.registry.registrationLl)
    (hstx : w'.stx currentContract + row.prepaidUstx =
      w.stx currentContract + row'.prepaidUstx)
    (hquiet : Quiet w w') : Inv base w' := by
  have hkeys := liveKeys_replace (by simp [hrow]) hquiet.creations hmap
  refine ⟨?_, ?_, ?_, ?_, h.index_of_quiet hquiet, h.indexed_of_quiet hquiet⟩
  · rw [hlist, hkeys]
    exact h.list
  · intro q hq
    rw [hquiet.creations]
    refine h.created q ?_
    by_cases hqk : q = key
    · simp [hqk, hrow]
    · rwa [hmap, Function.update_of_ne hqk] at hq
  · intro q r hq
    by_cases hqk : q = key
    · subst hqk
      rw [hmap, Function.update_self] at hq
      cases hq
      exact hrow'
    · rw [hmap, Function.update_of_ne hqk] at hq
      exact h.rows q r hq
  · have htotal := escrowTotal_replace (h.live hrow) hrow hkeys hmap
    have hsolvent := h.solvent
    rw [hquiet.received]
    omega

/-- Deleting a live row and its node moves the row's escrow out. -/
theorem Inv.deleted (h : Inv base w) (hrow : w.registry.registrations key = some row)
    (hmap : w'.registry.registrations =
      Function.update w.registry.registrations key none)
    (hlist : w'.registry.registrationLl = w.registry.registrationLl.remove key)
    (hstx : w'.stx currentContract + row.prepaidUstx = w.stx currentContract)
    (hquiet : Quiet w w') : Inv base w' := by
  have hkeys := liveKeys_delete hquiet.creations hmap
  have hold : ∀ q, q ≠ key →
      w'.registry.registrations q = w.registry.registrations q := fun q hq => by
    rw [hmap, Function.update_of_ne hq]
  refine ⟨?_, ?_, ?_, ?_, h.index_of_quiet hquiet, h.indexed_of_quiet hquiet⟩
  · rw [hlist, hkeys]
    exact h.list.remove key
  · intro q hq
    have hqk : q ≠ key := by
      rintro rfl
      simp [hmap] at hq
    rw [hold q hqk] at hq
    rw [hquiet.creations]
    exact h.created q hq
  · intro q r hq
    have hqk : q ≠ key := by
      rintro rfl
      simp [hmap] at hq
    rw [hold q hqk] at hq
    exact h.rows q r hq
  · have htotal := escrowTotal_delete (h.live hrow) hrow hkeys hmap
    have hsolvent := h.solvent
    rw [hquiet.received]
    omega

theorem Inv.registered (h : Inv base w) (hrow : RowOk key row)
    (hfree : w.registry.registrations key = none) (start : Nat) :
    Inv base (w.registered key row start) := by
  have hlog : creations (w.registered key row start).log = creations w.log ++ [key] := by
    simp [World.registered, escrow_log, Event.created]
  have hindexings := (escrowOnly_registered key row w start).indexings_eq
  have hreceived : received (w.registered key row start).log = received w.log := by
    simp [World.registered, escrow_log, Event.donation]
  have hmap := registered_registrations key row w start
  have hkeys := liveKeys_insert hfree hlog hmap
  have hnew : key ∉ liveKeys w := by simp [h.mem_liveKeys, hfree]
  refine ⟨?_, ?_, ?_, ?_, ?_, ?_⟩
  · rw [hkeys]
    simpa [World.registered] using h.list.append hnew
  · intro q hq
    rw [hlog]
    by_cases hqk : q = key
    · simp [hqk]
    · rw [hmap, Function.update_of_ne hqk] at hq
      simp [h.created q hq]
  · intro q r hq
    by_cases hqk : q = key
    · subst hqk
      rw [hmap, Function.update_self] at hq
      cases hq
      exact hrow
    · rw [hmap, Function.update_of_ne hqk] at hq
      exact h.rows q r hq
  · have hstx : (w.registered key row start).stx currentContract =
        w.stx currentContract + row.prepaidUstx := by
      simp [World.registered, escrow_stx]
    rw [escrowTotal_insert hfree hkeys hmap, hstx, hreceived, h.solvent]
    omega
  · rw [indexedKeys, hindexings]
    simpa [World.registered, indexedKeys] using h.index
  · rw [hindexings]
    simpa [World.registered] using h.indexed

theorem Inv.toppedUp (h : Inv base w) (hrow : w.registry.registrations key = some row)
    (numClaims escrowed : Nat) : Inv base (w.toppedUp key row numClaims escrowed) := by
  have hok := h.rows key row hrow
  refine h.replaced
    { row with
      remainingClaims := row.remainingClaims + numClaims
      prepaidUstx := row.prepaidUstx + escrowed }
    hrow ⟨by have := hok.remaining; simp; omega, hok.sponsor, hok.signerManager⟩ ?_ ?_ ?_ ?_
  · exact toppedUp_registrations key row w numClaims escrowed
  · simp [World.toppedUp]
  · simp [World.toppedUp, escrow_stx]
    omega
  · constructor <;> simp [World.toppedUp, escrow_log, Event.created, Event.indexing,
      Event.donation]

theorem Inv.cancelled (h : Inv base w) (hrow : w.registry.registrations key = some row) :
    Inv base (w.cancelled key row) := by
  have hle := h.prepaid_le hrow
  refine h.deleted hrow ?_ ?_ ?_ ?_
  · exact cancelled_registrations key row w
  · simp [World.cancelled]
  · simp [World.cancelled, refund_stx _ _ _ (h.rows key row hrow).sponsor]
    omega
  · constructor <;> simp [World.cancelled, refund_log, Event.created, Event.indexing,
      Event.donation]

theorem advanced_quiet (cycle : Nat) : Quiet w (w.advanced key row cycle) := by
  constructor <;> simp [World.advanced, burnEscrow_log]

theorem Inv.advanced (h : Inv base w) (hrow : w.registry.registrations key = some row)
    (cycle : Nat) : Inv base (w.advanced key row cycle) := by
  have hok := h.rows key row hrow
  have hle := h.prepaid_le hrow
  have hburn := burnAmount_le row
  by_cases hlast : row.remainingClaims ≤ 1
  · have hall : burnAmount row = row.prepaidUstx := by simp [burnAmount, hlast]
    refine h.deleted hrow ?_ ?_ ?_ (advanced_quiet cycle)
    · simp [World.advanced, consume, hlast]
    · simp [World.advanced, hlast]
    · simp only [World.advanced, burnEscrow_stx, World.onRegistry_stx]
      omega
  · refine h.replaced
      { row with
        remainingClaims := row.remainingClaims - 1
        prepaidUstx := row.prepaidUstx - burnAmount row
        nextClaimDistribution := scheduleNext row.nextClaimDistribution
          row.oneClaimPerRewardCycle cycle }
      hrow ?_ ?_ ?_ ?_ (advanced_quiet cycle)
    · exact ⟨by simp only; omega, hok.sponsor, hok.signerManager⟩
    · simp [World.advanced, consume, hlast]
    · simp [World.advanced, hlast]
    · simp only [World.advanced, burnEscrow_stx, World.onRegistry_stx]
      omega

theorem Inv.claimed (h : Inv base w) (hrow : w.registry.registrations key = some row)
    (cycle : Nat) (covered : Option Nat) (earned : Nat) (claimError stored : Option Nat) :
    Inv base (w.claimed key row cycle covered earned claimError stored) := by
  refine ((h.advanced hrow cycle).emit ?_ ?_ ?_).emit ?_ ?_ ?_ <;> rfl

/-- Indexing a withdrawal leaves the registrations and the escrow alone. -/
theorem Inv.indexedAt (h : Inv base w) {key : WithdrawalKey} (height : Nat)
    (hfree : w.registry.pendingWithdrawals key = none) :
    Inv base (w.indexedAt key height) := by
  have hkeys : liveKeys (w.indexedAt key height) = liveKeys w := by
    simp [liveKeys, World.indexedAt, Event.created]
  have hindexings : indexings (w.indexedAt key height).log = indexings w.log ++ [key] := by
    simp [World.indexedAt, Event.indexing]
  have hwkeys : indexedKeys (w.indexedAt key height) = indexedKeys w ++ [key] := by
    rw [indexedKeys, hindexings]
    refine insertionOrder_concat (by simp [hfree]) (by simp [World.indexedAt])
      fun q hq => ?_
    simp [World.indexedAt, hq]
  have hnew : key ∉ indexedKeys w := by simp [h.mem_indexedKeys, hfree]
  refine ⟨?_, ?_, h.rows, ?_, ?_, ?_⟩
  · rw [hkeys]
    exact h.list
  · simpa [World.indexedAt, Event.created] using h.created
  · have htotal : escrowTotal (w.indexedAt key height) = escrowTotal w :=
      escrowTotal_congr hkeys rfl
    rw [htotal]
    simpa [World.indexedAt, Event.donation] using h.solvent
  · rw [hwkeys]
    exact h.index.append hnew
  · intro q hq
    rw [hindexings]
    by_cases hqk : q = key
    · simp [hqk]
    · have hold : (w.registry.pendingWithdrawals q).isSome = true := by
        simpa [World.indexedAt, hqk] using hq
      simp [h.indexed q hold]

/-- Dropping an indexed withdrawal leaves the registrations and the escrow
alone. -/
theorem Inv.unindexed (h : Inv base w) (key : WithdrawalKey) :
    Inv base (w.unindexed key) := by
  have hwkeys : indexedKeys (w.unindexed key) = (indexedKeys w).erase key := by
    rw [indexedKeys]
    refine insertionOrder_erase (by simp [World.unindexed]) fun q hq => ?_
    simp [World.unindexed, hq]
  refine ⟨h.list, h.created, h.rows, h.solvent, ?_, ?_⟩
  · rw [hwkeys]
    exact h.index.remove key
  · intro q hq
    have hqk : q ≠ key := by
      rintro rfl
      simp [World.unindexed] at hq
    exact h.indexed q (by simpa [World.unindexed, hqk] using hq)

theorem Tracked.inv {views : Views σ} {stored : Option Nat} (h : Tracked views key w stored w')
    (hinv : Inv base w) : Inv base w' := by
  cases h with
  | none => exact hinv
  | known => exact hinv
  | fresh id _ hfree => exact hinv.indexedAt _ hfree

theorem Tracked.registrations {views : Views σ} {stored : Option Nat}
    (h : Tracked views key w stored w') :
    w'.registry.registrations = w.registry.registrations := by
  cases h <;> rfl

/-- **Every step keeps the invariant.** -/
theorem Change.inv {views : Views σ} {R : σ → σ → Prop} {l : Label}
    (h : Change views R l w w') (hinv : Inv base w) : Inv base w' := by
  cases h with
  | outside h => exact h.inv hinv
  | register w key row start hrow hfree hstart => exact hinv.registered hrow hfree start
  | addClaims w key row numClaims escrowed hrow => exact hinv.toppedUp hrow numClaims escrowed
  | cancel w key row sender hrow hsender => exact hinv.cancelled hrow
  | claim w w₁ key row cycle covered earned claimError stored htracked _ hrow hdue =>
      refine (htracked.inv hinv).claimed ?_ cycle covered earned claimError stored
      rw [htracked.registrations, hrow]
  | settle w w₁ key accepted hindexed hstatus hcall =>
      have hcalled := hcall.inv (hinv.emit rfl rfl rfl)
      exact (hcalled.unindexed key).emit rfl rfl rfl
  | prune w key hindexed hstatus => exact (hinv.unindexed key).emit rfl rfl rfl

/-- The invariant holds along every run of the abstract machine. -/
theorem Inv.runs {views : Views σ} {R : σ → σ → Prop} {allowed : Label → Prop}
    (hinv : Inv base w) (h : Runs (Change views R) allowed w w') : Inv base w' :=
  h.invariant (Inv base) (fun _ _ _ _ hstep hs => hstep.inv hs) hinv

end Preservation

end Spox.RewardClaims
