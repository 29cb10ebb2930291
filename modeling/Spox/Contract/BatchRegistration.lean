import Spox.Contract.Batches

/-!
# Reward claim registry — registering in a batch

`register-many-for-claims` swallows the errors of its entries, but not an
overflow, which aborts the whole transaction. `noOverflow` follows the batch
through its entries, with the stakers registered so far and what the sender
has left, and says whether one of them overflows: an entry that passes the
checks of `register-for-claims-impl` and whose fee does not fit, or which is
paid for and whose start cycle is past half the range. The batch keeps its
promise exactly if none does (`batch_registration_best_effort`).
-/

namespace Spox.RewardClaims

open Spox.Lib

variable {σ : Type} {views : Views σ} {R : σ → σ → Prop} {base : Nat} {w w' s t : World σ}

/-! ## The condition -/

/-- Whether an entry passes the checks that come before its fee, when the
stakers in `taken` have been registered since `w`. -/
def admits (views : Views σ) (w : World σ) (signer : Principal) (taken : List Principal)
    (entry : RegistrationEntry) : Bool :=
  match getPosition views w.ext entry.staker with
  | some position =>
      decide (0 < entry.numClaims) && decide (entry.numClaims ≤ maxClaimInstallments) &&
        decide (w.registry.registrations ⟨entry.staker, signer⟩ = none) &&
        decide (entry.staker ∉ taken) && decide (signer = position.signer) &&
        decide (position.firstRewardCycle ≤ entry.startRewardCycle)
  | none => false

/-- No entry of a batch overflows, when the stakers in `taken` have been
registered since `w` and the sender has `balance` left. -/
def noOverflow (views : Views σ) (ctx : Ctx) (w : World σ) (signer : Principal) :
    List Principal → Nat → List RegistrationEntry → Bool
  | _, _, [] => true
  | taken, balance, entry :: entries =>
      let fee := registrationFee w.registry ctx.txSender entry.numClaims
      if admits views w signer taken entry then
        if Tx.uintBound ≤ fee then false
        else if balance < fee then noOverflow views ctx w signer taken balance entries
        else if Tx.uintBound ≤ 2 * entry.startRewardCycle then false
        else noOverflow views ctx w signer (entry.staker :: taken) (balance - fee) entries
      else noOverflow views ctx w signer taken balance entries

section NoOverflow

variable {ctx : Ctx} {signer : Principal} {taken : List Principal} {balance : Nat}
  {entry : RegistrationEntry} {entries : List RegistrationEntry}

theorem noOverflow_refused (hrefused : admits views w signer taken entry = true →
      registrationFee w.registry ctx.txSender entry.numClaims < Tx.uintBound ∧
        balance < registrationFee w.registry ctx.txSender entry.numClaims) :
    noOverflow views ctx w signer taken balance (entry :: entries) =
      noOverflow views ctx w signer taken balance entries := by
  rw [noOverflow]
  by_cases hadmits : admits views w signer taken entry = true
  · obtain ⟨hfits, hpoor⟩ := hrefused hadmits
    simp only [if_pos hadmits, if_neg (Nat.not_le_of_lt hfits), if_pos hpoor]
  · simp only [if_neg hadmits]

theorem noOverflow_overflow (hadmits : admits views w signer taken entry = true)
    (hover : Tx.uintBound ≤ registrationFee w.registry ctx.txSender entry.numClaims ∨
      registrationFee w.registry ctx.txSender entry.numClaims ≤ balance ∧
        Tx.uintBound ≤ 2 * entry.startRewardCycle) :
    noOverflow views ctx w signer taken balance (entry :: entries) = false := by
  rw [noOverflow]
  by_cases hfee : Tx.uintBound ≤ registrationFee w.registry ctx.txSender entry.numClaims
  · simp only [if_pos hadmits, if_pos hfee]
  · obtain ⟨hpaid, hlate⟩ := hover.resolve_left hfee
    simp only [if_pos hadmits, if_neg hfee, if_neg (Nat.not_lt_of_le hpaid), if_pos hlate]

theorem noOverflow_registered (hadmits : admits views w signer taken entry = true)
    (hpaid : registrationFee w.registry ctx.txSender entry.numClaims ≤ balance)
    (hfits : registrationFee w.registry ctx.txSender entry.numClaims < Tx.uintBound)
    (hstart : 2 * entry.startRewardCycle < Tx.uintBound) :
    noOverflow views ctx w signer taken balance (entry :: entries) =
      noOverflow views ctx w signer (entry.staker :: taken)
        (balance - registrationFee w.registry ctx.txSender entry.numClaims) entries := by
  rw [noOverflow]
  simp only [if_pos hadmits, if_neg (Nat.not_le_of_lt hfits), if_neg (Nat.not_lt_of_le hpaid),
    if_neg (Nat.not_le_of_lt hstart)]

end NoOverflow

/-! ## One entry -/

/-- The row a registration creates. -/
def newRow (ctx : Ctx) (r : Registry) (position : Position) (entry : RegistrationEntry) :
    Registration where
  bondIndex := position.bondIndex
  remainingClaims := entry.numClaims
  oneClaimPerRewardCycle := entry.oneClaimPerRewardCycle
  nextClaimDistribution := scheduleStart entry.startRewardCycle entry.oneClaimPerRewardCycle
  prepaidUstx := registrationFee r ctx.txSender entry.numClaims
  sponsor := ctx.txSender

/-- The fee is taken if the sender has it, and computing it may overflow. -/
theorem escrowRegistrationFee_exact (ctx : Ctx) (numClaims : Nat) :
    Tx.wp (escrowRegistrationFee ctx numClaims) w
      (fun amount w' => amount = registrationFee w.registry ctx.txSender numClaims ∧
        amount < Tx.uintBound ∧ amount ≤ w.stx ctx.txSender ∧
        w' = w.escrow amount ctx.txSender)
      (fun _ w' => w' = w ∧ registrationFee w.registry ctx.txSender numClaims < Tx.uintBound ∧
        w.stx ctx.txSender < registrationFee w.registry ctx.txSender numClaims)
      (Tx.uintBound ≤ registrationFee w.registry ctx.txSender numClaims) := by
  have hpay : ∀ amount, Tx.wp
      (whenPositive amount (stxTransfer ctx.txSender amount ctx.txSender currentContract)) w
      (fun _ w' => amount ≤ w.stx ctx.txSender ∧ w' = w.escrow amount ctx.txSender)
      (fun _ w' => w' = w ∧ w.stx ctx.txSender < amount) False := by
    intro amount
    by_cases hpos : 0 < amount
    · simp only [whenPositive, if_pos hpos, World.escrow, stxTransfer, Tx.wp_bind, Tx.wp_asserts,
        Tx.wp_get, Tx.wp_modify]
      refine ⟨fun _ => ⟨fun _ => ⟨fun _ => ⟨fun hle => ⟨hle, trivial⟩,
        fun hnot => ⟨trivial, Nat.lt_of_not_le hnot⟩⟩, fun hnot => absurd trivial hnot⟩,
        fun hnot => absurd ctx.txSender_ne hnot⟩, fun hnot => absurd hpos hnot⟩
    · have hzero : amount = 0 := by omega
      subst hzero
      exact ⟨Nat.zero_le _, rfl⟩
  simp only [escrowRegistrationFee, registrationFee, Tx.wp_bind, Tx.wp_get]
  by_cases hadmin : isAdmin w.registry ctx.txSender = true
  · simp only [if_pos hadmin, Tx.wp_pure]
    have hbound : 0 < Tx.uintBound := by decide
    exact (hpay 0).mono (fun _ _ h => ⟨trivial, hbound, h⟩)
      (fun _ _ h => ⟨h.1, hbound, h.2⟩) False.elim
  · simp only [if_neg hadmin, Tx.wp_mul]
    refine ⟨fun hbound => ?_, id⟩
    exact (hpay _).mono (fun _ _ h => ⟨rfl, hbound, h.1, h.2⟩)
      (fun _ _ h => ⟨h.1, hbound, h.2⟩) False.elim

theorem initialNextClaimDistribution_exact (start : Nat) (oneClaim : Bool) :
    Tx.wp (initialNextClaimDistribution start oneClaim) w
      (fun n w' => n = scheduleStart start oneClaim ∧ w' = w ∧ 2 * start < Tx.uintBound)
      (fun _ _ => False) (Tx.uintBound ≤ 2 * start) := by
  have heven : 2 * start < Tx.uintBound → 2 * start + 1 < Tx.uintBound := by
    have hbound : Tx.uintBound = 2 * 2 ^ 127 := by decide
    omega
  cases oneClaim with
  | true =>
      simp [initialNextClaimDistribution, scheduleStart, claimStep]
      omega
  | false => simp [initialNextClaimDistribution, scheduleStart, claimStep]

variable (views) in
/-- **An entry, exactly**: it is registered, refused without a trace, or
aborts, each on its own condition. -/
theorem registerForClaimsImpl_exact (ctx : Ctx) (sm : ContractId) (entry : RegistrationEntry) :
    Tx.wp (registerForClaimsImpl views ctx entry.staker (.contract sm) entry.startRewardCycle
        entry.oneClaimPerRewardCycle entry.numClaims) w
      (fun n w' => n = entry.numClaims ∧ admits views w (.contract sm) [] entry = true ∧
        registrationFee w.registry ctx.txSender entry.numClaims < Tx.uintBound ∧
        registrationFee w.registry ctx.txSender entry.numClaims ≤ w.stx ctx.txSender ∧
        2 * entry.startRewardCycle < Tx.uintBound ∧
        ∃ position, getPosition views w.ext entry.staker = some position ∧
          w' = w.registered ⟨entry.staker, .contract sm⟩
            (newRow ctx w.registry position entry) entry.startRewardCycle)
      (fun _ w' => w' = w ∧ (admits views w (.contract sm) [] entry = false ∨
        registrationFee w.registry ctx.txSender entry.numClaims < Tx.uintBound ∧
        w.stx ctx.txSender < registrationFee w.registry ctx.txSender entry.numClaims))
      (admits views w (.contract sm) [] entry = true ∧
        (Tx.uintBound ≤ registrationFee w.registry ctx.txSender entry.numClaims ∨
          registrationFee w.registry ctx.txSender entry.numClaims ≤ w.stx ctx.txSender ∧
          Tx.uintBound ≤ 2 * entry.startRewardCycle)) := by
  simp only [registerForClaimsImpl, Tx.wp_bind, Tx.wp_get, Tx.wp_unwrap, Tx.wp_asserts]
  cases hposition : getPosition views w.ext entry.staker with
  | none =>
      refine ⟨fun position h => (Option.some_ne_none position h.symm).elim,
        fun _ => ⟨trivial, .inl ?_⟩⟩
      simp only [admits, hposition]
  | some position =>
      have hadmits : admits views w (.contract sm) [] entry =
          (decide (0 < entry.numClaims) && decide (entry.numClaims ≤ maxClaimInstallments) &&
            decide (w.registry.registrations ⟨entry.staker, .contract sm⟩ = none) &&
            decide (Principal.contract sm = position.signer) &&
            decide (position.firstRewardCycle ≤ entry.startRewardCycle)) := by
        simp only [admits, hposition, List.not_mem_nil, not_false_eq_true, decide_true,
          Bool.and_true]
      refine ⟨fun position' h => ?_, fun h => (Option.some_ne_none position h).elim⟩
      cases h
      refine ⟨fun hpos => ⟨fun hmax => ⟨fun hfree => ⟨fun hsigner => ⟨fun hfirst => ?_, ?_⟩,
        ?_⟩, ?_⟩, ?_⟩, ?_⟩
      · have hall : admits views w (.contract sm) [] entry = true := by
          rw [hadmits, decide_eq_true hpos, decide_eq_true hmax, decide_eq_true hfree,
            decide_eq_true hsigner, decide_eq_true hfirst]
          rfl
        refine (escrowRegistrationFee_exact ctx entry.numClaims).mono ?_
          (fun _ _ h => ⟨h.1, .inr h.2⟩) (fun h => ⟨hall, .inl h⟩)
        intro escrowed _ hpost
        obtain ⟨rfl, hfits, hpaid, rfl⟩ := hpost
        refine (initialNextClaimDistribution_exact entry.startRewardCycle
          entry.oneClaimPerRewardCycle).mono ?_ (fun _ _ h => h.elim)
          (fun h => ⟨hall, .inr ⟨hpaid, h⟩⟩)
        intro next _ hpost
        obtain ⟨rfl, rfl, hstart⟩ := hpost
        exact ⟨rfl, hall, hfits, hpaid, hstart, position, rfl, rfl⟩
      all_goals
        intro hnot
        refine ⟨trivial, .inl ?_⟩
        rw [hadmits]
        simp [hnot]

section Entry

variable (views) (ctx : Ctx) (sm : ContractId) (entry : RegistrationEntry)

/-- An entry is registered if it passes the checks and nothing overflows. -/
theorem run_entry_registered (hadmits : admits views w (.contract sm) [] entry = true)
    (hpaid : registrationFee w.registry ctx.txSender entry.numClaims ≤ w.stx ctx.txSender)
    (hfits : registrationFee w.registry ctx.txSender entry.numClaims < Tx.uintBound)
    (hstart : 2 * entry.startRewardCycle < Tx.uintBound) :
    ∃ position, getPosition views w.ext entry.staker = some position ∧
      registerForClaimsImpl views ctx entry.staker (.contract sm) entry.startRewardCycle
        entry.oneClaimPerRewardCycle entry.numClaims w =
      .ok entry.numClaims (w.registered ⟨entry.staker, .contract sm⟩
        (newRow ctx w.registry position entry) entry.startRewardCycle) := by
  have hexact := registerForClaimsImpl_exact (w := w) views ctx sm entry
  cases hrun : registerForClaimsImpl views ctx entry.staker (.contract sm)
      entry.startRewardCycle entry.oneClaimPerRewardCycle entry.numClaims w with
  | ok n w' =>
      obtain ⟨rfl, -, -, -, -, position, hposition, rfl⟩ := hexact.of_ok hrun
      exact ⟨position, hposition, rfl⟩
  | err code w' =>
      obtain ⟨-, hnot | ⟨-, hpoor⟩⟩ := hexact.of_err hrun
      · rw [hadmits] at hnot
        cases hnot
      · omega
  | abort =>
      obtain ⟨-, hover | ⟨-, hover⟩⟩ := hexact.of_abort hrun
      · omega
      · omega

/-- An entry is refused if a check fails or the sender cannot pay. -/
theorem run_entry_refused (hrefused : admits views w (.contract sm) [] entry = true →
      registrationFee w.registry ctx.txSender entry.numClaims < Tx.uintBound ∧
      w.stx ctx.txSender < registrationFee w.registry ctx.txSender entry.numClaims) :
    ∃ code, registerForClaimsImpl views ctx entry.staker (.contract sm)
        entry.startRewardCycle entry.oneClaimPerRewardCycle entry.numClaims w = .err code w := by
  have hexact := registerForClaimsImpl_exact (w := w) views ctx sm entry
  cases hrun : registerForClaimsImpl views ctx entry.staker (.contract sm)
      entry.startRewardCycle entry.oneClaimPerRewardCycle entry.numClaims w with
  | ok n w' =>
      obtain ⟨-, hadmits, -, hpaid, -⟩ := hexact.of_ok hrun
      have hpoor := (hrefused hadmits).2
      omega
  | err code w' =>
      obtain ⟨rfl, -⟩ := hexact.of_err hrun
      exact ⟨code, rfl⟩
  | abort =>
      obtain ⟨hadmits, hover⟩ := hexact.of_abort hrun
      obtain ⟨hfits, hpoor⟩ := hrefused hadmits
      rcases hover with hfee | ⟨hpaid, -⟩
      · omega
      · omega

/-- An entry aborts if it passes the checks and overflows. -/
theorem run_entry_overflow (hadmits : admits views w (.contract sm) [] entry = true)
    (hover : Tx.uintBound ≤ registrationFee w.registry ctx.txSender entry.numClaims ∨
      registrationFee w.registry ctx.txSender entry.numClaims ≤ w.stx ctx.txSender ∧
        Tx.uintBound ≤ 2 * entry.startRewardCycle) :
    registerForClaimsImpl views ctx entry.staker (.contract sm) entry.startRewardCycle
      entry.oneClaimPerRewardCycle entry.numClaims w = .abort := by
  have hexact := registerForClaimsImpl_exact (w := w) views ctx sm entry
  cases hrun : registerForClaimsImpl views ctx entry.staker (.contract sm)
      entry.startRewardCycle entry.oneClaimPerRewardCycle entry.numClaims w with
  | ok n w' =>
      obtain ⟨-, -, hfits, -, hstart, -⟩ := hexact.of_ok hrun
      rcases hover with hfee | ⟨-, hlate⟩
      · omega
      · omega
  | err code w' =>
      obtain ⟨-, hnot | ⟨hfits, hpoor⟩⟩ := hexact.of_err hrun
      · rw [hadmits] at hnot
        cases hnot
      · rcases hover with hfee | ⟨hpaid, -⟩
        · omega
        · omega
  | abort => rfl

end Entry

/-! ## Partway through a batch -/

/-- The single call an entry stands for. -/
def RegistrationEntry.call (sm : ContractId) (entry : RegistrationEntry) : Call :=
  .registerForClaims entry.staker sm entry.startRewardCycle entry.oneClaimPerRewardCycle
    entry.numClaims

theorem escrow_congr (amount : Nat) (sender : Principal) (h : t.stx = s.stx) :
    (t.escrow amount sender).stx = (s.escrow amount sender).stx := by
  unfold World.escrow
  split
  · simp [World.move, h]
  · exact h

theorem escrow_sender (amount : Nat) {sender : Principal} (h : sender ≠ currentContract) :
    (w.escrow amount sender).stx sender = w.stx sender - amount := by
  unfold World.escrow
  split
  · simp [World.move, h]
  · omega

/-- Partway through a batch that started in `w`: the stakers in `taken` have
been registered and the sender has `balance` left. The batch is in `s`, where
it has logged the entries it skipped; the sequence of single calls is in `t`. -/
structure Partway (ctx : Ctx) (signer : Principal) (w : World σ) (taken : List Principal)
    (balance : Nat) (s t : World σ) : Prop where
  free : ∀ staker, s.registry.registrations ⟨staker, signer⟩ = none ↔
    w.registry.registrations ⟨staker, signer⟩ = none ∧ staker ∉ taken
  admins : s.registry.admins = w.registry.admins
  feePerClaim : s.registry.feePerClaim = w.registry.feePerClaim
  ext : s.ext = w.ext
  balance : s.stx ctx.txSender = balance
  idle : s.registry.signerManagerCallActive = false
  registry : t.registry = s.registry
  stx : t.stx = s.stx
  ext' : t.ext = s.ext

namespace Partway

variable {ctx : Ctx} {sm : ContractId} {taken : List Principal} {balance : Nat}

theorem admits (h : Partway ctx (.contract sm) w taken balance s t)
    (entry : RegistrationEntry) :
    RewardClaims.admits views s (.contract sm) [] entry =
      RewardClaims.admits views w (.contract sm) taken entry := by
  have hfree : decide (s.registry.registrations ⟨entry.staker, .contract sm⟩ = none) =
      (decide (w.registry.registrations ⟨entry.staker, .contract sm⟩ = none) &&
        decide (entry.staker ∉ taken)) := by
    rw [← Bool.decide_and]
    exact decide_eq_decide.mpr (h.free entry.staker)
  simp only [RewardClaims.admits, h.ext]
  cases getPosition views w.ext entry.staker with
  | none => rfl
  | some position =>
      simp only [hfree, List.not_mem_nil, not_false_eq_true, decide_true, Bool.and_true,
        Bool.and_assoc]

theorem admits' (h : Partway ctx (.contract sm) w taken balance s t)
    (entry : RegistrationEntry) :
    RewardClaims.admits views t (.contract sm) [] entry =
      RewardClaims.admits views w (.contract sm) taken entry := by
  rw [← h.admits entry]
  simp only [RewardClaims.admits, h.registry, h.ext']

theorem fee (h : Partway ctx (.contract sm) w taken balance s t) (numClaims : Nat) :
    registrationFee s.registry ctx.txSender numClaims =
      registrationFee w.registry ctx.txSender numClaims := by
  unfold registrationFee isAdmin
  rw [h.admins, h.feePerClaim]

theorem idle' (h : Partway ctx (.contract sm) w taken balance s t) :
    t.registry.signerManagerCallActive = false := by
  rw [h.registry]
  exact h.idle

theorem skipped (h : Partway ctx (.contract sm) w taken balance s t) (es : List Event) :
    Partway ctx (.contract sm) w taken balance (s.emit es) t :=
  { h with }

theorem registered (h : Partway ctx (.contract sm) w taken balance s t)
    (entry : RegistrationEntry) (position : Position) :
    Partway ctx (.contract sm) w (entry.staker :: taken)
      (balance - registrationFee w.registry ctx.txSender entry.numClaims)
      (s.registered ⟨entry.staker, .contract sm⟩ (newRow ctx s.registry position entry)
        entry.startRewardCycle)
      (t.registered ⟨entry.staker, .contract sm⟩ (newRow ctx t.registry position entry)
        entry.startRewardCycle) := by
  have hrow : newRow ctx t.registry position entry = newRow ctx s.registry position entry := by
    rw [h.registry]
  rw [hrow]
  refine ⟨?_, ?_, ?_, ?_, ?_, ?_, ?_, ?_, ?_⟩
  · intro staker
    have hkeys : (⟨staker, .contract sm⟩ : RegistrationKey) = ⟨entry.staker, .contract sm⟩ ↔
        staker = entry.staker := by simp
    simp only [World.registered, World.emit_registry, World.onRegistry_registry,
      escrow_registry, Function.update_apply, hkeys, List.mem_cons, not_or]
    by_cases hsame : staker = entry.staker
    · simp [hsame]
    · simp [hsame, h.free staker]
  · simpa [World.registered] using h.admins
  · simpa [World.registered] using h.feePerClaim
  · simpa [World.registered] using h.ext
  · simp only [World.registered, newRow, World.emit_stx, World.onRegistry_stx, h.fee]
    rw [escrow_sender _ ctx.txSender_ne, h.balance]
  · simpa [World.registered] using h.idle
  · simp [World.registered, h.registry]
  · exact escrow_congr _ _ h.stx
  · simpa [World.registered] using h.ext'

section Step

variable (code : Code σ) (depth : Nat) {entry : RegistrationEntry}

/-- An entry that is registered. -/
theorem step_registered (h : Partway ctx (.contract sm) w taken balance s t)
    (hadmits : RewardClaims.admits views w (.contract sm) taken entry = true)
    (hpaid : registrationFee w.registry ctx.txSender entry.numClaims ≤ balance)
    (hfits : registrationFee w.registry ctx.txSender entry.numClaims < Tx.uintBound)
    (hstart : 2 * entry.startRewardCycle < Tx.uintBound) (n : Nat) :
    ∃ s' t', countRegistrations views ctx (.contract sm) n entry s = .ok (n + 1) s' ∧
      exec views code (depth + 1) ctx (entry.call sm) t = .ok (.uint entry.numClaims) t' ∧
      Partway ctx (.contract sm) w (entry.staker :: taken)
        (balance - registrationFee w.registry ctx.txSender entry.numClaims) s' t' := by
  have hstx : t.stx ctx.txSender = balance := by rw [h.stx, h.balance]
  have hfee : registrationFee t.registry ctx.txSender entry.numClaims =
      registrationFee w.registry ctx.txSender entry.numClaims := by rw [h.registry, h.fee]
  obtain ⟨position, hposition, hs⟩ := run_entry_registered views ctx sm entry (w := s)
    ((h.admits entry).trans hadmits) (by rw [h.fee, h.balance]; exact hpaid)
    (by rw [h.fee]; exact hfits) hstart
  obtain ⟨position', hposition', ht⟩ := run_entry_registered views ctx sm entry (w := t)
    ((h.admits' entry).trans hadmits) (by rw [hfee, hstx]; exact hpaid)
    (by rw [hfee]; exact hfits) hstart
  rw [h.ext', hposition] at hposition'
  cases hposition'
  refine ⟨_, _, ?_, run_public_ok .uint h.idle' ht, h.registered entry position⟩
  simp [countRegistrations, Tx.run_bind, Tx.attempt, hs]

/-- An entry that is refused. -/
theorem step_refused (h : Partway ctx (.contract sm) w taken balance s t)
    (hrefused : RewardClaims.admits views w (.contract sm) taken entry = true →
      registrationFee w.registry ctx.txSender entry.numClaims < Tx.uintBound ∧
        balance < registrationFee w.registry ctx.txSender entry.numClaims) (n : Nat) :
    ∃ s' error, countRegistrations views ctx (.contract sm) n entry s = .ok n s' ∧
      exec views code (depth + 1) ctx (entry.call sm) t = .err error t ∧
      Partway ctx (.contract sm) w taken balance s' t := by
  obtain ⟨error, hs⟩ := run_entry_refused views ctx sm entry (w := s)
    (by rw [h.admits, h.fee, h.balance]; exact hrefused)
  obtain ⟨error', ht⟩ := run_entry_refused views ctx sm entry (w := t)
    (by rw [h.admits', h.registry, h.fee, h.stx, h.balance]; exact hrefused)
  refine ⟨_, error', ?_, run_public_err .uint h.idle' ht, h.skipped
    [.registerForClaimsSkipped ⟨entry.staker, .contract sm⟩ entry.startRewardCycle
      entry.oneClaimPerRewardCycle entry.numClaims error]⟩
  simp [countRegistrations, Tx.run_bind, Tx.attempt, hs, print]

/-- An entry that overflows takes the batch with it. -/
theorem step_overflow (h : Partway ctx (.contract sm) w taken balance s t)
    (hadmits : RewardClaims.admits views w (.contract sm) taken entry = true)
    (hover : Tx.uintBound ≤ registrationFee w.registry ctx.txSender entry.numClaims ∨
      registrationFee w.registry ctx.txSender entry.numClaims ≤ balance ∧
        Tx.uintBound ≤ 2 * entry.startRewardCycle) (n : Nat) :
    countRegistrations views ctx (.contract sm) n entry s = .abort := by
  have hs := run_entry_overflow views ctx sm entry (w := s) ((h.admits entry).trans hadmits)
    (by rw [h.fee, h.balance]; exact hover)
  simp [countRegistrations, Tx.run_bind, Tx.attempt, hs]

end Step

variable (views) in
/-- **The batch from here on.** If no entry overflows it does what the single
calls do; otherwise it aborts. -/
theorem run (code : Code σ) (depth : Nat) (entries : List RegistrationEntry)
    (h : Partway ctx (.contract sm) w taken balance s t) (n : Nat) :
    (noOverflow views ctx w (.contract sm) taken balance entries = true →
      ∃ s', entries.foldlM (countRegistrations views ctx (.contract sm)) n s =
          .ok (n + Tx.scores (fun _ => 1)
            (fun entry => exec views code (depth + 1) ctx (entry.call sm)) entries t) s' ∧
        s'.registry = (Tx.commits
          (fun entry => exec views code (depth + 1) ctx (entry.call sm)) entries t).registry ∧
        s'.stx = (Tx.commits
          (fun entry => exec views code (depth + 1) ctx (entry.call sm)) entries t).stx) ∧
    (noOverflow views ctx w (.contract sm) taken balance entries = false →
      entries.foldlM (countRegistrations views ctx (.contract sm)) n s = .abort) := by
  induction entries generalizing taken balance s t n with
  | nil =>
      refine ⟨fun _ => ⟨s, rfl, h.registry.symm, h.stx.symm⟩, fun hfalse => ?_⟩
      simp [noOverflow] at hfalse
  | cons entry entries ih =>
      rw [List.foldlM_cons, Tx.scores, Tx.commits]
      by_cases hrefused : RewardClaims.admits views w (.contract sm) taken entry = true →
        registrationFee w.registry ctx.txSender entry.numClaims < Tx.uintBound ∧
          balance < registrationFee w.registry ctx.txSender entry.numClaims
      · obtain ⟨s', error, hstep, hsingle, hpartway⟩ :=
          h.step_refused code depth hrefused n
        rw [noOverflow_refused hrefused, Tx.run_bind_ok hstep, Tx.score_of_err hsingle,
          Tx.commit_of_err hsingle, Nat.zero_add]
        exact ih hpartway n
      · obtain ⟨hadmits, hwhy⟩ := Classical.not_imp.mp hrefused
        by_cases hover : Tx.uintBound ≤ registrationFee w.registry ctx.txSender
              entry.numClaims ∨
            registrationFee w.registry ctx.txSender entry.numClaims ≤ balance ∧
              Tx.uintBound ≤ 2 * entry.startRewardCycle
        · rw [noOverflow_overflow hadmits hover]
          refine ⟨fun htrue => Bool.noConfusion htrue, fun _ => ?_⟩
          rw [Tx.run_bind, h.step_overflow hadmits hover n]
        · have hfits : registrationFee w.registry ctx.txSender entry.numClaims <
              Tx.uintBound := by omega
          have hpaid : registrationFee w.registry ctx.txSender entry.numClaims ≤ balance := by
            omega
          have hstart : 2 * entry.startRewardCycle < Tx.uintBound := by omega
          obtain ⟨s', t', hstep, hsingle, hpartway⟩ :=
            h.step_registered code depth hadmits hpaid hfits hstart n
          rw [noOverflow_registered hadmits hpaid hfits hstart, Tx.run_bind_ok hstep,
            Tx.score_of_ok hsingle, Tx.commit_of_ok hsingle, ← Nat.add_assoc]
          exact ih hpartway (n + 1)

end Partway

/-! ## The batch -/

/-- What a registration batch promises: it does what its entries do as calls
of their own, ignoring the ones that fail, and an entry that fails, wherever
the batch has come to, has changed nothing. -/
def BestEffort (views : Views σ) (code : Code σ) (depth : Nat) (ctx : Ctx) (sm : ContractId)
    (entries : List RegistrationEntry) (w : World σ) : Prop :=
  SameAsSequence views code depth ctx (.registerManyForClaims sm entries)
      (entries.map fun entry => entry.call sm) (fun _ => 1) w ∧
    ∀ entry ∈ entries, ∀ s : World σ,
      NoTrace (registerForClaimsImpl views ctx entry.staker (.contract sm)
        entry.startRewardCycle entry.oneClaimPerRewardCycle entry.numClaims) s

/-- **Registering in a batch is best-effort exactly if no entry overflows.**
The sender's balance and the registrations it meets are those the earlier
entries leave. -/
theorem batch_registration_best_effort (h : Reachable views R w) (code : Code σ) (depth : Nat)
    (ctx : Ctx) (sm : ContractId) (entries : List RegistrationEntry)
    (hlen : entries.length ≤ 50) :
    BestEffort views code (depth + 1) ctx sm entries w ↔
      noOverflow views ctx w (.contract sm) [] (w.stx ctx.txSender) entries = true := by
  have hpartway : Partway ctx (.contract sm) w [] (w.stx ctx.txSender) w w :=
    ⟨by simp, rfl, rfl, rfl, rfl, h.idle, rfl, rfl, rfl⟩
  obtain ⟨hgood, hbad⟩ := hpartway.run views code depth entries 0
  constructor
  · intro hbest
    obtain ⟨w', hbatch, -⟩ := hbest.1
    by_contra hover
    have habort : exec views code (depth + 1) ctx (.registerManyForClaims sm entries) w =
        .abort := by
      rw [exec, dispatch, withMaxLen, if_pos hlen]
      exact run_public_abort .uint h.idle (hbad (Bool.eq_false_iff.mpr hover))
    rw [habort] at hbatch
    cases hbatch
  · intro hfits
    obtain ⟨w', hfold, hregistry, hstx⟩ := hgood hfits
    refine ⟨⟨w', ?_, ?_, ?_⟩, ?_⟩
    · rw [exec, dispatch, withMaxLen, if_pos hlen, Tx.scores_map]
      rw [Nat.zero_add] at hfold
      exact run_public_ok .uint h.idle hfold
    · rw [World.calls, Tx.commits_map]
      exact hregistry
    · rw [World.calls, Tx.commits_map]
      exact hstx
    · intro entry _ s error s' herr
      exact ((registerForClaimsImpl_exact views ctx sm entry).of_err herr).1

/-- A staker named twice: the second entry is refused, the third goes on. -/
theorem batch_registration_best_effort_twice :
    BestEffort Chain.views Chain.paying 2 Chain.byStaker Chain.signerManager
      [⟨Chain.staker, 1, false, 3⟩, ⟨Chain.staker, 1, false, 3⟩, ⟨.standard 5, 2, true, 1⟩]
      (Chain.start ⟨2, 0, none⟩) :=
  (batch_registration_best_effort (R := fun _ _ => True) ⟨_, _, .refl⟩ Chain.paying 1
    Chain.byStaker Chain.signerManager _ (by decide)).mpr (by decide)

/-- A start cycle of 2^127 passes the checks and its schedule overflows: the
good entry before it is lost with the whole batch. -/
theorem overflowing_entry_voids_batch :
    Reachable Chain.views (fun _ _ => True) (Chain.start ⟨2, 0, none⟩) ∧
      exec Chain.views Chain.paying 2 Chain.byStaker
        (.registerManyForClaims Chain.signerManager
          [⟨Chain.staker, 1, false, 3⟩, ⟨.standard 5, 2 ^ 127, false, 1⟩])
        (Chain.start ⟨2, 0, none⟩) = .abort ∧
      ¬ BestEffort Chain.views Chain.paying 2 Chain.byStaker Chain.signerManager
        [⟨Chain.staker, 1, false, 3⟩, ⟨.standard 5, 2 ^ 127, false, 1⟩]
        (Chain.start ⟨2, 0, none⟩) := by
  have habort : exec Chain.views Chain.paying 2 Chain.byStaker
      (.registerManyForClaims Chain.signerManager
        [⟨Chain.staker, 1, false, 3⟩, ⟨.standard 5, 2 ^ 127, false, 1⟩])
      (Chain.start ⟨2, 0, none⟩) = .abort := rfl
  refine ⟨⟨_, _, .refl⟩, habort, fun hbest => ?_⟩
  obtain ⟨⟨w', hrun, -⟩, -⟩ := hbest
  rw [habort] at hrun
  cases hrun

end Spox.RewardClaims
