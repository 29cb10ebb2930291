import Spox.Contract.BatchRegistration
import Spox.Contract.Burns
import Spox.Webapp.RegisterForm

/-!
# Webapp — what the register form buys

The registry executes the calls of the form in a world the form has not seen:
the fee may have been changed, the registration claimed or topped up. The
post-conditions make up for it. Each call makes one STX transfer, and it is
executed in full if the transfer is within what the form shows and not at all
otherwise (`transact_limitTo`).
-/

namespace Spox.Webapp

open Spox.Lib Spox.RewardClaims

variable {σ : Type} {views : Views σ} {R : σ → σ → Prop} {base : Nat} {w s : World σ}

/-! ## Post-conditions at work -/

/-- At most `limit` micro-STX from `principal` and nothing from anybody else. -/
def limitTo (principal : Principal) (limit : Int) : List PostCondition :=
  if limit ≤ 0 then [] else [⟨principal, limit⟩]

theorem sending_transferEvents (amount : Nat) (sender recipient : Principal) :
    (transferEvents amount sender recipient).filterMap sending =
      if 0 < amount then [(sender, amount)] else [] := by
  unfold transferEvents
  split <;> rfl

/-- A single transfer is let through up to the limit. -/
theorem allow_transfer {sender recipient : Principal} {amount : Nat} {limit : Int} {e : Event}
    (he : sending e = none) :
    allow (limitTo sender limit) (transferEvents amount sender recipient ++ [e]) =
      decide ((amount : Int) ≤ limit.toNat) := by
  have hsending : (transferEvents amount sender recipient ++ [e]).filterMap sending =
      if 0 < amount then [(sender, amount)] else [] := by
    rw [List.filterMap_append, sending_transferEvents, List.filterMap_cons_none he]
    exact List.append_nil _
  unfold allow sent limitTo
  rw [hsending]
  rcases Nat.eq_zero_or_pos amount with rfl | hamount
  · by_cases hlimit : limit ≤ 0
    · simp [hlimit]
    · simp [hlimit]
      omega
  · by_cases hlimit : limit ≤ 0
    · simp [hlimit, hamount]
      omega
    · simp [hlimit, hamount]
      omega

section Request

variable (code : Code σ) (depth : Nat) (ctx : Ctx) (contract : Text)
  (conditions : List PostCondition)

@[simp] theorem transact_register (staker : Principal) (sm : ContractId) (start : Nat)
    (oneClaim : Bool) (numClaims : Nat) :
    ContractCall.transact views code depth ctx ⟨contract, "register-for-claims",
        [.principal staker, .principal (.contract sm), .uint start, .bool oneClaim,
          .uint numClaims], conditions⟩ w =
      transact views code depth ctx (.registerForClaims staker sm start oneClaim numClaims)
        conditions w := rfl

@[simp] theorem transact_add (staker signerManager : Principal) (numClaims : Nat) :
    ContractCall.transact views code depth ctx ⟨contract, "add-claims",
        [.principal staker, .principal signerManager, .uint numClaims], conditions⟩ w =
      transact views code depth ctx (.addClaims staker signerManager numClaims) conditions w :=
  rfl

@[simp] theorem transact_cancel (staker signerManager : Principal) :
    ContractCall.transact views code depth ctx ⟨contract, "cancel-registration",
        [.principal staker, .principal signerManager], conditions⟩ w =
      transact views code depth ctx (.cancelRegistration staker signerManager) conditions w :=
  rfl

end Request

section Transact

variable {code : Code σ} {depth : Nat} {ctx : Ctx} {call : Call}

/-- A call whose only transfer is `amount` from `sender` is executed as if there
were no post-conditions if that is within the limit, and not at all otherwise. -/
theorem transact_limitTo {amount : Nat} {sender : Principal} (hok : ∀ value w',
      exec views code depth ctx call w = .ok value w' → ∃ recipient e, sending e = none ∧
        w'.log = w.log ++ (transferEvents amount sender recipient ++ [e])) (limit : Int) :
    transact views code depth ctx call (limitTo sender limit) w =
      if amount ≤ limit.toNat then w.call views code depth ctx call else w := by
  unfold transact World.call Tx.commit
  cases hexec : exec views code depth ctx call w with
  | ok value w' =>
      obtain ⟨recipient, e, he, hlog⟩ := hok value w' hexec
      simp only [hlog, List.drop_left, allow_transfer he, decide_eq_true_eq, Int.ofNat_le]
  | err => simp only [ite_self]
  | abort => simp only [ite_self]

/-- A registration that goes through has escrowed the fee of the moment. -/
theorem exec_registerForClaims_ok {sm : ContractId} {entry : RegistrationEntry} {value : Value}
    {w' : World σ}
    (hexec : exec views code depth ctx (.registerForClaims entry.staker sm
      entry.startRewardCycle entry.oneClaimPerRewardCycle entry.numClaims) w =
      .ok value w') :
    ∃ position, w' = w.registered ⟨entry.staker, .contract sm⟩
      (newRow ctx w.registry position entry) entry.startRewardCycle := by
  cases depth with
  | zero => cases hexec
  | succ depth =>
      have hspec : Tx.wp (exec views code (depth + 1) ctx (.registerForClaims entry.staker sm
          entry.startRewardCycle entry.oneClaimPerRewardCycle entry.numClaims)) w
          (fun _ w' => ∃ position, w' = w.registered ⟨entry.staker, .contract sm⟩
            (newRow ctx w.registry position entry) entry.startRewardCycle)
          (fun _ _ => True) True := by
        rw [exec, Tx.wp_atomic]
        simp only [dispatch, registerForClaims, Tx.wp_bind, wp_validateNoReentrancy, Tx.wp_pure]
        refine ⟨fun _ => ?_, fun _ => trivial⟩
        refine (registerForClaimsImpl_exact views ctx sm entry).mono ?_
          (fun _ _ _ => trivial) (fun _ => trivial)
        intro n w' hpost
        obtain ⟨-, -, -, -, -, position, -, hw'⟩ := hpost
        exact ⟨position, hw'⟩
      exact hspec.of_ok hexec

/-- So has a top-up; it is for the sponsor alone. -/
theorem exec_addClaims_ok {key : RegistrationKey} {numClaims : Nat} {value : Value}
    {w' : World σ}
    (hexec : exec views code depth ctx (.addClaims key.staker key.signerManager numClaims) w =
      .ok value w') :
    ∃ row, w.registry.registrations key = some row ∧ row.sponsor = ctx.txSender ∧
      w' = w.toppedUp key row numClaims (registrationFee w.registry ctx.txSender numClaims) := by
  cases depth with
  | zero => cases hexec
  | succ depth =>
      have hspec : Tx.wp (exec views code (depth + 1) ctx
          (.addClaims key.staker key.signerManager numClaims)) w
          (fun _ w' => ∃ row, w.registry.registrations key = some row ∧
            row.sponsor = ctx.txSender ∧ w' = w.toppedUp key row numClaims
              (registrationFee w.registry ctx.txSender numClaims))
          (fun _ _ => True) True := by
        rw [exec, Tx.wp_atomic]
        simp only [dispatch, addClaims, Tx.wp_bind, wp_validateNoReentrancy, Tx.wp_get,
          Tx.wp_unwrap, Tx.wp_asserts, Tx.wp_pure]
        refine ⟨fun _ => ⟨fun _ => ⟨fun _ => ⟨fun row hrow => ⟨fun hsponsor => ?_,
          fun _ => trivial⟩, fun _ => trivial⟩, fun _ => trivial⟩, fun _ => trivial⟩,
          fun _ => trivial⟩
        refine (escrowRegistrationFee_exact ctx numClaims).mono ?_ (fun _ _ _ => trivial)
          (fun _ => trivial)
        intro escrowed _ hpost
        obtain ⟨rfl, -, -, rfl⟩ := hpost
        simp only [Tx.wp_add, Tx.wp_modify, wp_print]
        refine ⟨fun _ => ⟨fun _ => ⟨row, hrow, hsponsor.symm, ?_⟩, fun _ => trivial⟩,
          fun _ => trivial⟩
        rw [hsponsor]
        rfl
      exact hspec.of_ok hexec

/-- A cancellation that goes through refunds the escrow of the moment. -/
theorem exec_cancelRegistration_ok (hinv : Inv base w) {key : RegistrationKey} {value : Value}
    {w' : World σ}
    (hexec : exec views code depth ctx (.cancelRegistration key.staker key.signerManager) w =
      .ok value w') :
    ∃ row, w.registry.registrations key = some row ∧ w' = w.cancelled key row := by
  cases depth with
  | zero => cases hexec
  | succ depth =>
      have hspec : Tx.wp (exec views code (depth + 1) ctx
          (.cancelRegistration key.staker key.signerManager)) w
          (fun _ w' => ∃ row, w.registry.registrations key = some row ∧ w' = w.cancelled key row)
          (fun _ _ => True) True := by
        rw [exec, Tx.wp_atomic]
        simp only [dispatch, cancelRegistration, Tx.wp_bind, wp_validateNoReentrancy, Tx.wp_pure]
        refine ⟨fun _ => ?_, fun _ => trivial⟩
        refine (cancelRegistrationImpl_spec hinv ctx key.staker key.signerManager).mono ?_
          (fun _ _ _ => trivial) False.elim
        intro refund w' hpost
        obtain ⟨row, hrow, -, -, hw'⟩ := hpost
        exact ⟨row, hrow, hw'⟩
      exact hspec.of_ok hexec

/-- A transaction has changed nothing or has ended well. -/
theorem call_cases (views : Views σ) (code : Code σ) (depth : Nat) (ctx : Ctx) (call : Call)
    (w : World σ) :
    w.call views code depth ctx call = w ∨
      ∃ value, exec views code depth ctx call w = .ok value (w.call views code depth ctx call) := by
  unfold World.call Tx.commit
  cases hexec : exec views code depth ctx call w with
  | ok value w' => exact .inr ⟨value, rfl⟩
  | err => exact .inl rfl
  | abort => exact .inl rfl

theorem transact_registerForClaims (sm : ContractId) (entry : RegistrationEntry) (limit : Int) :
    transact views code depth ctx (.registerForClaims entry.staker sm entry.startRewardCycle
        entry.oneClaimPerRewardCycle entry.numClaims) (limitTo ctx.txSender limit) w =
      if registrationFee w.registry ctx.txSender entry.numClaims ≤ limit.toNat then
        w.call views code depth ctx (.registerForClaims entry.staker sm entry.startRewardCycle
          entry.oneClaimPerRewardCycle entry.numClaims)
      else w := by
  refine transact_limitTo (fun value w' hexec => ?_) limit
  obtain ⟨position, rfl⟩ := exec_registerForClaims_ok hexec
  exact ⟨currentContract, _, rfl, registered_log _ _ w _⟩

theorem transact_addClaims (key : RegistrationKey) (numClaims : Nat) (limit : Int) :
    transact views code depth ctx (.addClaims key.staker key.signerManager numClaims)
        (limitTo ctx.txSender limit) w =
      if registrationFee w.registry ctx.txSender numClaims ≤ limit.toNat then
        w.call views code depth ctx (.addClaims key.staker key.signerManager numClaims)
      else w := by
  refine transact_limitTo (fun value w' hexec => ?_) limit
  obtain ⟨row, -, hsponsor, rfl⟩ := exec_addClaims_ok hexec
  have hlog := toppedUp_log key row w numClaims
    (registrationFee w.registry ctx.txSender numClaims)
  rw [hsponsor] at hlog
  exact ⟨currentContract, _, rfl, hlog⟩

theorem transact_cancelRegistration (hinv : Inv base w) {key : RegistrationKey}
    (limit : Int) :
    transact views code depth ctx (.cancelRegistration key.staker key.signerManager)
        (limitTo currentContract limit) w =
      if prepaid w key ≤ limit.toNat then
        w.call views code depth ctx (.cancelRegistration key.staker key.signerManager)
      else w := by
  refine transact_limitTo (fun value w' hexec => ?_) limit
  obtain ⟨row, hrow, rfl⟩ := exec_cancelRegistration_ok hinv hexec
  refine ⟨row.sponsor, .cancelRegistration key row.sponsor row.prepaidUstx, rfl, ?_⟩
  rw [prepaid, hrow]
  exact cancelled_log _ _ w

end Transact

/-! ## What the form buys -/

/-- A number of claims the form accepts is one the registry accepts. -/
theorem parseClaimCount_range {claimCount feeStx : Text} {feePerClaim : Option Int} {n : Int}
    (h : parseClaimCount claimCount feeStx feePerClaim = some n) : 1 ≤ n ∧ n ≤ 192 := by
  unfold parseClaimCount maxClaimInstallments at h
  by_cases hcount : (trim claimCount).isEmpty = true
  · simp only [hcount, Bool.not_true, Bool.false_eq_true, if_false] at h
    split at h
    · cases h
    · split at h
      · split at h
        · cases h
        · split at h
          · cases h
          · split at h
            · cases h
            · split at h <;> cases h <;> omega
      · cases h
  · simp only [hcount, Bool.not_false, if_true] at h
    split at h
    · cases h
    · split at h
      · cases h
      · split at h
        · cases h
        · split at h <;> cases h <;> omega

/-! ## A form over the small chain -/

namespace Sample

/-- The three principals of the small chain, and no other. -/
def js : StacksJs where
  principal text :=
    if text = "ST1".toList then some Chain.staker
    else if text = "ST2.signer-manager".toList then some (.contract Chain.signerManager)
    else if text = "ST0.reward-claim-registry".toList then some currentContract
    else none
  uint n := if 0 ≤ n ∧ n < Tx.uintBound then some n.toNat else none
  toUpperCase text := text.map Char.toUpper

theorem js_exact : js.Exact := by
  intro n m
  show (if 0 ≤ n ∧ n < (Tx.uintBound : Int) then some n.toNat else none) = some m ↔ _
  split
  · constructor
    · intro h
      cases h
      omega
    · rintro ⟨rfl, -⟩
      rfl
  · constructor
    · intro h
      cases h
    · intro h
      omega

def formConfig : FormConfig := ⟨⟨[], "ST0.reward-claim-registry".toList⟩, "devnet".toList⟩

def wallet : WalletState := ⟨true, some "ST1".toList, fun _ => rfl⟩

/-- Three claims from cycle 1 on, at the fee of a new registry. -/
def form : RegisterForm where
  staker := "ST1 ".toList
  signerManager := "ST2.signer-manager".toList
  startCycle := "1".toList
  oneClaimPerCycle := some false
  feeStx := "0.03".toList
  claimCount := []
  feePerClaim := some Registry.deployed.feePerClaim
  traitCheck := some .supported
  traitCheckScope := some (traitCheckScopeKey formConfig "ST2.signer-manager".toList)
  registration := none

theorem connected (address : Text) (h : wallet.stxAddress = some address) :
    js.principal address = some Chain.byStaker.txSender := by
  cases h
  rfl

/-- The form after the registration has been loaded in `Chain.due`. -/
def loadedForm : RegisterForm :=
  { form with registration := (Chain.due.registry.registrations Chain.key).map fun row =>
      ⟨row.bondIndex, row.remainingClaims, row.oneClaimPerRewardCycle,
        row.nextClaimDistribution, none, row.prepaidUstx⟩ }

end Sample

namespace RegisterForm

variable {js : StacksJs} {config : FormConfig} {wallet : WalletState} {form : RegisterForm}
  {request : ContractCall} {ctx : Ctx}

/-- What is handed to the wallet has been computed, and somebody is
connected. -/
theorem submitContractCall_request {functionName : String}
    {args : Option (List Client.ClarityValue × List PostCondition)}
    (h : submitContractCall config wallet functionName args = .request request) :
    wallet.connected = true ∧ ∃ functionArgs postConditions,
      args = some (functionArgs, postConditions) ∧
      request = ⟨config.claimsContract, functionName, functionArgs, postConditions⟩ := by
  unfold submitContractCall at h
  split at h
  · cases h
  · next functionArgs postConditions =>
      split at h
      · cases h
      · next hconnected =>
          split at h
          · cases h
          · cases h
            exact ⟨by simpa using hconnected, functionArgs, postConditions, rfl, rfl⟩

/-- The post-conditions limit the connected account to the escrow shown. -/
theorem registrationPostConditions_eq {sender : Text} {n : Int}
    {conditions : List PostCondition} {principal : Principal}
    (hsender : js.principal sender = some principal)
    (h : form.registrationPostConditions js sender n = some conditions) :
    conditions = limitTo principal (form.escrowMicro n) := by
  unfold registrationPostConditions at h
  unfold limitTo
  simp only at h
  split at h
  · next hle =>
      cases h
      rw [if_pos hle]
  · next hlt =>
      rw [hsender] at h
      cases h
      rw [if_neg hlt]

/-- The shown escrow covers the fee of the registry if that has not risen. -/
theorem registrationFee_le_escrow {r : Registry} {sender : Principal} {n : Nat}
    (h : (r.feePerClaim : Int) ≤ form.feePerClaim.getD 0) :
    registrationFee r sender n ≤ (form.escrowMicro n).toNat := by
  have hmul : (n : Int) * r.feePerClaim ≤ n * form.feePerClaim.getD 0 :=
    Int.mul_le_mul_of_nonneg_left h (Int.natCast_nonneg n)
  unfold registrationFee escrowMicro feeMicroForClaimCount
  split
  · exact Nat.zero_le _
  · have hle : ((n * r.feePerClaim : Nat) : Int) ≤ n * form.feePerClaim.getD 0 := by
      rw [Int.natCast_mul]
      exact hmul
    omega

/-- The connected account is the one the post-conditions name. -/
theorem sender_of_connected {staker : Text} (hconnected : wallet.connected = true)
    (hwallet : ∀ address, wallet.stxAddress = some address →
      js.principal address = some ctx.txSender) :
    js.principal (wallet.stxAddress.getD staker) = some ctx.txSender := by
  obtain ⟨address, haddress⟩ := Option.isSome_iff_exists.mp (wallet.hasAddress hconnected)
  rw [haddress]
  exact hwallet address haddress

/-- What `handleRegister` hands to the wallet, and what it has found out
before. -/
theorem handleRegister_args {check : Except String (Option SignerManagerTraitCheck)}
    (hsubmit : form.handleRegister js config wallet check = .request request) :
    ∃ (staker signerManager : Principal) (start numClaims : Int) (oneClaimPerCycle : Bool)
        (m n : Nat) (conditions : List PostCondition),
      wallet.connected = true ∧ form.traitProblem js config check = none ∧
      js.principal (trim form.staker) = some staker ∧
      js.principal (trim form.signerManager) = some signerManager ∧
      bigIntOfText (trim form.startCycle) = some start ∧ js.uint start = some m ∧
      form.oneClaimPerCycle = some oneClaimPerCycle ∧
      form.numClaims = some numClaims ∧ js.uint numClaims = some n ∧
      form.registrationPostConditions js (wallet.stxAddress.getD (trim form.staker)) numClaims =
        some conditions ∧
      request = ⟨config.claimsContract, "register-for-claims",
        [.principal staker, .principal signerManager, .uint m, .bool oneClaimPerCycle, .uint n],
        conditions⟩ := by
  unfold handleRegister at hsubmit
  split at hsubmit
  · cases hsubmit
  split at hsubmit
  · cases hsubmit
  next oneClaimPerCycle hcadence =>
  split at hsubmit
  · cases hsubmit
  next numClaims hcount =>
  split at hsubmit
  · cases hsubmit
  next hproblem =>
  split at hsubmit
  · cases hsubmit
  next start hstart =>
  obtain ⟨hconnected, functionArgs, conditions, hargs, hrequest⟩ :=
    submitContractCall_request hsubmit
  simp only [Option.bind_eq_bind, Option.bind_eq_some_iff, Option.pure_def,
    Option.some.injEq, Prod.mk.injEq] at hargs
  obtain ⟨staker, hstaker, signerManager, hmanager, m, hm, n, hn, conditions', hlimit, rfl, rfl⟩ :=
    hargs
  exact ⟨staker, signerManager, start, numClaims, oneClaimPerCycle, m, n, conditions', hconnected,
    hproblem, hstaker, hmanager, hstart, hm, hcadence, hcount, hn, hlimit, hrequest⟩

/-- For the connected account that is a registration, and a limit of what it
may cost. -/
theorem handleRegister_request {check : Except String (Option SignerManagerTraitCheck)}
    (hsubmit : form.handleRegister js config wallet check = .request request)
    (hjs : js.Exact) (hwallet : ∀ address, wallet.stxAddress = some address →
      js.principal address = some ctx.txSender) :
    ∃ (entry : RegistrationEntry) (signerManager : Principal),
      js.principal (trim form.staker) = some entry.staker ∧
      js.principal (trim form.signerManager) = some signerManager ∧
      bigIntOfText (trim form.startCycle) = some (entry.startRewardCycle : Int) ∧
      form.oneClaimPerCycle = some entry.oneClaimPerRewardCycle ∧
      form.numClaims = some (entry.numClaims : Int) ∧
      request = ⟨config.claimsContract, "register-for-claims",
        [.principal entry.staker, .principal signerManager, .uint entry.startRewardCycle,
          .bool entry.oneClaimPerRewardCycle, .uint entry.numClaims],
        limitTo ctx.txSender (form.escrowMicro entry.numClaims)⟩ := by
  obtain ⟨staker, signerManager, start, numClaims, oneClaimPerCycle, m, n, conditions, hconnected,
    -, hstaker, hmanager, hstart, hm, hcadence, hcount, hn, hlimit, hrequest⟩ :=
    handleRegister_args hsubmit
  obtain ⟨rfl, -⟩ := (hjs _ _).mp hm
  obtain ⟨rfl, -⟩ := (hjs _ _).mp hn
  rw [registrationPostConditions_eq (sender_of_connected hconnected hwallet) hlimit] at hrequest
  exact ⟨⟨staker, m, oneClaimPerCycle, n⟩, signerManager, hstaker, hmanager, hstart, hcadence,
    hcount, hrequest⟩

variable (views) in
/-- **Registering.** Whatever is in the form and whatever has happened on
chain since it was loaded: if the button hands a call to the wallet, then the
call, executed in any world, registers what the form shows for the escrow the
registry asks for at that time, which is no more than the form shows, or it
changes nothing. It is the registry alone that may refuse it unless the fee has
risen since. -/
theorem registration_as_shown {check : Except String (Option SignerManagerTraitCheck)}
    (hsubmit : form.handleRegister js config wallet check = .request request)
    (hjs : js.Exact) (hwallet : ∀ address, wallet.stxAddress = some address →
      js.principal address = some ctx.txSender) :
    ∃ (entry : RegistrationEntry) (signerManager : Principal),
      js.principal (trim form.staker) = some entry.staker ∧
      js.principal (trim form.signerManager) = some signerManager ∧
      bigIntOfText (trim form.startCycle) = some (entry.startRewardCycle : Int) ∧
      form.oneClaimPerCycle = some entry.oneClaimPerRewardCycle ∧
      form.numClaims = some (entry.numClaims : Int) ∧
      1 ≤ entry.numClaims ∧ entry.numClaims ≤ 192 ∧
      ∀ (code : Code σ) (depth : Nat) (s : World σ),
        (request.transact views code depth ctx s = s ∨ ∃ position,
          request.transact views code depth ctx s = s.registered ⟨entry.staker, signerManager⟩
            (newRow ctx s.registry position entry) entry.startRewardCycle ∧
          (newRow ctx s.registry position entry).prepaidUstx ≤
            (form.escrowMicro entry.numClaims).toNat) ∧
        ∀ sm, signerManager = .contract sm →
          (s.registry.feePerClaim : Int) ≤ form.feePerClaim.getD 0 →
          request.transact views code depth ctx s =
            s.call views code depth ctx (.registerForClaims entry.staker sm
              entry.startRewardCycle entry.oneClaimPerRewardCycle entry.numClaims) := by
  obtain ⟨entry, signerManager, hstaker, hmanager, hstart, hcadence, hcount, rfl⟩ :=
    handleRegister_request hsubmit hjs hwallet
  have hrange := parseClaimCount_range hcount
  refine ⟨entry, signerManager, hstaker, hmanager, hstart, hcadence, hcount, by omega, by omega,
    fun code depth s => ?_⟩
  cases signerManager with
  | standard address =>
      -- the argument is no contract, so the chain refuses the call
      exact ⟨.inl rfl, fun sm h => by cases h⟩
  | contract sm =>
      rw [transact_register, transact_registerForClaims]
      constructor
      · split
        · next hle =>
            rcases call_cases views code depth ctx (.registerForClaims entry.staker sm
              entry.startRewardCycle entry.oneClaimPerRewardCycle entry.numClaims) s with
              hsame | ⟨value, hexec⟩
            · exact .inl hsame
            · obtain ⟨position, hregistered⟩ := exec_registerForClaims_ok hexec
              exact .inr ⟨position, hregistered, hle⟩
        · exact .inl rfl
      · intro sm' hsm hfee
        cases hsm
        rw [if_pos (registrationFee_le_escrow hfee)]

theorem registration_as_shown_three :
    ∃ request, Sample.form.handleRegister Sample.js Sample.formConfig Sample.wallet (.ok none) =
        .request request ∧
      request.transact Chain.views Chain.paying 2 Chain.byStaker (Chain.start ⟨2, 0, none⟩) =
        Chain.registered := by
  have hsubmit : Sample.form.handleRegister Sample.js Sample.formConfig Sample.wallet (.ok none) =
      .request _ := rfl
  obtain ⟨entry, signerManager, hstaker, hmanager, hstart, hcadence, hcount, -, -, hshown⟩ :=
    registration_as_shown Chain.views hsubmit Sample.js_exact Sample.connected
  have hentry : entry = ⟨Chain.staker, 1, false, 3⟩ := by
    obtain ⟨staker, start, oneClaim, n⟩ := entry
    cases (show some Chain.staker = some staker from hstaker)
    have hstart : (1 : Int) = start := Option.some.inj hstart
    have hthree : Sample.form.numClaims = some 3 := by decide
    have hcount : (3 : Int) = n := Option.some.inj (hthree.symm.trans hcount)
    cases (show some false = some oneClaim from hcadence)
    rw [show start = 1 by omega, show n = 3 by omega]
  subst hentry
  exact ⟨_, hsubmit, (hshown Chain.paying 2 (Chain.start ⟨2, 0, none⟩)).2 Chain.signerManager
    (Option.some.inj hmanager).symm (by decide)⟩

/-- What `handleAddClaims` hands to the wallet. -/
theorem handleAddClaims_args
    (hsubmit : form.handleAddClaims js config wallet = .request request) :
    ∃ (staker signerManager : Principal) (numClaims : Int) (n : Nat)
        (conditions : List PostCondition),
      wallet.connected = true ∧
      js.principal (trim form.staker) = some staker ∧
      js.principal (trim form.signerManager) = some signerManager ∧
      form.numClaims = some numClaims ∧ js.uint numClaims = some n ∧
      form.registrationPostConditions js (wallet.stxAddress.getD (trim form.staker)) numClaims =
        some conditions ∧
      request = ⟨config.claimsContract, "add-claims",
        [.principal staker, .principal signerManager, .uint n], conditions⟩ := by
  unfold handleAddClaims at hsubmit
  split at hsubmit
  · cases hsubmit
  split at hsubmit
  · cases hsubmit
  next numClaims hcount =>
  obtain ⟨hconnected, functionArgs, conditions, hargs, hrequest⟩ :=
    submitContractCall_request hsubmit
  simp only [Option.bind_eq_bind, Option.bind_eq_some_iff, Option.pure_def,
    Option.some.injEq, Prod.mk.injEq] at hargs
  obtain ⟨staker, hstaker, signerManager, hmanager, n, hn, conditions', hlimit, rfl, rfl⟩ := hargs
  exact ⟨staker, signerManager, numClaims, n, conditions', hconnected, hstaker, hmanager, hcount,
    hn, hlimit, hrequest⟩

theorem handleAddClaims_request (hsubmit : form.handleAddClaims js config wallet = .request request)
    (hjs : js.Exact) (hwallet : ∀ address, wallet.stxAddress = some address →
      js.principal address = some ctx.txSender) :
    ∃ (key : RegistrationKey) (n : Nat),
      js.principal (trim form.staker) = some key.staker ∧
      js.principal (trim form.signerManager) = some key.signerManager ∧
      form.numClaims = some (n : Int) ∧
      request = ⟨config.claimsContract, "add-claims",
        [.principal key.staker, .principal key.signerManager, .uint n],
        limitTo ctx.txSender (form.escrowMicro n)⟩ := by
  obtain ⟨staker, signerManager, numClaims, n, conditions, hconnected, hstaker, hmanager, hcount,
    hn, hlimit, hrequest⟩ := handleAddClaims_args hsubmit
  obtain ⟨rfl, -⟩ := (hjs _ _).mp hn
  rw [registrationPostConditions_eq (sender_of_connected hconnected hwallet) hlimit] at hrequest
  exact ⟨⟨staker, signerManager⟩, n, hstaker, hmanager, hcount, hrequest⟩

variable (views) in
/-- **Topping up.** In the same way the second button adds what the form shows
to a registration of the connected account, for no more than the form shows,
or it changes nothing. -/
theorem topUp_as_shown (hsubmit : form.handleAddClaims js config wallet = .request request)
    (hjs : js.Exact) (hwallet : ∀ address, wallet.stxAddress = some address →
      js.principal address = some ctx.txSender) :
    ∃ (key : RegistrationKey) (n : Nat),
      js.principal (trim form.staker) = some key.staker ∧
      js.principal (trim form.signerManager) = some key.signerManager ∧
      form.numClaims = some (n : Int) ∧ 1 ≤ n ∧ n ≤ 192 ∧
      ∀ (code : Code σ) (depth : Nat) (s : World σ),
        (request.transact views code depth ctx s = s ∨ ∃ row,
          s.registry.registrations key = some row ∧ row.sponsor = ctx.txSender ∧
          request.transact views code depth ctx s =
            s.toppedUp key row n (registrationFee s.registry ctx.txSender n) ∧
          registrationFee s.registry ctx.txSender n ≤ (form.escrowMicro n).toNat) ∧
        ((s.registry.feePerClaim : Int) ≤ form.feePerClaim.getD 0 →
          request.transact views code depth ctx s =
            s.call views code depth ctx (.addClaims key.staker key.signerManager n)) := by
  obtain ⟨key, n, hstaker, hmanager, hcount, rfl⟩ :=
    handleAddClaims_request hsubmit hjs hwallet
  have hrange := parseClaimCount_range hcount
  refine ⟨key, n, hstaker, hmanager, hcount, by omega, by omega, fun code depth s => ?_⟩
  rw [transact_add, transact_addClaims]
  constructor
  · split
    · next hle =>
        rcases call_cases views code depth ctx (.addClaims key.staker key.signerManager n) s with
          hsame | ⟨value, hexec⟩
        · exact .inl hsame
        · obtain ⟨row, hrow, hsponsor, htoppedUp⟩ := exec_addClaims_ok hexec
          exact .inr ⟨row, hrow, hsponsor, htoppedUp, hle⟩
    · exact .inl rfl
  · intro hfee
    rw [if_pos (registrationFee_le_escrow hfee)]

/-! ## Cancelling what the form has loaded -/

/-- The form reads a row as it is. -/
theorem fetchRegistration_answer (burnHeight : Nat → Option Client.ClarityValue)
    (w : World σ) (key : RegistrationKey) :
    fetchRegistration burnHeight (registrationAnswer w key) =
      some ((w.registry.registrations key).map fun row =>
        ⟨row.bondIndex, row.remainingClaims, row.oneClaimPerRewardCycle,
          row.nextClaimDistribution,
          (burnHeight (row.nextClaimDistribution + 1)).bind uintToBigInt, row.prepaidUstx⟩) := by
  unfold registrationAnswer
  cases w.registry.registrations key with
  | none => rfl
  | some row =>
      obtain ⟨bondIndex, remaining, oneClaim, next, prepaid, sponsor⟩ := row
      cases bondIndex <;> rfl

/-- What `handleCancel` hands to the wallet. -/
theorem handleCancel_args (hsubmit : form.handleCancel js config wallet = .request request) :
    ∃ (registration : StakerRegistration) (staker signerManager : Principal)
        (conditions : List PostCondition),
      form.registration = some registration ∧
      js.principal (trim form.staker) = some staker ∧
      js.principal (trim form.signerManager) = some signerManager ∧
      (if 0 < registration.prepaidUstx then
          (js.principal config.claimsContract).map fun registry =>
            [(⟨registry, registration.prepaidUstx⟩ : PostCondition)]
        else some []) = some conditions ∧
      request = ⟨config.claimsContract, "cancel-registration",
        [.principal staker, .principal signerManager], conditions⟩ := by
  unfold handleCancel at hsubmit
  split at hsubmit
  · cases hsubmit
  split at hsubmit
  · cases hsubmit
  next registration hregistration =>
  split at hsubmit
  · cases hsubmit
  obtain ⟨-, functionArgs, conditions, hargs, hrequest⟩ := submitContractCall_request hsubmit
  simp only [Option.bind_eq_bind, Option.bind_eq_some_iff, Option.pure_def, Option.some.injEq,
    Prod.mk.injEq] at hargs
  obtain ⟨conditions', hlimit, staker, hstaker, signerManager, hmanager, rfl, rfl⟩ := hargs
  exact ⟨registration, staker, signerManager, conditions', hregistration, hstaker, hmanager,
    hlimit, hrequest⟩

/-- With the registry in the configuration, its refund is limited to what the
form shows. -/
theorem handleCancel_request (hsubmit : form.handleCancel js config wallet = .request request)
    (hregistry : js.principal config.claimsContract = some currentContract) :
    ∃ (key : RegistrationKey) (registration : StakerRegistration),
      js.principal (trim form.staker) = some key.staker ∧
      js.principal (trim form.signerManager) = some key.signerManager ∧
      form.registration = some registration ∧
      request = ⟨config.claimsContract, "cancel-registration",
        [.principal key.staker, .principal key.signerManager],
        limitTo currentContract registration.prepaidUstx⟩ := by
  obtain ⟨registration, staker, signerManager, conditions, hregistration, hstaker, hmanager,
    hlimit, hrequest⟩ := handleCancel_args hsubmit
  refine ⟨⟨staker, signerManager⟩, registration, hstaker, hmanager, hregistration, ?_⟩
  have hconditions : conditions = limitTo currentContract registration.prepaidUstx := by
    unfold limitTo
    by_cases hpos : 0 < registration.prepaidUstx
    · rw [if_pos hpos, hregistry] at hlimit
      rw [if_neg (by omega)]
      exact (Option.some.inj hlimit).symm
    · rw [if_neg hpos] at hlimit
      rw [if_pos (by omega)]
      exact (Option.some.inj hlimit).symm
  rw [hrequest, hconditions]

/-- Without a top-up the escrow of a registration only shrinks. -/
theorem prepaid_le_of_not_managed (hinv : Inv base w)
    (hruns : Runs (Change views R) (fun _ => True) w s) {key : RegistrationKey}
    {es : List Event} (hlog : s.log = w.log ++ es) (hes : ∀ e ∈ es, e.managed ≠ some key) :
    prepaid s key ≤ prepaid w key := by
  obtain ⟨es', hlog', -, hburns⟩ := burns_of_runs hinv hruns key
  cases List.append_cancel_left (hlog'.symm.trans hlog)
  have hsum : ∀ {v : World σ}, Inv base v →
      (burnsLeft (v.registry.registrations key)).sum = prepaid v key := by
    intro v hv
    unfold prepaid
    cases hrow : v.registry.registrations key with
    | none => rfl
    | some row => exact sum_installments (hv.rows key row hrow).remaining row.prepaidUstx
  rw [← hsum (hinv.runs hruns), ← hsum hinv, hburns hes, List.sum_append]
  exact Nat.le_add_left _ _

/-- **Cancelling.** The form has loaded a registration in a reachable world.
Whatever happens until its call is executed: the call cancels the registration
for a refund to its sponsor of what is then in escrow, which is no more than
the form shows, or it changes nothing. It is the registry alone that may
refuse it if the registration has only been claimed since. -/
theorem cancellation_as_shown (h : Reachable views R w) {key : RegistrationKey}
    (hstaker : js.principal (trim form.staker) = some key.staker)
    (hmanager : js.principal (trim form.signerManager) = some key.signerManager)
    {burnHeight : Nat → Option Client.ClarityValue}
    (hloaded : fetchRegistration burnHeight (registrationAnswer w key) = some form.registration)
    (hregistry : js.principal config.claimsContract = some currentContract)
    (hsubmit : form.handleCancel js config wallet = .request request)
    (hrun : Run views R w s) (code : Code σ) (depth : Nat) (ctx : Ctx) :
    ∃ row, w.registry.registrations key = some row ∧
      (request.transact views code depth ctx s = s ∨ ∃ row',
        s.registry.registrations key = some row' ∧ row'.prepaidUstx ≤ row.prepaidUstx ∧
        request.transact views code depth ctx s = s.cancelled key row') ∧
      ∀ es, s.log = w.log ++ es → (∀ e ∈ es, e.managed ≠ some key) →
        request.transact views code depth ctx s =
          s.call views code depth ctx (.cancelRegistration key.staker key.signerManager) := by
  obtain ⟨base, hinv⟩ := h.inv
  obtain ⟨key', registration, hstaker', hmanager', hregistration, rfl⟩ :=
    handleCancel_request hsubmit hregistry
  have hkey : key' = key := by
    obtain ⟨staker, signerManager⟩ := key'
    obtain ⟨staker', signerManager'⟩ := key
    cases hstaker.symm.trans hstaker'
    cases hmanager.symm.trans hmanager'
    rfl
  subst hkey
  rw [fetchRegistration_answer, hregistration, Option.some.injEq] at hloaded
  obtain ⟨row, hrow, hregistration⟩ := Option.map_eq_some_iff.mp hloaded
  have hshown : registration.prepaidUstx = row.prepaidUstx := by rw [← hregistration]
  have hruns := hrun.changes hinv h.idle
  have hinv' := hinv.runs hruns
  rw [transact_cancel, transact_cancelRegistration hinv', hshown]
  refine ⟨row, hrow, ?_, fun es hlog hes => ?_⟩
  · split
    · next hle =>
        rcases call_cases views code depth ctx
          (.cancelRegistration key'.staker key'.signerManager) s with hsame | ⟨value, hexec⟩
        · exact .inl hsame
        · obtain ⟨row', hrow', hcancelled⟩ := exec_cancelRegistration_ok hinv' hexec
          rw [prepaid, hrow'] at hle
          exact .inr ⟨row', hrow', by simpa using hle, hcancelled⟩
    · exact .inl rfl
  · have hle := prepaid_le_of_not_managed hinv hruns hlog hes
    have hrowPrepaid : prepaid w key' = row.prepaidUstx := by rw [prepaid, hrow]
    rw [hrowPrepaid] at hle
    rw [if_pos (by simpa using hle)]

/-- The registration is claimed before the cancellation is executed. -/
theorem cancellation_as_shown_claimed :
    ∃ request, Sample.loadedForm.handleCancel Sample.js Sample.formConfig Sample.wallet =
        .request request ∧
      request.transact Chain.views Chain.paying 2 Chain.byStaker Chain.claimed =
        Chain.send (.cancelRegistration Chain.staker (.contract Chain.signerManager))
          Chain.claimed := by
  have hsubmit : Sample.loadedForm.handleCancel Sample.js Sample.formConfig Sample.wallet =
      .request _ := rfl
  have hrun : Run Chain.views (fun _ _ => True) Chain.due Chain.claimed := Chain.run_send _ .refl
  obtain ⟨row, -, -, hcancel⟩ := cancellation_as_shown
    ⟨_, _, Chain.run_due (R := fun _ _ => True) trivial⟩ rfl rfl
    (fetchRegistration_answer (fun _ => none) Chain.due Chain.key) rfl hsubmit hrun
    Chain.paying 2 Chain.byStaker
  exact ⟨_, hsubmit, hcancel (Chain.claimed.log.drop Chain.due.log.length) (by decide)
    (by decide)⟩

end RegisterForm

end Spox.Webapp
