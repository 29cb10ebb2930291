import Spox.Sync.Freshness
import Spox.Webapp.ReclaimScript

/-!
# Webapp — from the deposit form to the monitor

The two scripts of `generateDeposit`, as the deposit page hands them to
`register-address`, and what becomes of them on the way to the store of the
deposit monitor.
-/

namespace Spox.Webapp

open Spox.Lib Spox.Lib.Script Spox.Sync

/-! ## The scripts and their registration -/

/-- The scripts of a `GeneratedResult`. -/
structure GeneratedScripts where
  depositScript : List UInt8
  reclaimScript : List UInt8

/-- The scripts of `generateDeposit`. -/
def generateScripts {P : Type} (library : DepositLibrary P) (reclaim : ReclaimLibrary)
    (aggregateKey : List UInt8) (input : DepositInputs) : Option GeneratedScripts := do
  let depositScript ← generateDepositScript library aggregateKey input
  let reclaimScript ← generateReclaimScript library reclaim input
  some ⟨depositScript, reclaimScript⟩

/-- Scripts that are arguments of `register-address`. -/
structure GeneratedScripts.Fits (scripts : GeneratedScripts) : Prop where
  depositScript : scripts.depositScript.length ≤ 196
  reclaimScript : scripts.reclaimScript.length ≤ 2048

/-- The arguments. -/
def GeneratedScripts.args (scripts : GeneratedScripts) (h : scripts.Fits) : Buff 196 × Buff 2048 :=
  (⟨scripts.depositScript, h.depositScript⟩, ⟨scripts.reclaimScript, h.reclaimScript⟩)

/-- The call of the deposit page's `handleRegister`, once it is executed. -/
def registerScripts (scripts : GeneratedScripts) (h : scripts.Fits) (r : Registry) : Registry :=
  Tx.commit (registerAddress (scripts.args h).1 (scripts.args h).2) r

/-- It is executed among the ticks of the monitor. -/
def registerAmong {δ ρ : Type} (scripts : GeneratedScripts) (h : scripts.Fits)
    (sys : System δ ρ) : System δ ρ :=
  { sys with
    world := sys.world.advance (registerScripts scripts h (sys.world.states sys.world.now)) }

/-! ## The lengths of the scripts -/

section

variable {P : Type} {library : DepositLibrary P} {reclaim : ReclaimLibrary}
  {consensus : P → List UInt8} {network : Text} {input : DepositInputs} {maxFee : Int}
  {recipient : P} {key spend script : List UInt8} {scripts : GeneratedScripts}

/-- A deposit script of accepted inputs is no longer than the contract takes:
the longest recipient fills it up. -/
theorem Accepted.length_depositScript (hlaw : library.Lawful consensus)
    (h : Accepted library network input key maxFee recipient)
    (hscript : generateDepositScript library key input = some script) : script.length ≤ 196 := by
  rw [h.generated hlaw] at hscript
  cases hscript
  have hshort := hlaw.short recipient
  have hfee : (setBigUint64 maxFee).length = 8 := length_bigEndian 8 _
  have hkey := length_toXOnly h.aggregateKey
  have hdata : (setBigUint64 maxFee ++ consensus recipient).length ≤ 159 := by
    rw [List.length_append]
    omega
  have hpush := length_push_le (show (setBigUint64 maxFee ++ consensus recipient).length < 256 by
    omega)
  have hpushKey := length_push_of_le (show 2 ≤ (toXOnly key).length by omega)
    (show (toXOnly key).length ≤ 75 by omega)
  have hlength : ([ScriptItem.data (setBigUint64 maxFee ++ consensus recipient), .drop,
      .data (toXOnly key), .checkSig].flatMap ScriptItem.bytes).length =
      (Script.push (setBigUint64 maxFee ++ consensus recipient)).length +
        (1 + ((Script.push (toXOnly key)).length + 1)) := by
    simp only [List.flatMap_cons, List.flatMap_nil, ScriptItem.bytes, List.length_append,
      List.length_cons, List.length_nil]
  omega

/-- The lock takes little of a reclaim script. -/
theorem length_reclaimScript (hlaw : reclaim.Lawful library)
    (h : validateDepositInputs network input = none) (hdouble : input.Double)
    (hspend : Spends library input spend)
    (hscript : generateReclaimScript library reclaim input = some script) :
    script.length ≤ spend.length + 132 := by
  cases hlock : input.lockTime with
  | finite value =>
      by_cases hwhole : value.den = 1
      · -- whole lock times are numbers of 129 bytes at most
        have hpos := lockTime_pos h hlock
        have hnum : (value.num : Rat) = value := Rat.coe_int_num_of_den_eq_one hwhole
        have hnat : ((value.num.toNat : Nat) : Rat) = value := by
          have hnonneg : 0 ≤ value.num := Rat.num_nonneg.mpr hpos.le
          rw [← hnum]
          exact_mod_cast Int.toNat_of_nonneg hnonneg
        obtain ⟨hgenerate, hlt⟩ := generate_whole hlaw h hdouble hspend
          (hlock.trans (congrArg Number.finite hnat.symm))
        rw [hgenerate] at hscript
        cases hscript
        have hbytes : (number value.num.toNat).length ≤ 128 + 1 :=
          length_number_le_iff.mpr
            (Nat.lt_of_lt_of_le hlt (Nat.le_mul_of_pos_left _ (by decide)))
        have hpush := length_push_le (show (number value.num.toNat).length < 256 by omega)
        rw [lockScript, List.length_append, List.length_cons]
        omega
      · rw [generateReclaimScript_eq hlaw h hspend, hlock] at hscript
        rcases le_or_gt value 16 with hle | hgt
        · obtain ⟨k, -, -, -, hcreate⟩ :=
            createReclaimScript_small reclaim (lockTime_pos h hlock) hle spend
          rw [hcreate] at hscript
          cases hscript
          rw [List.length_cons, List.length_cons]
          omega
        · have hnone : createReclaimScript reclaim (.finite value) spend = none :=
            createReclaimScript_eq_none_iff.mpr
              ⟨decide_eq_false (lockTime_pos h hlock).ne',
                decide_eq_false (by exact_mod_cast not_le.mpr hgt), if_neg hwhole⟩
          rw [hnone] at hscript
          cases hscript
  | infinite negative =>
      have hpos := (checks_of_valid h).1
      rw [hlock] at hpos
      have hnone : createReclaimScript reclaim (.infinite negative) spend = none :=
        createReclaimScript_eq_none_iff.mpr ⟨rfl, hpos, rfl⟩
      rw [generateReclaimScript_eq hlaw h hspend, hlock, hnone] at hscript
      cases hscript
  | nan =>
      have hnone : createReclaimScript reclaim .nan spend = none :=
        createReclaimScript_eq_none_iff.mpr ⟨rfl, rfl, rfl⟩
      rw [generateReclaimScript_eq hlaw h hspend, hlock, hnone] at hscript
      cases hscript

/-- A single key's condition has 35 bytes. -/
theorem Spends.length_pubkey (h : Spends library input spend)
    (hmode : input.reclaimMode = .pubkey) : spend.length = 35 := by
  cases h with
  | @pubkey key _ hkey hlength =>
      have hdrop : (key.drop 1).length = 32 := by rw [List.length_drop, hlength]
      have hpush := length_push_of_le (show 2 ≤ (key.drop 1).length by omega)
        (show (key.drop 1).length ≤ 75 by omega)
      rw [List.length_cons, List.length_append, hpush, hdrop]
      rfl
  | script hmode' _ => cases hmode.symm.trans hmode'

theorem generateScripts_eq_some (h : generateScripts library reclaim key input = some scripts) :
    generateDepositScript library key input = some scripts.depositScript ∧
      generateReclaimScript library reclaim input = some scripts.reclaimScript := by
  simp only [generateScripts, Option.bind_eq_bind, Option.bind_eq_some_iff] at h
  obtain ⟨depositScript, hdeposit, reclaimScript, hreclaim, heq⟩ := h
  cases heq
  exact ⟨hdeposit, hreclaim⟩

/-- Scripts of accepted inputs fit, but for a long script that was entered. -/
theorem Accepted.fits (hlaw : library.Lawful consensus) (hlaw' : reclaim.Lawful library)
    (h : Accepted library network input key maxFee recipient) (hdouble : input.Double)
    (hspend : Spends library input spend) (hlength : spend.length ≤ 1916)
    (hscripts : generateScripts library reclaim key input = some scripts) : scripts.Fits := by
  obtain ⟨hdeposit, hreclaim⟩ := generateScripts_eq_some hscripts
  have hbound := length_reclaimScript hlaw' h.valid hdouble hspend hreclaim
  exact ⟨h.length_depositScript hlaw hdeposit, by omega⟩

end

/-! ## On the way to the store -/

section

variable {δ ρ : Type} {sbtc : Sbtc δ ρ} {configured : Bool} {sys sys' : System δ ρ}
  {scripts : GeneratedScripts} {fits : scripts.Fits}

/-- What the client of the registry is to read. -/
def GeneratedScripts.raw (scripts : GeneratedScripts) (id : Nat) : RawRegisteredDeposit :=
  ⟨id, some ⟨scripts.depositScript, scripts.reclaimScript⟩⟩

/-- The registry has the scripts under the next id. -/
theorem rawAt_registerScripts {r : Registry} (hroom : r.nextAddressId + 1 < Tx.uintBound) :
    rawAt (registerScripts scripts fits r) r.nextAddressId = scripts.raw r.nextAddressId := by
  rw [registerScripts, commit_register, if_pos hroom, rawAt, GeneratedScripts.raw]
  show RawRegisteredDeposit.mk _ ((Function.update r.depositAddress r.nextAddressId _ _).map _) = _
  rw [Function.update_self]
  rfl

/-- Registering them is a step of the system. -/
theorem registerAmong_step (sbtc : Sbtc δ ρ) (configured : Bool) (sys : System δ ρ)
    (scripts : GeneratedScripts) (fits : scripts.Fits) :
    System.Step sbtc configured sys (registerAmong scripts fits sys) :=
  .environment (.register _ _ _)

end

/-! ## What the monitor parses -/

/-- What the monitor relies on the `sbtc` crate for: its parsers take every
script of the layout of a deposit script whose key is one (`isKey`), and every
script that locks for fewer than 2¹⁶ blocks. -/
structure ParsesScripts {P δ ρ : Type} (sbtc : Sbtc δ ρ) (consensus : P → List UInt8)
    (isKey : List UInt8 → Prop) : Prop where
  deposit : ∀ fee recipient key, key.length = 32 → isKey key →
    ∃ inputs, sbtc.parseDepositScript ([ScriptItem.data (bigEndian 8 fee ++ consensus recipient),
      .drop, .data key, .checkSig].flatMap ScriptItem.bytes) = .ok inputs
  reclaim : ∀ n spend, 0 < n → n < 2 ^ 16 →
    ∃ inputs, sbtc.parseReclaimScript (lockScript n spend) = .ok inputs

theorem tryFrom_raw {δ ρ : Type} {sbtc : Sbtc δ ρ} {scripts : GeneratedScripts}
    (hdeposit : ∃ inputs, sbtc.parseDepositScript scripts.depositScript = .ok inputs)
    (hreclaim : ∃ inputs, sbtc.parseReclaimScript scripts.reclaimScript = .ok inputs) (id : Nat) :
    ∃ deposit, MonitoredDeposit.tryFrom sbtc (scripts.raw id) = .ok deposit := by
  obtain ⟨depositInputs, hdeposit⟩ := hdeposit
  obtain ⟨reclaimInputs, hreclaim⟩ := hreclaim
  refine ⟨⟨.registry id, depositInputs, reclaimInputs⟩, ?_⟩
  simp only [MonitoredDeposit.tryFrom, GeneratedScripts.raw, hdeposit, hreclaim]
  rfl

/-- The scripts of accepted inputs that lock for fewer than 2¹⁶ blocks parse. -/
theorem Accepted.parses {P δ ρ : Type} {sbtc : Sbtc δ ρ} {library : DepositLibrary P}
    {reclaim : ReclaimLibrary} {consensus : P → List UInt8} {isKey : List UInt8 → Prop}
    {network : Text} {input : DepositInputs} {key : List UInt8} {maxFee : Int} {recipient : P}
    {scripts : GeneratedScripts} (hparses : ParsesScripts sbtc consensus isKey)
    (hlaw : library.Lawful consensus) (hlaw' : reclaim.Lawful library)
    (h : Accepted library network input key maxFee recipient) (hdouble : input.Double)
    (hkey : isKey (toXOnly key))
    (hscripts : generateScripts library reclaim key input = some scripts) {n : Nat}
    (hlock : input.lockTime = .finite n) (hn : n < 2 ^ 16) (id : Nat) :
    ∃ deposit, MonitoredDeposit.tryFrom sbtc (scripts.raw id) = .ok deposit := by
  obtain ⟨hdeposit, hreclaim⟩ := generateScripts_eq_some hscripts
  obtain ⟨spend, -, hspend⟩ := spendScript_of_valid hlaw' h.valid
  have hpos : 0 < n := by exact_mod_cast lockTime_pos h.valid hlock
  refine tryFrom_raw ?_ ?_ id
  · rw [h.generated hlaw] at hdeposit
    rw [← Option.some.inj hdeposit]
    exact hparses.deposit _ recipient _ (length_toXOnly h.aggregateKey) hkey
  · rw [(generate_whole hlaw' h.valid hdouble hspend hlock).1] at hreclaim
    rw [← Option.some.inj hreclaim]
    exact hparses.reclaim n spend hpos hn

/-- **What the form generates is what is monitored.** The scripts of accepted
inputs can be registered, unless a script that was entered is too long for the
contract; the deposit script is read as the lowest 64 bits of the fee, the
recipient and the key; if they lock for fewer than 2¹⁶ whole blocks and the key
is a valid one, the monitor parses them; and once the monitor's cursor has
passed the id of scripts that parse, whatever it and others did in between, the
monitor watches the script pubkey that these very scripts make, unless the
owner removed them before they were fetched. -/
theorem generated_scripts_monitored {P δ ρ : Type} {library : DepositLibrary P}
    {reclaim : ReclaimLibrary} {consensus : P → List UInt8} {isKey : List UInt8 → Prop}
    {network : Text} {input : DepositInputs} {key : List UInt8} {maxFee : Int} {recipient : P}
    {scripts : GeneratedScripts} (sbtc : Sbtc δ ρ) (configured : Bool)
    (hparses : ParsesScripts sbtc consensus isKey)
    (hlaw : library.Lawful consensus) (hlaw' : reclaim.Lawful library)
    (h : Accepted library network input key maxFee recipient) (hdouble : input.Double)
    (hscripts : generateScripts library reclaim key input = some scripts) :
    (∃ spend, Spends library input spend ∧ (input.reclaimMode = .pubkey ∨ spend.length ≤ 1916 →
      scripts.Fits)) ∧
    decodeDepositScript scripts.depositScript =
      some ((maxFee % 2 ^ 64).toNat, consensus recipient, toXOnly key) ∧
    (∀ n : Nat, input.lockTime = .finite n → n < 2 ^ 16 → isKey (toXOnly key) → ∀ id,
      ∃ deposit, MonitoredDeposit.tryFrom sbtc (scripts.raw id) = .ok deposit) ∧
    ∀ (fits : scripts.Fits) (sys sys' : System δ ρ), sys.Reachable sbtc configured →
      (sys.world.states sys.world.now).nextAddressId + 1 < Tx.uintBound →
      System.Run sbtc configured (registerAmong scripts fits sys) sys' →
      (sys.world.states sys.world.now).nextAddressId < sys'.world.cursor →
      ∀ deposit, MonitoredDeposit.tryFrom sbtc
          (scripts.raw (sys.world.states sys.world.now).nextAddressId) = .ok deposit →
        (sys'.world.monitored (deposit.toScriptPubkey sbtc)).isSome = true ∨
          ∃ f ∈ sys'.world.fetches, (sys.world.states sys.world.now).nextAddressId ∈ f.ids ∧
            sys.world.now + 1 < f.index ∧
            (sys'.world.states f.index).depositAddress
              (sys.world.states sys.world.now).nextAddressId = none := by
  obtain ⟨hdeposit, -⟩ := generateScripts_eq_some hscripts
  obtain ⟨spend, -, hspend⟩ := spendScript_of_valid hlaw' h.valid
  refine ⟨⟨spend, hspend, fun hshort => ?_⟩, h.decode hlaw hdeposit,
    fun n hlock hn hkey => h.parses hparses hlaw hlaw' hdouble hkey hscripts hlock hn, ?_⟩
  · refine h.fits hlaw hlaw' hdouble hspend ?_ hscripts
    rcases hshort with hmode | hlength
    · have hlength := hspend.length_pubkey hmode
      omega
    · exact hlength
  · intro fits sys sys' hreach hroom hrun hcursor deposit htry
    obtain ⟨monitored, hto⟩ := hreach
    have hreach' : sys'.Reachable sbtc configured :=
      ⟨monitored, (hto.tail (registerAmong_step sbtc configured sys scripts fits)).trans hrun⟩
    have hprecedes := hrun.precedes
    have hle : sys.world.now + 1 ≤ sys'.world.now := hprecedes.now
    have hstate : sys'.world.states (sys.world.now + 1) =
        registerScripts scripts fits (sys.world.states sys.world.now) :=
      (hprecedes.states (sys.world.now + 1) (Nat.le_refl _)).trans (Function.update_self _ _ _)
    have hregistered : registered sbtc (sys'.world.states (sys.world.now + 1))
        (sys.world.states sys.world.now).nextAddressId = .ok deposit := by
      rw [hstate, registered, rawAt_registerScripts hroom]
      exact htry
    exact (registry_covered hreach').2 _ hle _ hcursor deposit hregistered

namespace Sample

theorem generated_scripts : ∃ scripts,
    generateScripts depositLibrary reclaimLibrary aggregateKey (depositInputs 5000) =
      some scripts := by
  have haccepted := accepted 5000 (by decide)
  obtain ⟨spend, -, hspend⟩ := spendScript_of_valid reclaim_lawful haccepted.valid
  have hlock : (depositInputs 5000).lockTime = .finite (100 : Nat) := rfl
  have hreclaim := (generate_whole reclaim_lawful haccepted.valid (depositInputs_double 5000)
    hspend hlock).1
  cases hdeposit : generateDepositScript depositLibrary aggregateKey (depositInputs 5000) with
  | none =>
      rw [haccepted.generated lawful] at hdeposit
      cases hdeposit
  | some depositScript =>
      refine ⟨⟨depositScript, lockScript 100 spend⟩, ?_⟩
      rw [generateScripts, hdeposit, hreclaim]
      rfl

/-- The monitor syncs the scripts right after their registration. -/
theorem synced_run (scripts : GeneratedScripts) (fits : scripts.Fits) :
    ∃ sys : System (List UInt8) (List UInt8),
      System.Run sampleSbtc true (registerAmong scripts fits (System.initial fun _ => none)) sys ∧
        sys.world.cursor = 1 ∧ ∀ f ∈ sys.world.fetches, f.index = 1 := by
  let registered : World (List UInt8) (List UInt8) :=
    (registerAmong scripts fits (System.initial fun _ => none)).world
  let read := { registered with seen := 1, nextRead := some 1 }
  let fetched := { read with fetches := [⟨0, [0], 1⟩] }
  let deposit : MonitoredDeposit (List UInt8) (List UInt8) :=
    ⟨.registry 0, scripts.depositScript, scripts.reclaimScript⟩
  let added := { fetched with
    shared := ⟨false, 0, Function.update (fun _ => none)
      (scripts.depositScript ++ scripts.reclaimScript) (some deposit)⟩ }
  let synced := { added with handled := [0], shared := ⟨false, 1, added.monitored⟩ }
  have hlast : answer sampleSbtc .getLastNextAddressId { registered with nextRead := none }
      (.ok (0 : Nat)) registered := ⟨rfl, rfl⟩
  have hread : answer sampleSbtc .callNextAddressId registered (.ok (.uint 1)) read :=
    .inr ⟨1, Nat.zero_le 1, Nat.le_refl 1, rfl, rfl⟩
  have hfetch : answer sampleSbtc (.callAddresses [0]) read
      (.ok (getAddresses (registerScripts scripts fits .deployed) [0])) fetched :=
    .inr (.inr ⟨1, Nat.le_refl 1, Nat.le_refl 1, rfl, rfl⟩)
  have hadd : answer sampleSbtc (.add deposit) fetched (.ok ()) added := rfl
  have hset : answer sampleSbtc (.setLastNextAddressId 0 1) added (.ok ()) synced := rfl
  refine ⟨⟨synced, none, [⟨0, some 1, .ok ⟨⟩, [0], 1⟩]⟩, ?_, rfl, ?_⟩
  · refine .head .start ?_
    refine .head (.run (.answer hlast)) ?_
    refine .head (.run (.answer hread)) ?_
    refine .head (.run (.answer hfetch)) ?_
    refine .head (.run (.answer hadd)) ?_
    refine .head (.run (.answer hset)) ?_
    exact .single (.finish rfl)
  · intro f hf
    rw [List.mem_singleton.mp hf]

end Sample

/-- A parser that takes every script takes these. -/
theorem Sample.parses (isKey : List UInt8 → Prop) :
    ParsesScripts sampleSbtc Sample.consensus isKey where
  deposit := fun _ _ _ _ _ => ⟨_, rfl⟩
  reclaim := fun _ _ _ _ => ⟨_, rfl⟩

/-- The scripts of the known address, which lock for 100 blocks, are monitored
after a tick. -/
theorem generated_scripts_monitored_five_thousand :
    ∃ (scripts : GeneratedScripts) (sys : System (List UInt8) (List UInt8)),
      generateScripts Sample.depositLibrary Sample.reclaimLibrary Sample.aggregateKey
          (Sample.depositInputs 5000) = some scripts ∧
        (sys.world.monitored (scripts.depositScript ++ scripts.reclaimScript)).isSome = true := by
  obtain ⟨scripts, hscripts⟩ := Sample.generated_scripts
  obtain ⟨⟨spend, hspend, hfits⟩, -, hparsed, hmonitored⟩ := generated_scripts_monitored
    sampleSbtc true (Sample.parses fun _ => True) Sample.lawful Sample.reclaim_lawful
    (Sample.accepted 5000 (by decide)) (Sample.depositInputs_double 5000) hscripts
  have hshort : spend.length ≤ 1916 := by
    cases hspend with
    | pubkey hmode _ _ => cases hmode
    | script _ hbytes =>
        have htext : fromHex Sample.depositLibrary (Sample.depositInputs 5000).reclaimScriptHex =
          some [0x75, 0x51] := by decide +kernel
        cases hbytes.symm.trans htext
        exact Nat.le_of_ble_eq_true rfl
  obtain ⟨sys, hrun, hcursor, hindex⟩ := Sample.synced_run scripts (hfits (.inr hshort))
  obtain ⟨deposit, hdeposit⟩ := hparsed 100 rfl (by decide) trivial 0
  cases hdeposit.symm.trans (show _ = .ok ⟨.registry 0, scripts.depositScript,
    scripts.reclaimScript⟩ from rfl)
  refine ⟨scripts, sys, hscripts, ?_⟩
  rcases hmonitored (hfits (.inr hshort)) (System.initial fun _ => none) sys ⟨_, .refl⟩ (by decide)
    hrun (by rw [hcursor]; exact Nat.zero_lt_one) _ hdeposit with hsome | ⟨f, hf, -, hlt, -⟩
  · exact hsome
  · rw [hindex f hf] at hlt
    exact absurd hlt (Nat.lt_irrefl 1)

end Spox.Webapp
