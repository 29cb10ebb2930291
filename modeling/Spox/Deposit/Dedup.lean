import Spox.Deposit.Requests

/-!
# Deposit monitor — deposits created once

A deposit that Emily has accepted is not submitted again while its output is
listed, although the monitor forgets all but the last 100,000 outpoints. A
tick looks every listed outpoint up before it writes one, so that the writes
evict outpoints that are not listed any more, and no others
(`lookups_recent`, `submissions_created`).
-/

namespace Spox.Deposit

open Spox.Lib Spox.Client Spox.Sync

/-- The key of a UTXO among the created deposits. -/
def Utxo.outpoint (utxo : Utxo) : Txid × Nat := (utxo.txid, utxo.vout)

section

variable {δ ρ : Type} {crates : Crates δ ρ} {context : Context δ ρ} {chainTip : BlockRef}
  {m : DepositMonitor} {outpoint : Txid × Nat}

/-- The request is one for the outpoint. -/
def CreateDepositRequestBody.IsFor (crates : Crates δ ρ) (outpoint : Txid × Nat)
    (request : CreateDepositRequestBody) : Prop :=
  request.bitcoinTxid = crates.txidToString outpoint.1 ∧
    request.bitcoinTxOutputIndex = outpoint.2

instance : DecidablePred (CreateDepositRequestBody.IsFor crates outpoint) := fun _ =>
  inferInstanceAs (Decidable (_ ∧ _))

/-- A transaction id that is printed is read back. -/
def Crates.ReadsBack (crates : Crates δ ρ) : Prop :=
  ∀ txid, crates.txidFromStr (crates.txidToString txid) = some txid

theorem Crates.ReadsBack.isFor_unique (h : crates.ReadsBack) {request : CreateDepositRequestBody}
    {other : Txid × Nat} (hfor : request.IsFor crates outpoint)
    (hother : request.IsFor crates other) : outpoint = other := by
  have htxid : some outpoint.1 = some other.1 := by
    rw [← h outpoint.1, ← h other.1, ← hfor.1, ← hother.1]
  exact Prod.ext (Option.some.inj htxid) (hfor.2.symm.trans hother.2)

/-! ## The lookups of a tick -/

/-- The outpoints of some UTXOs. -/
def outpoints (utxos : List Utxo) : Finset (Txid × Nat) := (utxos.map Utxo.outpoint).toFinset

theorem mem_outpoints {utxos : List Utxo} :
    outpoint ∈ outpoints utxos ↔ outpoint ∈ utxos.map Utxo.outpoint := List.mem_toFinset

/-- **Every listed outpoint has been looked up** when the requests are
submitted, and none has been forgotten. -/
theorem lookups_recent (utxos : List Utxo) (m : DepositMonitor) :
    Lru.Recent (outpoints utxos)
        (filterMapFrom (pendingDeposit crates context chainTip) 0 utxos m).2.createdDeposits ∧
      ∀ outpoint, outpoint ∈ (filterMapFrom (pendingDeposit crates context chainTip) 0 utxos
        m).2.createdDeposits.keys ↔ outpoint ∈ m.createdDeposits.keys := by
  refine filterMapFrom_invariant (fun seen _ (s : DepositMonitor) =>
    Lru.Recent (outpoints seen) s.createdDeposits ∧
      ∀ outpoint, outpoint ∈ s.createdDeposits.keys ↔ outpoint ∈ m.createdDeposits.keys) [] []
    ?_ ⟨Lru.Recent.start _, fun _ => Iff.rfl⟩
  intro k seen _ utxo s _ hs
  have hinsert : outpoints (seen ++ [utxo]) = insert utxo.outpoint (outpoints seen) := by
    ext q
    simp [outpoints]
  rw [pendingDeposit_createdDeposits, hinsert]
  refine ⟨hs.1.get _, fun outpoint => ?_⟩
  rw [Lru.mem_keys_get]
  exact hs.2 outpoint

/-! ## The submissions of a tick -/

/-- A submission for the outpoint that Emily accepted. -/
def Accepts (crates : Crates δ ρ) (outpoint : Txid × Nat)
    (submission : CreateDepositRequestBody × Bool) : Prop :=
  submission.2 = true ∧ submission.1.IsFor crates outpoint

/-- What is accepted is written, and nothing else. -/
theorem createDeposit_eq (hreads : crates.ReadsBack)
    {emily : Nat → CreateDepositRequestBody → Bool} {i : Nat}
    {deposit : CreateDepositRequestBody} (hfor : deposit.IsFor crates outpoint) :
    createDeposit crates emily i deposit m = (some (deposit, emily i deposit),
      if emily i deposit then
        { m with createdDeposits := m.createdDeposits.put outpoint () }
      else m) := by
  unfold createDeposit
  cases emily i deposit with
  | false => rfl
  | true =>
      simp only [if_true, DepositMonitor.depositCreated, hfor.1, hreads outpoint.1, hfor.2]

/-- The created deposits after some submissions. The outpoints of `s` have
been looked up before. -/
structure Submitted (crates : Crates δ ρ) (s : Finset (Txid × Nat)) (m : DepositMonitor)
    (submissions : List (CreateDepositRequestBody × Bool)) (m' : DepositMonitor) : Prop where
  recent : Lru.Recent s m'.createdDeposits
  new : ∀ outpoint ∈ m'.createdDeposits.keys, outpoint ∈ m.createdDeposits.keys ∨
    ∃ submission ∈ submissions, Accepts crates outpoint submission
  kept : ∀ outpoint ∈ s, outpoint ∈ m.createdDeposits.keys →
    outpoint ∈ m'.createdDeposits.keys
  written : ∀ outpoint ∈ s, ∀ submission ∈ submissions, Accepts crates outpoint submission →
    outpoint ∈ m'.createdDeposits.keys

namespace Submitted

variable {s : Finset (Txid × Nat)} {submissions : List (CreateDepositRequestBody × Bool)}
  {m' : DepositMonitor}

theorem rejected (h : Submitted crates s m submissions m') (deposit : CreateDepositRequestBody) :
    Submitted crates s m (submissions ++ [(deposit, false)]) m' where
  recent := h.recent
  new outpoint hmem := by
    rcases h.new outpoint hmem with hold | ⟨submission, hsubmission, haccepts⟩
    · exact .inl hold
    · exact .inr ⟨submission, List.mem_append_left _ hsubmission, haccepts⟩
  kept := h.kept
  written outpoint hs submission hsubmission haccepts := by
    rcases List.mem_append.mp hsubmission with hsubmission | hlast
    · exact h.written outpoint hs submission hsubmission haccepts
    · rw [List.mem_singleton.mp hlast] at haccepts
      exact Bool.noConfusion haccepts.1

theorem accepted (h : Submitted crates s m submissions m') (hreads : crates.ReadsBack)
    (hfits : s.card ≤ createdDepositsCacheSize) (hs : outpoint ∈ s)
    {deposit : CreateDepositRequestBody} (hfor : deposit.IsFor crates outpoint) :
    Submitted crates s m (submissions ++ [(deposit, true)])
      { m' with createdDeposits := m'.createdDeposits.put outpoint () } := by
  obtain ⟨hrecent, hkeys⟩ := h.recent.put hs hfits ()
  refine ⟨hrecent, ?_, ?_, ?_⟩
  · intro q hq
    rcases Lru.mem_keys_of_mem_put hq with rfl | hq
    · exact .inr ⟨(deposit, true), List.mem_append_right _ List.mem_cons_self, rfl, hfor⟩
    · rcases h.new q hq with hold | ⟨submission, hsubmission, haccepts⟩
      · exact .inl hold
      · exact .inr ⟨submission, List.mem_append_left _ hsubmission, haccepts⟩
  · intro q hq hold
    exact (hkeys q hq).mpr (.inr (h.kept q hq hold))
  · intro q hq submission hsubmission haccepts
    refine (hkeys q hq).mpr ?_
    rcases List.mem_append.mp hsubmission with hsubmission | hlast
    · exact .inr (h.written q hq submission hsubmission haccepts)
    · rw [List.mem_singleton.mp hlast] at haccepts
      exact .inl (hreads.isFor_unique haccepts.2 hfor)

end Submitted

/-- **The submissions of a tick.** Every request is submitted, and as long as
the outpoints looked up fit the cache, the writes forget none of them. -/
theorem submissions_created (hreads : crates.ReadsBack) {s : Finset (Txid × Nat)}
    (hfits : s.card ≤ createdDepositsCacheSize) (hrecent : Lru.Recent s m.createdDeposits)
    (emily : Nat → CreateDepositRequestBody → Bool)
    {deposits : List CreateDepositRequestBody}
    (hdeposits : ∀ deposit ∈ deposits, ∃ outpoint ∈ s, deposit.IsFor crates outpoint) :
    (filterMapFrom (createDeposit crates emily) 0 deposits m).1.map Prod.fst = deposits ∧
      Submitted crates s m (filterMapFrom (createDeposit crates emily) 0 deposits m).1
        (filterMapFrom (createDeposit crates emily) 0 deposits m).2 := by
  refine filterMapFrom_invariant (fun seen submissions (m' : DepositMonitor) =>
    submissions.map Prod.fst = seen ∧ Submitted crates s m submissions m') [] [] ?_
    ⟨rfl, hrecent, fun _ => .inl, fun _ _ => id, by simp⟩
  intro k seen submissions deposit m' hdeposit h
  obtain ⟨hseen, hsubmitted⟩ := h
  obtain ⟨outpoint, hs, hfor⟩ := hdeposits deposit hdeposit
  rw [createDeposit_eq hreads hfor, Option.toList_some, List.map_append, hseen]
  refine ⟨rfl, ?_⟩
  cases emily k deposit with
  | false => exact hsubmitted.rejected deposit
  | true => exact hsubmitted.accepted hreads hfits hs hfor

/-! ## One tick -/

/-- The tick fetches these UTXOs. -/
def Tick.Fetches (tick : Tick δ ρ) (utxos : List Utxo) : Prop :=
  fetchUtxos tick.context tick.chainTip = .ok (some utxos)

/-- The tick lists a UTXO of the outpoint that is monitored and not expired,
and its reads come out. -/
def Tick.Obtains (crates : Crates δ ρ) (tick : Tick δ ρ) (m : DepositMonitor)
    (outpoint : Txid × Nat) : Prop :=
  ∃ utxos i utxo deposit blockHash txHex, tick.Fetches utxos ∧ utxos[i]? = some utxo ∧
    utxo.outpoint = outpoint ∧ Obtained crates tick.context tick.chainTip
      (monitorAt crates tick.context tick.chainTip utxos m i) i utxo deposit blockHash txHex

variable {tick : Tick δ ρ} {utxos : List Utxo}

theorem Tick.Fetches.not_poisoned (h : tick.Fetches utxos) :
    tick.context.storage.poisoned = false := by
  cases hfree : tick.context.storage.poisoned with
  | false => rfl
  | true =>
      rw [Tick.Fetches, fetchUtxos_of_poisoned hfree] at h
      cases h

/-- A request is one for a listed outpoint. -/
theorem Tick.Fetches.isFor (h : tick.Fetches utxos) {request : CreateDepositRequestBody}
    (hrequest : request ∈ (filterMapFrom
      (pendingDeposit crates tick.context tick.chainTip) 0 utxos m).1) :
    ∃ outpoint ∈ outpoints utxos, request.IsFor crates outpoint := by
  obtain ⟨i, utxo, hutxo, hsome⟩ := mem_filterMapFrom.mp hrequest
  obtain ⟨-, deposit, blockHash, txHex, -, rfl⟩ :=
    (pendingDeposit_some h.not_poisoned).mp hsome
  exact ⟨utxo.outpoint, mem_outpoints.mpr (List.mem_map_of_mem (List.mem_of_getElem? hutxo)),
    rfl, rfl⟩

/-- The outpoints that there is a request for. -/
theorem Tick.Fetches.requests (h : tick.Fetches utxos) (hreads : crates.ReadsBack)
    (m : DepositMonitor) (outpoint : Txid × Nat) :
    (∃ request ∈ (filterMapFrom (pendingDeposit crates tick.context tick.chainTip) 0 utxos m).1,
        request.IsFor crates outpoint) ↔
      outpoint ∉ m.createdDeposits.keys ∧ tick.Obtains crates m outpoint := by
  simp only [mem_filterMapFrom, Nat.zero_add, pendingDeposit_some h.not_poisoned]
  constructor
  · intro hrequest
    obtain ⟨request, ⟨i, utxo, hutxo, hfresh, deposit, blockHash, txHex, hobtained, rfl⟩, hfor⟩ :=
      hrequest
    have houtpoint : utxo.outpoint = outpoint := hreads.isFor_unique ⟨rfl, rfl⟩ hfor
    refine ⟨?_, utxos, i, utxo, deposit, blockHash, txHex, h, hutxo, houtpoint, hobtained⟩
    intro hmem
    rw [← houtpoint] at hmem
    exact hfresh (mem_created_monitorAt.mpr hmem)
  · intro hobtains
    obtain ⟨hfresh, utxos', i, utxo, deposit, blockHash, txHex, hfetches, hutxo, rfl,
      hobtained⟩ := hobtains
    cases h.symm.trans hfetches
    refine ⟨_, ⟨i, utxo, hutxo, ?_, deposit, blockHash, txHex, hobtained, rfl⟩, rfl, rfl⟩
    intro hmem
    exact hfresh (mem_created_monitorAt.mp hmem)

/-- A tick that fetches looks up what it lists and submits the requests. -/
theorem Tick.Fetches.run (h : tick.Fetches utxos) (hreads : crates.ReadsBack)
    (hfits : (outpoints utxos).card ≤ createdDepositsCacheSize) (m : DepositMonitor) :
    (tick.run crates m).1.2.map Prod.fst = (filterMapFrom
        (pendingDeposit crates tick.context tick.chainTip) 0 utxos m).1 ∧
      Submitted crates (outpoints utxos) m (tick.run crates m).1.2 (tick.run crates m).2 := by
  obtain ⟨hrecent, hkeys⟩ : Lru.Recent (outpoints utxos) (filterMapFrom
      (pendingDeposit crates tick.context tick.chainTip) 0 utxos m).2.createdDeposits ∧ _ :=
    lookups_recent utxos m
  obtain ⟨hall, hsubmitted⟩ := submissions_created hreads hfits hrecent tick.emily
    fun request => h.isFor
  have hfetch : fetchUtxos tick.context tick.chainTip = .ok (some utxos) := h
  rw [Tick.run, fetchAndCreateDeposits, getPendingDeposits, hfetch]
  exact ⟨hall, hsubmitted.recent, fun outpoint hmem =>
    (hsubmitted.new outpoint hmem).imp_left (hkeys outpoint).mp,
    fun outpoint hs hmem => hsubmitted.kept outpoint hs ((hkeys outpoint).mpr hmem),
    hsubmitted.written⟩

/-- A tick that does not fetch changes nothing. -/
theorem Tick.run_of_not_fetches (h : ∀ utxos, ¬ tick.Fetches utxos) (m : DepositMonitor) :
    (tick.run crates m).1.2 = [] ∧ (tick.run crates m).2 = m := by
  unfold Tick.run fetchAndCreateDeposits getPendingDeposits
  unfold Tick.Fetches at h
  cases hfetch : fetchUtxos tick.context tick.chainTip with
  | error error => exact ⟨rfl, rfl⟩
  | ok utxos =>
      cases utxos with
      | none => exact ⟨rfl, rfl⟩
      | some utxos => exact absurd hfetch (h utxos)

/-- The monitor is fit for what the tick lists. -/
def Tick.Fits (tick : Tick δ ρ) : Prop :=
  ∀ utxos, tick.Fetches utxos → (outpoints utxos).card ≤ createdDepositsCacheSize

/-- **What is submitted** in a tick: the outpoints that are obtained and have
not been created. -/
theorem Tick.submits_iff (hreads : crates.ReadsBack) (hfits : tick.Fits) (m : DepositMonitor)
    (outpoint : Txid × Nat) :
    (∃ submission ∈ (tick.run crates m).1.2, submission.1.IsFor crates outpoint) ↔
      outpoint ∉ m.createdDeposits.keys ∧ tick.Obtains crates m outpoint := by
  by_cases hfetches : ∃ utxos, tick.Fetches utxos
  · obtain ⟨utxos, h⟩ := hfetches
    rw [← h.requests hreads, ← (h.run hreads (hfits utxos h) m).1]
    simp only [List.mem_map, exists_exists_and_eq_and]
  · have hnone : ∀ utxos, ¬ tick.Fetches utxos := fun utxos h => hfetches ⟨utxos, h⟩
    rw [(Tick.run_of_not_fetches hnone m).1]
    constructor
    · intro h
      obtain ⟨submission, hmem, -⟩ := h
      exact absurd hmem List.not_mem_nil
    · intro h
      obtain ⟨-, utxos, _, _, _, _, _, h, -⟩ := h
      exact absurd h (hnone utxos)

/-- What is created after a tick was so before or has been accepted. -/
theorem Tick.created_new (hreads : crates.ReadsBack) (hfits : tick.Fits)
    (h : outpoint ∈ (tick.run crates m).2.createdDeposits.keys) :
    outpoint ∈ m.createdDeposits.keys ∨
      ∃ submission ∈ (tick.run crates m).1.2, Accepts crates outpoint submission := by
  by_cases hfetches : ∃ utxos, tick.Fetches utxos
  · obtain ⟨utxos, hutxos⟩ := hfetches
    exact (hutxos.run hreads (hfits utxos hutxos) m).2.new outpoint h
  · rw [(Tick.run_of_not_fetches (fun utxos hutxos => hfetches ⟨utxos, hutxos⟩) m).2] at h
    exact .inl h

/-- The outpoint is listed if the tick fetches at all. -/
def Tick.Lists (tick : Tick δ ρ) (outpoint : Txid × Nat) : Prop :=
  ∀ utxos, tick.Fetches utxos → outpoint ∈ utxos.map Utxo.outpoint

/-- **A listed outpoint is not forgotten** once it is created. -/
theorem Tick.created_kept (hreads : crates.ReadsBack) (hfits : tick.Fits)
    (hlists : tick.Lists outpoint) (h : outpoint ∈ m.createdDeposits.keys) :
    outpoint ∈ (tick.run crates m).2.createdDeposits.keys := by
  by_cases hfetches : ∃ utxos, tick.Fetches utxos
  · obtain ⟨utxos, hutxos⟩ := hfetches
    exact (hutxos.run hreads (hfits utxos hutxos) m).2.kept outpoint
      (mem_outpoints.mpr (hlists utxos hutxos)) h
  · rwa [(Tick.run_of_not_fetches (fun utxos hutxos => hfetches ⟨utxos, hutxos⟩) m).2]

/-- An outpoint that Emily has accepted is created. -/
theorem Tick.created_of_accepts (hreads : crates.ReadsBack) (hfits : tick.Fits)
    {submission : CreateDepositRequestBody × Bool}
    (hsubmission : submission ∈ (tick.run crates m).1.2)
    (haccepts : Accepts crates outpoint submission) :
    outpoint ∈ (tick.run crates m).2.createdDeposits.keys := by
  have hobtains := ((Tick.submits_iff hreads hfits m outpoint).mp
    ⟨submission, hsubmission, haccepts.2⟩).2
  obtain ⟨utxos, i, utxo, _, _, _, h, hutxo, rfl, -⟩ := hobtains
  have hs : utxo.outpoint ∈ outpoints utxos :=
    mem_outpoints.mpr (List.mem_map_of_mem (List.mem_of_getElem? hutxo))
  exact (h.run hreads (hfits utxos h) m).2.written _ hs submission hsubmission haccepts

/-- A tick submits an outpoint no more often than it lists it. -/
theorem Tick.Fetches.count_submissions_le (h : tick.Fetches utxos) (hreads : crates.ReadsBack)
    (hfits : tick.Fits) (m : DepositMonitor) (outpoint : Txid × Nat) :
    (tick.run crates m).1.2.countP (fun submission => submission.1.IsFor crates outpoint) ≤
      (utxos.map Utxo.outpoint).count outpoint := by
  have hcount : ∀ submissions : List (CreateDepositRequestBody × Bool),
      submissions.countP (fun submission => submission.1.IsFor crates outpoint) =
        (submissions.map Prod.fst).countP fun request => request.IsFor crates outpoint := by
    intro submissions
    rw [List.countP_map]
    rfl
  rw [hcount, (h.run hreads (hfits utxos h) m).1, List.count, List.countP_map]
  refine countP_filterMapFrom_le fun k utxo s request _ hrequest hfor => ?_
  obtain ⟨-, deposit, blockHash, txHex, -, rfl⟩ :=
    (pendingDeposit_some h.not_poisoned).mp hrequest
  have houtpoint : utxo.outpoint = outpoint :=
    hreads.isFor_unique ⟨rfl, rfl⟩ (of_decide_eq_true hfor)
  simpa using houtpoint

/-! ## Runs -/

/-- What the `k`-th tick submits, with whether Emily accepted it. -/
def submissionsAt (crates : Crates δ ρ) (ticks : List (Tick δ ρ)) (k : Nat) :
    List (CreateDepositRequestBody × Bool) :=
  match ticks[k]? with
  | some tick => (tick.run crates (afterTicks crates (ticks.take k))).1.2
  | none => []

/-- The `k`-th tick submits the outpoint. -/
def SubmitsAt (crates : Crates δ ρ) (ticks : List (Tick δ ρ)) (k : Nat)
    (outpoint : Txid × Nat) : Prop :=
  ∃ submission ∈ submissionsAt crates ticks k, submission.1.IsFor crates outpoint

/-- The `k`-th tick submits the outpoint and Emily accepts it. -/
def AcceptsAt (crates : Crates δ ρ) (ticks : List (Tick δ ρ)) (k : Nat)
    (outpoint : Txid × Nat) : Prop :=
  ∃ submission ∈ submissionsAt crates ticks k, Accepts crates outpoint submission

/-- The `k`-th tick lists the outpoint, not expired, and its reads come out. -/
def ObtainsAt (crates : Crates δ ρ) (ticks : List (Tick δ ρ)) (k : Nat)
    (outpoint : Txid × Nat) : Prop :=
  ∃ tick, ticks[k]? = some tick ∧ tick.Obtains crates (afterTicks crates (ticks.take k)) outpoint

/-- The outpoint is created before the `k`-th tick. -/
def CreatedBefore (crates : Crates δ ρ) (ticks : List (Tick δ ρ)) (k : Nat)
    (outpoint : Txid × Nat) : Prop :=
  outpoint ∈ (afterTicks crates (ticks.take k)).createdDeposits.keys

section Runs

variable {ticks : List (Tick δ ρ)} {k : Nat}

theorem afterTicks_take_succ (h : ticks[k]? = some tick) :
    afterTicks crates (ticks.take (k + 1)) =
      (tick.run crates (afterTicks crates (ticks.take k))).2 := by
  rw [List.take_add_one, h, Option.toList_some, afterTicks, List.foldl_append]
  rfl

theorem submitsAt_iff (hreads : crates.ReadsBack) (hfits : ∀ tick ∈ ticks, tick.Fits) :
    SubmitsAt crates ticks k outpoint ↔
      ¬ CreatedBefore crates ticks k outpoint ∧ ObtainsAt crates ticks k outpoint := by
  unfold SubmitsAt submissionsAt ObtainsAt
  cases htick : ticks[k]? with
  | none => simp
  | some tick =>
      have hsubmits := Tick.submits_iff hreads (hfits tick (List.mem_of_getElem? htick))
        (afterTicks crates (ticks.take k)) outpoint
      simp only [hsubmits, Option.some.injEq, exists_eq_left']
      rfl

/-- One tick on: what is created was so before or has been accepted. -/
theorem createdBefore_succ (hreads : crates.ReadsBack) (hfits : ∀ tick ∈ ticks, tick.Fits)
    (h : CreatedBefore crates ticks (k + 1) outpoint) :
    CreatedBefore crates ticks k outpoint ∨ AcceptsAt crates ticks k outpoint := by
  unfold AcceptsAt submissionsAt
  unfold CreatedBefore at h ⊢
  cases htick : ticks[k]? with
  | none =>
      rw [List.take_add_one, htick, Option.toList_none, List.append_nil] at h
      exact .inl h
  | some tick =>
      rw [afterTicks_take_succ htick] at h
      exact Tick.created_new hreads (hfits tick (List.mem_of_getElem? htick)) h

/-- One tick on: a listed outpoint stays created. -/
theorem CreatedBefore.succ (h : CreatedBefore crates ticks k outpoint)
    (hreads : crates.ReadsBack) (hfits : ∀ tick ∈ ticks, tick.Fits)
    (hlists : ∀ tick, ticks[k]? = some tick → tick.Lists outpoint) :
    CreatedBefore crates ticks (k + 1) outpoint := by
  unfold CreatedBefore at h ⊢
  cases htick : ticks[k]? with
  | none =>
      rw [List.take_add_one, htick, Option.toList_none, List.append_nil]
      exact h
  | some tick =>
      rw [afterTicks_take_succ htick]
      exact Tick.created_kept hreads (hfits tick (List.mem_of_getElem? htick)) (hlists tick htick) h

theorem AcceptsAt.createdBefore (h : AcceptsAt crates ticks k outpoint)
    (hreads : crates.ReadsBack) (hfits : ∀ tick ∈ ticks, tick.Fits) :
    CreatedBefore crates ticks (k + 1) outpoint := by
  obtain ⟨submission, hsubmission, haccepts⟩ := h
  unfold submissionsAt at hsubmission
  unfold CreatedBefore
  cases htick : ticks[k]? with
  | none =>
      rw [htick] at hsubmission
      exact absurd hsubmission List.not_mem_nil
  | some tick =>
      rw [htick] at hsubmission
      rw [afterTicks_take_succ htick]
      exact Tick.created_of_accepts hreads (hfits tick (List.mem_of_getElem? htick)) hsubmission
        haccepts

/-- **An accepted outpoint stays created** while it is listed. -/
theorem AcceptsAt.stays (h : AcceptsAt crates ticks k outpoint) (hreads : crates.ReadsBack)
    (hfits : ∀ tick ∈ ticks, tick.Fits) {t : Nat}
    (hlists : ∀ j tick, k < j → j ≤ t → ticks[j]? = some tick → tick.Lists outpoint) {j : Nat}
    (hj : k < j) (hjt : j ≤ t) : CreatedBefore crates ticks j outpoint := by
  induction j, hj using Nat.le_induction with
  | base => exact h.createdBefore hreads hfits
  | succ j hkj ih =>
      have hjt' : j ≤ t := Nat.le_of_succ_le hjt
      exact (ih hjt').succ hreads hfits fun tick htick => hlists j tick hkj hjt' htick

/-- **An outpoint that was not accepted is not created** until it is submitted
again. -/
theorem not_createdBefore (hreads : crates.ReadsBack) (hfits : ∀ tick ∈ ticks, tick.Fits)
    (hsubmits : SubmitsAt crates ticks k outpoint)
    (hrejected : ¬ AcceptsAt crates ticks k outpoint) {j : Nat} (hj : k < j)
    (hnot : ∀ i, k < i → i < j → ¬ ObtainsAt crates ticks i outpoint) :
    ¬ CreatedBefore crates ticks j outpoint := by
  induction j, hj using Nat.le_induction with
  | base =>
      intro h
      rcases createdBefore_succ hreads hfits h with hcreated | haccepts
      · exact ((submitsAt_iff hreads hfits).mp hsubmits).1 hcreated
      · exact hrejected haccepts
  | succ j hkj ih =>
      intro h
      rcases createdBefore_succ hreads hfits h with hcreated | ⟨submission, hmem, haccepts⟩
      · exact ih (fun i hki hij => hnot i hki (Nat.lt_succ_of_lt hij)) hcreated
      · have hsubmitted : SubmitsAt crates ticks j outpoint := ⟨submission, hmem, haccepts.2⟩
        exact hnot j hkj (Nat.lt_succ_self j) ((submitsAt_iff hreads hfits).mp hsubmitted).2

end Runs

/-- **Deposits are created once.** In any run whose ticks list at most 100,000
outpoints each, an outpoint that Emily has accepted is not submitted again as
long as every fetch lists it; no tick submits an outpoint more often than it
lists it; and an outpoint that was submitted in vain is submitted by the next
tick that lists it, unexpired, and reads its block and its transaction. -/
theorem created_deposits_dedup (hreads : crates.ReadsBack) {ticks : List (Tick δ ρ)}
    (hfits : ∀ tick ∈ ticks, ∀ utxos, tick.Fetches utxos →
      (utxos.map Utxo.outpoint).toFinset.card ≤ 100000) (outpoint : Txid × Nat) :
    (∀ s t, AcceptsAt crates ticks s outpoint →
      (∀ k tick, s < k → k ≤ t → ticks[k]? = some tick → tick.Lists outpoint) →
      ∀ k, s < k → k ≤ t → ¬ SubmitsAt crates ticks k outpoint) ∧
    (∀ k tick utxos, ticks[k]? = some tick → tick.Fetches utxos →
      (submissionsAt crates ticks k).countP
          (fun submission => submission.1.IsFor crates outpoint) ≤
        (utxos.map Utxo.outpoint).count outpoint) ∧
    ∀ i j, SubmitsAt crates ticks i outpoint → ¬ AcceptsAt crates ticks i outpoint → i < j →
      ObtainsAt crates ticks j outpoint →
      (∀ k, i < k → k < j → ¬ ObtainsAt crates ticks k outpoint) →
      SubmitsAt crates ticks j outpoint := by
  have hfits' : ∀ tick ∈ ticks, tick.Fits := hfits
  refine ⟨?_, ?_, ?_⟩
  · intro s t haccepts hlists k hsk hkt hsubmits
    exact ((submitsAt_iff hreads hfits').mp hsubmits).1
      (haccepts.stays hreads hfits' hlists hsk hkt)
  · intro k tick utxos htick hfetches
    unfold submissionsAt
    rw [htick]
    exact hfetches.count_submissions_le hreads (hfits' tick (List.mem_of_getElem? htick)) _ outpoint
  · intro i j hsubmits hrejected hij hobtains hnot
    exact (submitsAt_iff hreads hfits').mpr
      ⟨not_createdBefore hreads hfits' hsubmits hrejected hij hnot, hobtains⟩

end

namespace Sample

/-- A tick that finds one output; Emily accepts it or not. -/
def tick (accepted : Bool) : Tick Script Script := ⟨context, chainTip, fun _ _ => accepted⟩

/-- Emily fails once. -/
def ticks : List (Tick Script Script) := [tick false, tick true, tick true]

theorem utxos_of_fetches : ∀ tick ∈ ticks, ∀ utxos, tick.Fetches utxos → utxos = [utxo] := by
  have hall : ∀ accepted utxos, (tick accepted).Fetches utxos → utxos = [utxo] := by
    intro accepted utxos h
    have hfetch : fetchUtxos (tick accepted).context (tick accepted).chainTip =
      .ok (some [utxo]) := rfl
    cases hfetch.symm.trans h
    rfl
  simp only [ticks, List.forall_mem_cons]
  exact ⟨hall false, hall true, hall true, List.forall_mem_nil _⟩

theorem acceptsAt_one : AcceptsAt crates ticks 1 utxo.outpoint := by
  have hsubmissions : submissionsAt crates ticks 1 =
      [(depositRequest crates utxo deposit (raw 7 1000), true)] := by
    rfl
  refine ⟨(depositRequest crates utxo deposit (raw 7 1000), true), ?_, rfl, rfl, rfl⟩
  rw [hsubmissions]
  exact List.mem_cons_self

end Sample

/-- The output is accepted in the second tick and not submitted in the third. -/
theorem created_deposits_dedup_one :
    ¬ SubmitsAt Sample.crates Sample.ticks 2 Sample.utxo.outpoint := by
  have hfits : ∀ tick ∈ Sample.ticks, ∀ utxos, tick.Fetches utxos →
      (utxos.map Utxo.outpoint).toFinset.card ≤ 100000 := by
    intro tick htick utxos h
    rw [Sample.utxos_of_fetches tick htick utxos h]
    decide
  refine (created_deposits_dedup Sample.txidFromStr_txidToString hfits Sample.utxo.outpoint).1
    1 2 Sample.acceptsAt_one ?_ 2 (by decide) (by decide)
  intro k tick _ _ htick utxos h
  rw [Sample.utxos_of_fetches tick (List.mem_of_getElem? htick) utxos h]
  exact List.mem_cons_self

end Spox.Deposit
