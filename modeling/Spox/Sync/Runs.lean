import Spox.Sync.Coverage

/-!
# Address registry — every interleaving

The specification of a tick, carried through whole runs of the system: ticks,
transactions on the registry and panics in any order, from startup.
-/

namespace Spox.Sync

open Spox.Lib Spox.RewardClaims Spox.Client

variable {δ ρ : Type} {sbtc : Sbtc δ ρ} {configured : Bool} {w w' : World δ ρ}
  {sys sys' : System δ ρ}

/-! ## The invariant of the system -/

/-- A finished tick handled the ids from its first cursor to its last, each
once and in order, and a successful one reached the next id it read or had
started past it. -/
structure Report.Sound (r : Report) : Prop where
  start : r.start ≤ r.stop
  handled : r.handled = List.range' r.start (r.stop - r.start)
  reached : r.result = .ok ⟨⟩ → r.stop = max r.start (r.nextRead.getD r.start)

/-- Where the next report will start. -/
def System.resumption (sys : System δ ρ) : Nat :=
  match sys.tick with
  | some tick => tick.start
  | none => sys.world.cursor

/-- What a tick still has to meet; the world is idle when there is none. -/
def System.Meets (sbtc : Sbtc δ ρ) (sys : System δ ρ) : Prop :=
  match sys.tick with
  | some tick =>
      TickMeets sbtc tick.start (fun _ => Succeeded sbtc tick.start) tick.program sys.world
  | none => Idle sbtc sys.world

structure System.Inv (sbtc : Sbtc δ ρ) (sys : System δ ρ) : Prop where
  meets : sys.Meets sbtc
  reports : ∀ r ∈ sys.reports, r.Sound
  chained : sys.reports.IsChain fun r r' => r'.start = r.stop
  last : ∀ r ∈ sys.reports.getLast?, r.stop = sys.resumption

theorem System.Inv.world (h : sys.Inv sbtc) : Sync.Inv sbtc sys.world := by
  have hmeets := h.meets
  unfold System.Meets at hmeets
  split at hmeets
  · exact hmeets.safe
  · exact hmeets.inv

theorem inv_initial (monitored : List UInt8 → Option (MonitoredDeposit δ ρ)) :
    (System.initial monitored).Inv sbtc where
  meets :=
    { inv :=
        { seen := Nat.le_refl 0
          grows := fun _ _ _ _ => Nat.le_refl _
          cursor := Nat.le_refl 0
          handled := rfl
          index := fun _ hf => by cases hf
          resumes := fun _ hf => by cases hf
          fetched := fun _ hid => absurd hid (Nat.not_lt_zero _)
          monitored := fun _ hf => by cases hf }
      resumable := .inl fun _ hf => by cases hf }
  reports := fun _ hr => by cases hr
  chained := List.isChain_nil
  last := fun _ hr => by cases hr

/-- The report of a tick that ended as specified. -/
theorem report_sound {origin : Nat} {result : Except Error PUnit} (hinv : Sync.Inv sbtc w)
    (hstart : origin ≤ w.cursor)
    (hreached : result = .ok ⟨⟩ → w.cursor = max origin (w.nextRead.getD origin)) :
    (report w origin result).Sound where
  start := hstart
  handled := by
    show w.handled.drop origin = List.range' origin (w.cursor - origin)
    rw [hinv.handled, List.range_eq_range', List.drop_range', Nat.zero_add, Nat.mul_one]
  reached := hreached

/-- A tick that ends leaves the world idle and a sound report. -/
theorem meets_ended {origin : Nat} {p : Update δ ρ PUnit} {result : Except Error PUnit}
    (h : TickMeets sbtc origin (fun _ => Succeeded sbtc origin) p w)
    (hended : ended p = some result) :
    Idle sbtc w ∧ (report w origin result).Sound := by
  cases p with
  | pure a =>
      cases hended
      have hpost := h.of_pure
      refine ⟨hpost.idle, report_sound hpost.idle.inv ?_ fun _ => hpost.reached⟩
      rw [hpost.reached]
      exact Nat.le_max_left _ _
  | fail e =>
      cases hended
      have hpost := h.of_fail
      exact ⟨hpost.idle, report_sound hpost.idle.inv hpost.start fun herr => by cases herr⟩
  | ask q resume => cases hended

/-- **Every step keeps the invariant.** -/
theorem System.Step.inv (h : Step sbtc configured sys sys') (hinv : sys.Inv sbtc) :
    sys'.Inv sbtc := by
  obtain ⟨hmeets, hreports, hchained, hlast⟩ := hinv
  cases h with
  | @environment w w' tick reports hrely =>
      cases tick with
      | none =>
          have hdist := hrely.undisturbed
          exact ⟨hdist.idle hmeets, hreports, hchained, fun r hr =>
            (hlast r hr).trans hdist.cursor.symm⟩
      | some tick => exact ⟨Process.Meets.rely hmeets hrely, hreports, hchained, hlast⟩
  | @start w reports =>
      have hidle : Idle sbtc w := hmeets
      have hstarted : Started sbtc w.cursor { w with nextRead := none } :=
        ⟨⟨{ hidle.inv with }, hidle.resumable⟩, rfl, rfl⟩
      exact ⟨updateFromRegistry_meets hstarted, hreports, hchained, hlast⟩
  | run hstep => exact ⟨Process.Meets.step hmeets hstep, hreports, hchained, hlast⟩
  | @finish w p result origin reports hended =>
      -- the next tick starts at the cursor of this report
      obtain ⟨hidle, hsound⟩ := meets_ended hmeets hended
      refine ⟨hidle, ?_, ?_, ?_⟩
      · intro r hr
        rcases List.mem_append.mp hr with hr | hr
        · exact hreports r hr
        · rw [List.mem_singleton.mp hr]
          exact hsound
      · refine List.isChain_append.mpr ⟨hchained, List.isChain_singleton _, ?_⟩
        intro r hr r' hr'
        cases hr'
        exact (hlast r hr).symm
      · intro r hr
        rw [List.getLast?_append, List.getLast?_singleton] at hr
        cases hr
        rfl

theorem System.Reachable.inv (h : sys.Reachable sbtc configured) : sys.Inv sbtc := by
  obtain ⟨monitored, hrun⟩ := h
  induction hrun with
  | refl => exact inv_initial monitored
  | tail _ hstep ih => exact hstep.inv ih

/-! ## Other invariants of the world -/

section

variable {I : World δ ρ → Prop}

/-- Code of a tick during which an invariant of the world holds at every moment. -/
abbrev Maintains {α : Type} (sbtc : Sbtc δ ρ) (I : World δ ρ → Prop) :
    Update δ ρ α → World δ ρ → Prop :=
  Process.Meets (environment sbtc) I (fun _ => I) fun _ => I

/-- An invariant of the world holds, and will until the tick in progress ends. -/
def System.Keeps (sbtc : Sbtc δ ρ) (I : World δ ρ → Prop) (sys : System δ ρ) : Prop :=
  match sys.tick with
  | some tick => Maintains sbtc I tick.program sys.world
  | none => I sys.world

theorem System.Keeps.holds (h : sys.Keeps sbtc I) : I sys.world := by
  unfold System.Keeps at h
  split at h
  · exact Process.Meets.safe h
  · exact h

/-- What the environment and a tick keep, every step keeps. -/
theorem System.Step.keeps (hrely : ∀ w w', I w → Rely w w' → I w')
    (htick : ∀ w, I w →
      Maintains sbtc I (updateFromRegistry sbtc configured) { w with nextRead := none })
    (h : Step sbtc configured sys sys') (hkeeps : sys.Keeps sbtc I) : sys'.Keeps sbtc I := by
  cases h with
  | @environment w w' tick reports hstep =>
      cases tick with
      | none => exact hrely w w' hkeeps hstep
      | some tick => exact Process.Meets.rely hkeeps hstep
  | @start w reports => exact htick w hkeeps
  | run hstep => exact Process.Meets.step hkeeps hstep
  | @finish w p result origin reports hended =>
      have hprogram : Maintains sbtc I p w := hkeeps
      exact hprogram.safe

theorem System.Run.keeps (hrely : ∀ w w', I w → Rely w w' → I w')
    (htick : ∀ w, I w →
      Maintains sbtc I (updateFromRegistry sbtc configured) { w with nextRead := none })
    (h : Run sbtc configured sys sys') (hkeeps : sys.Keeps sbtc I) : sys'.Keeps sbtc I := by
  induction h with
  | refl => exact hkeeps
  | tail _ hstep ih => exact hstep.keeps hrely htick ih

end

/-! ## The cursor only moves up -/

theorem answer_handled {q : Request δ ρ} {r : Except Error q.Answer}
    (h : answer sbtc q w r w') : w.handled.length ≤ w'.handled.length := by
  cases q with
  | getLastNextAddressId =>
      obtain ⟨-, hw⟩ := h
      rw [hw]
  | setLastNextAddressId addressId next =>
      rcases setLast_cases sbtc h with ⟨-, -, hw⟩ | ⟨-, hw⟩
      · rw [hw]
      · rw [hw]
        show w.handled.length ≤ (w.handled ++ [addressId]).length
        rw [List.length_append]
        exact Nat.le_add_right _ _
  | add deposit =>
      rcases add_cases h with ⟨-, -, hw⟩ | ⟨-, hw⟩
      · rw [hw]
      · rw [hw]
        exact Nat.le_refl _
  | callNextAddressId =>
      rcases h with ⟨e, -, hw⟩ | ⟨i, -, -, -, hw⟩
      · rw [hw]
      · rw [hw]
  | callAddresses ids =>
      rcases h with ⟨e, -, hw⟩ | ⟨value, -, hw, -⟩ | ⟨i, -, -, -, hw⟩
      · rw [hw]
      · rw [hw]
      · rw [hw]

theorem System.Step.handled (h : Step sbtc configured sys sys') :
    sys.world.handled.length ≤ sys'.world.handled.length := by
  cases h with
  | environment hrely => exact Nat.le_of_eq (congrArg List.length hrely.undisturbed.handled.symm)
  | start => exact Nat.le_refl _
  | run hstep =>
      cases hstep with
      | rely hrely => exact Nat.le_of_eq (congrArg List.length hrely.undisturbed.handled.symm)
      | answer hanswer => exact answer_handled hanswer
      | error hanswer => exact answer_handled hanswer
  | finish => exact Nat.le_refl _

theorem System.Run.handled (h : Run sbtc configured sys sys') :
    sys.world.handled.length ≤ sys'.world.handled.length := by
  induction h with
  | refl => exact Nat.le_refl _
  | tail _ hstep ih => exact ih.trans hstep.handled

theorem Inv.length_handled (h : Inv sbtc w) : w.handled.length = w.cursor := by
  rw [h.handled, List.length_range]

/-! ## No id is skipped -/

/-- What the sync guarantees in a state of the system. -/
structure NeverSkips (sbtc : Sbtc δ ρ) (configured : Bool) (sys : System δ ρ) : Prop where
  /-- The cursor never decreases. -/
  monotone : ∀ sys', System.Run sbtc configured sys sys' →
    sys.world.cursor ≤ sys'.world.cursor
  /-- It never exceeds the registry's next id. -/
  bounded : sys.world.cursor ≤ (sys.world.states sys.world.now).nextAddressId
  /-- Every id below it has been fetched. -/
  fetched : ∀ id < sys.world.cursor, ∃ f ∈ sys.world.fetches, id ∈ f.ids
  /-- If its entry was there and parsed in the state it was fetched from, its
  script pubkey is monitored. -/
  monitored : ∀ f ∈ sys.world.fetches, ∀ id ∈ f.ids, id < sys.world.cursor → ∀ deposit,
    registered sbtc (sys.world.states f.index) id = .ok deposit →
    (sys.world.monitored (deposit.toScriptPubkey sbtc)).isSome = true
  /-- It is just after the last id handled, and the ids before it were all
  handled, each once and in order. -/
  handled : sys.world.handled = List.range sys.world.cursor
  /-- A fetch takes the ids from the cursor on. -/
  resumes : ∀ f ∈ sys.world.fetches, f.ids = List.range' f.cursor f.ids.length
  /-- A tick, failed or not, handled the ids between its two cursors; a
  successful one ended at the next id it read, or where it was if that is
  past it. -/
  reports : ∀ r ∈ sys.reports, r.Sound
  /-- The next tick starts where the last one stopped. -/
  chained : sys.reports.IsChain fun r r' => r'.start = r.stop

/-- **The sync never skips an address**, in any interleaving of ticks with
transactions on the registry, with reads that fail, lie about their ids or
lag behind. -/
theorem sync_never_skips (h : sys.Reachable sbtc configured) :
    NeverSkips sbtc configured sys := by
  have hinv := h.inv
  have hworld := hinv.world
  refine ⟨?_, ?_, hworld.fetched, hworld.monitored, hworld.handled, hworld.resumes,
    hinv.reports, hinv.chained⟩
  · intro sys' hrun
    obtain ⟨monitored, hto⟩ := h
    have hworld' : Inv sbtc sys'.world :=
      (System.Reachable.inv ⟨monitored, hto.trans hrun⟩).world
    rw [← hworld.length_handled, ← hworld'.length_handled]
    exact hrun.handled
  · exact hworld.cursor.trans (hworld.grows _ _ hworld.seen (Nat.le_refl _))

/-! ### A sample run -/

/-- Scripts that always parse. -/
def sampleSbtc : Sbtc (List UInt8) (List UInt8) := ⟨.ok, .ok, (· ++ ·)⟩

/-- The scripts of one deposit address. -/
def sampleScripts : Buff 196 × Buff 2048 := (⟨[81], by decide⟩, ⟨[82], by decide⟩)

/-- The registry once the address is in it. -/
def sampleRegistry : Registry :=
  Tx.commit (registerAddress sampleScripts.1 sampleScripts.2) .deployed

/-- The deposit that is read from it. -/
def sampleDeposit : MonitoredDeposit (List UInt8) (List UInt8) := ⟨.registry 0, [81], [82]⟩

/-- The world when the address has been registered, before the first tick. -/
def sampleWorld : World (List UInt8) (List UInt8) :=
  World.advance sampleRegistry (System.initial fun _ => none).world

/-- The world once the next id has been read. -/
def sampleRead : World (List UInt8) (List UInt8) :=
  { sampleWorld with seen := 1, nextRead := some 1 }

/-- The world once its entry has been fetched. -/
def sampleFetched : World (List UInt8) (List UInt8) :=
  { sampleRead with fetches := [⟨0, [0], 1⟩] }

/-- The world once its deposit has been added. -/
def sampleAdded : World (List UInt8) (List UInt8) :=
  { sampleFetched with
    shared := ⟨false, 0, Function.update (fun _ => none) [81, 82] (some sampleDeposit)⟩ }

/-- The world once the cursor has moved past it. -/
def sampleSynced : World (List UInt8) (List UInt8) :=
  { sampleAdded with
    handled := [0]
    shared := ⟨false, 1, sampleAdded.monitored⟩ }

/-- An address is registered and one tick runs to its end. -/
theorem sampleRun : System.Reachable sampleSbtc true
    ⟨sampleSynced, none, [⟨0, some 1, .ok ⟨⟩, [0], 1⟩]⟩ := by
  have hregister : Rely (System.initial fun _ => none).world sampleWorld := .register _ _ _
  have hlast : answer sampleSbtc .getLastNextAddressId { sampleWorld with nextRead := none }
      (.ok (0 : Nat)) sampleWorld := ⟨rfl, rfl⟩
  have hread : answer sampleSbtc .callNextAddressId sampleWorld (.ok (.uint 1)) sampleRead :=
    .inr ⟨1, by decide, by decide, rfl, rfl⟩
  have hfetch : answer sampleSbtc (.callAddresses [0]) sampleRead
      (.ok (getAddresses sampleRegistry [0])) sampleFetched :=
    .inr (.inr ⟨1, by decide, by decide, rfl, rfl⟩)
  have hadd : answer sampleSbtc (.add sampleDeposit) sampleFetched (.ok ()) sampleAdded := rfl
  have hset : answer sampleSbtc (.setLastNextAddressId 0 1) sampleAdded (.ok ())
      sampleSynced := rfl
  refine ⟨fun _ => none, ?_⟩
  refine .head (.environment hregister) ?_
  refine .head .start ?_
  refine .head (.run (.answer hlast)) ?_
  refine .head (.run (.answer hread)) ?_
  refine .head (.run (.answer hfetch)) ?_
  refine .head (.run (.answer hadd)) ?_
  refine .head (.run (.answer hset)) ?_
  exact .single (.finish rfl)

/-- Two more addresses, registered after the first tick. -/
def sampleRegistryTwo : Registry :=
  Tx.commit (registerAddress ⟨[81], by decide⟩ ⟨[83], by decide⟩) sampleRegistry

def sampleRegistryThree : Registry :=
  Tx.commit (registerAddress ⟨[81], by decide⟩ ⟨[84], by decide⟩) sampleRegistryTwo

def sampleGrown : World (List UInt8) (List UInt8) :=
  (sampleSynced.advance sampleRegistryTwo).advance sampleRegistryThree

/-- The world once the second tick has fetched both in one chunk. -/
def sampleChunk : World (List UInt8) (List UInt8) :=
  { sampleGrown with seen := 3, nextRead := some 3, fetches := [⟨0, [0], 1⟩, ⟨1, [1, 2], 3⟩] }

/-- The deposit of the first of them. -/
def sampleSecond : MonitoredDeposit (List UInt8) (List UInt8) := ⟨.registry 1, [81], [83]⟩

/-- The world once it has been handled and the store is poisoned. -/
def sampleHalf : World (List UInt8) (List UInt8) :=
  { sampleChunk with
    handled := [0, 1]
    shared := ⟨true, 2, Function.update sampleSynced.monitored [81, 83] (some sampleSecond)⟩ }

/-- The second tick fails between the two entries of its chunk. -/
theorem sampleFailure : System.Run sampleSbtc true
    ⟨sampleSynced, none, [⟨0, some 1, .ok ⟨⟩, [0], 1⟩]⟩
    ⟨sampleHalf, none,
      [⟨0, some 1, .ok ⟨⟩, [0], 1⟩, ⟨1, some 3, .error .poisonedMutex, [1], 2⟩]⟩ := by
  have hsecond : Rely sampleSynced (sampleSynced.advance sampleRegistryTwo) := .register _ _ _
  have hthird : Rely (sampleSynced.advance sampleRegistryTwo) sampleGrown := .register _ _ _
  have hlast : answer sampleSbtc .getLastNextAddressId { sampleGrown with nextRead := none }
      (.ok (1 : Nat)) { sampleGrown with nextRead := none } := ⟨rfl, rfl⟩
  have hread : answer sampleSbtc .callNextAddressId { sampleGrown with nextRead := none }
      (.ok (.uint 3)) { sampleGrown with seen := 3, nextRead := some 3 } :=
    .inr ⟨3, by decide, by decide, rfl, rfl⟩
  have hfetch : answer sampleSbtc (.callAddresses [1, 2])
      { sampleGrown with seen := 3, nextRead := some 3 }
      (.ok (getAddresses sampleRegistryThree [1, 2])) sampleChunk :=
    .inr (.inr ⟨3, by decide, by decide, rfl, rfl⟩)
  have hadd : answer sampleSbtc (.add sampleSecond) sampleChunk (.ok ())
      (sampleChunk.monitor sampleSbtc sampleSecond) := rfl
  have hset : answer sampleSbtc (.setLastNextAddressId 1 2)
      (sampleChunk.monitor sampleSbtc sampleSecond) (.ok ())
      { sampleHalf with shared := { sampleHalf.shared with poisoned := false } } := rfl
  have hpoisoned : answer sampleSbtc (.add ⟨.registry 2, [81], [84]⟩) sampleHalf
      (.error .poisonedMutex) sampleHalf := rfl
  refine .head (.environment hsecond) ?_
  refine .head (.environment hthird) ?_
  refine .head .start ?_
  refine .head (.run (.answer hlast)) ?_
  refine .head (.run (.answer hread)) ?_
  refine .head (.run (.answer hfetch)) ?_
  refine .head (.run (.answer hadd)) ?_
  refine .head (.run (.answer hset)) ?_
  refine .head (.environment (.poison _)) ?_
  refine .head (.run (.error hpoisoned)) ?_
  exact .single (.finish rfl)

/-- A tick has succeeded and the next has failed in mid-chunk: the cursor is
behind the entry it handled and before the one it did not. -/
theorem sync_never_skips_failed : ∃ sys : System (List UInt8) (List UInt8),
    sys.world.cursor = 2 ∧ sys.reports.map (fun r => (r.start, r.stop)) = [(0, 1), (1, 2)] ∧
      (sys.world.monitored [81, 83]).isSome = true ∧ sys.world.monitored [81, 84] = none ∧
      NeverSkips sampleSbtc true sys := by
  obtain ⟨monitored, hsynced⟩ := sampleRun
  exact ⟨_, rfl, rfl, rfl, rfl, sync_never_skips ⟨monitored, hsynced.trans sampleFailure⟩⟩

end Spox.Sync
