import Spox.Lib.Offsets
import Spox.Webapp.RegistryEvents

/-!
# Webapp — the activity panel

`loadPage` of `activity-panel.tsx`. The server's offset counts entries, the
panel's counts the events it kept, and it takes a page that kept fewer than
`PAGE_SIZE` events for the last one. So the panel is a client of
`Lib.Offsets`: it shows everything exactly if nothing it could show comes after
the page of the first entry the parser rejects.
-/

namespace Spox.Webapp

open Spox.Lib

/-- `PAGE_SIZE`. -/
def pageSize : Nat := 20

/-- The state of the panel that loading changes. -/
structure ActivityState where
  events : List RegistryContractEvent
  offset : Nat
  hasMore : Bool
  error : Text

section

variable (library : StacksLibrary) (fetch : EventsRequest → Answer) (config : ClaimsConfig)

/-- `loadPage`. -/
def loadPage (s : ActivityState) (nextOffset : Nat) (replace : Bool) : ActivityState :=
  if config.claimsContract.isEmpty then
    { s with
      error := "Claims registry contract is not configured for this network.".toList
      events := []
      hasMore := false }
  else
    match fetchRegistryContractEvents library fetch config (some pageSize) (some nextOffset) with
    | .ok page =>
        { events := if replace then page.events else s.events ++ page.events
          offset := nextOffset + page.events.length
          hasMore := decide (pageSize ≤ page.events.length)
          error := [] }
    | .error message =>
        { s with
          error := message
          events := if replace then [] else s.events
          hasMore := false }

/-- `Load more` as long as the panel offers it, at most `fuel` times. -/
def loadMore : Nat → ActivityState → Option ActivityState
  | 0, s => if s.hasMore then none else some s
  | fuel + 1, s =>
      if s.hasMore then loadMore fuel (loadPage library fetch config s s.offset false) else some s

end

/-- A server with a fixed list of entries, newest first. -/
def serve (entries : List RawContractEvent) (request : EventsRequest) : Answer :=
  .body (some request.limit) (some request.offset)
    (some ((entries.drop request.offset).take request.limit))

/-- What the panel has loaded. -/
def ActivityState.loaded (s : ActivityState) : Loaded RegistryContractEvent :=
  ⟨s.events, s.offset, s.hasMore⟩

section

variable {library : StacksLibrary} {config : ClaimsConfig} {entries : List RawContractEvent}
  {s s' : ActivityState} {fuel k : Nat}

theorem loadPage_replace (hconfig : config.claimsContract ≠ []) :
    (loadPage library (serve entries) config s 0 true).loaded =
      (⟨[], 0, false⟩ : Loaded RegistryContractEvent).next pageSize
        (parseRegistryContractEvent library) entries := by
  have hset : config.claimsContract.isEmpty = false := List.isEmpty_eq_false_iff.mpr hconfig
  simp only [loadPage, fetchRegistryContractEvents, hset, Bool.false_eq_true, if_false]
  rfl

theorem loadPage_append (hconfig : config.claimsContract ≠ []) :
    (loadPage library (serve entries) config s s.offset false).loaded =
      s.loaded.next pageSize (parseRegistryContractEvent library) entries := by
  have hset : config.claimsContract.isEmpty = false := List.isEmpty_eq_false_iff.mpr hconfig
  simp only [loadPage, fetchRegistryContractEvents, hset, Bool.false_eq_true, if_false]
  rfl

/-- The window of the first entry that is rejected. -/
def lastPage (library : StacksLibrary) (entries : List RawContractEvent) : Nat :=
  lastWindow pageSize (parseRegistryContractEvent library) entries

/-- The panel has read `k + 1` pages. -/
def HasRead (library : StacksLibrary) (entries : List RawContractEvent) (k : Nat)
    (s : ActivityState) : Prop :=
  s.loaded.Reads pageSize (parseRegistryContractEvent library) entries k

theorem hasRead_start (hconfig : config.claimsContract ≠ []) :
    HasRead library entries 0 (loadPage library (serve entries) config s 0 true) := by
  rw [HasRead, loadPage_replace hconfig]
  exact Loaded.next_reads (by decide) (Nat.zero_le _) rfl rfl

theorem HasRead.loadPage (h : HasRead library entries k s) (hconfig : config.claimsContract ≠ [])
    (hmore : s.hasMore = true) : HasRead library entries (k + 1)
      (Webapp.loadPage library (serve entries) config s s.offset false) := by
  rw [HasRead, loadPage_append hconfig]
  exact Loaded.Reads.next h (by decide) hmore

/-- The panel stops at the page of the first rejected entry, -/
theorem HasRead.loadMore (h : HasRead library entries k s) (hconfig : config.claimsContract ≠ [])
    (hk : k ≤ lastPage library entries)
    (hrun : Webapp.loadMore library (serve entries) config fuel s = some s') :
    HasRead library entries (lastPage library entries) s' := by
  have hstop : s.hasMore ≠ true → k = lastPage library entries := by
    intro hno
    by_contra hne
    exact hno (h.more.mpr (show k < lastPage library entries by omega))
  induction fuel generalizing k s with
  | zero =>
      rw [Webapp.loadMore] at hrun
      split at hrun
      · cases hrun
      · next hno =>
          cases hrun
          exact hstop hno ▸ h
  | succ fuel ih =>
      rw [Webapp.loadMore] at hrun
      split at hrun
      · next hmore =>
          have hnext := h.loadPage hconfig hmore
          have hlt : k < lastPage library entries := h.more.mp hmore
          refine ih hnext hlt hrun fun hno => ?_
          by_contra hne
          exact hno (hnext.more.mpr (show k + 1 < lastPage library entries by omega))
      · next hno =>
          cases hrun
          exact hstop hno ▸ h

/-- and it stops. -/
theorem HasRead.exists_loadMore (h : HasRead library entries k s)
    (hconfig : config.claimsContract ≠ []) (hfuel : lastPage library entries ≤ k + fuel) :
    ∃ s', Webapp.loadMore library (serve entries) config fuel s = some s' := by
  induction fuel generalizing k s with
  | zero =>
      have hno : ¬s.hasMore = true := by
        intro hmore
        have hlt : k < lastPage library entries := h.more.mp hmore
        omega
      exact ⟨s, if_neg hno⟩
  | succ fuel ih =>
      rw [Webapp.loadMore]
      split
      · next hmore => exact ih (h.loadPage hconfig hmore) (by omega)
      · exact ⟨s, rfl⟩

/-- **What the panel ends with**: it stops, and shows every event of the
server's list, once and in order, exactly if no event comes after the page in
which the first rejected entry lies. -/
theorem loadMore_events_iff (library : StacksLibrary) {config : ClaimsConfig}
    (hconfig : config.claimsContract ≠ []) (entries : List RawContractEvent)
    (s : ActivityState) :
    (∃ fuel s', loadMore library (serve entries) config fuel
      (loadPage library (serve entries) config s 0 true) = some s') ∧
    ∀ fuel s', loadMore library (serve entries) config fuel
        (loadPage library (serve entries) config s 0 true) = some s' →
      (s'.events = entries.filterMap (parseRegistryContractEvent library) ↔
        ∀ raw ∈ entries.drop (pageSize *
            (firstRejected (parseRegistryContractEvent library) entries / pageSize + 1)),
          parseRegistryContractEvent library raw = none) := by
  have hstart : HasRead library entries 0 (loadPage library (serve entries) config s 0 true) :=
    hasRead_start hconfig
  constructor
  · obtain ⟨s', hs'⟩ := hstart.exists_loadMore hconfig (Nat.le_add_left _ 0)
    exact ⟨_, s', hs'⟩
  · intro fuel s' hrun
    exact (hstart.loadMore hconfig (Nat.zero_le _) hrun).complete_iff

end

namespace Sample

def config : ClaimsConfig := ⟨"http://localhost:3999".toList, "ST2.reward-claim-registry".toList⟩

/-- A print of the registry. -/
def logEvent (i : Nat) : RawContractEvent :=
  ⟨some i, some "smart_contract_log".toList, some "0xabc".toList,
    some ⟨none, some ⟨some topicHex, none⟩⟩⟩

/-- An entry of another type, newer than 20 prints. -/
def mixed : List RawContractEvent :=
  ⟨some 20, some "stx_asset".toList, some "0xabc".toList, none⟩ :: (List.range 20).map logEvent

def closed : ActivityState := ⟨[], 0, false, []⟩

end Sample

/-- 21 prints are on two pages, and all of them are shown. -/
theorem loadMore_events_prints : ∃ fuel s', loadMore Sample.library
    (serve ((List.range 21).map Sample.logEvent)) Sample.config fuel
      (loadPage Sample.library (serve ((List.range 21).map Sample.logEvent)) Sample.config
        Sample.closed 0 true) = some s' ∧
    s'.events = ((List.range 21).map Sample.logEvent).filterMap
      (parseRegistryContractEvent Sample.library) := by
  obtain ⟨⟨fuel, s', hrun⟩, hiff⟩ := loadMore_events_iff Sample.library
    (show Sample.config.claimsContract ≠ [] by decide)
    ((List.range 21).map Sample.logEvent) Sample.closed
  refine ⟨fuel, s', hrun, (hiff fuel s' hrun).mpr ?_⟩
  rw [List.drop_eq_nil_of_le (by decide +kernel)]
  exact fun _ h => absurd h List.not_mem_nil

/-- The oldest print after one rejected entry is lost: the panel keeps 19 events
of its first page and takes it for the last one. -/
theorem loadMore_events_mixed : ∃ s', loadMore Sample.library (serve Sample.mixed) Sample.config 0
      (loadPage Sample.library (serve Sample.mixed) Sample.config Sample.closed 0 true) = some s' ∧
    s'.events.length = 19 ∧
    s'.events ≠ Sample.mixed.filterMap (parseRegistryContractEvent Sample.library) := by
  have hlength : (loadPage Sample.library (serve Sample.mixed) Sample.config Sample.closed 0
      true).events.length = 19 := by decide +kernel
  refine ⟨_, if_neg (by decide +kernel), hlength, fun h => ?_⟩
  rw [h] at hlength
  exact absurd hlength (by decide +kernel)

end Spox.Webapp
