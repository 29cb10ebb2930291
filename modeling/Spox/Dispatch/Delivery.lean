import Mathlib.Data.List.Chain
import Spox.Dispatch.ChainTips
import Spox.Lib.Feed

/-!
# Chain tips — what reaches a processor

Whatever the schedule, a processor gets a part of the tips broadcast since it
subscribed, in order and each at most once, and every tip it does not get is
accounted for. A processor that is never further behind than its mailbox is
large loses none, whatever the other processes do. One that lost tips gets to
the newest again by its own turns.
-/

namespace Spox.Dispatch

open Spox.Deposit (BlockRef)
open Spox.Lib (Feed)

variable {slots : Nat} {s : System} {sub sub' : Subscriber} {sent : List BlockRef}

/-! ## What a turn does -/

/-- What one turn of a dispatcher does. -/
inductive Dispatched (slots : Nat) (sent : List BlockRef) (sub : Subscriber) :
    Subscriber → Prop
  | waited : Dispatched slots sent sub sub
  | delivered (tip : BlockRef) (htip : sent[sub.cursor]? = some tip)
      (hroom : sub.mailbox.length < mailboxCapacity) :
      Dispatched slots sent sub
        { sub with cursor := sub.cursor + 1, mailbox := sub.mailbox ++ [tip] }
  | refused (tip : BlockRef) (htip : sent[sub.cursor]? = some tip)
      (hfull : sub.running = true → mailboxCapacity ≤ sub.mailbox.length) :
      Dispatched slots sent sub
        { sub with
          cursor := sub.cursor + 1
          refused := sub.refused + 1
          dispatcher := .refused }
  | lagged (skipped : Nat) (hbehind : sub.cursor < sent.length - slots)
      (hskipped : sub.cursor + skipped = sent.length - slots) :
      Dispatched slots sent sub
        { sub with cursor := sub.cursor + skipped, skipped := sub.skipped + skipped }
  | asked (dispatcher : Dispatcher) (hrefused : sub.dispatcher = .refused)
      (hstopped : dispatcher = .stopped → sub.running = false) :
      Dispatched slots sent sub { sub with dispatcher := dispatcher }

theorem Subscriber.dispatched (slots : Nat) (sent : List BlockRef) (sub : Subscriber) :
    Dispatched slots sent sub (sub.dispatch slots sent) := by
  unfold Subscriber.dispatch
  split
  · unfold recv
    by_cases hbehind : sub.cursor < sent.length - slots
    · have hskipped : sub.cursor + (sent.length - slots - sub.cursor) = sent.length - slots := by
        omega
      simp only [if_pos hbehind]
      exact .lagged _ hbehind hskipped
    · simp only [if_neg hbehind]
      cases htip : sent[sub.cursor]? with
      | none => exact .waited
      | some tip =>
          by_cases hroom : sub.running = true ∧ sub.mailbox.length < mailboxCapacity
          · simp only [Option.map_some, Subscriber.trySend, if_pos hroom]
            exact .delivered tip htip hroom.2
          · simp only [Option.map_some, Subscriber.trySend, if_neg hroom]
            have hfull : sub.running = true → mailboxCapacity ≤ sub.mailbox.length := by
              intro hrunning
              exact Nat.le_of_not_lt fun hlt => hroom ⟨hrunning, hlt⟩
            exact .refused tip htip hfull
  · next hrefused =>
      refine .asked _ hrefused fun hstopped => ?_
      cases hrunning : sub.running with
      | false => rfl
      | true =>
          rw [hrunning, if_pos rfl] at hstopped
          cases hstopped
  · exact .waited

/-- What one turn of any task does to one subscriber. -/
inductive Turn (slots : Nat) (sent : List BlockRef) (sub : Subscriber) : Subscriber → Prop
  | idle : Turn slots sent sub sub
  | dispatched {sub' : Subscriber} (h : Dispatched slots sent sub sub') :
      Turn slots sent sub sub'
  | processed (tip : BlockRef) (rest : List BlockRef) (hmail : sub.mailbox = tip :: rest) :
      Turn slots sent sub { sub with mailbox := rest, processed := sub.processed ++ [tip] }
  | closed : Turn slots sent sub sub.close

theorem Subscriber.process_turn (sub : Subscriber) : Turn slots sent sub sub.process := by
  unfold Subscriber.process
  cases hmail : sub.mailbox with
  | nil => exact .idle
  | cons tip rest =>
      by_cases hrunning : sub.running = true
      · simp only [if_pos hrunning]
        exact .processed tip rest hmail
      · simp only [if_neg hrunning]
        exact .idle

/-- What one turn of any task does to what was broadcast: nothing, or one tip
that the poller has not just seen is added, and nobody moves. -/
inductive Broadcast (s s' : System) : Prop
  | same (hsent : s'.sent = s.sent) (hseen : s'.lastSeen = s.lastSeen)
  | added (tip : BlockRef) (hnew : some tip ≠ s.lastSeen) (hsent : s'.sent = s.sent ++ [tip])
      (hseen : s'.lastSeen = some tip)

theorem System.poll_spec (s : System) (answer : Option BlockRef) :
    Broadcast s (s.poll answer) ∧ (s.poll answer).subscribers = s.subscribers := by
  cases answer with
  | none => exact ⟨.same rfl rfl, rfl⟩
  | some tip =>
      by_cases hnew : some tip ≠ s.lastSeen
      · by_cases hany : (s.subscribers.any fun sub => sub.dispatcher ≠ .stopped) = true
        · simp only [System.poll, if_pos hnew, System.send, if_pos hany]
          exact ⟨.added tip hnew rfl rfl, trivial⟩
        · simp only [System.poll, if_pos hnew, System.send, if_neg hany]
          exact ⟨.same rfl rfl, trivial⟩
      · simp only [System.poll, if_neg hnew]
        exact ⟨.same rfl rfl, trivial⟩

theorem System.step_broadcast (s : System) (e : Event) : Broadcast s (s.step slots e) := by
  cases e with
  | poll answer => exact (s.poll_spec answer).1
  | _ => exact .same rfl rfl

/-- Where a subscriber of the next state comes from. -/
theorem System.step_subscriber (e : Event) {i : Nat}
    (h : (s.step slots e).subscribers[i]? = some sub') :
    (∃ sub, s.subscribers[i]? = some sub ∧ Turn slots s.sent sub sub' ∧
        ((s.step slots e).sent = s.sent ∨ sub' = sub)) ∨
      (sub' = .new s.sent ∧ (s.step slots e).sent = s.sent) := by
  -- one task moves, or none
  have hmodify : ∀ (j : Nat) (f : Subscriber → Subscriber),
      (∀ sub, Turn slots s.sent sub (f sub)) → (s.subscribers.modify j f)[i]? = some sub' →
        ∃ sub, s.subscribers[i]? = some sub ∧ Turn slots s.sent sub sub' := by
    intro j f hf hi
    rw [List.getElem?_modify] at hi
    obtain ⟨sub, hsub, rfl⟩ := Option.map_eq_some_iff.mp hi
    refine ⟨sub, hsub, ?_⟩
    by_cases hij : j = i
    · rw [if_pos hij]
      exact hf sub
    · rw [if_neg hij]
      exact .idle
  cases e with
  | poll answer =>
      have hsubs := (s.poll_spec answer).2
      exact .inl ⟨sub', by rw [← hsubs]; exact h, .idle, .inr rfl⟩
  | subscribe =>
      have hi : (s.subscribers ++ [.new s.sent])[i]? = some sub' := h
      by_cases hlt : i < s.subscribers.length
      · rw [List.getElem?_append_left hlt] at hi
        exact .inl ⟨sub', hi, .idle, .inr rfl⟩
      · rw [List.getElem?_append_right (Nat.le_of_not_lt hlt)] at hi
        have hnew := List.mem_singleton.mp (List.mem_of_getElem? hi)
        exact .inr ⟨hnew, rfl⟩
  | dispatch j =>
      obtain ⟨sub, hsub, hturn⟩ := hmodify j (·.dispatch slots s.sent)
        (fun sub => .dispatched (sub.dispatched slots s.sent)) h
      exact .inl ⟨sub, hsub, hturn, .inl rfl⟩
  | process j =>
      obtain ⟨sub, hsub, hturn⟩ := hmodify j (·.process) (fun sub => sub.process_turn) h
      exact .inl ⟨sub, hsub, hturn, .inl rfl⟩
  | close j =>
      obtain ⟨sub, hsub, hturn⟩ := hmodify j (·.close) (fun _ => .closed) h
      exact .inl ⟨sub, hsub, hturn, .inl rfl⟩

/-! ## What a subscriber keeps -/

/-- A subscriber as a consumer of what is broadcast. -/
def Subscriber.feed (sub : Subscriber) : Feed BlockRef :=
  ⟨sub.start, sub.cursor, sub.processed ++ sub.mailbox, sub.skipped + sub.refused⟩

/-- What holds of a subscriber: its dispatcher is over only if its processor
is. -/
structure Subscriber.Ok (sent : List BlockRef) (sub : Subscriber) : Prop where
  feed : sub.feed.Of sent
  room : sub.mailbox.length ≤ mailboxCapacity
  stopped : sub.dispatcher = .stopped → sub.running = false

theorem Subscriber.Ok.dispatched (h : sub.Ok sent) (hstep : Dispatched slots sent sub sub') :
    sub'.Ok sent := by
  obtain ⟨hfeed, hmail, hstopped⟩ := h
  cases hstep with
  | waited => exact ⟨hfeed, hmail, hstopped⟩
  | delivered tip htip hroom =>
      refine ⟨?_, ?_, hstopped⟩
      · have hread := hfeed.take htip
        rw [Subscriber.feed, List.append_assoc] at hread
        exact hread
      · show (sub.mailbox ++ [tip]).length ≤ mailboxCapacity
        rw [List.length_append, List.length_singleton]
        omega
  | refused tip htip hfull =>
      refine ⟨?_, hmail, fun h => by cases h⟩
      have hlt : sub.cursor < sent.length := (List.getElem?_eq_some_iff.mp htip).1
      have hread := hfeed.lose (n := 1) hlt
      exact hread
  | lagged skipped hbehind hskipped =>
      refine ⟨?_, hmail, hstopped⟩
      have hle : sub.cursor + skipped ≤ sent.length := by omega
      have hread := hfeed.lose hle
      have hlost : sub.skipped + sub.refused + skipped = sub.skipped + skipped + sub.refused := by
        omega
      show Feed.Of sent ⟨sub.start, sub.cursor + skipped, sub.processed ++ sub.mailbox,
        sub.skipped + skipped + sub.refused⟩
      rw [← hlost]
      exact hread
  | asked dispatcher _ hasked => exact ⟨hfeed, hmail, hasked⟩

theorem Subscriber.Ok.turn (h : sub.Ok sent) (hstep : Turn slots sent sub sub') :
    sub'.Ok sent := by
  cases hstep with
  | idle => exact h
  | dispatched hstep => exact h.dispatched hstep
  | processed tip rest hmail =>
      obtain ⟨hfeed, hroom, hstopped⟩ := h
      rw [hmail] at hroom
      refine ⟨?_, (Nat.le_succ _).trans hroom, hstopped⟩
      rw [Subscriber.feed, hmail] at hfeed
      show Feed.Of sent ⟨sub.start, sub.cursor, (sub.processed ++ [tip]) ++ rest,
        sub.skipped + sub.refused⟩
      rw [List.append_assoc]
      exact hfeed
  | closed => exact ⟨h.feed, h.room, fun _ => rfl⟩

theorem Subscriber.ok_new (sent : List BlockRef) : (Subscriber.new sent).Ok sent where
  feed := Spox.Lib.Feed.of_join sent
  room := Nat.zero_le _
  stopped := fun h => by cases h

/-! ## What the program keeps -/

/-- What holds of the program at any time. -/
structure Inv (s : System) : Prop where
  distinct : s.sent.IsChain (· ≠ ·)
  seen : s.lastSeen = s.sent.getLast?
  subscribers : ∀ (i : Nat) (sub : Subscriber), s.subscribers[i]? = some sub → sub.Ok s.sent

theorem inv_start : Inv .start where
  distinct := .nil
  seen := rfl
  subscribers _ _ h := by simp [System.start] at h

theorem Inv.step (h : Inv s) (e : Event) : Inv (s.step slots e) := by
  have hbroadcast : Broadcast s (s.step slots e) := s.step_broadcast e
  refine ⟨?_, ?_, fun i sub' hi => ?_⟩
  · cases hbroadcast with
    | same hsent hseen =>
        rw [hsent]
        exact h.distinct
    | added tip hnew hsent hseen =>
        rw [hsent]
        refine h.distinct.append (.singleton tip) fun last hlast first hfirst => ?_
        rw [← h.seen] at hlast
        rw [Option.mem_def.mp hlast] at hnew
        cases hfirst
        exact fun heq => hnew (congrArg some heq.symm)
  · cases hbroadcast with
    | same hsent hseen => rw [hsent, hseen, h.seen]
    | added tip hnew hsent hseen => rw [hsent, hseen, List.getLast?_concat]
  · rcases System.step_subscriber e hi with ⟨sub, hsub, hturn, hmoved⟩ | ⟨rfl, hsent⟩
    · have hok := h.subscribers i sub hsub
      rcases hmoved with hsent | rfl
      · rw [hsent]
        exact hok.turn hturn
      · cases hbroadcast with
        | same hsent => exact hsent ▸ hok
        | added tip hnew hsent =>
            rw [hsent]
            exact ⟨hok.feed.append [tip], hok.room, hok.stopped⟩
    · rw [hsent]
      exact Subscriber.ok_new s.sent

theorem inv_run (events : List Event) (h : Inv s) : Inv (s.run slots events) := by
  induction events generalizing s with
  | nil => exact h
  | cons e events ih => exact ih (h.step e)

/-- Whatever the schedule: the tips a process has taken are a part of those
broadcast since it subscribed, in order and each at most once; every tip it did
not get was skipped by its receiver or refused by its mailbox; and the poller
never broadcasts a tip twice in a row and has last seen the last it sent. -/
theorem delivery (slots : Nat) (events : List Event) {i : Nat} {sub : Subscriber}
    (hi : (System.start.run slots events).subscribers[i]? = some sub) :
    (sub.processed ++ sub.mailbox).Sublist
        (((System.start.run slots events).sent.take sub.cursor).drop sub.start) ∧
      sub.processed.length + sub.mailbox.length + (sub.skipped + sub.refused) =
        sub.cursor - sub.start ∧
      sub.start ≤ sub.cursor ∧ sub.cursor ≤ (System.start.run slots events).sent.length ∧
      sub.mailbox.length ≤ mailboxCapacity ∧
      (System.start.run slots events).sent.IsChain (· ≠ ·) ∧
      (System.start.run slots events).lastSeen =
        (System.start.run slots events).sent.getLast? := by
  have hinv : Inv (System.start.run slots events) := inv_run events inv_start
  obtain ⟨hfeed, hroom, -⟩ := hinv.subscribers i sub hi
  have hcount := hfeed.count
  refine ⟨hfeed.sublist, ?_, hfeed.start_le, hfeed.cursor_le, hroom, hinv.distinct, hinv.seen⟩
  rw [← List.length_append]
  exact hcount

/-! ## A processor that keeps up -/

/-- The process is behind what is broadcast by no more than its mailbox
holds. -/
def System.KeepsUp (i : Nat) (s : System) : Prop :=
  ∀ sub, s.subscribers[i]? = some sub →
    s.sent.length - sub.start ≤ sub.processed.length + mailboxCapacity

/-- As long as its processor runs nothing was lost on the way to it. -/
def Subscriber.Lossless (sub : Subscriber) : Prop :=
  sub.running = true → sub.dispatcher = .receiving ∧ sub.skipped = 0 ∧ sub.refused = 0

theorem Subscriber.Lossless.turn (hslots : chainTipChannelCapacity ≤ slots) (hok : sub.Ok sent)
    (hkeeps : sent.length - sub.start ≤ sub.processed.length + mailboxCapacity)
    (h : sub.Lossless) (hstep : Turn slots sent sub sub') : sub'.Lossless := by
  -- what was read and not processed yet is in the mailbox
  have hcount : sub.processed.length + sub.mailbox.length + (sub.skipped + sub.refused) =
      sub.cursor - sub.start := by
    rw [← List.length_append]
    exact hok.feed.count
  have hstart : sub.start ≤ sub.cursor := hok.feed.start_le
  cases hstep with
  | idle => exact h
  | closed => exact fun hrunning => by cases hrunning
  | processed => exact h
  | dispatched hstep =>
      cases hstep with
      | waited => exact h
      | delivered => exact h
      | asked dispatcher hrefused =>
          intro hrunning
          rw [(h hrunning).1] at hrefused
          cases hrefused
      | refused tip htip hfull =>
          intro hrunning
          obtain ⟨-, hskipped, hrefused⟩ := h hrunning
          have hlt : sub.cursor < sent.length := (List.getElem?_eq_some_iff.mp htip).1
          have hroom := hfull hrunning
          omega
      | lagged skipped hbehind hskip =>
          intro hrunning
          obtain ⟨-, hskipped, hrefused⟩ := h hrunning
          have hcapacity : mailboxCapacity = chainTipChannelCapacity := rfl
          omega

theorem lossless_run (hslots : chainTipChannelCapacity ≤ slots) {i : Nat} {events : List Event}
    (hinv : Inv s) (hkeeps : ∀ es, es <+: events → (s.run slots es).KeepsUp i)
    (h : ∀ sub, s.subscribers[i]? = some sub → sub.Lossless) :
    ∀ sub, (s.run slots events).subscribers[i]? = some sub → sub.Lossless := by
  induction events generalizing s with
  | nil => exact h
  | cons e events ih =>
      refine ih (hinv.step e)
        (fun es hes => hkeeps (e :: es) ((List.prefix_cons_inj e).mpr hes)) ?_
      intro sub' hi
      have hnow : s.KeepsUp i := hkeeps [] List.nil_prefix
      rcases System.step_subscriber e hi with ⟨sub, hsub, hturn, -⟩ | ⟨rfl, -⟩
      · exact (h sub hsub).turn hslots (hinv.subscribers i sub hsub) (hnow sub hsub) hturn
      · exact fun _ => ⟨rfl, rfl, rfl⟩

/-- A processor that is never further behind than its mailbox is large loses no
tip, whatever the other tasks do: what it processed, what is in its mailbox and
what it has yet to receive are all that was broadcast since it subscribed, and
once it has caught up it has processed the tip the poller last saw. -/
theorem keeping_up (hslots : chainTipChannelCapacity ≤ slots) {i : Nat} {events : List Event}
    (hkeeps : ∀ es, es <+: events → (System.start.run slots es).KeepsUp i) {sub : Subscriber}
    (hi : (System.start.run slots events).subscribers[i]? = some sub)
    (hrunning : sub.running = true) :
    sub.processed ++ sub.mailbox ++ (System.start.run slots events).sent.drop sub.cursor =
        (System.start.run slots events).sent.drop sub.start ∧
      (sub.mailbox = [] → sub.cursor = (System.start.run slots events).sent.length →
        sub.start < (System.start.run slots events).sent.length →
          sub.processed.getLast? = (System.start.run slots events).lastSeen) := by
  have hinv : Inv (System.start.run slots events) := inv_run events inv_start
  have hnone : ∀ sub, System.start.subscribers[i]? = some sub → sub.Lossless := by
    intro sub hsub
    simp [System.start] at hsub
  obtain ⟨-, hskipped, hrefused⟩ :=
    lossless_run hslots inv_start hkeeps hnone sub hi hrunning
  have hlost : sub.feed.lost = 0 := by
    show sub.skipped + sub.refused = 0
    omega
  have hall : sub.processed ++ sub.mailbox ++ (System.start.run slots events).sent.drop sub.cursor =
      (System.start.run slots events).sent.drop sub.start :=
    (hinv.subscribers i sub hi).feed.lossless hlost
  refine ⟨hall, fun hmail hcursor hsome => ?_⟩
  rw [hmail, List.append_nil, hcursor, List.drop_length, List.append_nil] at hall
  rw [hall, hinv.seen, List.getLast?_drop, if_neg (Nat.not_le_of_lt hsome)]

/-! ## A processor that fell behind -/

/-- A turn of one subscriber's own: of its dispatcher or of its processor. -/
def Own (slots : Nat) (sent : List BlockRef) (sub sub' : Subscriber) : Prop :=
  sub' = sub.dispatch slots sent ∨ sub' = sub.process

/-- The subscriber once its processor has emptied the mailbox. -/
def Subscriber.drained (sub : Subscriber) : Subscriber :=
  { sub with mailbox := [], processed := sub.processed ++ sub.mailbox }

theorem own_drain (sub : Subscriber) (hrunning : sub.running = true) :
    Relation.ReflTransGen (Own slots sent) sub sub.drained := by
  unfold Subscriber.drained
  generalize hmail : sub.mailbox = mailbox
  induction mailbox generalizing sub with
  | nil => rw [List.append_nil, ← hmail]
  | cons tip rest ih =>
      have hturn : Own slots sent sub
          { sub with mailbox := rest, processed := sub.processed ++ [tip] } := by
        refine .inr ?_
        simp only [Subscriber.process, hmail, if_pos hrunning]
      have hrest := ih { sub with mailbox := rest, processed := sub.processed ++ [tip] }
        hrunning rfl
      rw [List.append_assoc] at hrest
      exact .head hturn hrest

/-- A dispatcher that waits skips what the channel no longer keeps. -/
theorem Subscriber.dispatch_behind (hreceiving : sub.dispatcher = .receiving)
    (hbehind : sub.cursor < sent.length - slots) :
    sub.dispatch slots sent =
      { sub with
        cursor := sub.cursor + (sent.length - slots - sub.cursor)
        skipped := sub.skipped + (sent.length - slots - sub.cursor) } := by
  simp only [Subscriber.dispatch, hreceiving, recv, if_pos hbehind]

/-- It hands the next tip over if there is room. -/
theorem Subscriber.dispatch_next (hreceiving : sub.dispatcher = .receiving)
    (hrecent : ¬ sub.cursor < sent.length - slots) {tip : BlockRef}
    (htip : sent[sub.cursor]? = some tip) (hrunning : sub.running = true)
    (hroom : sub.mailbox.length < mailboxCapacity) :
    sub.dispatch slots sent =
      { sub with cursor := sub.cursor + 1, mailbox := sub.mailbox ++ [tip] } := by
  simp only [Subscriber.dispatch, hreceiving, recv, if_neg hrecent, htip, Option.map_some,
    Subscriber.trySend, if_pos (And.intro hrunning hroom)]

/-- With an empty mailbox, the dispatcher and the processor get to the end of
what is broadcast. -/
theorem own_catchUp (hslots : 0 < slots) (n : Nat) (sub : Subscriber)
    (hrunning : sub.running = true) (hreceiving : sub.dispatcher = .receiving)
    (hmail : sub.mailbox = []) (hn : sub.cursor + n = sent.length) :
    ∃ sub', Relation.ReflTransGen (Own slots sent) sub sub' ∧ sub'.mailbox = [] ∧
      sub'.cursor = sent.length ∧ sub.processed <+: sub'.processed ∧
      (sub.cursor < sent.length → sub'.processed.getLast? = sent.getLast?) ∧
      (sub.cursor = sent.length → sub'.processed = sub.processed) := by
  -- by induction on what is unread: it falls by one tip or by all that is gone
  induction n using Nat.strong_induction_on generalizing sub with
  | _ n ih =>
    have hturn : Own slots sent sub (sub.dispatch slots sent) := .inl rfl
    by_cases hbehind : sub.cursor < sent.length - slots
    · have hstep := Subscriber.dispatch_behind hreceiving hbehind
      have holdest : sub.cursor + (sent.length - slots - sub.cursor) + slots = sent.length := by
        omega
      obtain ⟨sub', hrun, hmail', hcursor', hkept, hlast, -⟩ := ih slots (by omega)
        (sub.dispatch slots sent) (hstep ▸ hrunning) (hstep ▸ hreceiving) (hstep ▸ hmail)
        (hstep ▸ holdest)
      rw [hstep] at hkept hlast
      refine ⟨sub', .head hturn hrun, hmail', hcursor', hkept, fun _ => hlast ?_, by omega⟩
      show sub.cursor + (sent.length - slots - sub.cursor) < sent.length
      omega
    · by_cases hunread : sub.cursor < sent.length
      · -- the next tip goes through the mailbox into the processor
        have hroom : sub.mailbox.length < mailboxCapacity := by
          rw [hmail]
          decide
        have hstep := Subscriber.dispatch_next hreceiving hbehind
          (List.getElem?_eq_getElem hunread) hrunning hroom
        have hprocessed : Relation.ReflTransGen (Own slots sent) sub
            (sub.dispatch slots sent).drained :=
          .head hturn (own_drain _ (hstep ▸ hrunning))
        have hkeep : sub.processed <+: (sub.dispatch slots sent).drained.processed := by
          rw [hstep]
          exact List.prefix_append _ _
        by_cases hmore : sub.cursor + 1 < sent.length
        · have hnext : sub.cursor + 1 + (n - 1) = sent.length := by omega
          obtain ⟨sub', hrun, hmail', hcursor', hkept, hlast, -⟩ := ih (n - 1) (by omega)
            (sub.dispatch slots sent).drained (hstep ▸ hrunning) (hstep ▸ hreceiving) rfl
            (hstep ▸ hnext)
          exact ⟨sub', hprocessed.trans hrun, hmail', hcursor', hkeep.trans hkept,
            fun _ => hlast (hstep ▸ hmore), by omega⟩
        · refine ⟨_, hprocessed, rfl, ?_, hkeep, fun _ => ?_, by omega⟩
          · rw [hstep]
            show sub.cursor + 1 = sent.length
            omega
          · have hlast : sent.length - 1 = sub.cursor := by omega
            rw [hstep]
            show (sub.processed ++ (sub.mailbox ++ [sent[sub.cursor]])).getLast? = sent.getLast?
            rw [← List.append_assoc, List.getLast?_concat, List.getLast?_eq_getElem?, hlast,
              List.getElem?_eq_getElem hunread]
      · exact ⟨sub, .refl, hmail, by omega, List.prefix_rfl, fun h => absurd h hunread,
          fun _ => rfl⟩

theorem step_of_own {i : Nat} (h : Own slots s.sent sub sub')
    (hi : s.subscribers[i]? = some sub) :
    ∃ e, (e = .dispatch i ∨ e = .process i) ∧
      (s.step slots e).subscribers[i]? = some sub' ∧ (s.step slots e).sent = s.sent := by
  have hmodify : ∀ f : Subscriber → Subscriber,
      (s.subscribers.modify i f)[i]? = some (f sub) := by
    intro f
    rw [List.getElem?_modify, hi]
    simp
  rcases h with rfl | rfl
  · exact ⟨.dispatch i, .inl rfl, hmodify _, rfl⟩
  · exact ⟨.process i, .inr rfl, hmodify _, rfl⟩

/-- Turns of one subscriber's own are a schedule. -/
theorem schedule_of_own {i : Nat} (h : Relation.ReflTransGen (Own slots s.sent) sub sub')
    (hi : s.subscribers[i]? = some sub) :
    ∃ events, (∀ e ∈ events, e = .dispatch i ∨ e = .process i) ∧
      (s.run slots events).subscribers[i]? = some sub' ∧ (s.run slots events).sent = s.sent := by
  induction h with
  | refl => exact ⟨[], by simp, hi, rfl⟩
  | tail _ hturn ih =>
      obtain ⟨events, hown, hsub, hsent⟩ := ih
      rw [← hsent] at hturn
      obtain ⟨e, he, hsub', hsent'⟩ := step_of_own hturn hsub
      have hrun : s.run slots (events ++ [e]) = (s.run slots events).step slots e := by
        simp only [System.run, List.foldl_append, List.foldl_cons, List.foldl_nil]
      refine ⟨events ++ [e], ?_, by rw [hrun, hsub'], by rw [hrun, hsent', hsent]⟩
      intro e' he'
      rcases List.mem_append.mp he' with he' | he'
      · exact hown e' he'
      · rw [List.mem_singleton.mp he']
        exact he

/-- Nothing gets stuck: at any time, whatever was lost before, the dispatcher
and the processor of a process that runs can by their own turns alone empty the
mailbox and read all that was broadcast. What was in the mailbox is processed;
if there was a tip to read they end with the newest, and if there was none
nothing else is processed. -/
theorem catching_up (hslots : 0 < slots) (events : List Event) {i : Nat} {sub : Subscriber}
    (hi : (System.start.run slots events).subscribers[i]? = some sub)
    (hrunning : sub.running = true) :
    ∃ more, (∀ e ∈ more, e = .dispatch i ∨ e = .process i) ∧
      ∃ sub', ((System.start.run slots events).run slots more).subscribers[i]? = some sub' ∧
        sub'.mailbox = [] ∧ sub'.cursor = (System.start.run slots events).sent.length ∧
        (sub.processed ++ sub.mailbox) <+: sub'.processed ∧
        (sub.cursor < (System.start.run slots events).sent.length →
          sub'.processed.getLast? = (System.start.run slots events).lastSeen) ∧
        (sub.cursor = (System.start.run slots events).sent.length →
          sub'.processed = sub.processed ++ sub.mailbox) := by
  have hinv : Inv (System.start.run slots events) := inv_run events inv_start
  have hok := hinv.subscribers i sub hi
  -- the mailbox is emptied first, then a dispatcher that was refused asks
  have hdrain : Relation.ReflTransGen (Own slots (System.start.run slots events).sent) sub
      sub.drained := own_drain sub hrunning
  have hready : Relation.ReflTransGen (Own slots (System.start.run slots events).sent) sub
      { sub.drained with dispatcher := .receiving } := by
    cases hdispatcher : sub.dispatcher with
    | receiving =>
        have hsame : { sub.drained with dispatcher := .receiving } = sub.drained := by
          simp only [Subscriber.drained, hdispatcher]
        exact hsame.symm ▸ hdrain
    | refused =>
        refine hdrain.tail (.inl ?_)
        simp only [Subscriber.dispatch, Subscriber.drained, hdispatcher, if_pos hrunning]
    | stopped => exact absurd (hrunning.symm.trans (hok.stopped hdispatcher)) (by decide)
  obtain ⟨sub', hrun, hmail', hcursor', hkept, hlast, hnone⟩ := own_catchUp hslots
    ((System.start.run slots events).sent.length - sub.cursor)
    { sub.drained with dispatcher := .receiving } hrunning rfl rfl
    (Nat.add_sub_of_le hok.feed.cursor_le)
  obtain ⟨more, hown, hsub', -⟩ := schedule_of_own (hready.trans hrun) hi
  exact ⟨more, hown, sub', hsub', hmail', hcursor', hkept,
    fun h => (hlast h).trans hinv.seen.symm, hnone⟩

/-! ## A schedule -/

namespace Sample

/-- The tip at a height. -/
def tip (height : Nat) : BlockRef := ⟨height, BitVec.ofNat 256 height⟩

/-- One process subscribes; the poller finds three tips, the second twice; the
first reaches the processor, and the second its mailbox. -/
def events : List Event :=
  [.poll (some (tip 1)), .subscribe, .poll (some (tip 1)), .poll (some (tip 2)),
    .poll none, .poll (some (tip 2)), .dispatch 0, .process 0, .dispatch 0,
    .poll (some (tip 3))]

/-- The process then. -/
def subscriber : Subscriber := ⟨2, .receiving, [tip 2], true, 0, [tip 1], 0, 0⟩

theorem subscriber_eq : (System.start.run 144 events).subscribers[0]? = some subscriber := by
  decide +kernel

/-- A channel that keeps two tips: the process has the first in its mailbox,
and its receiver skips the second. -/
def late : List Event :=
  [.subscribe, .poll (some (tip 1)), .dispatch 0, .poll (some (tip 2)), .poll (some (tip 3)),
    .poll (some (tip 4)), .dispatch 0]

/-- The process then. -/
def behind : Subscriber := ⟨2, .receiving, [tip 1], true, 0, [], 1, 0⟩

theorem behind_eq : (System.start.run 2 late).subscribers[0]? = some behind := by
  decide +kernel

theorem length_sent_le (es : List Event) (s : System) :
    (s.run 144 es).sent.length ≤ s.sent.length + es.length := by
  induction es generalizing s with
  | nil => exact Nat.le_refl _
  | cons e es ih =>
      have hrest := ih (s.step 144 e)
      have hstep : (s.step 144 e).sent.length ≤ s.sent.length + 1 := by
        have hbroadcast : Broadcast s (s.step 144 e) := s.step_broadcast e
        cases hbroadcast with
        | same hsent => rw [hsent]; omega
        | added tip hnew hsent => rw [hsent, List.length_append, List.length_singleton]
      rw [List.length_cons]
      show ((s.step 144 e).run 144 es).sent.length ≤ _
      omega

/-- Fewer tips than the mailbox holds keep nobody behind. -/
theorem keepsUp (es : List Event) (hes : es <+: events) :
    (System.start.run 144 es).KeepsUp 0 := by
  intro sub _
  have hsent : (System.start.run 144 es).sent.length ≤ 0 + es.length := length_sent_le es .start
  have hlength : es.length ≤ 10 := hes.length_le
  have hcapacity : mailboxCapacity = 144 := rfl
  omega

end Sample

theorem sample_delivery :
    (Sample.subscriber.processed ++ Sample.subscriber.mailbox).Sublist
        (((System.start.run 144 Sample.events).sent.take 2).drop 0) ∧
      1 + 1 + (0 + 0) = 2 - 0 ∧ 0 ≤ 2 ∧
      2 ≤ (System.start.run 144 Sample.events).sent.length ∧ 1 ≤ mailboxCapacity ∧
      (System.start.run 144 Sample.events).sent.IsChain (· ≠ ·) ∧
      (System.start.run 144 Sample.events).lastSeen =
        (System.start.run 144 Sample.events).sent.getLast? :=
  delivery 144 Sample.events Sample.subscriber_eq

theorem sample_keeping_up :
    Sample.subscriber.processed ++ Sample.subscriber.mailbox ++
        (System.start.run 144 Sample.events).sent.drop 2 =
        (System.start.run 144 Sample.events).sent.drop 0 ∧
      (Sample.subscriber.mailbox = [] →
        2 = (System.start.run 144 Sample.events).sent.length →
        0 < (System.start.run 144 Sample.events).sent.length →
          Sample.subscriber.processed.getLast? =
            (System.start.run 144 Sample.events).lastSeen) :=
  keeping_up (by decide) Sample.keepsUp Sample.subscriber_eq rfl

/-- The process takes the tip in its mailbox and gets to the fourth. -/
theorem sample_catching_up :
    ∃ more, (∀ e ∈ more, e = .dispatch 0 ∨ e = .process 0) ∧
      ∃ sub', ((System.start.run 2 Sample.late).run 2 more).subscribers[0]? = some sub' ∧
        sub'.mailbox = [] ∧ [Sample.tip 1] <+: sub'.processed ∧
        sub'.processed.getLast? = some (Sample.tip 4) := by
  obtain ⟨more, hown, sub', hsub', hmail, -, hkept, hlast, -⟩ :=
    catching_up (by decide) Sample.late Sample.behind_eq rfl
  have hunread : Sample.behind.cursor < (System.start.run 2 Sample.late).sent.length := by
    decide +kernel
  have hseen : (System.start.run 2 Sample.late).lastSeen = some (Sample.tip 4) := by
    decide +kernel
  exact ⟨more, hown, sub', hsub', hmail, hkept, (hlast hunread).trans hseen⟩

end Spox.Dispatch
