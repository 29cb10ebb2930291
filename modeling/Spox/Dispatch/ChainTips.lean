import Spox.Deposit.Monitor

/-!
# Chain tips — the poller, the dispatchers and the processors

`BitcoinChainTipPoller` broadcasts every new tip, a dispatcher
(`run_on_chain_tips`) moves what it receives into the mailbox of its
processor, and the processor takes the tips out one by one. They are tasks of
their own, and any of them may be slow: the broadcast channel keeps a bounded
number of tips and a receiver that falls behind skips to the oldest it still
keeps, and a mailbox that is full refuses a tip.

A schedule is any list of events, each one turn of one task. The sender of the
broadcast channel lives as long as the program, so a receiver never finds the
channel closed.
-/

namespace Spox.Dispatch

open Spox.Deposit (BlockRef)

deriving instance DecidableEq for BlockRef

/-- `MAILBOX_CAPACITY`. -/
def mailboxCapacity : Nat := 144

/-- `CHAIN_TIP_CHANNEL_CAPACITY`. -/
def chainTipChannelCapacity : Nat := 144

/-! ## The tasks -/

/-- Where the loop of `run_on_chain_tips` stands. -/
inductive Dispatcher where
  /-- It waits for the next tip. -/
  | receiving
  /-- The mailbox took no tip, and it asks whether the processor is there. -/
  | refused
  /-- It is over, and its receiver is dropped. -/
  | stopped
deriving DecidableEq

/-- A process and its dispatcher. What was broadcast before it subscribed
(`start`), what it has processed, and the counts of tips it lost are history:
no code reads them. A processor that is not running holds no mailbox; what was
in it is not processed. -/
structure Subscriber where
  cursor : Nat
  dispatcher : Dispatcher
  mailbox : List BlockRef
  running : Bool
  start : Nat
  processed : List BlockRef
  skipped : Nat
  refused : Nat
deriving DecidableEq

/-- All of the program: the poller, what it has broadcast (history, but for
what the channel still keeps of it) and the processes that subscribed. -/
structure System where
  lastSeen : Option BlockRef
  sent : List BlockRef
  subscribers : List Subscriber
deriving DecidableEq

/-- A process that subscribes receives what is sent from then on. -/
def Subscriber.new (sent : List BlockRef) : Subscriber :=
  ⟨sent.length, .receiving, [], true, sent.length, [], 0, 0⟩

/-! ## The poller -/

/-- `broadcast::Sender::send`: an error if there is no receiver. -/
def System.send (s : System) (tip : BlockRef) : Option System :=
  if s.subscribers.any (fun sub => sub.dispatcher ≠ .stopped) then
    some { s with sent := s.sent ++ [tip] }
  else none

/-- The loop body of `run_poller`, for what `get_chain_tip` returned. -/
def System.poll (s : System) : Option BlockRef → System
  | some tip =>
      if some tip ≠ s.lastSeen then
        match s.send tip with
        | some s' => { s' with lastSeen := some tip }
        | none => s
      else s
  | none => s

/-! ## The dispatcher -/

/-- What `broadcast::Receiver::recv` returns. -/
inductive Received where
  | ok (tip : BlockRef)
  | lagged (skipped : Nat)

/-- `broadcast::Receiver::recv` of a channel that keeps `slots` tips: none
while it waits. -/
def recv (slots : Nat) (sent : List BlockRef) (cursor : Nat) : Option Received :=
  let oldest := sent.length - slots
  if cursor < oldest then some (.lagged (oldest - cursor))
  else sent[cursor]?.map .ok

namespace Subscriber

variable (slots : Nat) (sent : List BlockRef) (sub : Subscriber)

/-- `mpsc::Sender::try_send`: the mailbox with the tip in it, or an error if
it is full or its receiver is dropped. -/
def trySend (tip : BlockRef) : Option (List BlockRef) :=
  if sub.running ∧ sub.mailbox.length < mailboxCapacity then some (sub.mailbox ++ [tip])
  else none

/-- One turn of the loop of `run_on_chain_tips`. -/
def dispatch : Subscriber :=
  match sub.dispatcher with
  | .receiving =>
      match recv slots sent sub.cursor with
      | some (.ok tip) =>
          match sub.trySend tip with
          | some mailbox => { sub with cursor := sub.cursor + 1, mailbox := mailbox }
          | none =>
              { sub with
                cursor := sub.cursor + 1
                refused := sub.refused + 1
                dispatcher := .refused }
      | some (.lagged skipped) =>
          { sub with cursor := sub.cursor + skipped, skipped := sub.skipped + skipped }
      | none => sub
  | .refused => { sub with dispatcher := if sub.running then .receiving else .stopped }
  | .stopped => sub

/-- One turn of the loop of a processor, which takes the next tip. -/
def process : Subscriber :=
  match sub.mailbox with
  | tip :: rest =>
      if sub.running then { sub with mailbox := rest, processed := sub.processed ++ [tip] }
      else sub
  | [] => sub

/-- The processor returns. -/
def close : Subscriber := { sub with running := false }

end Subscriber

/-! ## Schedules -/

/-- One turn of one task. -/
inductive Event where
  | poll (answer : Option BlockRef)
  | subscribe
  | dispatch (i : Nat)
  | process (i : Nat)
  | close (i : Nat)
deriving DecidableEq

/-- What one turn does. A task that waits does nothing. -/
def System.step (slots : Nat) (s : System) : Event → System
  | .poll answer => s.poll answer
  | .subscribe => { s with subscribers := s.subscribers ++ [.new s.sent] }
  | .dispatch i => { s with subscribers := s.subscribers.modify i (·.dispatch slots s.sent) }
  | .process i => { s with subscribers := s.subscribers.modify i (·.process) }
  | .close i => { s with subscribers := s.subscribers.modify i (·.close) }

/-- The program when it starts to poll. -/
def System.start : System := ⟨none, [], []⟩

/-- The program after a schedule. -/
def System.run (slots : Nat) (s : System) (events : List Event) : System :=
  events.foldl (System.step slots) s

end Spox.Dispatch
