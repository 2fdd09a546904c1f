import Mathlib.Logic.Relation
import Mysnips.HttpServerRequest

/-! What the server can do, in small steps. Every action is a path of steps, and a
step changes one client: it leaves the queue alone, pushes the client, pops it or
closes it. What happens to the client itself is one of the steps of a client, with
the events that it leaves in the log. -/
namespace Mysnips.HttpServer
open HttpParse Transition
open Memory (ascii)

/-! ## Clients -/

/-- The log entries of one client. -/
def history (ci : Nat) (log : List Event) : List Event := log.filter (·.client == ci)

/-- The events of input and output. -/
def Event.isTransfer : Event → Bool
  | received _ _ => true
  | sent _ _ _ => true
  | _ => false

/-- The events of a client that leaves the queue. -/
def Event.isPop : Event → Bool
  | popped _ _ => true
  | _ => false

/-- Where a completed response leaves a client: in the queue, idle, or to be closed. -/
inductive Afterwards (c : Client) (input : List UInt8) : ClientState → Bool → Prop where
  | queued (keeps : c.keepalive = true) (found : (find input headEnd).isSome) :
      Afterwards c input .queued false
  | idle (keeps : c.keepalive = true) (missing : find input headEnd = none) :
      Afterwards c input .idle false
  | close (ends : c.keepalive = false) : Afterwards c input .close c.keepalive

/-- What a client did last before it is closed: nothing, input that failed, or output
that failed or was the last of it. -/
inductive Loss (ci : Nat) (c : Client) : List Event → Prop where
  | nothing : Loss ci c []
  | received (bytes : List UInt8) : Loss ci c [.received ci bytes]
  | sent (n : Nat) (limited : n ≤ c.sendLimit) (inside : c.sendLimit ≤ c.output.used) :
      Loss ci c [.sent ci c.state (c.output.bytes.take n)]

theorem Loss.transfers {ci : Nat} {c : Client} {drift : List Event} (loss : Loss ci c drift) :
    ∀ e ∈ drift, e.isTransfer := by
  cases loss <;> simp [Event.isTransfer]

/-- The steps of a client, with the events they leave. -/
inductive ClientStep (ci : Nat) : Client → List Event → Client → Prop where
  | serviced (c : Client) : ClientStep ci c [.serviced ci] c
  | moved (c : Client) (pitem : Option Nat) : ClientStep ci c [] { c with pitem := pitem }
  | accepted (c : Client) (fd : Nat) (pitem : Option Nat) (free : c.state = .free) :
      ClientStep ci c [.accepted ci fd]
        { c with state := .idle, input := {}, output := {}, pitem := pitem, numServed := 0 }
  | received (c : Client) (input : IoBuf) (bytes : List UInt8)
      (grown : input.bytes = c.input.bytes ++ bytes)
      (waits : c.state = .idle → find input.bytes headEnd = none) :
      ClientStep ci c [.received ci bytes] { c with input := input }
  | queued (c : Client) (input : IoBuf) (bytes : List UInt8)
      (grown : input.bytes = c.input.bytes ++ bytes) (idle : c.state = .idle)
      (found : (find input.bytes headEnd).isSome) :
      ClientStep ci c [.received ci bytes] { c with input := input, state := .queued }
  | sent (c : Client) (n : Nat) (limited : n ≤ c.sendLimit) (inside : c.sendLimit ≤ c.output.used) :
      ClientStep ci c [.sent ci c.state (c.output.bytes.take n)] (c.afterSend n)
  | freed (c c' : Client) (drift : List Event) (fd : Nat) (loss : Loss ci c drift)
      (state : c'.state = .free) (gen : c'.gen = invalidateHandles c.gen)
      (input : c'.input = {}) (output : c'.output = {}) :
      ClientStep ci c (drift ++ [.closed ci fd c.state]) c'
  | poppedFreed (c c' : Client) (fd : Nat) (state : c'.state = .free)
      (gen : c'.gen = invalidateHandles c.gen) (input : c'.input = {}) (output : c'.output = {}) :
      ClientStep ci c [.popped ci c.state, .closed ci fd .popped] c'
  | refused (c : Client) (output : IoBuf) (text : List UInt8)
      (grown : output.bytes = c.output.bytes ++ text) :
      ClientStep ci c [.popped ci c.state, .built ci (.whole text)]
        { c with state := .close, output := output }
  | deferred (c : Client) (verdict : examine c.input.bytes = .ok .incomplete) :
      ClientStep ci c [.popped ci c.state, .deferred ci] { c with state := .popped }
  | delivered (c : Client) (r : Request) (headLen total : Nat)
      (verdict : examine c.input.bytes = .ok (.complete r headLen total))
      (small : c.gen < 2 ^ 16 - 1) :
      ClientStep ci c
        [.popped ci c.state, .delivered ci (c.gen ||| (ci <<< 16)) (c.input.bytes.take headLen)
          (r.content.bytes c.input.bytes)]
        { c with
          state := .status, minor := r.minor, connheader := .unspecified, requestLength := total }
  | status (c : Client) (output : IoBuf) (text : List UInt8) (was : c.state = .status)
      (grown : output.bytes = c.output.bytes ++ text) :
      ClientStep ci c [.built ci (.status text)] { c with state := .header, output := output }
  | header (c : Client) (output : IoBuf) (text : List UInt8) (was : c.state = .header)
      (grown : output.bytes = c.output.bytes ++ text ++ ascii "\r\n") :
      ClientStep ci c [.built ci (.header text)] { c with output := output }
  | noted (c : Client) (connheader : ConnHeader) (was : c.state = .header) :
      ClientStep ci c [] { c with connheader := connheader }
  | special (c : Client) (output : IoBuf) (keep : Bool) (was : c.state = .header)
      (grown : output.bytes =
        c.output.bytes ++ specialHeaders c.minor keep ++ (blanks ++ ascii "\r\n")) :
      ClientStep ci c [.built ci (.special (specialHeaders c.minor keep))]
        { c with
          output := output
          keepalive := if c.minor = 1 then keep else c.keepalive
          contentLengthOffset := (c.output.bytes ++ specialHeaders c.minor keep).length
          contentOffset := output.used
          state := .content }
  | content (c : Client) (output : IoBuf) (data : List UInt8) (was : c.state = .content)
      (grown : output.bytes = c.output.bytes ++ data) :
      ClientStep ci c [.built ci (.content data)] { c with output := output }
  | completed (c : Client) (input output : IoBuf) (state : ClientState)
      (keepalive : Bool) (was : c.state = .content)
      (short : (formatLong (Machine.sub64 c.output.used c.contentOffset)).length < 10)
      (stored : Memory.store c.output.bytes c.contentLengthOffset
        (formatLong (Machine.sub64 c.output.used c.contentOffset)) = some output.bytes)
      (inside : c.requestLength ≤ c.input.used)
      (left : input.bytes = c.input.bytes.drop c.requestLength)
      (afterwards : Afterwards c input.bytes state keepalive) :
      ClientStep ci c [.completed ci]
        { c with
          output := output
          input := input
          requestLength := 0
          numServed := c.numServed + 1
          state := state
          keepalive := keepalive
          gen := invalidateHandles c.gen }

/-! ## Steps of the server -/

/-- The step concerns one client: the table, the descriptors and the other clients stay
as they are. -/
structure Touch (ci : Nat) (events : List Event) (s s' : Server) : Prop where
  ncs : s'.ncs = s.ncs
  pis : s'.pis = s.pis
  free : s'.free = s.free
  fds : ∀ i, (s'.ps i).fd = (s.ps i).fd
  others : ∀ cj, cj ≠ ci → s'.cs cj = s.cs cj
  pitem : (s'.cs ci).pitem = (s.cs ci).pitem
  log : s'.log = s.log ++ events
  own : ∀ e ∈ events, e.client = ci

/-- The queue stays as it is. -/
structure SameRing (s s' : Server) : Prop where
  qhead : s'.qhead = s.qhead
  qused : s'.qused = s.qused
  qdata : s'.qdata = s.qdata

/-- The first client leaves the queue. -/
structure PoppedRing (max : Nat) (s s' : Server) : Prop where
  nonempty : 0 < s.qused
  qhead : s'.qhead = (s.qhead + 1) % max
  qused : s'.qused = s.qused - 1
  qdata : s'.qdata = s.qdata

/-- A client enters the queue. -/
structure PushedRing (max : Nat) (ci : Nat) (s s' : Server) : Prop where
  room : s.qused < max
  qhead : s'.qhead = s.qhead
  qused : s'.qused = s.qused + 1
  qdata : s'.qdata = Function.update s.qdata ((s.qhead + s.qused) % max) ci

/-- The client is in the connection table, or a handle leads to it. -/
def Slot (s : Server) (ci : Nat) : Prop := (∃ i < s.ncs, s.pis i = ci) ∨ ci < s.ncs

/-- A client whose input or output failed, before it is closed. -/
structure Drift (ci : Nat) (drift : List Event) (s s' : Server) : Prop where
  touch : Touch ci drift s s'
  ring : SameRing s s'
  gen : (s'.cs ci).gen = (s.cs ci).gen
  state : (s'.cs ci).state = (s.cs ci).state
  loss : Loss ci (s.cs ci) drift

/-- The steps of the server. -/
inductive Micro (max : Nat) : Server → Server → Prop where
  | polled (s : Server) (ps : Nat → PollFd) (fds : ∀ i, (ps i).fd = (s.ps i).fd) :
      Micro max s { s with ps := ps }
  | accepted {s s' : Server} {fd : Nat} (room : s.ncs < max)
      (done : acceptClient max s fd = .ok s') : Micro max s s'
  | changed {s s' : Server} {ci : Nat} {events : List Event} (slot : Slot s ci)
      (touch : Touch ci events s s') (ring : SameRing s s') (free : (s'.cs ci).state = .free ↔ (s.cs ci).state = .free)
      (queued : (s'.cs ci).state = .queued ↔ (s.cs ci).state = .queued)
      (step : ClientStep ci (s.cs ci) events (s'.cs ci))
      (stays : ∀ e ∈ events, e.isPop = false := by simp [Event.isPop]) : Micro max s s'
  | pushed {s s' : Server} {ci : Nat} {events : List Event} (slot : Slot s ci)
      (touch : Touch ci events s s') (ring : PushedRing max ci s s') (connected : (s.cs ci).state ≠ .free)
      (outside : (s.cs ci).state ≠ .queued) (inside : (s'.cs ci).state = .queued)
      (step : ClientStep ci (s.cs ci) events (s'.cs ci))
      (stays : ∀ e ∈ events, e.isPop = false := by simp [Event.isPop]) : Micro max s s'
  | popped {s s' : Server} {events : List Event}
      (touch : Touch (s.qdata s.qhead) events s s') (ring : PoppedRing max s s')
      (connected : (s'.cs (s.qdata s.qhead)).state ≠ .free)
      (outside : (s'.cs (s.qdata s.qhead)).state ≠ .queued)
      (step : ClientStep (s.qdata s.qhead) (s.cs (s.qdata s.qhead)) events
        (s'.cs (s.qdata s.qhead))) : Micro max s s'
  | closed {s s₁ s' : Server} {ci : Nat} {drift : List Event} (slot : Slot s ci)
      (lost : Drift ci drift s s₁) (done : closeClient max s₁ ci = .ok s') : Micro max s s'
  | poppedClosed {s s₁ s' : Server}
      (touch : Touch (s.qdata s.qhead) [.popped (s.qdata s.qhead) (s.cs (s.qdata s.qhead)).state]
        s s₁) (ring : PoppedRing max s s₁)
      (gen : (s₁.cs (s.qdata s.qhead)).gen = (s.cs (s.qdata s.qhead)).gen)
      (state : (s₁.cs (s.qdata s.qhead)).state = .popped)
      (done : closeClient max s₁ (s.qdata s.qhead) = .ok s') : Micro max s s'

/-- A sequence of steps. -/
abbrev Path (max : Nat) : Server → Server → Prop := Relation.ReflTransGen (Micro max)

theorem Touch.refl (ci : Nat) (s : Server) : Touch ci [] s s :=
  ⟨rfl, rfl, rfl, fun _ => rfl, fun _ _ => rfl, rfl, by simp, by simp⟩

theorem Touch.trans {ci : Nat} {events events' : List Event} {s s' s'' : Server}
    (first : Touch ci events s s') (second : Touch ci events' s' s'') :
    Touch ci (events ++ events') s s'' where
  ncs := second.ncs.trans first.ncs
  pis := second.pis.trans first.pis
  free := second.free.trans first.free
  fds i := (second.fds i).trans (first.fds i)
  others cj other := (second.others cj other).trans (first.others cj other)
  pitem := second.pitem.trans first.pitem
  log := by rw [second.log, first.log, List.append_assoc]
  own e member := (List.mem_append.mp member).elim (first.own e) (second.own e)

theorem SameRing.refl (s : Server) : SameRing s s := ⟨rfl, rfl, rfl⟩

theorem SameRing.trans {s s' s'' : Server} (first : SameRing s s') (second : SameRing s' s'') :
    SameRing s s'' :=
  ⟨second.qhead.trans first.qhead, second.qused.trans first.qused,
    second.qdata.trans first.qdata⟩

/-- Replacing a client by one with the same poll entry. -/
theorem Touch.setClient (s : Server) (ci : Nat) (c : Client)
    (pitem : c.pitem = (s.cs ci).pitem) : Touch ci [] s (s.setClient ci c) where
  ncs := rfl
  pis := rfl
  free := rfl
  fds _ := rfl
  others cj other := Function.update_of_ne other ..
  pitem := by simp [pitem]
  log := by simp
  own := by simp

/-- Changing the events of a poll entry. -/
theorem Touch.setEvents (s : Server) (ci pi : Nat) (p : PollFd) (fd : p.fd = (s.ps pi).fd) :
    Touch ci [] s (s.setEntry pi p) where
  ncs := rfl
  pis := rfl
  free := rfl
  fds i := by
    by_cases same : i = pi
    · rw [same, Server.setEntry_ps, Function.update_self, fd]
    · rw [Server.setEntry_ps, Function.update_of_ne same]
  others _ _ := rfl
  pitem := rfl
  log := by simp
  own := by simp

theorem Touch.setPollout (s : Server) (ci pi : Nat) (on : Bool) :
    Touch ci [] s (s.setPollout pi on) :=
  Touch.setEvents s ci pi _ rfl

theorem Touch.record (s : Server) {ci : Nat} (e : Event) (own : e.client = ci) :
    Touch ci [e] s (s.record e) where
  ncs := rfl
  pis := rfl
  free := rfl
  fds _ := rfl
  others _ _ := rfl
  pitem := rfl
  log := rfl
  own := by simpa using own

theorem Touch.enqueue (s : Server) (max ci : Nat) : Touch ci [] s (s.enqueue max ci) :=
  ⟨rfl, rfl, rfl, fun _ => rfl, fun _ _ => rfl, rfl, by simp, by simp⟩

theorem Touch.dequeue (s : Server) (max ci : Nat) : Touch ci [] s (s.dequeue max) :=
  ⟨rfl, rfl, rfl, fun _ => rfl, fun _ _ => rfl, rfl, by simp, by simp⟩

theorem SameRing.setClient (s : Server) (ci : Nat) (c : Client) :
    SameRing s (s.setClient ci c) := ⟨rfl, rfl, rfl⟩

theorem SameRing.setEntry (s : Server) (i : Nat) (p : PollFd) :
    SameRing s (s.setEntry i p) := ⟨rfl, rfl, rfl⟩

theorem SameRing.record (s : Server) (e : Event) : SameRing s (s.record e) := ⟨rfl, rfl, rfl⟩

/-! ## Input and output -/

theorem ensureFreeSpace_bytes {alloc : Nat → Bool} {b : IoBuf} {min : Nat} {m : Block}
    (ensured : ensureFreeSpace alloc b min = some m) : m.bytes = b.bytes := by
  unfold ensureFreeSpace at ensured
  cases block : b.block with
  | none =>
    rw [block] at ensured
    simp only [Option.ite_none_right_eq_some, Option.some.injEq] at ensured
    rw [← ensured.2, IoBuf.bytes, block]
  | some old =>
    rw [block] at ensured
    have kept : m.bytes = old.bytes := by
      by_cases short : old.size - old.bytes.length < min
      · simp only [short, if_true, Option.ite_none_right_eq_some, Option.some.injEq] at ensured
        rw [← ensured.2]
      · simp only [short, if_false, Option.some.injEq] at ensured
        rw [← ensured]
    rw [kept, IoBuf.bytes, block]

private theorem recvSpace_bytes {b : IoBuf} {m : Block} (ran : recvSpace b = .ok m) :
    m.bytes = b.bytes := by
  unfold recvSpace at ran
  split at ran
  · cases ran
  · rename_i found
    cases ran
    exact ensureFreeSpace_bytes found

/-- The receive loop appends what it reports. -/
theorem recvLoop_bytes {recv : Recv} : ∀ {b b' : IoBuf} {before received : List UInt8} {ok : Bool},
    recvLoop recv b before = .ok (ok, b', received) →
      ∃ bytes, received = before ++ bytes ∧ b'.bytes = b.bytes ++ bytes := by
  induction recv with
  | noMemory =>
    intro b b' before received ok ran
    unfold recvLoop at ran
    split at ran
    · cases ran
      exact ⟨[], by simp, by simp⟩
    · cases ran
  | closed | error | again =>
    intro b b' before received ok ran
    obtain ⟨m, space, done⟩ := bind_ok ran
    cases done
    refine ⟨[], by simp, ?_⟩
    rw [List.append_nil, ← recvSpace_bytes space]
    rfl
  | data bytes next ih =>
    intro b b' before received ok ran
    obtain ⟨m, space, rest⟩ := bind_ok ran
    split at rest
    · obtain ⟨more, reported, grown⟩ := ih rest
      refine ⟨bytes ++ more, by rw [reported, List.append_assoc], ?_⟩
      rw [grown, ← List.append_assoc, ← recvSpace_bytes space]
      rfl
    · cases rest

/-- The send loop stays below its limit. -/
theorem sendLoop_le {send : Send} : ∀ {limit sent zeros sent' : Nat} {ok : Bool},
    sent ≤ limit → sendLoop send limit sent zeros = .ok (ok, sent') → sent' ≤ limit := by
  induction send with
  | error | again =>
    intro limit sent zeros sent' ok below ran
    unfold sendLoop at ran
    split at ran <;> cases ran <;> exact below
  | accepted n next ih =>
    intro limit sent zeros sent' ok below ran
    unfold sendLoop at ran
    split at ran
    · cases ran
      exact below
    · simp only at ran
      split at ran
      · split at ran
        · cases ran
          exact below
        · exact ih below ran
      · split at ran
        · rename_i fits
          exact ih fits ran
        · cases ran

/-- The table does not change, and the client stays connected if it was. -/
structure Kept (ci : Nat) (s s' : Server) : Prop where
  touch : ∃ events, Touch ci events s s' ∧ ∀ e ∈ events, e.isTransfer
  free : (s'.cs ci).state = .free ↔ (s.cs ci).state = .free

/-- A step that ends well, or a client that is lost. -/
def Attempt (max ci : Nat) (s s' : Server) (ok : Bool) : Prop :=
  (ok = true ∧ Micro max s s' ∧ Kept ci s s') ∨ (ok = false ∧ ∃ drift, Drift ci drift s s')

private theorem pushClient_eq {max : Nat} {s s' : Server} {ci : Nat}
    (ran : pushClient max s ci = .ok s') :
    s.qused < max ∧ s' = s.enqueue max ci := by
  unfold pushClient at ran
  split at ran
  · rename_i room
    cases ran
    exact ⟨room, rfl⟩
  · cases ran

private theorem isSome_iff_ne_none {α : Type} {o : Option α} : ¬ o.isSome = true ↔ o = none := by
  cases o <;> simp

theorem socketInput_attempt {max : Nat} {s s' : Server} {ci : Nat} {recv : Recv} {ok : Bool}
    (slot : Slot s ci) (ran : socketInput max s ci recv = .ok (ok, s')) :
    Attempt max ci s s' ok := by
  unfold socketInput at ran
  split at ran
  · cases ran
  · obtain ⟨⟨ready, input, received⟩, loop, rest⟩ := bind_ok ran
    obtain ⟨bytes, reported, grown⟩ := recvLoop_bytes loop
    rw [List.nil_append] at reported
    subst reported
    have touch : Touch ci [.received ci received] s
        ((s.setClient ci { s.cs ci with input := input }).record (.received ci received)) :=
      (Touch.setClient s ci { s.cs ci with input := input } rfl).trans (Touch.record _ _ rfl)
    simp only at rest
    split at rest
    · cases rest
      exact .inr ⟨rfl, _, touch, ⟨rfl, rfl, rfl⟩, by simp, by simp, .received received⟩
    · split at rest
      · rename_i idle
        obtain ⟨s₁, pushed, done⟩ := bind_ok rest
        obtain ⟨room, rfl⟩ := pushClient_eq pushed
        cases done
        refine .inl ⟨rfl, .pushed slot ?whole ⟨room, rfl, rfl, rfl⟩ ?_ ?_ ?_ ?_,
          ⟨[.received ci received], ?whole, by simp [Event.isTransfer]⟩, ?_⟩
        case whole =>
          exact touch.trans ((Touch.enqueue _ max ci).trans (Touch.setClient _ ci _ (by simp)))
        · simp [idle.1]
        · simp [idle.1]
        · simp
        · simpa using ClientStep.queued (s.cs ci) input received grown idle.1 idle.2
        · simp [idle.1]
      · rename_i waits
        cases rest
        refine .inl ⟨rfl, .changed slot touch ⟨rfl, rfl, rfl⟩ (by simp) (by simp) ?_,
          ⟨_, touch, by simp [Event.isTransfer]⟩, by simp⟩
        simpa using ClientStep.received (s.cs ci) input received grown
          (fun idle => isSome_iff_ne_none.mp (fun found => waits ⟨idle, found⟩))

@[simp] theorem Client.afterSend_pitem (c : Client) (n : Nat) : (c.afterSend n).pitem = c.pitem :=
  rfl

@[simp] theorem Client.afterSend_state (c : Client) (n : Nat) : (c.afterSend n).state = c.state :=
  rfl

@[simp] theorem Client.afterSend_gen (c : Client) (n : Nat) : (c.afterSend n).gen = c.gen := rfl

theorem socketOutput_attempt {max : Nat} {s s' : Server} {ci : Nat} {send : Send} {ok : Bool}
    (slot : Slot s ci) (ran : socketOutput s ci send = .ok (ok, s')) :
    Attempt max ci s s' ok := by
  simp only [socketOutput] at ran
  split at ran
  · cases ran
  · rename_i pi entry
    split at ran
    · cases ran
    · rename_i bounded
      obtain ⟨⟨ready, n⟩, loop, rest⟩ := bind_ok ran
      have limited := sendLoop_le (Nat.zero_le _) loop
      have loss : Loss ci (s.cs ci) [.sent ci (s.cs ci).state ((s.cs ci).output.bytes.take n)] :=
        .sent n limited (Nat.le_of_not_lt bounded)
      have touch : Touch ci [.sent ci (s.cs ci).state ((s.cs ci).output.bytes.take n)] s
          (s.record (.sent ci (s.cs ci).state ((s.cs ci).output.bytes.take n))) :=
        Touch.record _ _ rfl
      cases ready with
      | false =>
        cases rest
        exact .inr ⟨rfl, _, touch, ⟨rfl, rfl, rfl⟩, by simp, by simp, loss⟩
      | true =>
        -- The poll entry is quiet once everything up to the limit is sent.
        obtain ⟨s₁, quiet, ring, same⟩ : ∃ s₁,
            Touch ci [.sent ci (s.cs ci).state ((s.cs ci).output.bytes.take n)] s s₁ ∧
            SameRing s s₁ ∧ .ok (!(n = (s.cs ci).output.used && (s.cs ci).state = .close),
              s₁.setClient ci ((s.cs ci).afterSend n)) = Except.ok (ok, s') := by
          refine ⟨_, ?_, ?_, rest⟩
          · split
            · exact touch.trans (Touch.setPollout _ ci pi false)
            · exact touch
          · split <;> exact ⟨rfl, rfl, rfl⟩
        cases same
        have whole := quiet.trans (Touch.setClient s₁ ci ((s.cs ci).afterSend n) quiet.pitem.symm)
        rw [List.append_nil] at whole
        have kept : SameRing s (s₁.setClient ci ((s.cs ci).afterSend n)) :=
          ring.trans (SameRing.setClient ..)
        cases drained : !(n = (s.cs ci).output.used && (s.cs ci).state = .close) with
        | true =>
          refine .inl ⟨rfl, .changed slot whole kept (by simp) (by simp) ?_,
            ⟨_, whole, by simp [Event.isTransfer]⟩, by simp⟩
          simpa using ClientStep.sent (s.cs ci) n limited (Nat.le_of_not_lt bounded)
        | false =>
          exact .inr ⟨rfl, _, whole, kept, by simp, by simp, loss⟩

theorem Drift.kept {ci : Nat} {drift : List Event} {s s' : Server} (lost : Drift ci drift s s') :
    Kept ci s s' :=
  ⟨⟨drift, lost.touch, lost.loss.transfers⟩, by rw [lost.state]⟩

theorem Kept.trans {ci : Nat} {s s' s'' : Server} (first : Kept ci s s') (second : Kept ci s' s'') :
    Kept ci s s'' := by
  obtain ⟨events, touch, transfers⟩ := first.touch
  obtain ⟨events', touch', transfers'⟩ := second.touch
  exact ⟨⟨events ++ events', touch.trans touch',
    fun e member => (List.mem_append.mp member).elim (transfers e) (transfers' e)⟩,
    second.free.trans first.free⟩

theorem Kept.refl (ci : Nat) (s : Server) : Kept ci s s :=
  ⟨⟨[], Touch.refl ci s, by simp⟩, Iff.rfl⟩

theorem Slot.kept {ci : Nat} {s s' : Server} (slot : Slot s ci) (kept : Kept ci s s') :
    Slot s' ci := by
  obtain ⟨events, touch, -⟩ := kept.touch
  rw [Slot, touch.ncs, touch.pis]
  exact slot

/-- A round of the service loop before a possible close. -/
theorem service_path {max : Nat} {s s' : Server} {ci : Nat} {evs : PollEvents} {recv : Recv}
    {send : Send} {ok : Bool} (slot : Slot s ci)
    (ran : service max s ci evs recv send = .ok (ok, s')) :
    Kept ci s s' ∧ ((ok = true ∧ Path max s s') ∨
      (ok = false ∧ ∃ s₁ drift, Path max s s₁ ∧ Slot s₁ ci ∧ Drift ci drift s₁ s')) := by
  obtain ⟨⟨ready, s₁⟩, input, output⟩ := bind_ok ran
  have first : (ready = true ∧ Path max s s₁ ∧ Kept ci s s₁) ∨
      (ready = false ∧ ∃ drift, Drift ci drift s s₁) := by
    split at input
    · rcases socketInput_attempt slot input with ⟨done, step, kept⟩ | lost
      · exact .inl ⟨done, .single step, kept⟩
      · exact .inr lost
    · cases input
      exact .inl ⟨rfl, .refl, Kept.refl ci s⟩
  rcases first with ⟨rfl, path, kept⟩ | ⟨rfl, drift, lost⟩
  · simp only [Bool.true_and] at output
    split at output
    · have slot₁ := slot.kept kept
      rcases socketOutput_attempt slot₁ output with ⟨done, step, kept'⟩ | ⟨done, drift, lost⟩
      · exact ⟨kept.trans kept', .inl ⟨done, path.tail step⟩⟩
      · exact ⟨kept.trans lost.kept, .inr ⟨done, s₁, drift, path, slot₁, lost⟩⟩
    · cases output
      exact ⟨kept, .inl ⟨rfl, path⟩⟩
  · cases output
    exact ⟨lost.kept, .inr ⟨rfl, s, drift, .refl, slot, lost⟩⟩

theorem serviceLoop_path {max : Nat} {io : Io} : ∀ {fuel i : Nat} {s s' : Server}, 0 < i →
    serviceLoop max io fuel i s = .ok s' → Path max s s' := by
  intro fuel
  induction fuel with
  | zero =>
    intro i s s' _ ran
    unfold serviceLoop at ran
    split at ran
    · cases ran
    · cases ran
      exact .refl
  | succ fuel ih =>
    intro i s s' positive ran
    unfold serviceLoop at ran
    split at ran
    · rename_i inside
      simp only at ran
      split at ran
      · cases ran
      · obtain ⟨⟨ok, s₁⟩, served, rest⟩ := bind_ok ran
        have slot : Slot s (s.pis (i - 1)) := .inl ⟨i - 1, by omega, rfl⟩
        have visited : Micro max s (s.record (.serviced (s.pis (i - 1)))) :=
          .changed slot (Touch.record s _ rfl) (SameRing.record ..) Iff.rfl Iff.rfl (.serviced _)
        rcases (service_path (s := s.record (.serviced (s.pis (i - 1)))) slot served).2 with ⟨rfl, path⟩ | ⟨rfl, s₂, drift, path, slot₂, lost⟩
        · exact (path.head visited).trans (ih (Nat.succ_pos i) rest)
        · obtain ⟨s₃, closed, rest⟩ := bind_ok rest
          exact ((path.head visited).tail (.closed slot₂ lost closed)).trans (ih positive rest)
    · cases ran
      exact .refl

theorem acceptLoop_path {max : Nat} {accepts : List Accept} : ∀ {s s' : Server},
    acceptLoop max accepts s = .ok s' → Path max s s' := by
  induction accepts with
  | nil =>
    intro s s' ran
    cases ran
    exact .refl
  | cons outcome rest ih =>
    intro s s' ran
    unfold acceptLoop at ran
    split at ran
    · rename_i room
      cases outcome with
      | client fd =>
        obtain ⟨s₁, accepted, rest⟩ := bind_ok ran
        exact (ih rest).head (.accepted room accepted)
      | blocking fd => exact ih ran
      | error => cases ran
    · cases ran
      exact .refl

theorem processIo_path {max : Nat} {io : Io} {s s' : Server} (ran : processIo max s io = .ok s') :
    Path max s s' := by
  unfold processIo at ran
  split at ran
  · cases ran
    exact .refl
  · rename_i revents polled
    obtain ⟨s₁, accepting, serving⟩ := bind_ok ran
    have polled : Micro max s { s with
        ps := fun i => if i ≤ s.ncs then { s.ps i with revents := revents i } else s.ps i } :=
      .polled s _ (fun i => by split <;> rfl)
    refine .head polled (.trans ?_ (serviceLoop_path Nat.one_pos serving))
    split at accepting
    · exact acceptLoop_path accepting
    · cases accepting
      exact .refl

/-! ## Output of the response calls -/

/-- Bytes were appended to the output of a client. -/
structure Appended (ci : Nat) (data : List UInt8) (s s' : Server) : Prop where
  touch : Touch ci [] s s'
  ring : SameRing s s'
  output : ∃ output : IoBuf, s'.cs ci = { s.cs ci with output := output } ∧
    output.bytes = (s.cs ci).output.bytes ++ data

theorem Appended.state {ci : Nat} {data : List UInt8} {s s' : Server}
    (appended : Appended ci data s s') : (s'.cs ci).state = (s.cs ci).state := by
  obtain ⟨output, same, -⟩ := appended.output
  rw [same]

theorem Appended.drift {ci : Nat} {data : List UInt8} {s s' : Server}
    (appended : Appended ci data s s') : Drift ci [] s s' := by
  obtain ⟨output, same, -⟩ := appended.output
  exact ⟨appended.touch, appended.ring, by rw [same], by rw [same], .nothing⟩

theorem Drift.trans {ci : Nat} {s s' s'' : Server} (first : Drift ci [] s s')
    (second : Drift ci [] s' s'') : Drift ci [] s s'' where
  touch := first.touch.trans second.touch
  ring := first.ring.trans second.ring
  gen := second.gen.trans first.gen
  state := second.state.trans first.state
  loss := .nothing

theorem Drift.setClient (s : Server) (ci : Nat) (c : Client) (pitem : c.pitem = (s.cs ci).pitem)
    (gen : c.gen = (s.cs ci).gen) (state : c.state = (s.cs ci).state) :
    Drift ci [] s (s.setClient ci c) :=
  ⟨Touch.setClient s ci c pitem, SameRing.setClient .., by simp [gen], by simp [state], .nothing⟩

theorem Drift.refl (ci : Nat) (s : Server) : Drift ci [] s s :=
  ⟨Touch.refl ci s, SameRing.refl s, rfl, rfl, .nothing⟩

private theorem append_bytes {m m' : Block} {data : List UInt8} (ran : m.append data = .ok m') :
    m'.bytes = m.bytes ++ data := by
  unfold Block.append at ran
  split at ran
  · cases ran
    rfl
  · cases ran

private theorem format_bytes {m m' : Block} {text : List UInt8} (ran : m.format text = .ok m') :
    m'.bytes = m.bytes ++ text := by
  unfold Block.format at ran
  split at ran
  · cases ran
    rfl
  · cases ran

/-- Writing behind a block that holds the output so far. -/
private theorem appended_of_block {ci : Nat} {data : List UInt8} {s s' : Server} {m : Block}
    {write : Except Fault Block} {ok : Bool} (held : m.bytes = (s.cs ci).output.bytes)
    (bytes : ∀ {m'}, write = .ok m' → m'.bytes = m.bytes ++ data)
    (ran : (do
      let m ← write
      match (s.cs ci).pitem with
      | none => .error .nullPointer
      | some pi =>
        .ok (true, (s.setClient ci { s.cs ci with output := ⟨some m⟩ }).setPollout pi true)) =
      Except.ok (ok, s')) : ok = true ∧ Appended ci data s s' := by
  obtain ⟨m', written, rest⟩ := bind_ok ran
  split at rest
  · cases rest
  · cases rest
    refine ⟨rfl, ?_, ⟨rfl, rfl, rfl⟩, ⟨some m'⟩, by simp, ?_⟩
    · exact (Touch.setClient s ci { s.cs ci with output := ⟨some m'⟩ } rfl).trans
        (Touch.setPollout _ ci _ true)
    · rw [← held]
      exact bytes written

theorem appendOutput_cases {alloc : Nat → Bool} {s s' : Server} {ci : Nat} {data : List UInt8}
    {ok : Bool} (ran : appendOutput alloc s ci data = .ok (ok, s')) :
    (ok = false ∧ s' = s) ∨ (ok = true ∧ Appended ci data s s') := by
  unfold appendOutput at ran
  split at ran
  · rename_i empty
    cases ran
    refine .inr ⟨rfl, Touch.refl ci s, SameRing.refl s, (s.cs ci).output, rfl, ?_⟩
    rw [empty, List.append_nil]
  · simp only at ran
    split at ran
    · cases ran
      exact .inl ⟨rfl, rfl⟩
    · rename_i m ensured
      exact .inr (appended_of_block (ensureFreeSpace_bytes ensured) append_bytes ran)

theorem appendOutputFormat_cases {alloc : Nat → Bool} {s s' : Server} {ci : Nat}
    {text : List UInt8} {ok : Bool} (ran : appendOutputFormat alloc s ci text = .ok (ok, s')) :
    (ok = false ∧ s' = s) ∨ (ok = true ∧ Appended ci text s s') := by
  unfold appendOutputFormat at ran
  simp only at ran
  split at ran
  · cases ran
    exact .inl ⟨rfl, rfl⟩
  · rename_i m ensured
    have held : m.bytes = (s.cs ci).output.bytes := by
      split at ensured
      · exact ensureFreeSpace_bytes ensured
      · rw [IoBuf.bytes, ensured]
    split at ran
    · rename_i empty
      cases ran
      refine .inr ⟨rfl, Touch.setClient s ci _ rfl, SameRing.setClient .., ⟨some m⟩, by simp, ?_⟩
      rw [empty, List.append_nil, ← held]
      rfl
    · exact .inr (appended_of_block held format_bytes ran)

/-- A round of `http_server_wait_request` is one step. -/
theorem waitRound_micro {max : Nat} {alloc : Nat → Bool} {s s' : Server}
    {result : Option (Nat × Request)} (ran : waitRound max alloc s = .ok (s', result)) :
    Micro max s s' := by
  obtain ⟨nonempty, outcome⟩ := waitRound_cases ran
  have touch : Touch (s.qdata s.qhead)
      [.popped (s.qdata s.qhead) (s.cs (s.qdata s.qhead)).state] s (popped max s) :=
    ((Touch.dequeue s max (s.qdata s.qhead)).trans (Touch.record _ _ rfl)).trans
      (Touch.setClient _ _ _ (by simp))
  have ring : PoppedRing max s (popped max s) := ⟨nonempty, rfl, rfl, rfl⟩
  have client : (popped max s).cs (s.qdata s.qhead) =
      { s.cs (s.qdata s.qhead) with state := .popped } := by
    simp [popped]
  rcases outcome with ⟨minor, status, -, -, refused⟩ | ⟨verdict, -, rfl⟩ |
    ⟨r, headLen, total, verdict, small, -, rfl⟩
  · obtain ⟨text, -, rest⟩ := bind_ok refused
    obtain ⟨⟨ok, s₁⟩, written, rest⟩ := bind_ok rest
    rcases appendOutputFormat_cases written with ⟨rfl, rfl⟩ | ⟨rfl, appended⟩
    · exact .poppedClosed touch ring (by rw [client]) (by rw [client]) rest
    · cases rest
      obtain ⟨output, same, grown⟩ := appended.output
      refine .popped ((touch.trans appended.touch).trans ((Touch.setClient _ _ _ (by simp)).trans
        (Touch.record _ _ rfl))) ⟨nonempty, ?_, ?_, ?_⟩ (by simp) (by simp) ?_
      · exact appended.ring.qhead
      · exact appended.ring.qused
      · exact appended.ring.qdata
      · rw [client] at same grown
        simpa [same] using ClientStep.refused (s.cs (s.qdata s.qhead)) output text grown
  · refine .popped (touch.trans (Touch.record _ _ rfl)) ⟨nonempty, rfl, rfl, rfl⟩ ?_ ?_ ?_
    · simp [client]
    · simp [client]
    · simpa [client] using ClientStep.deferred (s.cs (s.qdata s.qhead)) verdict
  · refine .popped (touch.trans ((Touch.setClient _ _ _ (by simp)).trans (Touch.record _ _ rfl)))
      ⟨nonempty, rfl, rfl, rfl⟩ ?_ ?_ ?_
    · simp [delivered]
    · simp [delivered]
    · simpa [delivered, client] using
        ClientStep.delivered (s.cs (s.qdata s.qhead)) r headLen total verdict small

theorem clientFromHandle_iff {s : Server} {handle ci : Nat} :
    clientFromHandle s handle = some ci ↔
      handle >>> 16 = ci ∧ ci < s.ncs ∧ (s.cs ci).gen = handle &&& 0xFFFF := by
  unfold clientFromHandle
  simp only
  constructor
  · intro found
    split at found
    · cases found
    · split at found
      · cases found
      · rename_i inside same
        cases found
        exact ⟨rfl, by omega, not_not.mp same⟩
  · rintro ⟨rfl, inside, same⟩
    rw [if_neg (by omega), if_neg (not_not.mpr same)]

theorem clientFromHandle_bound {s : Server} {handle ci : Nat}
    (found : clientFromHandle s handle = some ci) : ci < s.ncs :=
  (clientFromHandle_iff.mp found).2.1

/-- The status line of a response. -/
def statusText (minor : Nat) (status : Int) : List UInt8 :=
  ascii ("HTTP/1." ++ toString minor ++ " " ++ toString status ++ " " ++ reasonPhrase status ++
    "\r\n")

theorem setStatus_cases {max handle ci : Nat} {alloc : Nat → Bool} {s s' : Server} {status : Int}
    (found : clientFromHandle s handle = some ci) (was : (s.cs ci).state = .status)
    (ran : setStatus max alloc s handle status = .ok s') :
    closeClient max s ci = .ok s' ∨
      ∃ s₁, Appended ci (statusText (s.cs ci).minor status) s s₁ ∧
        s' = (s₁.setClient ci { s₁.cs ci with state := .header }).record
          (.built ci (.status (statusText (s.cs ci).minor status))) := by
  simp only [setStatus, found, was, ne_eq, not_true_eq_false, if_false] at ran
  obtain ⟨⟨ok, s₁⟩, written, rest⟩ := bind_ok ran
  rcases appendOutputFormat_cases written with ⟨rfl, rfl⟩ | ⟨rfl, appended⟩
  · exact .inl rest
  · cases rest
    exact .inr ⟨s₁, appended, rfl⟩

theorem setStatus_path {max handle : Nat} {alloc : Nat → Bool} {s s' : Server} {status : Int}
    (ran : setStatus max alloc s handle status = .ok s') : Path max s s' := by
  cases found : clientFromHandle s handle with
  | none =>
    simp only [setStatus, found] at ran
    cases ran
    exact .refl
  | some ci =>
    by_cases was : (s.cs ci).state = .status
    · have slot : Slot s ci := .inr (clientFromHandle_bound found)
      rcases setStatus_cases found was ran with closed | ⟨s₁, appended, rfl⟩
      · exact .single (.closed slot (Drift.refl ci s) closed)
      · obtain ⟨output, same, grown⟩ := appended.output
        refine .single (.changed slot (appended.touch.trans ((Touch.setClient _ ci _ (by simp)).trans
          (Touch.record _ _ rfl))) ⟨appended.ring.qhead, appended.ring.qused, appended.ring.qdata⟩
          ?_ ?_ ?_)
        · simp [was]
        · simp [was]
        · simpa [same] using ClientStep.status (s.cs ci) output _ was grown
    · simp only [setStatus, found, ne_eq, was, not_false_eq_true, if_true] at ran
      cases ran
      exact .refl

theorem appendHeader_path {max handle : Nat} {alloc : Nat → Bool} {s s' : Server}
    {text : List UInt8} (ran : appendHeader max alloc s handle text = .ok s') :
    Path max s s' := by
  unfold appendHeader at ran
  split at ran
  · cases ran
    exact .refl
  · rename_i ci found
    have slot : Slot s ci := .inr (clientFromHandle_bound found)
    split at ran
    · cases ran
      exact .refl
    · rename_i was
      split at ran
      · cases ran
        exact .refl
      · split at ran
        · cases ran
          exact .refl
        · split at ran
          · cases ran
            refine .single (.changed slot (Touch.setClient s ci _ rfl) (SameRing.setClient ..) (by simp)
              (by simp) ?_)
            simpa using ClientStep.noted (s.cs ci) _ (not_not.mp was)
          · obtain ⟨⟨ok, s₁⟩, written, rest⟩ := bind_ok ran
            rcases appendOutput_cases written with ⟨rfl, rfl⟩ | ⟨rfl, appended⟩
            · cases rest
              exact .refl
            · obtain ⟨⟨ok, s₂⟩, written', rest'⟩ := bind_ok rest
              rcases appendOutput_cases written' with ⟨rfl, rfl⟩ | ⟨rfl, appended'⟩
              · exact .single (.closed slot appended.drift rest')
              · cases rest'
                obtain ⟨output, same, grown⟩ := appended.output
                obtain ⟨output', same', grown'⟩ := appended'.output
                rw [same] at same' grown'
                have ring := appended.ring.trans appended'.ring
                refine .single (.changed slot ((appended.touch.trans appended'.touch).trans
                  (Touch.record _ _ rfl)) ⟨ring.qhead, ring.qused, ring.qdata⟩ ?_ ?_ ?_)
                · simp [same']
                · simp [same']
                · simp only at grown'
                  rw [grown] at grown'
                  simpa [same'] using
                    ClientStep.header (s.cs ci) output' text (not_not.mp was) grown'

/-- The `Connection` line of `append_special_headers`. -/
private theorem connection_stage {ci : Nat} {alloc : Nat → Bool} {s s₁ : Server} {ok keep : Bool}
    (ran : (if (s.cs ci).minor = 1 then do
      let (ok, s) ← appendOutput alloc s ci (connectionLine keep)
      .ok (ok, s.setClient ci { s.cs ci with keepalive := keep })
    else .ok (true, s)) = Except.ok (ok, s₁)) :
    Drift ci [] s s₁ ∧ (ok = true → ∃ output : IoBuf,
      s₁.cs ci = { s.cs ci with
        output := output
        keepalive := if (s.cs ci).minor = 1 then keep else (s.cs ci).keepalive } ∧
      output.bytes = (s.cs ci).output.bytes ++
        if (s.cs ci).minor = 1 then connectionLine keep else []) := by
  split at ran
  · rename_i modern
    obtain ⟨⟨ready, s₂⟩, written, rest⟩ := bind_ok ran
    cases rest
    rcases appendOutput_cases written with ⟨rfl, rfl⟩ | ⟨rfl, appended⟩
    · exact ⟨Drift.setClient s₂ ci _ rfl rfl rfl, by simp⟩
    · obtain ⟨output, same, grown⟩ := appended.output
      refine ⟨appended.drift.trans (Drift.setClient s₂ ci _ rfl rfl rfl), fun _ => ⟨output, ?_, ?_⟩⟩
      · simp [same, modern]
      · rw [if_pos modern]
        exact grown
  · rename_i old
    cases ran
    refine ⟨Drift.refl ci s, fun _ => ⟨(s.cs ci).output, ?_, ?_⟩⟩
    · simp [old]
    · simp [old]

/-- A text that is appended, or closes the client. -/
private theorem append_or_close {max ci : Nat} {alloc : Nat → Bool} {s s' : Server}
    {data : List UInt8} {ok : Bool} {next : Server → Except Fault (Bool × Server)}
    (ran : appendOrClose max alloc s ci data next = .ok (ok, s')) :
    (ok = false ∧ closeClient max s ci = .ok s') ∨
      ∃ s₁, Appended ci data s s₁ ∧ next s₁ = .ok (ok, s') := by
  obtain ⟨⟨ready, s₁⟩, written, rest⟩ := bind_ok ran
  rcases appendOutput_cases written with ⟨rfl, rfl⟩ | ⟨rfl, appended⟩
  · obtain ⟨s₂, closed, done⟩ := bind_ok rest
    cases done
    exact .inl ⟨rfl, closed⟩
  · exact .inr ⟨s₁, appended, rest⟩

/-- The client is lost while its head is finished. -/
def LostInHead (max ci : Nat) (s s' : Server) : Prop :=
  ∃ s₁, Drift ci [] s s₁ ∧ closeClient max s₁ ci = .ok s'

/-- The head of a response is finished. -/
structure HeadFinished (ci : Nat) (keep : Bool) (s s' : Server) : Prop where
  touch : Touch ci [.built ci (.special (specialHeaders (s.cs ci).minor keep))] s s'
  ring : SameRing s s'
  client : ∃ output : IoBuf,
    output.bytes =
      (s.cs ci).output.bytes ++ specialHeaders (s.cs ci).minor keep ++ (blanks ++ ascii "\r\n") ∧
    s'.cs ci = { s.cs ci with
      output := output
      keepalive := if (s.cs ci).minor = 1 then keep else (s.cs ci).keepalive
      contentLengthOffset :=
        ((s.cs ci).output.bytes ++ specialHeaders (s.cs ci).minor keep).length
      contentOffset := output.used
      state := .content }

theorem appendSpecialHeaders_cases {max ci : Nat} {alloc : Nat → Bool} {s s' : Server} {ok : Bool}
    (ran : appendSpecialHeaders max alloc s ci = .ok (ok, s')) :
    (ok = false ∧ LostInHead max ci s s') ∨
      (ok = true ∧ HeadFinished ci (keepsAlive max s (s.cs ci)) s s') := by
  unfold appendSpecialHeaders at ran
  obtain ⟨⟨ready, s₁⟩, connection, rest₁⟩ := bind_ok ran
  obtain ⟨drift₁, stage₁⟩ := connection_stage connection
  cases ready with
  | false =>
    obtain ⟨s₂, closed, done⟩ := bind_ok rest₁
    cases done
    exact .inl ⟨rfl, s₁, drift₁, closed⟩
  | true =>
    obtain ⟨output₁, same₁, grown₁⟩ := stage₁ rfl
    simp only [Bool.not_true, Bool.false_eq_true, if_false] at rest₁
    rcases append_or_close rest₁ with ⟨rfl, closed⟩ | ⟨s₂, appended₂, rest₂⟩
    · exact .inl ⟨rfl, _, drift₁, closed⟩
    obtain ⟨output₂, same₂, grown₂⟩ := appended₂.output
    have drift₂ := (drift₁.trans appended₂.drift).trans
      (Drift.setClient s₂ ci { s₂.cs ci with contentLengthOffset := (s₂.cs ci).output.used }
        rfl rfl rfl)
    rcases append_or_close rest₂ with ⟨rfl, closed⟩ | ⟨s₃, appended₃, rest₃⟩
    · exact .inl ⟨rfl, _, drift₂, closed⟩
    obtain ⟨output₃, same₃, grown₃⟩ := appended₃.output
    have drift₃ := drift₂.trans appended₃.drift
    rcases append_or_close rest₃ with ⟨rfl, closed⟩ | ⟨s₄, appended₄, rest₄⟩
    · exact .inl ⟨rfl, _, drift₃, closed⟩
    obtain ⟨output₄, same₄, grown₄⟩ := appended₄.output
    have drift₄ := drift₃.trans appended₄.drift
    cases rest₄
    simp only [Server.setClient_cs, Function.update_self] at same₃ grown₃
    rw [same₃] at same₄ grown₄
    rw [same₂] at same₃ grown₃ same₄
    rw [same₁] at grown₂ same₄
    simp only at grown₃ grown₄ grown₂ same₄
    have grown : output₄.bytes = (s.cs ci).output.bytes ++
        specialHeaders (s.cs ci).minor (keepsAlive max s (s.cs ci)) ++ (blanks ++ ascii "\r\n") := by
      rw [grown₄, grown₃, grown₂, grown₁]
      simp only [specialHeaders, List.append_assoc]
    have offset : output₂.used = ((s.cs ci).output.bytes ++
        specialHeaders (s.cs ci).minor (keepsAlive max s (s.cs ci))).length := by
      rw [IoBuf.used, grown₂, grown₁]
      simp only [specialHeaders, List.append_assoc]
    have touch := drift₄.touch.trans ((Touch.setClient s₄ ci
      { s₄.cs ci with contentOffset := (s₄.cs ci).output.used, state := .content } rfl).trans
        (Touch.record _ (.built ci (.special (specialHeaders (s₄.cs ci).minor
          (keepsAlive max s (s.cs ci))))) rfl))
    refine .inr ⟨rfl, ?_, ⟨drift₄.ring.qhead, drift₄.ring.qused, drift₄.ring.qdata⟩,
      output₄, grown, ?_⟩
    · rw [same₄] at touch
      simpa [same₄] using touch
    · rw [← offset]
      simp [same₄]

theorem HeadFinished.micro {max ci : Nat} {keep : Bool} {s s' : Server} (slot : Slot s ci)
    (was : (s.cs ci).state = .header) (finished : HeadFinished ci keep s s') : Micro max s s' := by
  obtain ⟨output, grown, same⟩ := finished.client
  refine .changed slot finished.touch finished.ring ?_ ?_ ?_
  · simp [same, was]
  · simp [same, was]
  · rw [same]
    exact .special (s.cs ci) output keep was grown

/-- The head of a response is finished, now or before. -/
def HeadReady (ci : Nat) (s s' : Server) : Prop :=
  ((s.cs ci).state = .header ∧ ∃ keep, HeadFinished ci keep s s') ∨
    ((s.cs ci).state = .content ∧ s' = s)

theorem HeadReady.state {ci : Nat} {s s' : Server} (ready : HeadReady ci s s') :
    (s'.cs ci).state = .content := by
  rcases ready with ⟨was, keep, finished⟩ | ⟨was, rfl⟩
  · obtain ⟨output, -, same⟩ := finished.client
    rw [same]
  · exact was

theorem HeadReady.path {max ci : Nat} {s s' : Server} (slot : Slot s ci)
    (ready : HeadReady ci s s') : Path max s s' ∧ Slot s' ci := by
  rcases ready with ⟨was, keep, finished⟩ | ⟨was, rfl⟩
  · refine ⟨.single (finished.micro slot was), ?_⟩
    rw [Slot, finished.touch.ncs, finished.touch.pis]
    exact slot
  · exact ⟨.refl, slot⟩

/-- What appending to the body does to a client with a head. -/
theorem appendBody_cases {max handle ci : Nat} {alloc : Nat → Bool} {s s' : Server}
    {data : List UInt8} {append : Server → Nat → Except Fault (Bool × Server)}
    (appends : ∀ {s s' : Server} {ci : Nat} {ok : Bool}, append s ci = .ok (ok, s') →
      (ok = false ∧ s' = s) ∨ (ok = true ∧ Appended ci data s s'))
    (found : clientFromHandle s handle = some ci)
    (was : (s.cs ci).state = .header ∨ (s.cs ci).state = .content)
    (ran : appendBody max alloc s handle data append = .ok s') :
    ((s.cs ci).state = .header ∧ LostInHead max ci s s') ∨
      ∃ s₁, HeadReady ci s s₁ ∧ (closeClient max s₁ ci = .ok s' ∨
        ∃ s₂, Appended ci data s₁ s₂ ∧ s' = s₂.record (.built ci (.content data))) := by
  simp only [appendBody, found] at ran
  obtain ⟨⟨ready, s₁⟩, special, rest₁⟩ := bind_ok ran
  have stage : (ready = false ∧ (s.cs ci).state = .header ∧ LostInHead max ci s s₁) ∨
      (ready = true ∧ HeadReady ci s s₁) := by
    split at special
    · rename_i header
      rcases appendSpecialHeaders_cases special with ⟨rfl, lost⟩ | ⟨rfl, finished⟩
      · exact .inl ⟨rfl, header, lost⟩
      · exact .inr ⟨rfl, .inl ⟨header, _, finished⟩⟩
    · rename_i header
      cases special
      exact .inr ⟨rfl, .inr ⟨was.resolve_left header, rfl⟩⟩
  rcases stage with ⟨rfl, header, lost⟩ | ⟨rfl, headed⟩
  · cases rest₁
    exact .inl ⟨header, lost⟩
  · simp only [headed.state, Bool.not_true, Bool.false_eq_true, ne_eq, not_true_eq_false,
      if_false] at rest₁
    obtain ⟨⟨ok, s₂⟩, written, rest₂⟩ := bind_ok rest₁
    refine .inr ⟨s₁, headed, ?_⟩
    rcases appends written with ⟨rfl, rfl⟩ | ⟨rfl, appended⟩
    · exact .inl rest₂
    · cases rest₂
      exact .inr ⟨s₂, appended, rfl⟩

theorem appendBody_path {max handle : Nat} {alloc : Nat → Bool} {s s' : Server}
    {data : List UInt8} {append : Server → Nat → Except Fault (Bool × Server)}
    (appends : ∀ {s s' : Server} {ci : Nat} {ok : Bool}, append s ci = .ok (ok, s') →
      (ok = false ∧ s' = s) ∨ (ok = true ∧ Appended ci data s s'))
    (ran : appendBody max alloc s handle data append = .ok s') : Path max s s' := by
  cases found : clientFromHandle s handle with
  | none =>
    simp only [appendBody, found] at ran
    cases ran
    exact .refl
  | some ci =>
    have slot : Slot s ci := .inr (clientFromHandle_bound found)
    by_cases was : (s.cs ci).state = .header ∨ (s.cs ci).state = .content
    · rcases appendBody_cases appends found was ran with ⟨-, s₁, drift, closed⟩ | ⟨s₁, headed, rest⟩
      · exact .single (.closed slot drift closed)
      · obtain ⟨path, slot₁⟩ := headed.path slot
        rcases rest with closed | ⟨s₂, appended, rfl⟩
        · exact path.tail (.closed slot₁ (Drift.refl ci s₁) closed)
        · obtain ⟨output, same, grown⟩ := appended.output
          refine path.tail (.changed slot₁ (appended.touch.trans (Touch.record _ _ rfl))
            ⟨appended.ring.qhead, appended.ring.qused, appended.ring.qdata⟩ ?_ ?_ ?_)
          · simp [same]
          · simp [same]
          · simpa [same] using ClientStep.content (s₁.cs ci) output data headed.state grown
    · obtain ⟨header, content⟩ := not_or.mp was
      simp only [appendBody, found, header, if_false] at ran
      obtain ⟨result, same, rest⟩ := bind_ok ran
      cases same
      simp only [content, Bool.not_true, Bool.false_eq_true, ne_eq, not_false_eq_true, if_true,
        if_false] at rest
      cases rest
      exact .refl

theorem appendContent_path {max handle : Nat} {alloc : Nat → Bool} {s s' : Server}
    {data : List UInt8} (ran : appendContent max alloc s handle data = .ok s') : Path max s s' :=
  appendBody_path appendOutput_cases ran

theorem appendContentFormat_path {max handle : Nat} {alloc : Nat → Bool} {s s' : Server}
    {text : List UInt8} (ran : appendContentFormat max alloc s handle text = .ok s') :
    Path max s s' :=
  appendBody_path appendOutputFormat_cases ran

theorem IoBuf.setBytes_bytes {b : IoBuf} {bytes : List UInt8} (held : b.bytes = [] → bytes = []) :
    (b.setBytes bytes).bytes = bytes := by
  unfold IoBuf.setBytes IoBuf.bytes at *
  cases block : b.block with
  | none =>
    rw [block] at held
    exact (held rfl).symm
  | some m => rfl

/-- What is left of the input behind a request. -/
private theorem input_left (input : IoBuf) (n : Nat) :
    (if input.used = n then ({} : IoBuf) else input.setBytes (input.bytes.drop n)).bytes =
      input.bytes.drop n := by
  split
  · rename_i whole
    rw [List.drop_eq_nil_of_le (by rw [← IoBuf.used, whole])]
    rfl
  · exact IoBuf.setBytes_bytes (fun empty => by rw [empty, List.drop_nil])

/-- The end of a response is one step, of the server and of the client. -/
theorem finishResponse_micro {max ci : Nat} {s s' : Server} (slot : ci < s.ncs)
    (was : (s.cs ci).state = .content) (ran : finishResponse max s ci = .ok s') :
    Micro max s s' ∧ ClientStep ci (s.cs ci) [.completed ci] (s'.cs ci) ∧
      s'.log = s.log ++ [.completed ci] := by
  unfold finishResponse at ran
  simp only at ran
  split at ran
  · cases ran
  · rename_i short
    split at ran
    · cases ran
    · cases ran
    · rename_i bytes pi stored entry
      split at ran
      · cases ran
      · rename_i inside
        have inside : (s.cs ci).requestLength ≤ (s.cs ci).input.used := Nat.le_of_not_lt inside
        have written : ((s.cs ci).output.setBytes bytes).bytes = bytes := by
          refine IoBuf.setBytes_bytes (fun empty => List.eq_nil_of_length_eq_zero ?_)
          rw [Memory.store_length stored, empty, List.length_nil]
        rw [← written] at stored
        have left := input_left (s.cs ci).input (s.cs ci).requestLength
        generalize (if (s.cs ci).input.used = (s.cs ci).requestLength then ({} : IoBuf)
          else (s.cs ci).input.setBytes
            ((s.cs ci).input.bytes.drop (s.cs ci).requestLength)) = input at ran left
        have completed := fun state keepalive => @ClientStep.completed ci (s.cs ci) input
          ((s.cs ci).output.setBytes bytes) state keepalive was (not_not.mp short) stored inside left
        obtain ⟨s₁, outcome, rest⟩ := bind_ok ran
        cases rest
        split at outcome
        · rename_i keeps
          split at outcome
          · rename_i found
            obtain ⟨s₂, pushed, rest⟩ := bind_ok outcome
            obtain ⟨room, rfl⟩ := pushClient_eq pushed
            cases rest
            have step := completed .queued false (.queued keeps found)
            refine ⟨.pushed (.inr slot) ((Touch.setPollout s ci pi true).trans
              ((Touch.enqueue _ max ci).trans ((Touch.setClient _ ci _ (by simp)).trans
                ((Touch.setClient _ ci _ (by simp)).trans (Touch.record _ _ rfl)))))
              ⟨room, rfl, rfl, rfl⟩ (by simp [was]) (by simp [was]) (by simp) ?_, ?_, rfl⟩
            · simpa using step
            · simpa using step
          · rename_i missing
            cases outcome
            have step := completed .idle false (.idle keeps (isSome_iff_ne_none.mp missing))
            refine ⟨.changed (.inr slot) ((Touch.setPollout s ci pi true).trans
              ((Touch.setClient _ ci _ (by simp)).trans
                ((Touch.setClient _ ci _ (by simp)).trans (Touch.record _ _ rfl))))
              ⟨rfl, rfl, rfl⟩ (by simp [was]) (by simp [was]) ?_, ?_, rfl⟩
            · simpa using step
            · simpa using step
        · rename_i ends
          cases outcome
          have step := completed .close (s.cs ci).keepalive (.close (by simpa using ends))
          refine ⟨.changed (.inr slot) ((Touch.setPollout s ci pi true).trans
            ((Touch.setClient _ ci _ (by simp)).trans
              ((Touch.setClient _ ci _ (by simp)).trans (Touch.record _ _ rfl))))
            ⟨rfl, rfl, rfl⟩ (by simp [was]) (by simp [was]) ?_, ?_, rfl⟩
          · simpa using step
          · simpa using step

theorem sendResponse_path {max handle : Nat} {alloc : Nat → Bool} {s s' : Server}
    (ran : sendResponse max alloc s handle = .ok s') : Path max s s' := by
  unfold sendResponse at ran
  split at ran
  · cases ran
    exact .refl
  · obtain ⟨s₁, status, rest₁⟩ := bind_ok ran
    have first : Path max s s₁ := by
      split at status
      · exact setStatus_path status
      · cases status
        exact .refl
    refine first.trans ?_
    split at rest₁
    · cases rest₁
      exact .refl
    · obtain ⟨s₂, content, rest₂⟩ := bind_ok rest₁
      have second : Path max s₁ s₂ := by
        split at content
        · exact appendContent_path content
        · cases content
          exact .refl
      refine second.trans ?_
      split at rest₂
      · cases rest₂
        exact .refl
      · rename_i ci found
        split at rest₂
        · exact .single (.closed (.inr (clientFromHandle_bound found)) (Drift.refl ci s₂) rest₂)
        · rename_i was
          exact .single
            (finishResponse_micro (clientFromHandle_bound found) (not_not.mp was) rest₂).1

theorem call_ok {st st' : State} {result : Except Fault Server}
    (called : call st result = some st') : result = .ok st'.server := by
  unfold call at called
  split at called
  · cases called
  · cases result with
    | error fault => cases called
    | ok s =>
      cases called
      rfl

/-- Every action is a path of steps. -/
theorem next_path {max : Nat} {st st' : State} {a : Action} (moved : next max st a = some st') :
    Path max st.server st'.server := by
  cases a with
  | wait =>
    simp only [next] at moved
    split at moved
    · cases moved
    · cases moved
      exact .refl
  | processIo io =>
    simp only [next] at moved
    split at moved
    · cases ran : processIo max st.server io with
      | error fault => simp [ran, Except.toOption] at moved
      | ok s =>
        simp only [ran, Except.toOption, Option.map_some, Option.some.injEq] at moved
        cases moved
        exact processIo_path ran
    · cases moved
  | round alloc =>
    simp only [next] at moved
    split at moved
    · cases ran : waitRound max alloc st.server with
      | error fault => simp [ran, Except.toOption] at moved
      | ok result =>
        simp only [ran, Except.toOption, Option.map_some, Option.some.injEq] at moved
        cases moved
        exact .single (waitRound_micro ran)
    · cases moved
  | setStatus handle status alloc => exact setStatus_path (call_ok moved)
  | appendHeader handle text alloc => exact appendHeader_path (call_ok moved)
  | appendContent handle data alloc => exact appendContent_path (call_ok moved)
  | appendContentFormat handle text alloc => exact appendContentFormat_path (call_ok moved)
  | sendResponse handle alloc => exact sendResponse_path (call_ok moved)

end Mysnips.HttpServer
