import Mysnips.AsyncIoHandles
import Mysnips.AsyncIoRing
import Mysnips.Totals

/-! The bookkeeping of the operations on Linux. An operation structure is held by the call
that started it until its completion is taken. `close_internal` marks the structures of a
resource unused while their completions are still to come, and a completion only names the
structure: where it is taken after that, it is reported as if it were that of another call. -/
namespace Mysnips.AsyncIo
open Machine Totals Transition

/-- An operation structure is in use for a resource. -/
def Operation.Uses (op : Operation) (r : Nat) : Prop := op.type ≠ .void ∧ op.res = some r

instance (op : Operation) (r : Nat) : Decidable (op.Uses r) := inferInstanceAs (Decidable (_ ∧ _))

/-- The number of operation structures in use for a resource. -/
def uses (config : Config) (ops : Nat → Operation) (r : Nat) : Nat :=
  (List.range config.maxOps).countP fun o => (ops o).Uses r

/-- What the tables and the reports should be. -/
structure Bookkeeping (config : Config) (s : State) : Prop where
  pending : ∀ r < config.maxRes, (s.res r).pending = uses config s.ops r
  /-- The loop of `close_internal` stops before it has seen all structures. -/
  scan : ∀ r < config.maxRes, ∃ ops,
    markUnused r (s.res r).pending config.maxOps 0 0 s.ops = .ok ops
  /-- A completion is reported as that of its call, and not after its resource was closed. -/
  reports : ∀ call turn event, .reported call turn event ∈ s.log → turn = call.turn ∧
    event.handle = call.handle ∧ event.user = call.user ∧ event.optype = call.type

/-- A call that returned true, and whose resource has not been closed since. -/
def Current (s : State) (call : Call) : Prop :=
  call.returned = true ∧ (s.res call.res).turn = call.turn

instance (s : State) (call : Call) : Decidable (Current s call) :=
  inferInstanceAs (Decidable (_ ∧ _))

/-- Whether a call gets a descriptor to open a resource for. -/
def Action.opens : Action → Bool
  | .openFile osHandle | .createFile osHandle => 0 ≤ osHandle
  | .startServer port parsed fd listening =>
    1 ≤ port && port ≤ uint16Max && parsed && 0 ≤ fd && listening
  | _ => false

/-- No operations are pending for a resource that is opened. -/
def OpensUnpending (config : Config) (s : State) (action : Action) : Prop :=
  action.opens = true → ∀ r ∈ findUnusedRes config s, (s.res r).pending = 0

/-- The completion that is taken is that of a call which returned true and whose resource has
not been closed since. -/
def TakesCurrent (s : State) : Action → Prop
  | .wait _ => ∀ completion ∈ s.arrived.head?, Current s completion.call
  | _ => True

instance (s : State) : (action : Action) → Decidable (TakesCurrent s action)
  | .wait _ => inferInstanceAs (Decidable (∀ completion ∈ s.arrived.head?, Current s completion.call))
  | .openFile _ | .createFile _ | .startServer _ _ _ _ | .recv _ _ _ | .send _ _ _ | .accept _ _ _ _
  | .close _ | .complete _ _ => isTrue trivial

/-- Completions are taken and resources are opened in time. -/
def Timely (config : Config) (s : State) (action : Action) : Prop :=
  OpensUnpending config s action ∧ TakesCurrent s action

instance (config : Config) (s : State) (action : Action) : Decidable (Timely config s action) :=
  inferInstanceAs (Decidable
    ((action.opens = true → ∀ r ∈ findUnusedRes config s, (s.res r).pending = 0) ∧
      TakesCurrent s action))

/-! ## Counting the operations -/

theorem uses_update {config : Config} (ops : Nat → Operation) (r : Nat) {o : Nat}
    (inside : o < config.maxOps) (op : Operation) :
    uses config (Function.update ops o op) r + (decide ((ops o).Uses r)).toNat =
      uses config ops r + (decide (op.Uses r)).toNat :=
  countP_update List.nodup_range (fun op : Operation => decide (op.Uses r)) ops
    (List.mem_range.mpr inside) op

theorem uses_le (config : Config) (ops : Nat → Operation) (r : Nat) :
    uses config ops r ≤ config.maxOps := by
  have all := List.countP_le_length (p := fun o => decide ((ops o).Uses r))
    (l := List.range config.maxOps)
  rwa [List.length_range] at all

theorem uses_pos {config : Config} {ops : Nat → Operation} {r o : Nat} (inside : o < config.maxOps)
    (used : (ops o).Uses r) : 0 < uses config ops r :=
  List.countP_pos_iff.mpr ⟨o, List.mem_range.mpr inside, by simpa using used⟩

/-- An operation structure after its resource was closed. -/
def Operation.release (op : Operation) (r : Nat) : Operation :=
  if op.Uses r then { op with type := .void, res := none } else op

theorem release_other {op : Operation} {r : Nat} (unused : ¬ op.Uses r) : op.release r = op :=
  if_neg unused

theorem release_uses (op : Operation) (r other : Nat) :
    (op.release r).Uses other ↔ op.Uses other ∧ other ≠ r := by
  unfold Operation.release
  split
  · rename_i used
    constructor
    · rintro ⟨type, -⟩
      exact absurd rfl type
    · rintro ⟨⟨-, res⟩, different⟩
      exact absurd (Option.some.inj (res.symm.trans used.2)) different
  · rename_i unused
    refine ⟨fun used => ⟨used, ?_⟩, And.left⟩
    rintro rfl
    exact unused used

/-- The structures behind one that is marked are counted as before. -/
private theorem countP_behind {ops : Nat → Operation} (i left r : Nat) (op : Operation) :
    (List.range' (i + 1) left).countP (fun o => decide ((Function.update ops i op o).Uses r)) =
      (List.range' (i + 1) left).countP (fun o => decide ((ops o).Uses r)) := by
  apply List.countP_congr
  intro o member
  have later := (List.mem_range'_1.mp member).1
  rw [Function.update_of_ne (by omega)]

/-- Releasing one structure and then those behind it. -/
private theorem release_behind {ops ops₁ : Nat → Operation} {i r : Nat}
    (here : ops₁ i = (ops i).release r) (others : ∀ o, o ≠ i → ops₁ o = ops o) (left o : Nat) :
    (if i + 1 ≤ o ∧ o < i + 1 + left then (ops₁ o).release r else ops₁ o) =
      if i ≤ o ∧ o < i + (left + 1) then (ops o).release r else ops o := by
  by_cases first : o = i
  · rw [first, if_neg (by omega), if_pos (by omega), here]
  · rw [others o first]
    congr 1
    apply propext
    omega

/-- The loop of `close_internal` ends where it has marked all structures of the resource, if
there are as many as it looks for. -/
theorem markUnused_spec {r pending left i marked : Nat} {ops : Nat → Operation}
    (counted : marked + (List.range' i left).countP (fun o => decide ((ops o).Uses r)) = pending) :
    ∃ ops', markUnused r pending left i marked ops = .ok ops' ∧
      ∀ o, ops' o = if i ≤ o ∧ o < i + left then (ops o).release r else ops o := by
  induction left generalizing i marked ops with
  | zero =>
    refine ⟨ops, ?_, fun o => (if_neg (by omega)).symm⟩
    rw [List.range'_zero, List.countP_nil] at counted
    unfold markUnused
    rw [if_neg (by omega)]
  | succ left ih =>
    rw [List.range'_succ, List.countP_cons] at counted
    unfold markUnused
    by_cases more : marked < pending
    · rw [if_pos more]
      by_cases used : (ops i).Uses r
      · have marks : (ops i).type ≠ .void ∧ (ops i).res = some r := used
        simp only [if_pos marks]
        have rest : marked + 1 + (List.range' (i + 1) left).countP (fun o => decide
            ((Function.update ops i { ops i with type := .void, res := none } o).Uses r)) =
            pending := by
          rw [countP_behind]
          simp only [used, decide_true, if_true] at counted
          omega
        obtain ⟨ops', ran, final⟩ := ih rest
        refine ⟨ops', ran, fun o => (final o).trans (release_behind ?_ ?_ left o)⟩
        · rw [Function.update_self, Operation.release, if_pos used]
        · intro o different
          exact Function.update_of_ne different ..
      · have passes : ¬ ((ops i).type ≠ .void ∧ (ops i).res = some r) := used
        simp only [if_neg passes]
        have rest : marked + (List.range' (i + 1) left).countP (fun o => decide ((ops o).Uses r)) =
            pending := by
          simp only [used, decide_false, Bool.false_eq_true, if_false] at counted
          omega
        obtain ⟨ops', ran, final⟩ := ih rest
        refine ⟨ops', ran, fun o => (final o).trans (release_behind ?_ (fun _ _ => rfl) left o)⟩
        rw [release_other used]
    · -- All have been marked, so that no structure is left to be marked.
      rw [if_neg more]
      have none : (List.range' i (left + 1)).countP (fun o => decide ((ops o).Uses r)) = 0 := by
        rw [List.range'_succ, List.countP_cons]
        omega
      refine ⟨ops, rfl, fun o => ?_⟩
      split
      · rename_i inside
        have unused := List.countP_eq_zero.mp none o (List.mem_range'_1.mpr inside)
        rw [release_other (by simpa using unused)]
      · rfl

/-! ## Who holds a structure -/

/-- The structure and the call of an operation that has been submitted. -/
abbrev Ticket : Type := Nat × Call

def Entry.ticket (entry : Entry) : Ticket := (entry.userData, entry.call)

def Completion.ticket (completion : Completion) : Ticket := (completion.userData, completion.call)

/-- What has been submitted and not taken back: the entries that are queued, those the kernel
has, and the completions. -/
def outstanding (queue : List Entry) (s : State) : List Ticket :=
  queue.map Entry.ticket ++ (s.flying.map Entry.ticket ++ s.arrived.map Completion.ticket)

/-- A call holds its operation structure. -/
structure Holding (config : Config) (s : State) (ticket : Ticket) : Prop where
  inside : ticket.1 < config.maxOps
  resource : ticket.2.res < config.maxRes
  type : (s.ops ticket.1).type = ticket.2.type
  used : ticket.2.type ≠ .void
  res : (s.ops ticket.1).res = some ticket.2.res
  user : (s.ops ticket.1).user = ticket.2.user
  handle : ticket.2.handle = pack ticket.2.res (s.res ticket.2.res).gen

theorem Holding.uses {config : Config} {s : State} {ticket : Ticket}
    (holding : Holding config s ticket) : (s.ops ticket.1).Uses ticket.2.res :=
  ⟨holding.type ▸ holding.used, holding.res⟩

/-- Every current call holds its structure, and no structure is held twice. -/
structure Held (config : Config) (s : State) (tickets : List Ticket) : Prop where
  past : ∀ ticket ∈ tickets, ticket.2.turn ≤ (s.res ticket.2.res).turn
  holding : ∀ ticket ∈ tickets, Current s ticket.2 → Holding config s ticket
  single : ∀ o, tickets.countP (fun ticket => ticket.1 = o ∧ Current s ticket.2) ≤ 1

section Held

variable {config : Config} {s s' : State} {tickets tickets' : List Ticket} {ticket : Ticket} {r o : Nat}

/-- The resources have been closed as often as before. -/
def SameTurns (s s' : State) : Prop :=
  ∀ r, (s'.res r).turn = (s.res r).turn ∧ (s'.res r).gen = (s.res r).gen

theorem SameTurns.current (turns : SameTurns s s') (call : Call) :
    Current s' call ↔ Current s call := by rw [Current, Current, (turns call.res).1]

theorem sameTurns_setRes {res : Resource} (turn : res.turn = (s.res r).turn)
    (gen : res.gen = (s.res r).gen) : SameTurns s (s.setRes r res) := by
  intro other
  by_cases here : other = r
  · rw [here, setRes_self]
    exact ⟨turn, gen⟩
  · rw [setRes_ne here]
    exact ⟨rfl, rfl⟩

theorem Holding.keep (holding : Holding config s ticket) (ops : s'.ops ticket.1 = s.ops ticket.1)
    (gen : (s'.res ticket.2.res).gen = (s.res ticket.2.res).gen) : Holding config s' ticket where
  inside := holding.inside
  resource := holding.resource
  type := by rw [ops, holding.type]
  used := holding.used
  res := by rw [ops, holding.res]
  user := by rw [ops, holding.user]
  handle := by rw [gen, holding.handle]

theorem Held.perm (held : Held config s tickets) (same : tickets.Perm tickets') :
    Held config s tickets' := by
  refine ⟨fun ticket member => held.past ticket (same.mem_iff.mpr member),
    fun ticket member => held.holding ticket (same.mem_iff.mpr member), fun o => ?_⟩
  rw [← same.countP_eq]
  exact held.single o

/-- The operations that are held by a current call are as they were. -/
theorem Held.keep (held : Held config s tickets) (turns : SameTurns s s')
    (ops : ∀ ticket ∈ tickets, Current s ticket.2 → s'.ops ticket.1 = s.ops ticket.1) :
    Held config s' tickets := by
  refine ⟨fun ticket member => ?_, fun ticket member now => ?_, fun o => ?_⟩
  · rw [(turns _).1]
    exact held.past ticket member
  · have now := (turns.current _).mp now
    exact (held.holding ticket member now).keep (ops ticket member now) (turns _).2
  · simp only [turns.current]
    exact held.single o

/-- An entry of a call that is not current. -/
theorem Held.orphan (held : Held config s tickets) (past : ticket.2.turn ≤ (s.res ticket.2.res).turn)
    (lost : ¬ Current s ticket.2) : Held config s (ticket :: tickets) := by
  refine ⟨List.forall_mem_cons.mpr ⟨past, held.past⟩,
    List.forall_mem_cons.mpr ⟨fun now => absurd now lost, held.holding⟩, fun o => ?_⟩
  rw [List.countP_cons_of_neg (by simp [lost])]
  exact held.single o

/-- No current call holds an unused structure. -/
theorem Held.unheld (held : Held config s tickets) (unused : (s.ops o).type = .void) :
    tickets.countP (fun ticket => ticket.1 = o ∧ Current s ticket.2) = 0 := by
  apply List.countP_eq_zero.mpr
  intro ticket member both
  simp only [decide_eq_true_eq] at both
  obtain ⟨rfl, now⟩ := both
  have holding := held.holding ticket member now
  exact holding.used (holding.type.symm.trans unused)

/-- A call that starts takes an unused structure. -/
theorem Held.booked (held : Held config s tickets) {call : Call} (inside : o < config.maxOps)
    (resource : call.res < config.maxRes) (unused : (s.ops o).type = .void)
    (used : call.type ≠ .void) (turn : call.turn = (s.res call.res).turn)
    (handle : call.handle = pack call.res (s.res call.res).gen) :
    Held config (book s call.res o call.type call.user) ((o, call) :: tickets) := by
  have turns : SameTurns s (book s call.res o call.type call.user) := sameTurns_setRes rfl rfl
  have before : Held config (book s call.res o call.type call.user) tickets := by
    refine held.keep turns fun ticket member now => setOp_ne fun same => ?_
    have holding := held.holding ticket member now
    rw [← same] at unused
    exact holding.used (holding.type.symm.trans unused)
  refine ⟨List.forall_mem_cons.mpr ⟨?_, before.past⟩,
    List.forall_mem_cons.mpr ⟨fun _ => ?_, before.holding⟩, fun other => ?_⟩
  · rw [(turns _).1, turn]
  · refine ⟨inside, resource, ?_, used, ?_, ?_, ?_⟩
    · rw [book, setOp_self]
    · rw [book, setOp_self]
    · rw [book, setOp_self]
    · rw [(turns _).2]
      exact handle
  · rw [List.countP_cons]
    by_cases here : other = o
    · have none := held.unheld unused
      simp only [turns.current, here]
      rw [none]
      split <;> omega
    · rw [if_neg (by simp [Ne.symm here])]
      exact before.single other

/-- The structure of a completion that is taken is unused again. -/
theorem Held.take (held : Held config s (ticket :: tickets)) (now : Current s ticket.2) :
    Held config (finished s ticket.2.res ticket.1) tickets := by
  have none : tickets.countP (fun other => other.1 = ticket.1 ∧ Current s other.2) = 0 := by
    have both := held.single ticket.1
    rw [List.countP_cons_of_pos (by simp [now])] at both
    omega
  have rest : Held config s tickets := by
    refine ⟨(List.forall_mem_cons.mp held.past).2, (List.forall_mem_cons.mp held.holding).2, fun o => ?_⟩
    have both := held.single o
    rw [List.countP_cons] at both
    omega
  refine rest.keep (sameTurns_setRes rfl rfl) fun other member still => setOp_ne fun same => ?_
  have free := List.countP_eq_zero.mp none other member
  simp [same, still] at free

/-- The calls of a resource that is closed are not current any more, and the other structures
stay as they are. -/
theorem Held.closed (held : Held config s tickets) {ops : Nat → Operation}
    (released : ∀ o < config.maxOps, ops o = (s.ops o).release r) :
    Held config (closedState s r ops) tickets := by
  have other : ∀ r', r' ≠ r → (closedState s r ops).res r' = s.res r' := fun r' different => by
    rw [closedState, record_res, record_res, setRes_ne different]
  have turn : ((closedState s r ops).res r).turn = (s.res r).turn + 1 := by
    rw [closedState, record_res, record_res, setRes_self]
  have current : ∀ ticket ∈ tickets, Current (closedState s r ops) ticket.2 →
      Current s ticket.2 ∧ ticket.2.res ≠ r := by
    intro ticket member now
    have elsewhere : ticket.2.res ≠ r := by
      intro same
      have past := held.past ticket member
      have same_ := now.2
      rw [same, turn] at same_
      rw [same] at past
      omega
    rw [Current, other _ elsewhere] at now
    exact ⟨now, elsewhere⟩
  refine ⟨fun ticket member => ?_, fun ticket member now => ?_, fun o => ?_⟩
  · refine Nat.le_trans (held.past ticket member) ?_
    by_cases here : ticket.2.res = r
    · rw [here, turn]
      exact Nat.le_succ _
    · rw [other _ here]
  · obtain ⟨now, elsewhere⟩ := current ticket member now
    have before := held.holding ticket member now
    have kept : (closedState s r ops).ops ticket.1 = s.ops ticket.1 := by
      have unused : ¬ (s.ops ticket.1).Uses r := by
        rintro ⟨-, res⟩
        exact elsewhere (Option.some.inj (before.res.symm.trans res))
      show ops ticket.1 = _
      rw [released _ before.inside, release_other unused]
    refine before.keep kept ?_
    rw [other _ elsewhere]
  · refine Nat.le_trans (List.countP_mono_left fun ticket member both => ?_) (held.single o)
    simp only [decide_eq_true_eq] at both ⊢
    exact ⟨both.1, (current ticket member both.2).1⟩

end Held

/-! ## Every step -/

/-- The bookkeeping, with what the submission ring holds. -/
structure Booked (config : Config) (s : State) : Prop where
  pending : ∀ r < config.maxRes, (s.res r).pending = uses config s.ops r
  held : ∃ queue, Queued config s.submissions queue ∧ Held config s (outstanding queue s)
  reports : ∀ call turn event, .reported call turn event ∈ s.log → turn = call.turn ∧
    event.handle = call.handle ∧ event.user = call.user ∧ event.optype = call.type

section Step

variable {config : Config} {s s' : State} {r o : Nat}

theorem Booked.scan (booked : Booked config s) (inside : r < config.maxRes) :
    ∃ ops, markUnused r (s.res r).pending config.maxOps 0 0 s.ops = .ok ops ∧
      ∀ o, ops o = if o < config.maxOps then (s.ops o).release r else s.ops o := by
  have counted : 0 + (List.range' 0 config.maxOps).countP (fun o => decide ((s.ops o).Uses r)) =
      (s.res r).pending := by
    rw [Nat.zero_add, ← List.range_eq_range']
    exact (booked.pending r inside).symm
  obtain ⟨ops, ran, final⟩ := markUnused_spec counted
  refine ⟨ops, ran, fun o => ?_⟩
  rw [final]
  simp

theorem Booked.bookkeeping (booked : Booked config s) : Bookkeeping config s where
  pending := booked.pending
  scan r inside := by
    obtain ⟨ops, ran, -⟩ := booked.scan inside
    exact ⟨ops, ran⟩
  reports := booked.reports

theorem Booked.opened (booked : Booked config s) (opens : Opens config s s')
    (free : (∀ r ∈ findUnusedRes config s, (s.res r).pending = 0) ∨ s'.res = s.res) :
    Booked config s' := by
  obtain ⟨queue, queued, held⟩ := booked.held
  cases opens with
  | refused => exact booked
  | undone osHandle =>
    refine ⟨booked.pending, ⟨queue, queued, held.keep (fun _ => ⟨rfl, rfl⟩) fun _ _ _ => rfl⟩, ?_⟩
    intro call turn event member
    exact booked.reports call turn event (by simpa using member)
  | claimed r type osHandle handle open_ unused packed =>
    refine ⟨fun other inside => ?_, ⟨queue, queued, ?_⟩, fun call turn event member => ?_⟩
    · rw [record_res, record_ops, setRes_ops]
      by_cases here : other = r
      · rw [here, setRes_self]
        rcases free with free | same
        · exact (free r unused).symm.trans (booked.pending r (here ▸ inside))
        · have void := (findUnusedRes_spec unused).2
          rw [← same, record_res, setRes_self] at void
          exact absurd void open_
      · rw [setRes_ne here]
        exact booked.pending other inside
    · exact held.keep (sameTurns_setRes rfl rfl) fun _ _ _ => rfl
    · exact booked.reports call turn event (by simpa using member)

theorem uses_book {call : Call} (inside : o < config.maxOps) (unused : (s.ops o).type = .void)
    (used : call.type ≠ .void) (other : Nat) :
    uses config (book s call.res o call.type call.user).ops other =
      uses config s.ops other + if other = call.res then 1 else 0 := by
  have moved := uses_update s.ops other inside
    { s.ops o with res := some call.res, type := call.type, user := call.user }
  have before : ¬ (s.ops o).Uses other := fun uses => uses.1 unused
  by_cases here : other = call.res
  · have after : Operation.Uses
        { s.ops o with res := some call.res, type := call.type, user := call.user } other :=
      ⟨used, by rw [here]⟩
    rw [decide_eq_false before, decide_eq_true after] at moved
    rw [if_pos here]
    exact moved
  · have after : ¬ Operation.Uses
        { s.ops o with res := some call.res, type := call.type, user := call.user } other := by
      rintro ⟨-, same⟩
      exact here (Option.some.inj same).symm
    rw [decide_eq_false before, decide_eq_false after] at moved
    rw [if_neg here]
    exact moved

theorem Booked.pending_book {call : Call} (booked : Booked config s) (inside : o < config.maxOps)
    (unused : (s.ops o).type = .void) (used : call.type ≠ .void) : ∀ other < config.maxRes,
      ((book s call.res o call.type call.user).res other).pending =
        uses config (book s call.res o call.type call.user).ops other := by
  intro other below
  have bound := uses_le config (book s call.res o call.type call.user).ops other
  have few := config.fewOps
  rw [uses_book inside unused used] at bound ⊢
  have pending : ((book s call.res o call.type call.user).res other).pending =
      if other = call.res then ((s.res call.res).pending + 1) % 2 ^ 16
      else (s.res other).pending := by
    rw [book, setOp_res]
    split
    · rename_i here
      rw [here, setRes_self]
    · rename_i elsewhere
      rw [setRes_ne elsewhere]
  rw [pending]
  by_cases here : other = call.res
  · rw [if_pos here] at bound ⊢
    rw [if_pos here, ← here, booked.pending other below]
    exact Nat.mod_eq_of_lt (by omega)
  · rw [if_neg here, if_neg here]
    exact booked.pending other below

/-- An entry that is queued. -/
theorem outstanding_queued (queue : List Entry) (sqe : Entry) (ring : Submissions) :
    (outstanding (queue ++ [sqe]) { s with submissions := ring }).Perm
      (sqe.ticket :: outstanding queue s) := by
  unfold outstanding
  rw [List.map_append, List.map_singleton, List.append_assoc]
  exact List.perm_middle

/-- An entry that is queued, while the kernel takes the oldest one. -/
theorem outstanding_taken {queue rest : List Entry} {sqe entry : Entry} (ring : Submissions)
    (order : queue ++ [sqe] = entry :: rest) :
    (outstanding rest { s with submissions := ring, flying := s.flying ++ [entry] }).Perm
      (sqe.ticket :: outstanding queue s) := by
  refine List.Perm.trans ?_ (outstanding_queued queue sqe ring)
  unfold outstanding
  rw [order, List.map_append, List.map_singleton, List.map_cons, List.append_assoc,
    ← List.append_assoc]
  refine List.perm_middle.trans ?_
  rw [List.append_assoc]
  exact List.Perm.refl _

/-- A call whose entry stays in the ring, and which returns false. -/
theorem Booked.orphaned {queue : List Entry} {sqe : Entry} {ring : Submissions}
    (booked : Booked config s) (held : Held config s (outstanding queue s))
    (queued : Queued config ring (queue ++ [sqe])) (failed : sqe.call.returned = false)
    (turn : sqe.call.turn = (s.res sqe.call.res).turn) :
    Booked config { s with submissions := ring } := by
  refine ⟨booked.pending, ⟨queue ++ [sqe], queued, ?_⟩, booked.reports⟩
  have longer : Held config s (sqe.ticket :: outstanding queue s) := by
    refine held.orphan (Nat.le_of_eq turn) ?_
    rintro ⟨returned, -⟩
    cases failed.symm.trans returned
  have kept : Held config { s with submissions := ring } (sqe.ticket :: outstanding queue s) :=
    longer.keep (fun _ => ⟨rfl, rfl⟩) fun _ _ _ => rfl
  exact kept.perm (outstanding_queued queue sqe ring).symm

/-- A call whose entry is stored while the kernel takes an entry, and which is booked. -/
theorem Booked.submitted {queue rest : List Entry} {sqe entry : Entry} {ring : Submissions}
    (booked : Booked config s) (held : Held config s (outstanding queue s))
    (order : queue ++ [sqe] = entry :: rest) (queued : Queued config ring rest)
    (inside : sqe.userData < config.maxOps) (resource : sqe.call.res < config.maxRes)
    (unused : (s.ops sqe.userData).type = .void) (used : sqe.call.type ≠ .void)
    (turn : sqe.call.turn = (s.res sqe.call.res).turn)
    (handle : sqe.call.handle = pack sqe.call.res (s.res sqe.call.res).gen) :
    Booked config (book { s with submissions := ring, flying := s.flying ++ [entry] }
      sqe.call.res sqe.userData sqe.call.type sqe.call.user) := by
  refine ⟨fun other below => ?_, ⟨rest, queued, ?_⟩, booked.reports⟩
  · exact booked.pending_book inside unused used other below
  · have kept : Held config { s with submissions := ring, flying := s.flying ++ [entry] }
        (outstanding queue s) := held.keep (fun _ => ⟨rfl, rfl⟩) fun _ _ _ => rfl
    exact (kept.booked inside resource unused used turn handle).perm (outstanding_taken ring order).symm

theorem Booked.start {start : State → Nat → Nat → Call → State × Bool} {type : OpType} {user : Nat}
    {handle : UInt32} {returned : Bool} {accepted : Int} (booked : Booked config s)
    (used : type ≠ .void)
    (uring : ∀ r o call, ∃ opcode fd,
      start s r o call = startUringOp config s ⟨opcode, fd, o, call⟩ call.returned) :
    Booked config (ioStart config start type s user handle returned accepted).1 := by
  obtain ⟨queue, queued, held⟩ := booked.held
  rcases @ioStart_cases config s start type user handle returned accepted with
    same | ⟨r, o, s₁, found, unused, started⟩
  · rw [same]
    exact booked
  obtain ⟨resource, packed⟩ := resFromHandle_some found
  obtain ⟨inside, void⟩ := findUnusedOp_spec unused
  obtain ⟨opcode, fd, begins⟩ :=
    uring r o ⟨type, handle, user, r, (s.res r).turn, returned, accepted⟩
  rw [begins] at started
  have ways := @startUringOp_spec config queue
    ⟨opcode, fd, o, ⟨type, handle, user, r, (s.res r).turn, returned, accepted⟩⟩ s returned queued
  rcases started with ⟨result, whole⟩ | ⟨result, whole⟩
  · rw [whole]
    rcases ways with refused | ⟨failed, ring, queued', stored⟩ | ⟨-, _, _, _, -, -, done⟩
    · cases refused.symm.trans result
      exact booked
    · cases stored.symm.trans result
      exact booked.orphaned held queued' failed rfl
    · cases done.symm.trans result
  · rw [whole]
    rcases ways with refused | ⟨-, _, -, stored⟩ | ⟨-, ring, entry, rest, order, queued', done⟩
    · cases refused.symm.trans result
    · cases stored.symm.trans result
    · cases done.symm.trans result
      exact booked.submitted held order queued' inside resource void used rfl packed

theorem Booked.closed (booked : Booked config s) (inside : r < config.maxRes) :
    ∃ s', closeInternal config s r = .ok s' ∧ Booked config s' := by
  obtain ⟨ops, ran, final⟩ := booked.scan inside
  refine ⟨closedState s r ops, ?_, fun other below => ?_, ?_, fun call turn event member => ?_⟩
  · rw [closeInternal_eq, ran]
    rfl
  · have counted : uses config (closedState s r ops).ops other =
        (List.range config.maxOps).countP fun o => ((s.ops o).release r).Uses other := by
      apply List.countP_congr
      intro o member
      show decide ((ops o).Uses other) = true ↔ _
      rw [final, if_pos (List.mem_range.mp member)]
    rw [counted]
    by_cases here : other = r
    · rw [here, closedState, record_res, record_res, setRes_self]
      symm
      apply List.countP_eq_zero.mpr
      intro o _
      simp [release_uses]
    · rw [closedState, record_res, record_res, setRes_ne here]
      refine (booked.pending other below).trans ?_
      simp [release_uses, here, uses]
  · obtain ⟨queue, queued, held⟩ := booked.held
    refine ⟨queue, queued, held.closed fun o below => ?_⟩
    rw [final, if_pos below]
  · exact booked.reports call turn event (by simpa [closedState] using member)

theorem uses_finished {ticket : Ticket} (holding : Holding config s ticket) (other : Nat) :
    uses config (finished s ticket.2.res ticket.1).ops other +
      (if other = ticket.2.res then 1 else 0) = uses config s.ops other := by
  have moved := uses_update s.ops other holding.inside { s.ops ticket.1 with type := .void }
  have after : ¬ Operation.Uses { s.ops ticket.1 with type := .void } other := fun uses => uses.1 rfl
  by_cases here : other = ticket.2.res
  · have before : (s.ops ticket.1).Uses other := here ▸ holding.uses
    rw [decide_eq_true before, decide_eq_false after] at moved
    rw [if_pos here]
    exact moved
  · have before : ¬ (s.ops ticket.1).Uses other := by
      rintro ⟨-, same⟩
      exact here (Option.some.inj (same.symm.trans holding.res))
    rw [decide_eq_false before, decide_eq_false after] at moved
    rw [if_neg here]
    exact moved

theorem Booked.pending_finished {ticket : Ticket} (booked : Booked config s)
    (holding : Holding config s ticket) : ∀ other < config.maxRes,
      ((finished s ticket.2.res ticket.1).res other).pending =
        uses config (finished s ticket.2.res ticket.1).ops other := by
  intro other below
  have counted := uses_finished holding other
  have before := booked.pending other below
  by_cases here : other = ticket.2.res
  · have pending : ((finished s ticket.2.res ticket.1).res other).pending =
        (s.res other).pending - 1 := by rw [here, finished, setOp_res, setRes_self]
    rw [if_pos here] at counted
    omega
  · have pending : ((finished s ticket.2.res ticket.1).res other).pending =
        (s.res other).pending := by rw [finished, setOp_res, setRes_ne here]
    rw [if_neg here] at counted
    omega

/-- A completion whose operation is in use and pending. -/
theorem completeLinux_ok {completion : Completion} (res : (s.ops completion.userData).res = some r)
    (inside : r < config.maxRes) (small : (s.res r).gen < uint16Max)
    (positive : 0 < (s.res r).pending) :
    ∃ event, completeLinux config s completion = .ok (finished s r completion.userData, event) ∧
      event.handle = pack r (s.res r).gen ∧ event.user = (s.ops completion.userData).user ∧
      event.optype = (s.ops completion.userData).type := by
  have followed : resOf config s completion.userData = .ok r := by
    rw [resOf, res]
    exact if_pos inside
  have done : finish s r completion.userData = .ok (finished s r completion.userData) :=
    if_pos positive
  unfold completeLinux
  simp only [followed, handleFromRes_eq inside small, done, bind, Except.bind]
  cases completion.result with
  | none => exact ⟨_, rfl, rfl, rfl, rfl⟩
  | some value => exact ⟨_, rfl, rfl, rfl, rfl⟩

/-- A completion of a current call is taken, and reported as that of its call. -/
theorem Booked.taken {completion : Completion} {rest : List Completion}
    (booked : Booked config s) (broken : Bool) (generations : Generations config s)
    (linux : config.platform = .linux) (arrived : s.arrived = completion :: rest)
    (now : Current s completion.call) :
    ∃ s' event, ioWait config s broken = .ok (s', event) ∧ Booked config s' := by
  obtain ⟨queue, queued, held⟩ := booked.held
  have order : (outstanding queue s).Perm
      (completion.ticket :: outstanding queue { s with arrived := rest }) := by
    unfold outstanding
    rw [arrived, List.map_cons, ← List.append_assoc, ← List.append_assoc]
    exact List.perm_middle
  have held := held.perm order
  have holding := held.holding completion.ticket (List.mem_cons_self ..) now
  have left : Held config { s with arrived := rest }
      (completion.ticket :: outstanding queue { s with arrived := rest }) :=
    held.keep (fun _ => ⟨rfl, rfl⟩) fun _ _ _ => rfl
  have resource : completion.call.res < config.maxRes := holding.resource
  have positive : 0 < (s.res completion.call.res).pending := by
    rw [booked.pending _ resource]
    exact uses_pos holding.inside holding.uses
  have small := generations.small completion.call.res
  obtain ⟨event, ran, handle, user, optype⟩ := @completeLinux_ok config { s with arrived := rest }
    completion.call.res completion holding.res resource small positive
  have found : resFromHandle config
      (finished { s with arrived := rest } completion.call.res completion.userData) event.handle =
        some completion.call.res := by
    rw [handle, resFromHandle_pack resource small, if_pos finished_res.2.2]
  have valid : event.handle ≠ ioInvalid := by
    rw [handle]
    exact pack_ne_invalid (Nat.lt_trans resource config.fewRes) small
  refine ⟨(finished { s with arrived := rest } completion.call.res completion.userData).record
    (.reported completion.call (s.res completion.call.res).turn event), event, ?_, ?_, ?_, ?_⟩
  · have internal : ioWaitInternal config s broken =
        .ok (finished { s with arrived := rest } completion.call.res completion.userData, event) := by
      simp only [ioWaitInternal, arrived, completeOperation, linux]
      exact ran
    simp only [ioWait, internal, bind, Except.bind, report, if_neg valid, found, arrived]
  · exact booked.pending_finished holding
  · exact ⟨queue, queued, (left.take now).keep (fun _ => ⟨rfl, rfl⟩) fun _ _ _ => rfl⟩
  · intro call turn event' member
    simp only [record_log, List.mem_append, List.mem_singleton] at member
    rcases member with earlier | same
    · exact booked.reports call turn event' earlier
    · cases same
      exact ⟨now.2, handle.trans holding.handle.symm, user.trans holding.user,
        optype.trans holding.type⟩

theorem Booked.completed (booked : Booked config s) (index : Nat) (result : Option Nat) :
    Booked config (complete s index result) := by
  unfold complete
  split
  · exact booked
  rename_i entry found
  obtain ⟨queue, queued, held⟩ := booked.held
  refine ⟨booked.pending, ⟨queue, queued, ?_⟩, booked.reports⟩
  have order : (outstanding queue s).Perm (outstanding queue
      { s with
        flying := s.flying.eraseIdx index
        arrived := s.arrived ++ [⟨entry.userData, result, entry.call⟩] }) := by
    obtain ⟨below, rfl⟩ := List.getElem?_eq_some_iff.mp found
    have first := (List.getElem_cons_eraseIdx_perm below).symm.map Entry.ticket
    rw [List.map_cons] at first
    refine List.Perm.append_left _ ((first.append_right _).trans ?_)
    rw [List.map_append, List.map_singleton, ← List.append_assoc]
    exact (List.perm_append_singleton _ _).symm
  exact (held.perm order).keep (fun _ => ⟨rfl, rfl⟩) fun _ _ _ => rfl

end Step

theorem claimRes_ok {config : Config} {s : State} {r : Nat} (generations : Generations config s)
    (inside : r < config.maxRes) (type : ResType) (osHandle : Int) :
    ∃ s' handle, claimRes config s r type osHandle = .ok (s', handle) := by
  have small : ((s.setRes r { s.res r with type, pending := 0, osHandle }).res r).gen < uint16Max := by
    rw [setRes_self]
    exact generations.small r
  unfold claimRes
  simp only [handleFromRes_eq inside small]
  exact ⟨_, _, rfl⟩

theorem ioFile_ok {config : Config} {s : State} (generations : Generations config s) (osHandle : Int) :
    ∃ s' handle, ioFile config s osHandle = .ok (s', handle) ∧ (0 ≤ osHandle ∨ s'.res = s.res) := by
  unfold ioFile
  split
  · exact ⟨_, _, rfl, .inr rfl⟩
  rename_i r unused
  split
  · exact ⟨_, _, rfl, .inr rfl⟩
  · rename_i opened
    obtain ⟨s', handle, claimed⟩ := claimRes_ok generations (findUnusedRes_spec unused).1 .file osHandle
    exact ⟨s', handle, claimed, .inl (Int.not_lt.mp opened)⟩

theorem ioStartServer_ok {config : Config} {s : State} (generations : Generations config s)
    (port : Int) (parsed : Bool) (fd : Int) (listening : Bool) :
    ∃ s' handle, ioStartServer config s port parsed fd listening = .ok (s', handle) ∧
      ((Action.startServer port parsed fd listening).opens = true ∨ s'.res = s.res) := by
  unfold ioStartServer
  split
  · exact ⟨_, _, rfl, .inr rfl⟩
  rename_i range
  split
  · exact ⟨_, _, rfl, .inr rfl⟩
  rename_i readable
  split
  · exact ⟨_, _, rfl, .inr rfl⟩
  rename_i r unused
  split
  · exact ⟨_, _, rfl, .inr rfl⟩
  rename_i opened
  split
  · exact ⟨_, _, rfl, .inr rfl⟩
  rename_i listens
  obtain ⟨s', handle, claimed⟩ := claimRes_ok generations (findUnusedRes_spec unused).1 .socket fd
  refine ⟨s', handle, claimed, .inl ?_⟩
  simp only [Bool.not_eq_false] at readable listens
  simp only [Action.opens, readable, listens, Bool.and_eq_true, decide_eq_true_eq, and_true]
  omega

/-- On Linux the three kinds of operation are started in one way. -/
theorem starts_linux {config : Config} (linux : config.platform = .linux)
    {start : State → Nat → Nat → Call → State × Bool}
    (kind : start ∈ [startRecv config, startSend config, startAccept config]) (s : State) (r o : Nat)
    (call : Call) : ∃ opcode fd,
      start s r o call = startUringOp config s ⟨opcode, fd, o, call⟩ call.returned := by
  simp only [List.mem_cons, List.not_mem_nil, or_false] at kind
  rcases kind with rfl | rfl | rfl
  all_goals
    simp only [startRecv, startSend, startAccept, linux]
    exact ⟨_, _, rfl⟩

/-- A timely action has a result, and keeps the bookkeeping. -/
theorem Booked.next {config : Config} {s : State} {action : Action} (booked : Booked config s)
    (generations : Generations config s) (linux : config.platform = .linux)
    (timely : Timely config s action) : ∃ s', perform config s action = .ok s' ∧ Booked config s' := by
  cases action with
  | openFile osHandle =>
    obtain ⟨s', handle, ran, free⟩ := ioFile_ok generations osHandle
    refine ⟨s', ?_, booked.opened (ioFile_opens ran) (free.imp_left fun opened => ?_)⟩
    · simp only [perform, ioOpenFile, ran]
      rfl
    · exact timely.1 (by simpa [Action.opens] using opened)
  | createFile osHandle =>
    obtain ⟨s', handle, ran, free⟩ := ioFile_ok generations osHandle
    refine ⟨s', ?_, booked.opened (ioFile_opens ran) (free.imp_left fun opened => ?_)⟩
    · simp only [perform, ioCreateFile, ran]
      rfl
    · exact timely.1 (by simpa [Action.opens] using opened)
  | startServer port parsed fd listening =>
    obtain ⟨s', handle, ran, free⟩ := ioStartServer_ok generations port parsed fd listening
    refine ⟨s', ?_, booked.opened (ioStartServer_opens ran) (free.imp_left timely.1)⟩
    simp only [perform, ran]
    rfl
  | recv user handle returned => exact ⟨_, rfl, booked.start (by decide) (starts_linux linux (by simp) s)⟩
  | send user handle returned => exact ⟨_, rfl, booked.start (by decide) (starts_linux linux (by simp) s)⟩
  | accept user handle returned accepted =>
    exact ⟨_, rfl, booked.start (by decide) (starts_linux linux (by simp) s)⟩
  | close handle =>
    simp only [perform, ioClose]
    split
    · exact ⟨s, rfl, booked⟩
    · rename_i r found
      exact booked.closed (resFromHandle_some found).1
  | wait broken =>
    cases arrived : s.arrived with
    | nil =>
      refine ⟨s, ?_, booked⟩
      simp only [perform, ioWait, ioWaitInternal, arrived, report, generalFailure, bind, Except.bind,
        if_true]
    | cons completion rest =>
      have now : Current s completion.call := timely.2 completion (by simp [arrived])
      obtain ⟨s', event, ran, after⟩ := booked.taken broken generations linux arrived now
      refine ⟨s', ?_, after⟩
      simp only [perform, ran]
      rfl
  | complete index result => exact ⟨_, rfl, booked.completed index result⟩

theorem timely_booked {config : Config} {s : State} (linux : config.platform = .linux)
    (reached : ((system config).restrict (Timely config)).Reachable s) : Booked config s := by
  refine reached.invariant (fun s begins => ?_) fun s action s' reached booked moved => ?_
  · obtain ⟨res, ops, head, tail, flying, arrived, log⟩ := begins
    refine ⟨fun r _ => ?_, ⟨[], .empty head tail, ?_⟩, ?_⟩
    · rw [res]
      symm
      apply List.countP_eq_zero.mpr
      intro o _
      simp [Operation.Uses, ops]
    · simp only [outstanding, flying, arrived, List.map_nil, List.append_nil]
      exact ⟨List.forall_mem_nil _, List.forall_mem_nil _, fun o => Nat.zero_le _⟩
    · simp [log]
  · obtain ⟨timely, moved⟩ := System.restrict_next.mp moved
    obtain ⟨s₁, ran, after⟩ :=
      booked.next (reachable_generations reached.of_restrict) linux timely
    cases ran.symm.trans (toOption_ok moved)
    exact after

/-- In every timely run on Linux the bookkeeping is exact, and no timely action ends in a failed
assertion or follows a wild pointer. -/
theorem bookkeeping_exact_while_timely {config : Config} {s : State}
    (linux : config.platform = .linux)
    (reached : ((system config).restrict (Timely config)).Reachable s) :
    Bookkeeping config s ∧
      ∀ action, Timely config s action → ∃ s', perform config s action = .ok s' := by
  have booked := timely_booked linux reached
  refine ⟨booked.bookkeeping, fun action timely => ?_⟩
  obtain ⟨s', ran, -⟩ := booked.next (reachable_generations reached.of_restrict) linux timely
  exact ⟨s', ran⟩

/-- Two operations of one file, of which the second completes first, are taken in turn; a
third one is closed before it completes. -/
theorem bookkeeping_exact_while_timely_applies : ∃ s,
    ((system (twoOfEach .linux)).restrict (Timely (twoOfEach .linux))).Reachable s ∧
    Bookkeeping (twoOfEach .linux) s ∧ (s.res 0).pending = 0 ∧ s.arrived.length = 1 ∧
    (∃ s', perform (twoOfEach .linux) s (.openFile 4) = .ok s') := by
  have begins : ((system (twoOfEach .linux)).restrict (Timely (twoOfEach .linux))).Reachable begun :=
    .start ⟨fun _ => rfl, fun _ => rfl, rfl, rfl, rfl, rfl, rfl⟩
  obtain ⟨s, reached, checked⟩ := begins.replay_check
    [.openFile 3, .recv 11 0 true, .send 12 0 true, .complete 1 (some 5), .wait false,
      .complete 0 none, .wait false, .recv 13 0 true, .close 0, .complete 0 (some 9)]
    (fun s => (s.res 0).pending = 0 && s.arrived.length = 1 &&
      decide (Timely (twoOfEach .linux) s (.openFile 4))) (by decide +kernel)
  simp only [Bool.and_eq_true, decide_eq_true_eq] at checked
  obtain ⟨exact_, runs⟩ := bookkeeping_exact_while_timely rfl reached
  exact ⟨s, reached, exact_, checked.1.1, checked.1.2, runs _ checked.2⟩

/-- A file is closed while it is read from, and another one that takes its place is read from
with the same operation structure. The completion for the first file is reported as that of the
second call, and when that completes the assertion fails. -/
theorem recycled_structure_misreports : ∃ s s',
    (system (twoOfEach .linux)).Reachable s ∧
    .reported ⟨.recv, 0, 11, 0, 0, true, -1⟩ 1 ⟨.complete, .recv, 0x10000, 22, some 5⟩ ∈ s.log ∧
    ¬ Bookkeeping (twoOfEach .linux) s ∧
    perform (twoOfEach .linux) s (.complete 0 (some 6)) = .ok s' ∧
    perform (twoOfEach .linux) s' (.wait false) = .error .assertion := by
  obtain ⟨s, reached, checked⟩ := (begun_reached (twoOfEach .linux)).replay_check
    [.openFile 3, .recv 11 0 true, .close 0, .openFile 4, .recv 22 0x10000 true,
      .complete 0 (some 5), .wait false]
    (fun s => decide (.reported ⟨.recv, 0, 11, 0, 0, true, -1⟩ 1
        ⟨.complete, .recv, 0x10000, 22, some 5⟩ ∈ s.log) &&
      (match perform (twoOfEach .linux) (complete s 0 (some 6)) (.wait false) with
        | .error fault => decide (fault = .assertion)
        | .ok _ => false)) (by decide +kernel)
  simp only [Bool.and_eq_true, decide_eq_true_eq] at checked
  obtain ⟨misreported, after⟩ := checked
  refine ⟨s, complete s 0 (some 6), reached, misreported, ?_, rfl, ?_⟩
  · intro bookkeeping
    have same := (bookkeeping.reports _ _ _ misreported).2.2.1
    exact absurd same (by decide)
  · split at after
    · rename_i fault failed
      rw [failed, of_decide_eq_true after]
    · cases after

end Mysnips.AsyncIo
