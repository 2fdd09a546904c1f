import Mysnips.ThreadPoolAtomic
import Mysnips.ThreadPoolSteps

/-! The thread pool access by access. Its free list is the list of pointers of
`ThreadPoolFreeList` and its queue is the ring of `ThreadPoolQueue`, which holds the bytes of
indices; `free_list_pop`, `free_list_push`, `lock_free_queue_push` and `lock_free_queue_pop`
take the steps that they take there. -/
namespace Mysnips.ThreadPool
open Machine Transition System ThreadPoolAtomic

/-! ### The bytes of an index -/

/-- The bytes of an `int`, the lowest first. -/
def intBytes (value : Int) : List UInt8 :=
  let bits := ofInt value
  [UInt8.ofNat bits, UInt8.ofNat (bits / 2 ^ 8), UInt8.ofNat (bits / 2 ^ 16), UInt8.ofNat (bits / 2 ^ 24)]

/-- The `int` in four bytes. -/
def readInt (bytes : List UInt8) : Int :=
  int32 (bytes.foldr (fun byte rest => byte.toNat + 2 ^ 8 * rest) 0 : Nat)

/-- The bytes of the index of a job, and of -1. -/
def indexBytes : Option Nat → List UInt8
  | none => intBytes (-1)
  | some job => intBytes job

/-- What a worker makes of the bytes that it has popped. -/
def readIndex (bytes : List UInt8) : Option Nat :=
  if readInt bytes < 0 then none else some (readInt bytes).toNat

theorem readInt_intBytes {value : Int} (low : -2 ^ 31 ≤ value) (high : value < 2 ^ 31) :
    readInt (intBytes value) = value := by
  have digits : readInt (intBytes value) = int32 (ofInt value % 2 ^ 32 : Nat) := by
    simp only [readInt, intBytes, List.foldr_cons, List.foldr_nil, UInt8.toNat_ofNat']
    congr 2
    omega
  obtain ⟨m, folded, least, most⟩ := int32_folds (ofInt value % 2 ^ 32 : Nat)
  rw [digits]
  unfold ofInt at *
  omega

theorem indexBytes_length (entry : Option Nat) : (indexBytes entry).length = 4 := by
  cases entry <;> rfl

theorem readIndex_indexBytes {entry : Option Nat} (small : ∀ job ∈ entry, job < 2 ^ 31) :
    readIndex (indexBytes entry) = entry := by
  cases entry with
  | none => decide
  | some job =>
    have bound := small job rfl
    rw [readIndex, indexBytes, readInt_intBytes (by omega) (by omega), if_neg (by omega),
      Int.toNat_natCast]

/-! ### The pool -/

variable {Thread Task : Type} {config : Config Thread}

/-- Who uses the ring: a thread, or the push of an index that stops a worker. `ensure_deinit`
pushes all of these before it signals the first one. -/
abbrev Caller (config : Config Thread) : Type := Thread ⊕ Fin config.workers.length

/-- The pool with its pointers and its ring. -/
structure Detailed (Task : Type) (config : Config Thread) extends Core Thread Task where
  list : ThreadPoolFreeList.State Thread
  ring : ThreadPoolQueue.State (Caller config)

/-- The push that `ensure_deinit` is at when `pushed` slots are claimed: the last of them until
`tail` was moved for it, and then the next one. -/
def Detailed.pushing (f : Detailed Task config) (pushed : Nat) : Option (Fin config.workers.length) :=
  let next := if more : pushed < config.workers.length then some ⟨pushed, more⟩ else none
  match pushed with
  | 0 => next
  | last + 1 =>
    if claimed : last < config.workers.length then
      if f.ring.pc (.inr ⟨last, claimed⟩) = .signal then next else some ⟨last, claimed⟩
    else none

variable [DecidableEq Thread]

/-- A caller goes somewhere in the ring. -/
def Detailed.gotoRing (f : Detailed Task config) (caller : Caller config) (pc : ThreadPoolQueue.Pc) :
    Detailed Task config :=
  { f with ring := { f.ring with pc := Function.update f.ring.pc caller pc } }

/-- A call of `lock_free_queue_push`, which does not ask for room. -/
def Detailed.push (f : Detailed Task config) (caller : Caller config) (entry : Option Nat) :
    Detailed Task config :=
  { f with
    ring := { f.ring with
      pc := Function.update f.ring.pc caller (.loadTemp (indexBytes entry))
      history := { f.ring.history with called := f.ring.history.called ++ [indexBytes entry] } } }

/-- A call of `free_list_pop` or `free_list_push`, or its next access. When it has performed its
operation on a job, the thread goes on. -/
def Detailed.useList (f : Detailed Task config) (thread : Thread) (called : ThreadPoolFreeList.Pc)
    (returned : Nat → Pc Task) : Except Stop (Detailed Task config) :=
  match f.list.pc thread with
  | .idle => .ok { f with list := f.list.goto thread called }
  | _ =>
    match (ThreadPoolFreeList.freeLists Thread).next f.list (.step thread) with
    | none => .error .fault
    | some list =>
      match listOperations f.list (.step thread) with
      | .pop _ job :: _ | .push _ job :: _ =>
        .ok { f with list, toCore := f.toCore.goto thread (returned job) }
      | _ => .ok { f with list }

/-- The next access of a caller to the ring. When it has performed its operation, the thread goes
on. -/
def Detailed.useRing (f : Detailed Task config) (caller : Caller config) (spurious : Bool)
    (returned : LineAction (Caller config) → Core Thread Task) :
    Except Stop (Detailed Task config) :=
  match (ThreadPoolQueue.queues (Caller config)).next f.ring (.step caller spurious) with
  | none => .error .fault
  | some ring =>
    match lineOperations f.ring (.step caller spurious) with
    | operation :: _ => .ok { f with ring, toCore := returned operation }
    | [] => .ok { f with ring }

/-- Where a worker goes with what it has popped. -/
def Detailed.popped (f : Detailed Task config) (thread : Thread) :
    LineAction (Caller config) → Core Thread Task
  | .pop _ dst => f.toCore.goto thread <|
    match readIndex dst with
    | none => .exited
    | some job => .call (f.use job)
  | _ => f.toCore

/-- The next step of a thread. An outcome of `failed` means besides that the weak compare-exchange
on `tail` fails spuriously. -/
def access (failed : Bool) (f : Detailed Task config) (thread : Thread) :
    Except Stop (Detailed Task config) :=
  match f.pc thread with
  | .popFree task join => f.useList thread .popLoad fun job => .prepare job task join
  | .pushFree job after => f.useList thread (.pushLoad job) fun _ => .signalComplete after
  | .pushQueue job =>
    match f.ring.pc (.inl thread) with
    | .idle => .ok (f.push (.inl thread) (some job))
    | _ => f.useRing (.inl thread) failed fun _ =>
      (f.toCore.record (.submitted (f.use job) (f.jobs job).task)).goto thread
        (.signalPending (f.use job) (f.jobs job).join)
  | .signalPending use join =>
    f.useRing (.inl thread) failed fun _ => f.toCore.goto thread (.getId use join)
  | .waitPending =>
    match f.ring.pc (.inl thread) with
    | .idle => .ok (f.gotoRing (.inl thread) .wait)
    | _ =>
      if failed then
        .ok { f.gotoRing (.inl thread) .loadHead with toCore := f.toCore.goto thread .popQueue }
      else if f.ring.pending = 0 then .error .blocked
      else f.useRing (.inl thread) failed fun _ => f.toCore.goto thread .popQueue
  | .popQueue => f.useRing (.inl thread) failed (f.popped thread)
  | .pushStop pushed =>
    match f.pushing pushed with
    | none => .ok { f with toCore := f.toCore.goto thread (.signalStop 0) }
    | some stop =>
      match f.ring.pc (.inr stop) with
      | .idle => .ok (f.push (.inr stop) none)
      | _ => f.useRing (.inr stop) failed fun _ => f.toCore.goto thread (.pushStop (pushed + 1))
  | .signalStop signaled =>
    if more : signaled < config.workers.length then
      f.useRing (.inr ⟨signaled, more⟩) failed fun _ =>
        f.toCore.goto thread (.signalStop (signaled + 1))
    else .ok { f with toCore := f.toCore.goto thread (.joinWorkers 0) }
  | _ => (f.toCore.advance config failed thread).map fun core => { f with toCore := core }

/-- The program and the workers on a pool that `ensure_init` has set up, with its array of
indices. -/
def accesses (Task : Type) (config : Config Thread) :
    System (Detailed Task config) (Action Thread Task) where
  initial f := f.toCore.Initial config ∧
    f.list = ⟨ThreadPoolFreeList.initNext config.maxJobs, some 0, fun _ => .idle, fun _ => []⟩ ∧
    (∃ indices : List UInt8, indices.length = config.maxJobs * 4 ∧
      ThreadPoolQueue.init indices 4 = some f.ring.queue) ∧
    f.ring.pending = 0 ∧ (∀ caller, f.ring.pc caller = .idle) ∧
    f.ring.history = ⟨[], [], [], 0, 0, []⟩
  next f action :=
    match action with
    | .step thread failed => (access failed f thread).toOption
    | call => (f.toCore.call config call).map fun core => { f with toCore := core }

/-! ### The steps that do not go wrong -/

/-- Who uses the ring when a thread takes its next step. -/
def Detailed.caller (f : Detailed Task config) (thread : Thread) : Option (Caller config) :=
  match f.pc thread with
  | .pushStop pushed => (f.pushing pushed).map .inr
  | .signalStop signaled =>
    if more : signaled < config.workers.length then some (.inr ⟨signaled, more⟩) else none
  | _ => some (.inl thread)

/-- A push of an index that stops a worker is called only where there is room in the ring. -/
def Detailed.Room (f : Detailed Task config) (thread : Thread) : Prop :=
  match f.pc thread with
  | .pushStop pushed => ∀ stop ∈ f.pushing pushed, f.ring.pc (.inr stop) = .idle →
      f.ring.history.called.length < f.ring.history.popped.length + f.ring.queue.size
  | _ => True

instance (f : Detailed Task config) (thread : Thread) : Decidable (f.Room thread) := by
  unfold Detailed.Room
  cases f.pc thread <;> infer_instance

/-- A step that the pool is made for: a pop of the free list is not overtaken, a signal of the ring
is not early, and a pop of the ring still finds what it has read. -/
structure Detailed.ProperStep (f : Detailed Task config) (thread : Thread) (failed : Bool) : Prop where
  core : f.toCore.ProperStep config thread failed
  unchanged : ThreadPoolFreeList.HeadUnchanged f.list (.step thread)
  timely : ∀ caller ∈ f.caller thread, ThreadPoolQueue.Timely f.ring (.step caller failed)
  room : f.Room thread

instance (f : Detailed Task config) (thread : Thread) (failed : Bool) :
    Decidable (f.ProperStep thread failed) :=
  decidable_of_iff (f.toCore.ProperStep config thread failed ∧
      ThreadPoolFreeList.HeadUnchanged f.list (.step thread) ∧
      (∀ caller ∈ f.caller thread, ThreadPoolQueue.Timely f.ring (.step caller failed)) ∧
      f.Room thread)
    ⟨fun ⟨core, unchanged, timely, room⟩ => ⟨core, unchanged, timely, room⟩,
      fun ⟨core, unchanged, timely, room⟩ => ⟨core, unchanged, timely, room⟩⟩

variable [Fintype Thread]

/-- The pool is used as it is meant to be. -/
def Detailed.Proper (f : Detailed Task config) : Action Thread Task → Prop
  | .step thread failed => f.ProperStep thread failed
  | call => f.toCore.ProperCall config call

instance (f : Detailed Task config) : (action : Action Thread Task) → Decidable (f.Proper action)
  | .step thread failed => inferInstanceAs (Decidable (f.ProperStep thread failed))
  | .create thread task join =>
    inferInstanceAs (Decidable (f.toCore.ProperCall config (.create thread task join)))
  | .done thread id => inferInstanceAs (Decidable (f.toCore.ProperCall config (.done thread id)))
  | .wait thread id => inferInstanceAs (Decidable (f.toCore.ProperCall config (.wait thread id)))
  | .deinit thread => inferInstanceAs (Decidable (f.toCore.ProperCall config (.deinit thread)))

/-- The pool access by access, used as it is meant to be. -/
def properAccesses (Task : Type) (config : Config Thread) :
    System (Detailed Task config) (Action Thread Task) :=
  (accesses Task config).restrict Detailed.Proper

end Mysnips.ThreadPool
