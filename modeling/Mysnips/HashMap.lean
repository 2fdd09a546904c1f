import Mathlib.Data.BitVec
import Mysnips.Machine
import Mysnips.Transition

/-! The hash map of `hashmap/hash_map.c` and the association list of
`hashmap/hash_map_ref.c` that its test compares it with.

Loops, and the recursion from `hashmap_insert` through `resize` back to
`hashmap_insert`, run on fuel; a call that does not return runs out of any
amount. `os_alloc` is taken to succeed: where it fails the program ends in the
assertion of `resize`. -/
namespace Mysnips.HashMap
open Machine Transition

/-- The `state` of a slot. -/
inductive SlotState where
  | unused
  | used
  | deleted
  deriving DecidableEq, Repr

/-- `item_t`. -/
structure Item where
  state : SlotState
  value : Nat
  key : Nat
  deriving DecidableEq, Repr

/-- `os_mutex_t`, held `depth` times by the calling thread. A critical section is
re-entrant, a default `pthread` mutex is not. -/
structure Mutex where
  reentrant : Bool
  depth : Nat
  deriving DecidableEq, Repr

/-- `hashmap_t`. -/
structure Map where
  pool : List Item
  size : Int
  used : Int
  mutex : Mutex
  deriving DecidableEq, Repr

/-- Why a call does not return: a failed assertion, an access outside the pool, a
mutex that the thread holds already, or a loop that is still running. -/
inductive Fault where
  | assertion
  | access
  | deadlock
  | running
  deriving DecidableEq, Repr

/-- `os_mutex_lock`. -/
def lock (mutex : Mutex) : Except Fault Mutex :=
  if mutex.depth = 0 ∨ mutex.reentrant then .ok { mutex with depth := mutex.depth + 1 }
  else .error .deadlock

/-- `os_mutex_unlock`. -/
def unlock (mutex : Mutex) : Mutex := { mutex with depth := mutex.depth - 1 }

/-- `next_pow2`, on the 32 bits of an `int`. -/
def nextPow2 (v : Int) : Int :=
  let v := BitVec.ofInt 32 v - 1
  let v := v ||| v.sshiftRight 1
  let v := v ||| v.sshiftRight 2
  let v := v ||| v.sshiftRight 4
  let v := v ||| v.sshiftRight 8
  let v := v ||| v.sshiftRight 16
  (v + 1).toInt

/-- `is_pow2`. -/
def isPow2 (val : Int) : Bool := BitVec.ofInt 32 val &&& BitVec.ofInt 32 (val - 1) == 0

/-- A fresh pool, every slot `UNUSED`. -/
def freshPool (size : Int) : List Item := List.replicate size.toNat ⟨.unused, 0, 0⟩

/-- `hashmap_create`. -/
def create (reentrant : Bool) (initSize : Int) : Map :=
  let initSize := if initSize < 8 then 8 else initSize
  let initSize := nextPow2 initSize
  { pool := freshPool initSize, size := initSize, used := 0, mutex := ⟨reentrant, 0⟩ }

/-- `should_resize`. -/
def shouldResize (map : Map) : Bool := int32 (map.used * 10) ≥ int32 (map.size * 7)

/-- `hashfunc`. -/
def hashfunc (x : Nat) : Nat :=
  let h := x
  let h := add64 h 0x9e3779b97f4a7c15
  let h := h ^^^ h >>> 30
  let h := mul64 h 0xbf58476d1ce4e5b9
  let h := h ^^^ h >>> 27
  let h := mul64 h 0x94d049bb133111eb
  h ^^^ h >>> 31

/-- `map->size - 1`. -/
def mask (map : Map) : Int := int32 (map.size - 1)

/-- Where a probe starts: `hash & mask`. -/
def firstIndex (mask : Int) (hash : Nat) : Nat := hash &&& ofInt mask

/-- Where a probe goes on: `(i*5 + pert + 1) & mask`. -/
def nextIndex (mask : Int) (i pert : Nat) : Nat :=
  add64 (add64 (ofInt (int32 (i * 5))) pert) 1 &&& ofInt mask

/-- The loop of `hashmap_remove` and `hashmap_select`: the slot of the key, or none
once an `UNUSED` slot is met. -/
def find (pool : List Item) (key : Nat) (mask : Int) : (fuel pert i : Nat) → Except Fault (Option Nat)
  | 0, _, _ => .error .running
  | fuel + 1, pert, i =>
    match pool[i]? with
    | none => .error .access
    | some item =>
      if item.state = .unused then .ok none
      else if item.state = .used ∧ item.key = key then .ok (some i)
      else
        let pert := pert >>> 5
        find pool key mask fuel pert (nextIndex mask i pert)

/-- Where the loop of `hashmap_insert` ends: at the slot of the key, or with a
slot for a new item. -/
inductive Target where
  | update (i : Nat)
  | fresh (i : Nat)
  deriving DecidableEq, Repr

/-- The loop of `hashmap_insert`, with its `insert_index`. -/
def findTarget (pool : List Item) (key : Nat) (mask : Int) :
    (fuel pert i : Nat) → (insertIndex : Option Nat) → Except Fault Target
  | 0, _, _, _ => .error .running
  | fuel + 1, pert, i, insertIndex =>
    match pool[i]? with
    | none => .error .access
    | some item =>
      let pert' := pert >>> 5
      if item.state = .unused ∨ item.state = .deleted then
        let insertIndex := insertIndex.getD i
        if item.state = .unused then .ok (.fresh insertIndex)
        else findTarget pool key mask fuel pert' (nextIndex mask i pert') (some insertIndex)
      else if item.key = key then .ok (.update i)
      else findTarget pool key mask fuel pert' (nextIndex mask i pert') insertIndex

/-- `hashmap_insert` behind the resize test: find the slot and write it. -/
def place (fuel : Nat) (map : Map) (key value : Nat) : Except Fault Map :=
  if map.used < map.size ∧ isPow2 map.size then do
    let hash := hashfunc key
    match ← findTarget map.pool key (mask map) fuel hash (firstIndex (mask map) hash) none with
    | .update i =>
      .ok { map with pool := map.pool.modify i fun item => { item with value := value } }
    | .fresh i =>
      .ok { map with pool := map.pool.set i ⟨.used, value, key⟩, used := int32 (map.used + 1) }
  else .error .assertion

/-- `resize`, calling back `hashmap_insert` for every item of the old pool. -/
def resize (insert : Map → Nat → Nat → Except Fault Map) (map : Map) (newSize : Int) :
    Except Fault Map :=
  let newSize := if newSize < map.used then map.used else newSize
  let newSize := if newSize < 8 then 8 else newSize
  let newSize := nextPow2 newSize
  map.pool.foldlM
    (fun map item => if item.state = .used then insert map item.key item.value else .ok map)
    { map with pool := freshPool newSize, size := newSize, used := 0 }

/-- `hashmap_insert`. -/
def insert : (fuel : Nat) → (map : Map) → (key value : Nat) → Except Fault Map
  | 0, _, _, _ => .error .running
  | fuel + 1, map, key, value => do
    let mutex ← lock map.mutex
    let map := { map with mutex }
    if value ≠ 0 then do
      let map ← if shouldResize map then resize (insert fuel) map (int32 (2 * map.size)) else .ok map
      let map ← place fuel map key value
      .ok { map with mutex := unlock map.mutex }
    else .error .assertion

/-- What `hashmap_remove` and `hashmap_select` share: the search for the slot of the key, under the
mutex. They differ in what they do with the slot, and in the answer for a key that is not there. -/
def lookup {Answer : Type} (fuel : Nat) (map : Map) (key : Nat) (absent : Answer)
    (found : Map → Nat → Map × Answer) : Except Fault (Map × Answer) := do
  let hash := hashfunc key
  let mutex ← lock map.mutex
  let map := { map with mutex }
  if map.size = 0 then .ok ({ map with mutex := unlock map.mutex }, absent)
  else if isPow2 map.size then do
    match ← find map.pool key (mask map) fuel hash (firstIndex (mask map) hash) with
    | none => .ok ({ map with mutex := unlock map.mutex }, absent)
    | some i =>
      let (map, answer) := found map i
      .ok ({ map with mutex := unlock map.mutex }, answer)
  else .error .assertion

/-- `hashmap_remove`. -/
def remove (fuel : Nat) (map : Map) (key : Nat) : Except Fault (Map × Bool) :=
  lookup fuel map key false fun map i =>
    ({ map with pool := map.pool.set i ⟨.deleted, 0, 2 ^ 64 - 1⟩, used := int32 (map.used - 1) }, true)

/-- `hashmap_select`; 0 for a key that is not there. -/
def select (fuel : Nat) (map : Map) (key : Nat) : Except Fault (Map × Nat) :=
  lookup fuel map key 0 fun map i => (map, (map.pool[i]?.map Item.value).getD 0)

/-- `hashmap_exists`. -/
def «exists» (fuel : Nat) (map : Map) (key : Nat) : Except Fault (Map × Bool) := do
  let (map, value) ← select fuel map key
  .ok (map, value != 0)

/-- `hashmap_count`. -/
def count (map : Map) : Except Fault (Map × Int) := do
  let mutex ← lock map.mutex
  .ok ({ map with mutex := unlock mutex }, map.used)

/-! ### Calls -/

/-- A call of the map interface. -/
inductive Call where
  | insert (key value : Nat)
  | remove (key : Nat)
  | select (key : Nat)
  | exists (key : Nat)
  | count
  deriving DecidableEq, Repr

/-- What a call returns. -/
inductive Result where
  | nothing
  | flag (answer : Bool)
  | value (answer : Nat)
  | count (answer : Int)
  deriving DecidableEq, Repr

/-- Perform a call on the hash map. -/
def Map.perform (fuel : Nat) (map : Map) : Call → Except Fault (Map × Result)
  | .insert key value => do
    let map ← insert fuel map key value
    .ok (map, .nothing)
  | .remove key => do
    let (map, answer) ← remove fuel map key
    .ok (map, .flag answer)
  | .select key => do
    let (map, answer) ← select fuel map key
    .ok (map, .value answer)
  | .exists key => do
    let (map, answer) ← «exists» fuel map key
    .ok (map, .flag answer)
  | .count => do
    let (map, answer) ← count map
    .ok (map, .count answer)

/-! ### The reference map -/

/-- `entry_t`. -/
structure Entry where
  key : Nat
  value : Nat
  deriving DecidableEq, Repr

/-- `hashmapref_t`: the first `count` entries of the array, and its capacity, 0
while it is `NULL`. -/
structure Ref where
  entries : List Entry
  capacity : Nat
  deriving DecidableEq, Repr

/-- `hashmapref_create`. -/
def Ref.create : Ref := ⟨[], 0⟩

/-- `hashmapref_count`. -/
def Ref.count (ref : Ref) : Int := ref.entries.length

/-- The index of the first entry with the key, or `count`. -/
def Ref.indexOf (ref : Ref) (key : Nat) : Nat := ref.entries.findIdx fun entry => entry.key = key

/-- `hashmapref_insert`. -/
def Ref.insert (ref : Ref) (key value : Nat) : Ref :=
  let i := ref.indexOf key
  if i < ref.entries.length then
    { ref with entries := ref.entries.modify i fun entry => { entry with value := value } }
  else
    let capacity :=
      if ref.capacity = 0 then 8
      else if ref.entries.length = ref.capacity then 2 * ref.capacity else ref.capacity
    ⟨ref.entries ++ [⟨key, value⟩], capacity⟩

/-- `hashmapref_remove`: the last entry takes the place of the removed one. -/
def Ref.remove (ref : Ref) (key : Nat) : Ref × Bool :=
  let i := ref.indexOf key
  if i = ref.entries.length then (ref, false)
  else
    let last := ref.entries.getLast?
    ({ ref with entries := (ref.entries.modify i fun entry => last.getD entry).dropLast }, true)

/-- `hashmapref_select`. -/
def Ref.select (ref : Ref) (key : Nat) : Nat :=
  (ref.entries[ref.indexOf key]?.map Entry.value).getD 0

/-- `hashmapref_exists`. -/
def Ref.exists (ref : Ref) (key : Nat) : Bool := ref.select key != 0

/-- Perform a call on the reference map. -/
def Ref.perform (ref : Ref) : Call → Ref × Result
  | .insert key value => (ref.insert key value, .nothing)
  | .remove key => ((ref.remove key).1, .flag (ref.remove key).2)
  | .select key => (ref, .value (ref.select key))
  | .exists key => (ref, .flag (ref.exists key))
  | .count => (ref, .count ref.count)

end Mysnips.HashMap
