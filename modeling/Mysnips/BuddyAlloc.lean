import Mathlib.Data.BitVec
import Mysnips.BitScan
import Mysnips.LinkedList
import Mysnips.Machine
import Mysnips.Transition

/-! The buddy allocator of `alloc/buddy.c`, over a pool that `buddy_startup`
accepted. The free blocks are linked through their own memory: the heap holds a
`struct buddy_page` at every block address, since the smallest block has its
size and alignment. A failed assertion, and a read outside the bit trees, is a
fault (`none`). -/
namespace Mysnips.BuddyAlloc
open BitScan Machine LinkedList Transition

/-- `BUDDY_ALLOC_MAX_BLOCK_LOG2`. -/
abbrev maxBlockLog2 : Nat := 12

/-- `BUDDY_ALLOC_MIN_BLOCK_LOG2`. -/
abbrev minBlockLog2 : Nat := 4

/-- `NUM_LISTS`. -/
abbrev numLists : Nat := maxBlockLog2 - minBlockLog2 + 1

/-- `MAX_BLOCK_SIZE`. -/
abbrev maxBlockSize : Nat := 2 ^ maxBlockLog2

/-- `MIN_BLOCK_SIZE`. -/
abbrev minBlockSize : Nat := 2 ^ minBlockLog2

/-- `MAX_BLOCK_ALIGN_MASK`. -/
abbrev maxBlockAlignMask : Nat := maxBlockSize - 1

/-- `BIT_TREE_BITS_PER_PAGE`. -/
abbrev bitTreeBitsPerPage : Nat := 2 ^ numLists - 1

/-- `BIT_TREE_WORDS_PER_PAGE`. -/
abbrev bitTreeWordsPerPage : Nat := (bitTreeBitsPerPage + 31) / 32

/-- `sizeof(struct bit_tree)`. -/
abbrev sizeofBitTree : Nat := 4 * bitTreeWordsPerPage

/-- `_Alignof(struct bit_tree)`. -/
abbrev alignofBitTree : Nat := 4

/-- `sizeof(struct buddy)`: four pointer-sized words besides the lists, the last
one being `num_trees` and its padding. -/
abbrev sizeofBuddy : Nat := 8 * (numLists + 4)

/-- `_Alignof(struct buddy)`. -/
abbrev alignofBuddy : Nat := 8

/-- `struct buddy` at address `self`, with the contents of its bit trees (by page
and word) and of the memory that its lists run through. -/
structure Buddy where
  self : Nat
  base : Nat
  size : Nat
  lists : Nat → Nat
  trees : Nat
  numTrees : Int
  bits : Nat → Nat → BitVec 32
  heap : Heap

/-- `page_index_to_ptr`. -/
def pageIndexToPtr (base : Nat) (i : Int) : Nat :=
  add64 base (ofInt (int32 (i * 2 ^ maxBlockLog2)))

/-- `-(uintptr_t) p & (align - 1)`: the distance to the next multiple. -/
def padding (p align : Nat) : Nat := sub64 0 p &&& (align - 1)

/-- The loop of `buddy_startup` that counts the bit trees, after `numTrees` of
them were found to fit. -/
def countTrees (base size : Nat) : (fuel : Nat) → (numTrees : Int) → Option Int
  | 0, _ => none
  | fuel + 1, numTrees =>
    let numTreesMaybe := int32 (numTrees + 1)
    let treeRegion := mul64 (ofInt numTreesMaybe) sizeofBitTree
    if treeRegion > size then some numTrees
    else
      let pad := padding (base + treeRegion) maxBlockSize
      if pad > size - treeRegion then some numTrees
      else
        let numBlocks := int32 ((size - treeRegion - pad) >>> maxBlockLog2 : Nat)
        if numBlocks < numTreesMaybe then some numTrees
        else countTrees base size fuel numTreesMaybe

/-- The loop of `buddy_startup` that links the pages, after `i` of them: the heap,
the head and the tail of the list. -/
def linkPages (base : Nat) (heap : Heap) : (i : Nat) → Heap × Nat × Nat
  | 0 => (heap, 0, 0)
  | i + 1 =>
    let (heap, head, tail) := linkPages base heap i
    let p := pageIndexToPtr base i
    if head ≠ 0 then
      let heap := setNext heap tail p
      let heap := setPrev heap p tail
      (setNext heap p 0, head, p)
    else
      let heap := setPrev heap p 0
      (setNext heap p 0, p, p)

/-- `buddy_startup`: no result when the assertion fails, `none` inside for
`NULL`. -/
def startup (base size : Nat) (heap : Heap) : Option (Option Buddy) :=
  if (base ≠ 0 ∧ size ≠ 0) ∨ (base = 0 ∧ size = 0) then
    let pad := padding base alignofBuddy
    if size < pad then some none
    else
      let self := base + pad
      let size := size - pad
      if size < sizeofBuddy then some none
      else
        let base := self + sizeofBuddy
        let size := size - sizeofBuddy
        let pad := padding base alignofBitTree
        if size < pad then some none
        else
          let trees := base + pad
          let size := size - pad
          match countTrees trees size (size / maxBlockSize + 1) 0 with
          | none => none
          | some numTrees =>
            let treeRegion := mul64 (ofInt numTrees) sizeofBitTree
            let base := trees + treeRegion
            let size := size - treeRegion
            let pad := padding base maxBlockSize
            if pad > size then some none
            else
              let base := base + pad
              let (heap, head, _) := linkPages base heap numTrees.toNat
              some (some {
                self, base, size := ofInt (int32 (numTrees * 2 ^ maxBlockLog2))
                lists := fun i => if i = numLists - 1 then head else 0
                trees, numTrees, bits := fun _ _ => 0, heap })
  else none

/-- `is_pow2`. -/
def isPow2 (n : Nat) : Bool := n &&& sub64 n 1 == 0

/-- `round_pow2`. -/
def roundPow2 (v : Nat) : Nat :=
  let v := sub64 v 1
  let v := v ||| v >>> 1
  let v := v ||| v >>> 2
  let v := v ||| v >>> 4
  let v := v ||| v >>> 8
  let v := v ||| v >>> 16
  let v := v ||| v >>> 32
  add64 v 1

/-- The table of `first_set`: the logarithms of the powers of two below 256, and
zeros. -/
def firstSetTable : List Nat :=
  [0, 0, 1, 0, 2, 0, 0, 0, 3, 0, 0, 0, 0, 0, 0, 0,
   4, 0, 0, 0, 0, 0, 0, 0, 0, 0, 0, 0, 0, 0, 0, 0,
   5, 0, 0, 0, 0, 0, 0, 0, 0, 0, 0, 0, 0, 0, 0, 0,
   0, 0, 0, 0, 0, 0, 0, 0, 0, 0, 0, 0, 0, 0, 0, 0,
   6, 0, 0, 0, 0, 0, 0, 0, 0, 0, 0, 0, 0, 0, 0, 0,
   0, 0, 0, 0, 0, 0, 0, 0, 0, 0, 0, 0, 0, 0, 0, 0,
   0, 0, 0, 0, 0, 0, 0, 0, 0, 0, 0, 0, 0, 0, 0, 0,
   0, 0, 0, 0, 0, 0, 0, 0, 0, 0, 0, 0, 0, 0, 0, 0,
   7, 0, 0, 0, 0, 0, 0, 0, 0, 0, 0, 0, 0, 0, 0, 0,
   0, 0, 0, 0, 0, 0, 0, 0, 0, 0, 0, 0, 0, 0, 0, 0,
   0, 0, 0, 0, 0, 0, 0, 0, 0, 0, 0, 0, 0, 0, 0, 0,
   0, 0, 0, 0, 0, 0, 0, 0, 0, 0, 0, 0, 0, 0, 0, 0,
   0, 0, 0, 0, 0, 0, 0, 0, 0, 0, 0, 0, 0, 0, 0, 0,
   0, 0, 0, 0, 0, 0, 0, 0, 0, 0, 0, 0, 0, 0, 0, 0,
   0, 0, 0, 0, 0, 0, 0, 0, 0, 0, 0, 0, 0, 0, 0, 0,
   0, 0, 0, 0, 0, 0, 0, 0, 0, 0, 0, 0, 0, 0, 0, 0]

/-- `first_set` up to its table: the index found so far and the last byte. -/
def firstSetByte (x : Nat) : Nat × Nat :=
  let y := x &&& sub64 x 1
  let z := sub64 x y
  narrow 8 (narrow 16 (narrow 32 (0, z)))

/-- `first_set`. -/
def firstSet (x : Nat) : Int :=
  if x = 0 then -1
  else
    let (i, z) := firstSetByte x
    (i : Int) + (firstSetTable.getD z 0 : Nat)

/-- `page_index`. -/
def pageIndex (b : Buddy) (ptr : Nat) : Option Nat :=
  if b.base ≤ ptr then some ((ptr - b.base) >>> maxBlockLog2) else none

/-- `block_info_index`. -/
def blockInfoIndex (ptr len : Nat) : Nat :=
  let lenLog2 := firstSet len
  let reloff := ptr &&& maxBlockAlignMask
  (1 <<< (maxBlockLog2 - lenLog2).toNat) + (reloff >>> lenLog2.toNat)

/-- `is_allocated`. -/
def isAllocated (b : Buddy) (ptr len : Nat) : Option Bool :=
  if isPow2 len then do
    let i ← pageIndex b ptr
    let j := blockInfoIndex ptr len
    let u := j >>> 5
    let v := j &&& 31
    if (i : Int) < b.numTrees ∧ u < bitTreeWordsPerPage then
      let mask := 1#32 <<< v
      some (b.bits i u &&& mask == mask)
    else none
  else none

/-- `set_allocated`. -/
def setAllocated (b : Buddy) (ptr len : Nat) (value : Bool) : Option Buddy :=
  if isPow2 len then do
    let i ← pageIndex b ptr
    let j := blockInfoIndex ptr len
    let u := j >>> 5
    let v := j &&& 31
    if (i : Int) < b.numTrees ∧ u < bitTreeWordsPerPage then
      let mask := 1#32 <<< v
      let word := if value then b.bits i u ||| mask else b.bits i u &&& ~~~mask
      some { b with bits := Function.update b.bits i (Function.update (b.bits i) u word) }
    else none
  else none

/-- `is_allocated_considering_splits`; the block is halved at every call. -/
def isAllocatedConsideringSplits (b : Buddy) : (fuel ptr len : Nat) → Option Bool
  | 0, _, _ => none
  | fuel + 1, ptr, len =>
    if len = minBlockSize then isAllocated b ptr len
    else do
      let sib := ptr + len >>> 1
      let own ← isAllocated b ptr len
      if own then some true
      else do
        let first ← isAllocatedConsideringSplits b fuel ptr (len >>> 1)
        if first then some true else isAllocatedConsideringSplits b fuel sib (len >>> 1)

/-- `normalize_len`. -/
def normalizeLen (len : Nat) : Nat :=
  if len = 0 then 0 else if len < minBlockSize then minBlockSize else roundPow2 len

/-- `list_index_for_size`. -/
def listIndexForSize (len : Nat) : Int := firstSet len - minBlockLog2

/-- `sibling_of`. -/
def siblingOf (ptr len : Nat) : Option Nat :=
  if isPow2 len ∧ len < maxBlockSize then
    some (if ptr &&& (len <<< 1 - 1) = 0 then ptr + len else ptr - len)
  else none

/-- `parent_of`. -/
def parentOf (ptr len : Nat) : Option Nat := do
  let sib ← siblingOf ptr len
  some (if sib < ptr then sib else ptr)

/-- `sibling_allocated_considering_splits`. -/
def siblingAllocatedConsideringSplits (b : Buddy) (ptr len : Nat) : Option Bool := do
  let sib ← siblingOf ptr len
  isAllocatedConsideringSplits b 64 sib len

/-- `remove_sibling_from_list`. -/
def removeSiblingFromList (b : Buddy) (i ptr : Nat) : Option Buddy := do
  let len := 1 <<< (i + minBlockLog2)
  let sibling ← siblingOf ptr len
  let page := b.heap sibling
  let b := if page.prev ≠ 0 then { b with heap := setNext b.heap page.prev page.next }
    else { b with lists := Function.update b.lists i page.next }
  let page := b.heap sibling
  some (if page.next ≠ 0 then { b with heap := setPrev b.heap page.next page.prev } else b)

/-- `append`: the block becomes the first one of the list. -/
def append (b : Buddy) (i : Int) (ptr : Nat) : Option Buddy :=
  if 0 ≤ i ∧ i < numLists then
    let i := i.toNat
    let heap := if b.lists i ≠ 0 then setPrev b.heap (b.lists i) ptr else b.heap
    let heap := setPrev heap ptr 0
    let heap := setNext heap ptr (b.lists i)
    some { b with heap, lists := Function.update b.lists i ptr }
  else none

/-- `pop`. -/
def pop (b : Buddy) (i : Nat) : Option (Buddy × Nat) :=
  if i < numLists ∧ b.lists i ≠ 0 then
    let page := b.lists i
    let next := (b.heap page).next
    let heap := if next ≠ 0 then setPrev b.heap next 0 else b.heap
    some ({ b with heap, lists := Function.update b.lists i next }, page)
  else none

/-- The loop of `buddy_malloc` that looks for a non-empty list. -/
def firstNonEmpty (b : Buddy) : (fuel j : Nat) → Nat
  | 0, j => j
  | fuel + 1, j => if j < numLists ∧ b.lists j = 0 then firstNonEmpty b fuel (j + 1) else j

/-- The loop of `buddy_malloc` that splits the block down from list `j`. -/
def splitDown (b : Buddy) (ptr i : Nat) : (j : Nat) → Option Buddy
  | 0 => some b
  | j + 1 =>
    if j + 1 > i then do
      let sibling ← siblingOf ptr (1 <<< (j + minBlockLog2))
      let b ← append b j sibling
      splitDown b ptr i j
    else some b

/-- `buddy_malloc`; the pointer is 0 for `NULL`. -/
def malloc (b : Buddy) (len : Nat) : Option (Buddy × Nat) :=
  if len = 0 ∨ len > maxBlockSize then some (b, 0)
  else
    let len := normalizeLen len
    let i := listIndexForSize len
    if len ≥ minBlockSize ∧ 0 ≤ i ∧ i < numLists then
      let i := i.toNat
      let j := firstNonEmpty b numLists i
      if j = numLists then some (b, 0)
      else do
        let (b, ptr) ← pop b j
        let b ← splitDown b ptr i j
        let b ← setAllocated b ptr len true
        some (b, ptr)
    else none

/-- The loop of `buddy_free` that merges a block with its free siblings and links
the result; `len` doubles every time round. -/
def mergeUp : (fuel : Nat) → (b : Buddy) → (ptr len : Nat) → Option Buddy
  | 0, _, _, _ => none
  | fuel + 1, b, ptr, len => do
    let i := listIndexForSize len
    let stop ← if len = maxBlockSize then some true else siblingAllocatedConsideringSplits b ptr len
    if stop then append b i ptr
    else if b.lists i.toNat ≠ 0 then do
      let b ← removeSiblingFromList b i.toNat ptr
      let parent ← parentOf ptr len
      mergeUp fuel b parent (len <<< 1)
    else none

/-- `buddy_free`. -/
def free (b : Buddy) (len ptr : Nat) : Option Buddy :=
  if ptr = 0 ∨ len = 0 ∨ len > maxBlockSize then some b
  else do
    let len := normalizeLen len
    if ← isAllocated b ptr len then do
      let b ← setAllocated b ptr len false
      mergeUp 64 b ptr len
    else some b

/-- `buddy_owned`. -/
def owned (b : Buddy) (ptr : Nat) : Bool := b.base ≤ ptr && add64 b.base b.size > ptr

/-- `buddy_allocated`. -/
def allocated (b : Buddy) (ptr len : Nat) : Option Bool :=
  if owned b ptr then isAllocated b ptr len else some false

end Mysnips.BuddyAlloc
