/-
The skip list of the key-value store.

Nodes live in a heap, and a pointer is an address or null (`none`).  A function returns
`none` where the source has undefined behaviour: a read through a null or dangling
pointer, an index outside a vector, a second delete.  The loops that follow pointers have
a bound on their rounds, and return `none` when it is reached, too.
-/
import Mathlib.Logic.Function.Basic
import Mathlib.Order.Lattice

namespace WWRaftKV

/-- `_Skip_list_node`.  The length of `_Forward` is one more than the level. -/
structure SkipListNode (κ ν : Type) where
  data : κ × ν
  forward : List (Option Nat)

/-- `fresh` is the address that the next `new` yields. -/
structure Skiplist (κ ν : Type) where
  heap : Nat → Option (SkipListNode κ ν)
  fresh : Nat
  head : Nat
  maxLevelIndex : Nat
  currentLevelIndex : Nat
  size : Nat

namespace Skiplist

variable {κ ν : Type}

/-! ## Nodes -/

/-- `_Skiplist(level_type _Max_level)`, for a level of at least 1. -/
def make [Inhabited κ] [Inhabited ν] (maxLevel : Nat) : Skiplist κ ν where
  heap := Function.update (fun _ => none) 0
    (some { data := default, forward := List.replicate (maxLevel - 1 + 1) none })
  fresh := 1
  head := 0
  maxLevelIndex := maxLevel - 1
  currentLevelIndex := 0
  size := 0

/-- `_Ptr->forward(_Level)` as a value. -/
def forward (s : Skiplist κ ν) (p level : Nat) : Option (Option Nat) := do
  let node ← s.heap p
  node.forward[level]?

/-- `_Ptr->data()`. -/
def data (s : Skiplist κ ν) (p : Nat) : Option (κ × ν) := (s.heap p).map (·.data)

/-- The heap after `_Ptr->forward(_Level) = q`. -/
def store (s : Skiplist κ ν) (p level : Nat) (q : Option Nat) : Skiplist κ ν :=
  { s with heap := Function.update s.heap p ((s.heap p).map fun node =>
      { node with forward := node.forward.set level q }) }

def setForward (s : Skiplist κ ν) (p level : Nat) (q : Option Nat) : Option (Skiplist κ ν) :=
  if (s.forward p level).isSome then some (s.store p level q) else none

/-- `_Ptr->data().second = value`. -/
def setValue (s : Skiplist κ ν) (p : Nat) (value : ν) : Option (Skiplist κ ν) := do
  let node ← s.heap p
  let node := { node with data := (node.data.1, value) }
  some { s with heap := Function.update s.heap p (some node) }

/-- The heap after `_Create_node(_Pair, _Level)`; the node is at the old `fresh`. -/
def createNode (s : Skiplist κ ν) (pair : κ × ν) (level : Nat) : Skiplist κ ν :=
  let node := { data := pair, forward := List.replicate (level + 1) none }
  { s with heap := Function.update s.heap s.fresh (some node), fresh := s.fresh + 1 }

def destroyNode (s : Skiplist κ ν) (p : Nat) : Option (Skiplist κ ν) :=
  if (s.heap p).isSome then some { s with heap := Function.update s.heap p none } else none

/-- The bound on the rounds of a loop along one level. -/
def rounds (s : Skiplist κ ν) : Nat := s.size + 1

/-! ## Search -/

variable [LinearOrder κ]

/-- The inner loop of `_Find`: forward on one level while the next key is smaller. -/
def advance (s : Skiplist κ ν) (key : κ) (level : Nat) : Nat → Nat → Option Nat
  | 0, _ => none
  | rounds + 1, cur => do
    match ← s.forward cur level with
    | none => some cur
    | some next =>
      let pair ← s.data next
      if pair.1 < key then advance s key level rounds next else some cur

/-- The outer loop of `_Find`, from `_Level` down to 0. -/
def descend (s : Skiplist κ ν) (key : κ) : Nat → Nat → Option Nat
  | 0, cur => s.advance key 0 s.rounds cur
  | level + 1, cur => do
    let cur ← s.advance key (level + 1) s.rounds cur
    descend s key level cur

/-- `_Ptr` if it is not null and points at the key, else null. -/
def holding (s : Skiplist κ ν) (key : κ) : Option Nat → Option (Option Nat)
  | none => some none
  | some p => do
    let pair ← s.data p
    some (if pair.1 = key then some p else none)

/-- `_Find`. -/
def findNode (s : Skiplist κ ν) (key : κ) : Option (Option Nat) := do
  let cur ← s.descend key s.currentLevelIndex s.head
  let next ← s.forward cur 0
  s.holding key next

/-- `_Update_list[_Level] = p`. -/
def setUpdate (update : List (Option Nat)) (level p : Nat) : Option (List (Option Nat)) :=
  if level < update.length then some (update.set level (some p)) else none

/-- The loops of `_Find_with_update`. -/
def descendWithUpdate (s : Skiplist κ ν) (key : κ) :
    Nat → Nat → List (Option Nat) → Option (Nat × List (Option Nat))
  | 0, cur, update => do
    let cur ← s.advance key 0 s.rounds cur
    let update ← setUpdate update 0 cur
    some (cur, update)
  | level + 1, cur, update => do
    let cur ← s.advance key (level + 1) s.rounds cur
    let update ← setUpdate update (level + 1) cur
    descendWithUpdate s key level cur update

def findWithUpdate (s : Skiplist κ ν) (key : κ) (update : List (Option Nat)) :
    Option (Option Nat × List (Option Nat)) := do
  let (cur, update) ← s.descendWithUpdate key s.currentLevelIndex s.head update
  let next ← s.forward cur 0
  some (next, update)

/-- The vector of null pointers that the public operations hand to the search. -/
def updateList (s : Skiplist κ ν) : List (Option Nat) :=
  List.replicate (s.maxLevelIndex + 1) none

/-! ## Insertion -/

/-- The loop of `_Random_level`.  A draw is the value of `rand() % 2`; a list that has run
out counts as a draw of 0. -/
def randomLevelFrom (maxLevelIndex level : Nat) : List Bool → Nat
  | [] => level
  | draw :: draws =>
    if draw ∧ level < maxLevelIndex then randomLevelFrom maxLevelIndex (level + 1) draws
    else level

def randomLevel (s : Skiplist κ ν) (draws : List Bool) : Nat :=
  randomLevelFrom s.maxLevelIndex 1 draws

/-- `for (; count > 0; ++_Level) _Update_list[_Level] = _Head`. -/
def padUpdate (head : Nat) : Nat → Nat → List (Option Nat) → Option (List (Option Nat))
  | _, 0, update => some update
  | level, count + 1, update => do
    let update ← setUpdate update level head
    padUpdate head (level + 1) count update

/-- The branch of `_Create_and_insert` for a level above the current one. -/
def raiseLevel (s : Skiplist κ ν) (newLevelIndex : Nat) (update : List (Option Nat)) :
    Option (List (Option Nat) × Skiplist κ ν) :=
  if newLevelIndex > s.currentLevelIndex then do
    let update ← padUpdate s.head (s.currentLevelIndex + 1)
      (newLevelIndex - s.currentLevelIndex) update
    some (update, { s with currentLevelIndex := newLevelIndex })
  else some (update, s)

/-- The last loop of `_Create_and_insert`. -/
def link (p : Nat) (update : List (Option Nat)) : Nat → Nat → Skiplist κ ν → Option (Skiplist κ ν)
  | _, 0, s => some s
  | level, count + 1, s => do
    let prev ← update[level]?
    let prev ← prev
    let next ← s.forward prev level
    let s ← s.setForward p level next
    let s ← s.setForward prev level (some p)
    link p update (level + 1) count s

def createAndInsert (s : Skiplist κ ν) (pair : κ × ν) (draws : List Bool)
    (update : List (Option Nat)) : Option (Nat × Skiplist κ ν) := do
  let newLevelIndex := s.randomLevel draws - 1
  let p := s.fresh
  let (update, s) ← (s.createNode pair newLevelIndex).raiseLevel newLevelIndex update
  let s ← link p update 0 (newLevelIndex + 1) s
  some (p, { s with size := s.size + 1 })

/-- `_Insert`. -/
def insert (s : Skiplist κ ν) (pair : κ × ν) (draws : List Bool) :
    Option ((Nat × Bool) × Skiplist κ ν) := do
  let (next, update) ← s.findWithUpdate pair.1 s.updateList
  match ← s.holding pair.1 next with
  | some p => some ((p, false), s)
  | none =>
    let (p, s) ← s.createAndInsert pair draws update
    some ((p, true), s)

/-- `_Get_or_insert`: the node whose value the reference leads to. -/
def getOrInsert [Inhabited ν] (s : Skiplist κ ν) (key : κ) (draws : List Bool) :
    Option (Nat × Skiplist κ ν) := do
  let (next, update) ← s.findWithUpdate key s.updateList
  match ← s.holding key next with
  | some p => some (p, s)
  | none => s.createAndInsert (key, default) draws update

/-! ## Removal -/

/-- `while (_Current_level_index > 0 && _Head->forward(_Current_level_index) == nullptr)`. -/
def lowerLevel (s : Skiplist κ ν) : Nat → Option Nat
  | 0 => some 0
  | level + 1 => do
    match ← s.forward s.head (level + 1) with
    | none => lowerLevel s level
    | some _ => some (level + 1)

/-- The end of both `erase`: the node is destroyed, and the levels and the size follow. -/
def finishErase (s : Skiplist κ ν) (p : Nat) : Option (Skiplist κ ν) := do
  let s ← s.destroyNode p
  let level ← s.lowerLevel s.currentLevelIndex
  some { s with currentLevelIndex := level, size := s.size - 1 }

/-- The loop of `erase(const key_type &)`, from level 0 upwards. -/
def unlink (p : Nat) (update : List (Option Nat)) :
    Nat → Nat → Skiplist κ ν → Option (Skiplist κ ν)
  | _, 0, s => some s
  | level, count + 1, s => do
    let prev ← update[level]?
    let prev ← prev
    let found ← s.forward prev level
    if found ≠ some p then some s
    else
      let next ← s.forward p level
      let s ← s.setForward prev level next
      unlink p update (level + 1) count s

/-- `erase(const key_type &)`. -/
def eraseKey (s : Skiplist κ ν) (key : κ) : Option (Nat × Skiplist κ ν) := do
  let (next, update) ← s.findWithUpdate key s.updateList
  match ← s.holding key next with
  | none => some (0, s)
  | some p =>
    let s ← unlink p update 0 (s.currentLevelIndex + 1) s
    let s ← s.finishErase p
    some (1, s)

/-- `while (_Cur->forward(_Level) != p) _Cur = _Cur->forward(_Level)`. -/
def seek (s : Skiplist κ ν) (p level : Nat) : Nat → Nat → Option Nat
  | 0, _ => none
  | rounds + 1, cur => do
    let next ← s.forward cur level
    if next = some p then some cur
    else
      let next ← next
      seek s p level rounds next

/-- One round of the loop of `erase(const_iterator)`, from the head of a level. -/
def bypass (s : Skiplist κ ν) (p level : Nat) : Option (Option Nat × Skiplist κ ν) := do
  let cur ← s.seek p level s.rounds s.head
  let next ← s.forward cur level
  let next ← next
  let next ← s.forward next level
  let s ← s.setForward cur level next
  some (next, s)

/-- The rounds from `_Level` down to 1. -/
def bypassDown (p : Nat) : Nat → Skiplist κ ν → Option (Skiplist κ ν)
  | 0, s => some s
  | level + 1, s => do
    let (_, s) ← s.bypass p (level + 1)
    bypassDown p level s

/-- `erase(const_iterator)`. -/
def eraseAt (s : Skiplist κ ν) : Option Nat → Option (Option Nat × Skiplist κ ν)
  | none => some (none, s)
  | some p => do
    let node ← s.heap p
    let s ← bypassDown p (node.forward.length - 1) s
    let (next, s) ← s.bypass p 0
    let s ← s.finishErase p
    some (next, s)

/-- The first loop of `clear`. -/
def destroyFrom : Nat → Option Nat → Skiplist κ ν → Option (Skiplist κ ν)
  | _, none, s => some s
  | 0, some _, _ => none
  | rounds + 1, some cur, s => do
    let next ← s.forward cur 0
    let s ← s.destroyNode cur
    destroyFrom rounds next s

/-- The second loop of `clear`. -/
def resetHead : Nat → Nat → Skiplist κ ν → Option (Skiplist κ ν)
  | _, 0, s => some s
  | level, count + 1, s => do
    let s ← s.setForward s.head level none
    resetHead (level + 1) count s

def clear (s : Skiplist κ ν) : Option (Skiplist κ ν) := do
  let cur ← s.forward s.head 0
  let s ← destroyFrom s.size cur s
  let s ← resetHead 0 (s.currentLevelIndex + 1) s
  some { s with currentLevelIndex := 0, size := 0 }

/-! ## Look-up -/

def contains (s : Skiplist κ ν) (key : κ) : Option Bool := (s.findNode key).map Option.isSome

end Skiplist

end WWRaftKV
