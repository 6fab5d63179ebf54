/-!
# Locks by name

Each name has a lock of its own. A table leads from a name to a slot, which is made when the name is
first asked for. Who asks gets a ticket for the slot. The first ticket of a free slot holds the lock
at once; the others queue. A release promises the lock to the first ticket in the queue, which holds
it from its next poll on; nobody else can get it in between.

An entry leaves the table only in a release, and only if no ticket is left for its slot. If the last
ticket is a promised one and is cancelled, the entry stays until the name is locked and released
again.

## Main definitions

* `Ticket`, `Locks` — who asks for what, and the table.
* `Locks.lock`, `Locks.poll`, `Locks.release`, `Locks.cancel` — the operations. The parameter `ι` is
  the type of those who ask; each is asking for at most one name at a time.
-/
namespace SubnetRegistry

inductive Phase where
  | queued
  | promised
  | holding
  deriving DecidableEq, Repr

/-- The claim of `owner` to the lock of `name`, whose slot was `slot` when it was made. -/
structure Ticket (ι : Type) where
  owner : ι
  name : String
  slot : Nat
  phase : Phase
  deriving DecidableEq, Repr

/-- The slots by name, the tickets in the order in which they were given out, and the number of the
next slot. -/
structure Locks (ι : Type) where
  table : List (String × Nat)
  tickets : List (Ticket ι)
  nextSlot : Nat

namespace Locks

variable {ι : Type} [DecidableEq ι]

def empty : Locks ι := ⟨[], [], 0⟩

/-- The number of names in the table. -/
def active (l : Locks ι) : Nat := l.table.length

def slot? (l : Locks ι) (name : String) : Option Nat := l.table.lookup name

def ticket? (l : Locks ι) (owner : ι) : Option (Ticket ι) :=
  l.tickets.find? fun t => t.owner = owner

/-- Whether a slot's lock is held or promised. -/
def isTaken (tickets : List (Ticket ι)) (slot : Nat) : Bool :=
  tickets.any fun t => t.slot = slot && t.phase ≠ .queued

/-- What an owner sees of its claim. -/
inductive Answer where
  | acquired (name : String)
  | waiting
  | notWaiting
  deriving DecidableEq, Repr

def lock (l : Locks ι) (owner : ι) (name : String) : Answer × Locks ι :=
  let (slot, l) := match l.slot? name with
    | some slot => (slot, l)
    | none =>
      (l.nextSlot, { l with table := l.table ++ [(name, l.nextSlot)], nextSlot := l.nextSlot + 1 })
  if isTaken l.tickets slot then
    (.waiting, { l with tickets := l.tickets ++ [⟨owner, name, slot, .queued⟩] })
  else
    (.acquired name, { l with tickets := l.tickets ++ [⟨owner, name, slot, .holding⟩] })

def setPhase (owner : ι) (phase : Phase) (tickets : List (Ticket ι)) : List (Ticket ι) :=
  tickets.map fun t => if t.owner = owner then { t with phase } else t

/-- Looks whether the lock that was asked for can be had now. -/
def poll (l : Locks ι) (owner : ι) : Answer × Locks ι :=
  match l.ticket? owner with
  | some t =>
    match t.phase with
    | .queued => (.waiting, l)
    | .promised => (.acquired t.name, { l with tickets := setPhase owner .holding l.tickets })
    | .holding => (.notWaiting, l)
  | none => (.notWaiting, l)

/-- The tickets with the first one in the queue of a slot promised the lock. -/
def promiseNext (slot : Nat) : List (Ticket ι) → List (Ticket ι)
  | [] => []
  | t :: rest =>
    if t.slot = slot ∧ t.phase = .queued then { t with phase := .promised } :: rest
    else t :: promiseNext slot rest

def withdraw (owner : ι) (tickets : List (Ticket ι)) : List (Ticket ι) :=
  tickets.filter fun t => t.owner ≠ owner

/-- The locks without the table's entry of a name, if no ticket is left for its slot. -/
def dropIdle (l : Locks ι) (name : String) : Locks ι :=
  match l.slot? name with
  | some slot =>
    if l.tickets.any fun t => t.slot = slot then l
    else { l with table := l.table.filter fun e => e.1 ≠ name }
  | none => l

def release (l : Locks ι) (owner : ι) : Bool × Locks ι :=
  match l.ticket? owner with
  | some t =>
    if t.phase = .holding then
      (true, { l with tickets := promiseNext t.slot (withdraw owner l.tickets) }.dropIdle t.name)
    else (false, l)
  | none => (false, l)

/-- Gives up a claim that is still waiting. If the lock was promised to it, it is promised to the next
in the queue. -/
def cancel (l : Locks ι) (owner : ι) : Bool × Locks ι :=
  match l.ticket? owner with
  | some t =>
    match t.phase with
    | .queued => (true, { l with tickets := withdraw owner l.tickets })
    | .promised => (true, { l with tickets := promiseNext t.slot (withdraw owner l.tickets) })
    | .holding => (false, l)
  | none => (false, l)

inductive Step (ι : Type) where
  | lock (owner : ι) (name : String)
  | poll (owner : ι)
  | release (owner : ι)
  | cancel (owner : ι)
  | active
  deriving Repr

inductive Reply where
  | answer (a : Answer)
  | done (b : Bool)
  | none
  deriving DecidableEq, Repr

def step (l : Locks ι) : Step ι → Reply × Locks ι
  | .lock owner name => let (a, l) := l.lock owner name; (.answer a, l)
  | .poll owner => let (a, l) := l.poll owner; (.answer a, l)
  | .release owner => let (b, l) := l.release owner; (.done b, l)
  | .cancel owner => let (b, l) := l.cancel owner; (.done b, l)
  | .active => (.none, l)

end Locks
end SubnetRegistry
