import Microtel.Api.Types
import Microtel.Concentrator.Time
import Microtel.Lib.LinkedIndex

/-!
The leaf receiver's bounded per-leaf state (`src/sdk/leaf_table.cpp`): a list of
entries, most recently seen first, and a hash index from ids to list nodes. A
list node is named by its address, which never changes while the node lives.
Every public call holds the table's mutex, so it is one step.
-/

namespace Microtel.Concentrator

open LinkedIndex

/-- A point on the steady clock, in nanoseconds. -/
abbrev TimePoint := Int

/-! ### The leaf table -/

variable {σ ρ : Type}

/-- `LeafTable::Entry`, over the types of settings and Resources. -/
structure Entry (σ ρ : Type) where
  id : Bytes
  settings : Option σ
  declaredHash : UInt64
  resource : Option ρ
  anchor : BootAnchor
  lastSeen : TimePoint

structure LeafTable (σ ρ : Type) where
  maxLeaves : Nat
  idleTimeout : Int
  /-- Front is the most recently seen. -/
  recency : List (Nat × Entry σ ρ)
  index : List (Bytes × Nat)
  evicted : UInt64
  /-- The address the next list node gets. -/
  nextAddr : Nat

namespace LeafTable

def new (maxLeaves : UInt32) (idleTimeout : Int) : LeafTable σ ρ where
  maxLeaves := max maxLeaves.toNat 1
  idleTimeout := idleTimeout
  recency := []
  index := []
  evicted := 0
  nextAddr := 0

/-- The node of an id marked seen, if there is one. -/
def touch (t : LeafTable σ ρ) (id : Bytes) (now : TimePoint) : LeafTable σ ρ × Option Nat :=
  match indexFind t.index id with
  | none => (t, none)
  | some addr =>
      ({ t with
          recency := modifyAt (spliceFront addr t.recency) addr fun e =>
            { e with lastSeen := now } },
        some addr)

def evictOldest (t : LeafTable σ ρ) : LeafTable σ ρ :=
  match t.recency.getLast? with
  | none => t
  | some n =>
      { t with
        index := indexErase t.index n.2.id
        recency := t.recency.dropLast
        evicted := t.evicted + 1 }

/-- The loop of `EvictIdle`; each round drops one node. -/
def evictIdleLoop (now : TimePoint) : Nat → LeafTable σ ρ → LeafTable σ ρ
  | 0, t => t
  | fuel + 1, t =>
      match t.recency.getLast? with
      | none => t
      | some n =>
          if t.idleTimeout < now - n.2.lastSeen then evictIdleLoop now fuel t.evictOldest else t

def evictIdle (t : LeafTable σ ρ) (now : TimePoint) : LeafTable σ ρ :=
  if t.idleTimeout ≤ 0 then t else evictIdleLoop now t.recency.length t

/-- The second eviction rule of `TouchOrInsert`. -/
def evictFull (t : LeafTable σ ρ) : LeafTable σ ρ :=
  if t.maxLeaves ≤ t.index.length then t.evictOldest else t

def freshEntry (id : Bytes) (now : TimePoint) : Entry σ ρ where
  id := id
  settings := none
  declaredHash := 0
  resource := none
  anchor := .empty
  lastSeen := now

def pushFresh (t : LeafTable σ ρ) (id : Bytes) (now : TimePoint) : LeafTable σ ρ :=
  { t with
    recency := (t.nextAddr, freshEntry id now) :: t.recency
    index := indexEmplace t.index id t.nextAddr
    nextAddr := t.nextAddr + 1 }

def touchOrInsert (t : LeafTable σ ρ) (id : Bytes) (now : TimePoint) : LeafTable σ ρ × Nat :=
  match t.touch id now with
  | (t, some addr) => (t, addr)
  | (t, none) =>
      let t := (t.evictIdle now).evictFull
      (t.pushFresh id now, t.nextAddr)

def settings (t : LeafTable σ ρ) (id : Bytes) (now : TimePoint) : LeafTable σ ρ × Option σ :=
  match t.touch id now with
  | (t, none) => (t, none)
  | (t, some addr) => (t, (deref t.recency addr).bind Entry.settings)

/-- The settings an entry keeps: its own if it has them. -/
def Entry.adopt (new : Option σ) (e : Entry σ ρ) : Entry σ ρ :=
  if e.settings.isNone then { e with settings := new } else e

def adoptSettings (t : LeafTable σ ρ) (id : Bytes) (new : Option σ) (now : TimePoint) :
    LeafTable σ ρ × Option σ :=
  let (t, addr) := t.touchOrInsert id now
  let t := { t with recency := modifyAt t.recency addr (Entry.adopt new) }
  (t, (deref t.recency addr).bind Entry.settings)

def find (t : LeafTable σ ρ) (id : Bytes) (hash : UInt64) (now : TimePoint) :
    LeafTable σ ρ × Option ρ :=
  match t.touch id now with
  | (t, none) => (t, none)
  | (t, some addr) =>
      (t, (deref t.recency addr).bind fun e => if e.declaredHash = hash then e.resource else none)

/-- The Resource an entry keeps: its own if the declaration is the same. -/
def Entry.keep (hash : UInt64) (new : Option ρ) (e : Entry σ ρ) : Entry σ ρ :=
  if e.resource.isNone ∨ e.declaredHash ≠ hash then { e with declaredHash := hash, resource := new }
  else e

def insert (t : LeafTable σ ρ) (id : Bytes) (hash : UInt64) (new : Option ρ) (now : TimePoint) :
    LeafTable σ ρ × Option ρ :=
  let (t, addr) := t.touchOrInsert id now
  let t := { t with recency := modifyAt t.recency addr (Entry.keep hash new) }
  (t, (deref t.recency addr).bind Entry.resource)

def updateBootAnchor (t : LeafTable σ ρ) (id : Bytes) (sample : BootSample) (window : Int)
    (now : TimePoint) : LeafTable σ ρ × Int :=
  let (t, addr) := t.touchOrInsert id now
  let anchor := ((deref t.recency addr).map Entry.anchor).getD .empty
  let (anchor, b) := anchor.update sample window
  ({ t with recency := modifyAt t.recency addr fun e => { e with anchor } }, b)

def size (t : LeafTable σ ρ) : Nat := t.index.length

/-- A public call on the table. -/
inductive Call (σ ρ : Type) where
  | settings (id : Bytes) (now : TimePoint)
  | adoptSettings (id : Bytes) (new : Option σ) (now : TimePoint)
  | find (id : Bytes) (hash : UInt64) (now : TimePoint)
  | insert (id : Bytes) (hash : UInt64) (new : Option ρ) (now : TimePoint)
  | updateBootAnchor (id : Bytes) (sample : BootSample) (window : Int) (now : TimePoint)

namespace Call

def id : Call σ ρ → Bytes
  | settings id _ | adoptSettings id _ _ | find id _ _ | insert id _ _ _
  | updateBootAnchor id _ _ _ => id

def now : Call σ ρ → TimePoint
  | settings _ now | adoptSettings _ _ now | find _ _ now | insert _ _ _ now
  | updateBootAnchor _ _ _ now => now

/-- Whether the call inserts an entry for an id that has none. -/
def inserts : Call σ ρ → Bool
  | settings _ _ | find _ _ _ => false
  | _ => true

end Call

/-- What a call returns. -/
inductive Result (σ ρ : Type) where
  | settings (s : Option σ)
  | resource (r : Option ρ)
  | anchor (b : Int)

def step (t : LeafTable σ ρ) : Call σ ρ → LeafTable σ ρ × Result σ ρ
  | .settings id now => ((t.settings id now).1, .settings (t.settings id now).2)
  | .adoptSettings id new now =>
      ((t.adoptSettings id new now).1, .settings (t.adoptSettings id new now).2)
  | .find id hash now => ((t.find id hash now).1, .resource (t.find id hash now).2)
  | .insert id hash new now =>
      ((t.insert id hash new now).1, .resource (t.insert id hash new now).2)
  | .updateBootAnchor id sample window now =>
      ((t.updateBootAnchor id sample window now).1,
        .anchor (t.updateBootAnchor id sample window now).2)

/-- The table after a history of calls. -/
def run (t : LeafTable σ ρ) (calls : List (Call σ ρ)) : LeafTable σ ρ :=
  calls.foldl (fun t c => (t.step c).1) t

end LeafTable

/-! ### The unknown-leaf cache -/

/-- A refused id and when it was cached. -/
structure Answer where
  id : Bytes
  cachedAt : TimePoint

structure UnknownLeafCache where
  capacity : Nat
  ttl : Int
  /-- Front is the oldest. -/
  age : List (Nat × Answer)
  index : List (Bytes × Nat)
  nextAddr : Nat

namespace UnknownLeafCache

def new (capacity : UInt32) (ttl : Int) : UnknownLeafCache where
  capacity := max capacity.toNat 1
  ttl := ttl
  age := []
  index := []
  nextAddr := 0

def erase (c : UnknownLeafCache) (addr : Nat) : UnknownLeafCache :=
  match deref c.age addr with
  | none => c
  | some answer =>
      { c with
        index := indexErase c.index answer.id
        age := c.age.eraseP fun n => n.1 = addr }

def contains (c : UnknownLeafCache) (id : Bytes) (now : TimePoint) : UnknownLeafCache × Bool :=
  match indexFind c.index id with
  | none => (c, false)
  | some addr =>
      match deref c.age addr with
      | none => (c, false)
      | some answer => if c.ttl < now - answer.cachedAt then (c.erase addr, false) else (c, true)

/-- Drops the expired answers at the front; each round drops one. -/
def dropExpired (now : TimePoint) : Nat → UnknownLeafCache → UnknownLeafCache
  | 0, c => c
  | fuel + 1, c =>
      match c.age with
      | [] => c
      | n :: _ => if c.ttl < now - n.2.cachedAt then dropExpired now fuel (c.erase n.1) else c

def dropOldest (c : UnknownLeafCache) : UnknownLeafCache :=
  match c.age with
  | [] => c
  | n :: _ => if c.capacity ≤ c.index.length then c.erase n.1 else c

def insert (c : UnknownLeafCache) (id : Bytes) (now : TimePoint) : UnknownLeafCache :=
  if (indexFind c.index id).isSome then c
  else
    let c := (dropExpired now c.age.length c).dropOldest
    { c with
      age := c.age ++ [(c.nextAddr, ⟨id, now⟩)]
      index := indexEmplace c.index id c.nextAddr
      nextAddr := c.nextAddr + 1 }

def size (c : UnknownLeafCache) : Nat := c.index.length

end UnknownLeafCache

end Microtel.Concentrator
