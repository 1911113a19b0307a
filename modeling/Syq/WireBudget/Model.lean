import Syq.Lib.Allowance
import Syq.Lib.Transition

/-!
# Decoded-memory budgets

A server charges what it decodes to two shared budgets: what decompression adds to a frame,
and the storage of decoded collections.  Connections reserve from them, and the reservations
travel with the queued messages until they are dropped.

Each operation changes a shared total once, under its lock or by one atomic update, so a run
is a sequence of operations of any number of connections.
-/

namespace Syq.WireBudget

open Syq.Lib

def memoryLimit : Nat := 512 * 2 ^ 20

def reservationGranule : Nat := 64 * 2 ^ 10

def expansionLimit : Nat := 2 ^ 30

/-! ## Decompression -/

/-- The allowance for decompressed bytes beyond the bytes that arrived. -/
structure ExpansionBudget where
  used : Nat
  limit : Nat
  deriving DecidableEq

def ExpansionBudget.withLimit (limit : Nat) : ExpansionBudget :=
  ⟨0, limit⟩

def ExpansionBudget.shared : ExpansionBudget :=
  .withLimit expansionLimit

/-- Room for the decompressed bytes of one frame. -/
structure Expansion where
  bytes : Nat
  deriving DecidableEq

/-- What comes of one look at the allowance. -/
inductive Reservation where
  | granted (budget : ExpansionBudget) (expansion : Expansion)
  | aborted (message : String)
  | waiting
  deriving DecidableEq

namespace Expansion

/-- One turn of the loop that waits for room: each turn looks at the allowance anew, and
`closed` is what the connection says in it. -/
def reserve (budget : ExpansionBudget) (bytes : Nat) (closed : Bool) : Option Reservation :=
  if 0 < budget.used ∧ budget.limit < saturatingAdd budget.used bytes then
    if closed then some (.aborted "connection closed while waiting for decompression memory")
    else some .waiting
  else do
    let used ← checkedAdd budget.used bytes
    some (.granted { budget with used } ⟨bytes⟩)

/-- Keep only some bytes of a reservation. -/
def shrinkTo (budget : ExpansionBudget) (expansion : Expansion) (bytes : Nat) :
    Option (ExpansionBudget × Expansion) :=
  if bytes < expansion.bytes then do
    let used ← checkedSub budget.used (expansion.bytes - bytes)
    some ({ budget with used }, ⟨bytes⟩)
  else some (budget, expansion)

def drop (budget : ExpansionBudget) (expansion : Expansion) : Option ExpansionBudget :=
  if 0 < expansion.bytes then do
    let used ← checkedSub budget.used expansion.bytes
    some { budget with used }
  else some budget

end Expansion

/-! ## Collections -/

/-- The allowance for decoded collections. -/
structure Budget where
  used : Nat
  limit : Nat
  deriving DecidableEq

/-- What one message holds. -/
structure Hold where
  used : Nat
  reserved : Nat
  exhausted : Bool
  expansion : Option Expansion
  deriving DecidableEq

namespace Hold

def new : Hold :=
  ⟨0, 0, false, none⟩

def exhaustedMessage : String :=
  "decoded collection memory budget exhausted; reduce connections or pipeline depth"

/-- The bytes of the granules that some bytes need. -/
def wholeGranules (used : Nat) : Option Nat := do
  let rounded ← checkedAdd used (reservationGranule - 1)
  some (rounded / reservationGranule * reservationGranule)

/-- Charge more bytes, reserving whole granules.  The result comes with the budget and the
hold as they are left, whether or not the attempt succeeds. -/
def tryGrow (budget : Budget) (hold : Hold) (bytes : Nat) : Except String Unit × Budget × Hold :=
  match checkedAdd hold.used bytes with
  | none => (.error exhaustedMessage, budget, hold)
  | some used =>
    if hold.reserved < used then
      match wholeGranules used with
      | none => (.error exhaustedMessage, budget, hold)
      | some wanted =>
        let extra := wanted - hold.reserved
        match (checkedAdd budget.used extra).filter (· ≤ budget.limit) with
        | none => (.error exhaustedMessage, budget, hold)
        | some total =>
          (.ok (), { budget with used := total }, { hold with reserved := wanted, used })
    else (.ok (), budget, { hold with used })

def grow (budget : Budget) (hold : Hold) (bytes : Nat) : Except String Unit × Budget × Hold :=
  match tryGrow budget hold bytes with
  | (.ok (), budget, hold) => (.ok (), budget, hold)
  | (.error message, budget, hold) => (.error message, budget, { hold with exhausted := true })

/-- Release what a message reserves for collections.  The decompression it keeps is dropped
after that. -/
def drop (budget : Budget) (hold : Hold) : Option Budget := do
  let used ← checkedSub budget.used hold.reserved
  some { budget with used }

/-- Drop what is kept of decompression. -/
def dropExpansion (budget : ExpansionBudget) (hold : Hold) : Option ExpansionBudget :=
  match hold.expansion with
  | none => some budget
  | some expansion => expansion.drop budget

end Hold

/-! ## Connections -/

/-- The budgets, and the reservations that connections own.  A reservation moves to a
message when the message keeps it. -/
structure State where
  expansion : ExpansionBudget
  memory : Budget
  expansions : Table Nat Expansion
  holds : Table Nat Hold

namespace State

/-- Nothing is charged at the start. -/
def start : State :=
  ⟨.shared, ⟨0, memoryLimit⟩, ∅, ∅⟩

end State

/-- An operation of some connection on values it owns. -/
inductive Event where
  | reserve (id bytes : Nat) (closed : Bool)
  | shrinkTo (id bytes : Nat)
  | dropExpansion (id : Nat)
  | newHold (id : Nat)
  | keep (hold id : Nat)
  | releaseExpansion (hold : Nat)
  | grow (hold bytes : Nat)
  | dropHold (hold id : Nat)
  deriving DecidableEq

/-- Values are used while they are owned, and byte counts are machine words. -/
def Enabled (state : State) : Event → Prop
  | .reserve id bytes _ => id ∉ state.expansions ∧ bytes ≤ u64Max
  | .shrinkTo id bytes => id ∈ state.expansions ∧ bytes ≤ u64Max
  | .dropExpansion id => id ∈ state.expansions
  | .newHold id => id ∉ state.holds
  | .keep hold id => hold ∈ state.holds ∧ id ∈ state.expansions
  | .releaseExpansion hold => hold ∈ state.holds
  | .grow hold bytes => hold ∈ state.holds ∧ bytes ≤ u64Max
  | .dropHold hold id => hold ∈ state.holds ∧ id ∉ state.expansions

instance (state : State) (event : Event) : Decidable (Enabled state event) := by
  cases event <;> unfold Enabled <;> infer_instance

/-- What an operation does.  A total that would wrap is a failure. -/
def step (state : State) : Event → Option State
  | .reserve id bytes closed => do
      match ← Expansion.reserve state.expansion bytes closed with
      | .granted budget expansion =>
        some { state with
          expansion := budget, expansions := state.expansions.insert id expansion }
      | .aborted _ => some state
      | .waiting => some state
  | .shrinkTo id bytes => do
      let expansion ← state.expansions.lookup id
      let (budget, expansion) ← expansion.shrinkTo state.expansion bytes
      some { state with
        expansion := budget, expansions := state.expansions.insert id expansion }
  | .dropExpansion id => do
      let expansion ← state.expansions.lookup id
      let budget ← expansion.drop state.expansion
      some { state with expansion := budget, expansions := state.expansions.erase id }
  | .newHold id => some { state with holds := state.holds.insert id .new }
  | .keep hold id => do
      let message ← state.holds.lookup hold
      let expansion ← state.expansions.lookup id
      -- What the message kept before is dropped by the assignment.
      let budget ← message.dropExpansion state.expansion
      some { state with
        expansion := budget
        expansions := state.expansions.erase id
        holds := state.holds.insert hold { message with expansion := some expansion } }
  | .releaseExpansion hold => do
      let message ← state.holds.lookup hold
      let budget ← message.dropExpansion state.expansion
      some { state with
        expansion := budget
        holds := state.holds.insert hold { message with expansion := none } }
  | .grow hold bytes => do
      let message ← state.holds.lookup hold
      let grown := message.grow state.memory bytes
      some { state with memory := grown.2.1, holds := state.holds.insert hold grown.2.2 }
  | .dropHold hold id => do
      let message ← state.holds.lookup hold
      let budget ← message.drop state.memory
      -- The kept decompression is left to a drop of its own.
      some { state with
        memory := budget
        holds := state.holds.erase hold
        expansions := message.expansion.elim state.expansions (state.expansions.insert id ·) }

def system : System State Event where
  enabled := Enabled
  decidableEnabled _ _ := inferInstance
  step := step

end Syq.WireBudget
