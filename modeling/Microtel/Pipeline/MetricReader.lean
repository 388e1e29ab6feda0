import Microtel.Api.Types
import Microtel.Lib.Machine

/-!
`PeriodicExportingMetricReader` (`src/sdk/periodic_exporting_metric_reader.cpp`).
Every access to the atomic flag, every critical section and every call into the
producer or the exporter is one step; a `Collect` of the producer starts, reads the
storages and returns. Measurements are of any type.
-/

namespace Microtel.Pipeline

variable {μ : Type}

/-- Where a thread is in `DoCollectExport`. -/
inductive Cycle (μ : Type)
  /-- Waiting for the slot. -/
  | claim
  /-- Holding the slot, before the producer's `Collect`. -/
  | claimed
  /-- In a `Collect` that started when `seen` had been recorded. -/
  | collecting (seen : List μ)
  /-- In a `Collect` that has read `taken` from the storages. -/
  | collected (seen taken : List μ)
  /-- With this many handles still to hand to the exporter. -/
  | exporting (seen taken : List μ) (left : Nat)
  | releasing
  | finished
  deriving DecidableEq, Repr

inductive CycleAction
  | claim
  | startCollect
  | readStorages
  | collected (handles : Nat)
  | collectThrew
  | exported
  | exportFailed
  | release
  deriving DecidableEq, Repr

/-- Where the background thread is. -/
inductive Background (μ : Type)
  /-- At the loop test. -/
  | test
  /-- Past the loop test, in the wait. -/
  | waiting
  | cycle (c : Cycle μ)
  | exited
  deriving DecidableEq, Repr

/-- How far the call of `Shutdown` is. -/
inductive ShutdownPc
  | notCalled
  | called
  | flagged
  | notified
  | joined
  | exporterShutDown
  deriving DecidableEq, Repr

structure MetricReader (μ : Type) where
  /-- Delta temporality: a `Collect` reports what the one before it did not. -/
  delta : Bool
  interval : Nat
  shutDown : Bool := false
  wake : Bool := false
  /-- The slot of the running cycle. -/
  collecting : Bool := false
  background : Background μ := .test
  /-- The `Collect` and `ForceFlush` calls that got past their shutdown test. -/
  callers : List (Cycle μ) := []
  shutdownPc : ShutdownPc := .notCalled
  recorded : List μ := []
  /-- Recorded since the storages were last read. -/
  unread : List μ := []
  /-- Read by a `Collect` that returned, with every handle of it offered to the exporter. -/
  offered : List μ := []
  /-- Recorded before the start of such a `Collect`. -/
  covered : List μ := []
  /-- Recorded before `Shutdown` was called. -/
  before : List μ := []
  /-- `offered` and `covered` when `Shutdown` calls the exporter's `Shutdown`. -/
  offeredInTime : List μ := []
  coveredInTime : List μ := []
  deriving DecidableEq, Repr

inductive ReaderAction (μ : Type)
  | record (m : μ)
  /-- A `Collect` or a `ForceFlush`, up to its shutdown test. -/
  | call
  | caller (i : Nat) (a : CycleAction)
  | setInterval (interval : Nat)
  | loopTest
  /-- The end of the wait, by the wake flag or by its timeout. -/
  | endWait
  | background (a : CycleAction)
  | shutdownCall
  | shutdownFlag
  | shutdownNotify
  | shutdownJoin
  | shutdownExporter
  deriving DecidableEq, Repr

namespace MetricReader

/-- All handles of a cycle are offered once none is left. -/
def offer (r : MetricReader μ) (seen taken : List μ) : Nat → MetricReader μ × Cycle μ
  | 0 => ({ r with offered := r.offered ++ taken, covered := r.covered ++ seen }, .releasing)
  | left + 1 => (r, .exporting seen taken (left + 1))

/-- One step of `DoCollectExport`. -/
def cycleStep (r : MetricReader μ) : Cycle μ → CycleAction → Option (MetricReader μ × Cycle μ)
  | .claim, .claim => if r.collecting then none else some ({ r with collecting := true }, .claimed)
  | .claimed, .startCollect => some (r, .collecting r.recorded)
  | .collecting seen, .readStorages =>
      some ({ r with unread := [] }, .collected seen (if r.delta then r.unread else r.recorded))
  | .collecting _, .collectThrew => some (r, .releasing)
  | .collected seen taken, .collected handles => some (r.offer seen taken handles)
  | .collected _ _, .collectThrew => some (r, .releasing)
  | .exporting seen taken (left + 1), .exported => some (r.offer seen taken left)
  -- a failure ends the cycle; the handle it struck was offered
  | .exporting seen taken (left + 1), .exportFailed =>
      some (if left = 0 then r.offer seen taken 0 else (r, .releasing))
  | .releasing, .release => some ({ r with collecting := false }, .finished)
  | _, _ => none

def step (r : MetricReader μ) : ReaderAction μ → Option (MetricReader μ)
  | .record m => some { r with recorded := r.recorded ++ [m], unread := r.unread ++ [m] }
  | .call => some (if r.shutDown then r else { r with callers := r.callers ++ [.claim] })
  | .caller i a =>
      match r.callers[i]? with
      | none => none
      | some c =>
          (r.cycleStep c a).map fun (r', c') => { r' with callers := r'.callers.set i c' }
  | .setInterval interval => some { r with interval := interval }
  | .loopTest =>
      match r.background with
      | .test => some { r with background := if r.shutDown then .exited else .waiting }
      | _ => none
  | .endWait =>
      match r.background with
      | .waiting => some { r with wake := false, background := .cycle .claim }
      | _ => none
  | .background a =>
      match r.background with
      | .cycle .finished => none
      | .cycle c =>
          (r.cycleStep c a).map fun (r', c') =>
            { r' with background := match c' with
              | .finished => .test
              | c' => .cycle c' }
      | _ => none
  | .shutdownCall =>
      if r.shutdownPc = .notCalled then some { r with shutdownPc := .called, before := r.recorded }
      else none
  | .shutdownFlag =>
      if r.shutdownPc = .called then some { r with shutdownPc := .flagged, shutDown := true }
      else none
  | .shutdownNotify =>
      if r.shutdownPc = .flagged then some { r with shutdownPc := .notified, wake := true }
      else none
  | .shutdownJoin =>
      match r.background with
      | .exited => if r.shutdownPc = .notified then some { r with shutdownPc := .joined } else none
      | _ => none
  | .shutdownExporter =>
      if r.shutdownPc = .joined then
        some { r with
          shutdownPc := .exporterShutDown
          offeredInTime := r.offered
          coveredInTime := r.covered }
      else none

def new (delta : Bool) (interval : Nat) : MetricReader μ := { delta, interval }

end MetricReader

end Microtel.Pipeline
