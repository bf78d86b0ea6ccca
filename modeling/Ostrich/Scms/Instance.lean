import Ostrich.Scms.Rest

/-!
# A service with one token

A policy that permits everything, a table with one token, and requests that run without
interruption.
-/

namespace Ostrich.Scms

open Table

/-- A service whose policy permits everything. -/
def openEnv : Env where
  User := Unit
  username _ := "operator"
  authorize _ _ _ := .ok ()

/-- One token. -/
def oneToken (status : String) (pin : ℤ) : Tokens where
  rows := [{ id := .nil, serialNumber := "0001", status, assignedTo := none,
             pinAttemptsRemaining := pin, pukAttemptsRemaining := 10, soPinAttemptsRemaining := 3,
             initializedAt := none, expiresAt := none, updatedAt := .ofMicros 0 }]
  nodup := List.nodup_singleton _

/-- A request `i` that arrives and runs to its end, with `n` calls. -/
def whole (i n : ℕ) (action : Action) : List (Interleave.Action (Task openEnv) Choice) :=
  .arrive ⟨(), .nil, action⟩ :: List.replicate (n + 1) (.run i {})

end Ostrich.Scms
