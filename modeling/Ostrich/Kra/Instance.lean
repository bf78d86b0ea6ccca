import Ostrich.Kra.Recovery

/-!
# A recovery authority with a small cipher

The cipher appends a tag that depends on the key, the nonce and the associated data, and opens what
has this tag.
-/

namespace Ostrich.Kra

open Interleave Table

/-- A tag of 16 bytes. -/
def smallTag (key nonce aad : List UInt8) : List UInt8 :=
  key.foldr (· + ·) 0 :: nonce.foldr (· + ·) 0 :: aad.foldr (· + ·) 0 :: List.replicate 13 0

/-- The text and its tag. -/
def smallAead : Aead where
  sealInPlaceAppendTag key nonce aad text := some (text ++ smallTag key nonce aad)
  openInPlace key nonce aad sealed :=
    if sealed.drop (sealed.length - tagLen) = smallTag key nonce aad then
      some (sealed.take (sealed.length - tagLen))
    else none

/-- Three active agents, and nothing else. -/
def threeAgents : Store where
  escrowedKeys := .empty _
  agents := ⟨[⟨⟨1⟩, true⟩, ⟨⟨2⟩, true⟩, ⟨⟨3⟩, true⟩], by decide⟩
  requests := .empty _
  shares := .empty _

/-- A key of three bytes. -/
def escrowRequest (threshold numAgents : ℕ) : KeyEscrowRequest where
  privateKey := [1, 2, 3]
  certificateId := ⟨9⟩
  subjectDn := "CN=user"
  keyType := "RSA"
  numAgents := numAgents
  threshold := threshold
  requestor := "admin"
  justification := "escrow"

/-- The recovery of the key that was stored as number 0. -/
def recoveryRequest : RecoveryRequest where
  escrowId := ⟨0⟩
  requestor := "agent"
  justification := "recovery"
  approvedBy := none

/-- Task `i` arrives and makes `n` steps, in which the database draws this id. -/
def steps (i n : ℕ) (id : BitVec 128) (t : Task) : List (Action Task Choice) :=
  .arrive t :: List.replicate n (.run i { id := ⟨id⟩ })

/-- A key is escrowed `threshold`-of-`numAgents`, and a recovery session is opened for it. -/
def escrowThenInitiate (threshold numAgents : ℕ) : List (Action Task Choice) :=
  steps 0 (numAgents + 6) 0 (.escrowKey (escrowRequest threshold numAgents)) ++
    steps 1 4 1 (.initiateRecovery recoveryRequest)

end Ostrich.Kra
