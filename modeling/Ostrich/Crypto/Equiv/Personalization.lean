import Ostrich.Crypto.Equiv.FailSecure

/-!
# Nonce and personalization string

The seed material is cut to the seed length, and the entropy input alone has that length.

* `never_separates`: whatever the nonces and the personalization strings are, two instances with one
  entropy input have one state, and answer every sequence of calls alike.
-/

namespace Ostrich.Crypto

section

variable (aes : Aes) (entropy : Bytes SEED_LENGTH)

/-- The state of an instance with this entropy input, nonce and personalization string. -/
def instanceOf (input : List UInt8 × List UInt8) : DrbgState :=
  instantiated aes entropy.toList input.1 input.2

/-- The nonce and the personalization string separate two instances: they have different keys or
counters. -/
def Separates (input input' : List UInt8 × List UInt8) : Prop :=
  ((instanceOf aes entropy input).key, (instanceOf aes entropy input).v) ≠
    ((instanceOf aes entropy input').key, (instanceOf aes entropy input').v)

/-- An entropy input of seed length is all of the seed. -/
theorem instanceOf_eq (input : List UInt8 × List UInt8) :
    instanceOf aes entropy input = { update aes .new entropy.toList with reseedCounter := 1 } := by
  have hlen : SEED_LENGTH ≤ (entropy.toList ++ input.1 ++ input.2).length := by
    rw [List.length_append, List.length_append, List.Vector.toList_length]
    omega
  have hseed : (entropy.toList ++ input.1 ++ input.2).take SEED_LENGTH = entropy.toList := by
    rw [List.append_assoc]
    exact List.take_left' (List.Vector.toList_length _)
  unfold instanceOf instantiated instantiateAlgorithm
  simp only [Nat.min_eq_right hlen, hseed, Nat.sub_self, List.replicate_zero, List.append_nil]
  rfl

/-- **Neither the nonce nor the personalization string has an effect**: two instances with one
entropy input are never separated, and every sequence of calls has the same results on both. -/
theorem never_separates (input input' : List UInt8 × List UInt8) :
    ¬Separates aes entropy input input' ∧
      ∀ calls, ((instanceOf aes entropy input).run aes calls).1 =
        ((instanceOf aes entropy input').run aes calls).1 := by
  have heq : instanceOf aes entropy input = instanceOf aes entropy input' := by
    rw [instanceOf_eq, instanceOf_eq]
  constructor
  · unfold Separates
    rw [heq]
    exact fun h => h rfl
  · intro calls
    rw [heq]

end

/-- The personalization strings `CA` and `RA`, over the same entropy and nonce. -/
theorem not_separates_ca_ra :
    let aes : Aes := fun _ block => block
    let entropy : Bytes SEED_LENGTH := List.Vector.replicate SEED_LENGTH 7
    let ca : List UInt8 × List UInt8 := (List.replicate 16 1, [0x43, 0x41])
    let ra : List UInt8 × List UInt8 := (List.replicate 16 1, [0x52, 0x41])
    ¬(ca ≠ ra → Separates aes entropy ca ra) := by
  intro aes entropy ca ra h
  have hne : ca ≠ ra := by decide
  refine h hne ?_
  rw [instanceOf_eq, instanceOf_eq]

end Ostrich.Crypto
