import Mathlib.Algebra.BigOperators.Pi
import Mathlib.Algebra.Module.Pi
import Mathlib.Algebra.Module.Prod

/-!
# Signatures that add up

In a group in which nobody can take logarithms, a key is known by its formal
logarithm: a scalar and a multiple of the secret of each of some parties.  The
signature of a message is the key times the point of that message, and the points
of different messages have no known relation.  Signatures of one message add up
to a signature under the sum of the keys.

An adversary multiplies points by scalars of its own, uses the signatures that
the parties have made, and combines them linearly.  What it computes for a
message involves the secrets of those alone who have signed that message.
-/

universe u v w

namespace LinearSignatures

abbrev Key (Scalar : Type u) (Party : Type v) := Scalar × (Party → Scalar)

abbrev Signature (Scalar : Type u) (Party : Type v) (Message : Type w) := Message → Key Scalar Party

variable {Scalar : Type u} {Party : Type v} {Message : Type w}

section Definitions

variable [CommRing Scalar] [DecidableEq Party] [DecidableEq Message]

def keyOf (party : Party) : Key Scalar Party := (0, Pi.single party 1)

def sign (key : Key Scalar Party) (message : Message) : Signature Scalar Party Message :=
  Pi.single message key

omit [DecidableEq Party] in
theorem sign_self (key : Key Scalar Party) (message : Message) : sign key message message = key :=
  Pi.single_eq_same ..

/-- What can be computed from the signatures that the parties have made. -/
inductive Computable (signed : Message → Party → Prop) : Signature Scalar Party Message → Prop where
  | own (scalar : Scalar) (message : Message) : Computable signed (sign (scalar, 0) message)
  | seen {message : Message} {party : Party} (hasSigned : signed message party) :
      Computable signed (sign (keyOf party) message)
  | add {left right : Signature Scalar Party Message} (leftComputable : Computable signed left)
      (rightComputable : Computable signed right) : Computable signed (left + right)
  | smul (scalar : Scalar) {signature : Signature Scalar Party Message}
      (computable : Computable signed signature) : Computable signed (scalar • signature)

end Definitions

section Computable

variable [CommRing Scalar] [DecidableEq Party] [DecidableEq Message]
  {signed : Message → Party → Prop} {signature : Signature Scalar Party Message} {message : Message}
  {party : Party}

theorem Computable.hasSigned (computable : Computable signed signature)
    (involved : (signature message).2 party ≠ 0) : signed message party := by
  induction computable with
  | own scalar other =>
    by_cases same : message = other
    · subst same
      rw [sign_self] at involved
      exact absurd rfl involved
    · rw [sign, Pi.single_eq_of_ne same] at involved
      exact absurd rfl involved
  | @seen other signer hasSigned =>
    by_cases same : message = other
    · subst same
      rw [sign_self, keyOf] at involved
      by_cases sameParty : party = signer
      · exact sameParty ▸ hasSigned
      · exact absurd (Pi.single_eq_of_ne sameParty _) involved
    · rw [sign, Pi.single_eq_of_ne same] at involved
      exact absurd rfl involved
  | @add left right _ _ ihLeft ihRight =>
    by_cases leftInvolved : (left message).2 party = 0
    · apply ihRight
      intro rightZero
      apply involved
      rw [Pi.add_apply, Prod.snd_add, Pi.add_apply, leftInvolved, rightZero, add_zero]
    · exact ihLeft leftInvolved
  | smul scalar _ ih =>
    apply ih
    intro zero
    apply involved
    rw [Pi.smul_apply, Prod.smul_snd, Pi.smul_apply, zero, smul_zero]

theorem Computable.zero (fallback : Message) :
    Computable signed (0 : Signature Scalar Party Message) := by
  rw [← zero_smul Scalar (sign (0, 0) fallback)]
  exact .smul 0 (.own 0 fallback)

theorem Computable.sum {Index : Type*} (indices : Finset Index)
    {family : Index → Signature Scalar Party Message}
    (computable : ∀ index ∈ indices, Computable signed (family index)) (fallback : Message) :
    Computable signed (∑ index ∈ indices, family index) := by
  classical
  induction indices using Finset.induction_on with
  | empty => exact .zero fallback
  | insert index rest notMem ih =>
    rw [Finset.sum_insert notMem]
    refine .add (computable index (Finset.mem_insert_self ..)) (ih fun other mem => ?_)
    exact computable other (Finset.mem_insert_of_mem mem)

theorem computable_sign [Fintype Party] {key : Key Scalar Party}
    (involved : ∀ party, key.2 party ≠ 0 → signed message party) :
    Computable signed (sign key message) := by
  have shares : sign key message =
      sign (key.1, 0) message + ∑ party, key.2 party • sign (keyOf party) message := by
    funext other
    rw [Pi.add_apply, Finset.sum_apply]
    by_cases same : other = message
    · subst same
      simp only [Pi.smul_apply, sign_self, keyOf]
      refine Prod.ext ?_ ?_
      · simp [Prod.fst_sum]
      · funext party
        simp [Prod.snd_sum, Finset.sum_apply, Pi.single_apply]
    · simp [sign, same]
  rw [shares]
  refine .add (.own _ _) (Computable.sum _ (fun party _ => ?_) message)
  by_cases zero : key.2 party = 0
  · rw [zero, zero_smul]
    exact .zero message
  · exact .smul _ (.seen (involved party zero))

end Computable

end LinearSignatures
