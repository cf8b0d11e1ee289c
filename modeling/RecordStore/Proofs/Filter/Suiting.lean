import Mathlib.Tactic.Common
import RecordStore.Filter.Operator
import RecordStore.Proofs.Escaping
import RecordStore.Proofs.Filter.Wildcard

/-!
# What suits a pattern

A value that is asked for a pattern is turned into text, whatever its kind.  It suits the pattern if it is
there and its text can be cut for the pattern.  A value without a text has no answer.
-/

namespace RecordStore

namespace Value

/-- A value suits a pattern if it is there and its text can be cut for the pattern. -/
def Suits (pattern : String) (v : Value) : Prop :=
  v.isNull = false ∧ ∃ shown ∈ v.display?, Wildcard.Cuts pattern.toList shown.toList

instance (pattern : String) : DecidablePred (Suits pattern) :=
  fun _ => inferInstanceAs (Decidable (_ ∧ _))

variable {v operand : Value} {pattern shown : String}

/-- A value that is there and has a text suits the patterns for which the text is cut. -/
lemma suits_iff (hv : v.isNull = false) (hshown : v.display? = some shown) :
    v.Suits pattern ↔ Wildcard.isMatch pattern shown = true := by
  rw [Suits, and_iff_right hv, hshown, Wildcard.isMatch, Wildcard.headD_row_iff]
  simp

/-- A value that is not there has a text. -/
lemma isTold_of_isNull (hv : v.isNull = true) : v.IsTold := by
  cases v with
  | null => rfl
  | _ => cases hv

/-- A value is asked for a pattern by an operand that has the pattern for its text.  There is an answer if
the value has a text. -/
lemma holds_like (hoperand : operand.isNull = false) (hpattern : operand.display? = some pattern)
    (v : Value) : Operator.like.holds v operand =
      if v.IsTold then .ok (decide (v.Suits pattern)) else .error .longInteger := by
  have hholds : Operator.like.holds v operand =
      if v.isNull || operand.isNull then .ok false else Operator.isLike v operand := rfl
  rw [hholds, hoperand, Bool.or_false]
  cases hv : v.isNull with
  | true =>
    have hnone : ¬v.Suits pattern := fun hsuits => Bool.noConfusion (hv.symm.trans hsuits.1)
    rw [if_pos rfl, if_pos (isTold_of_isNull hv), decide_eq_false hnone]
  | false =>
    rw [if_neg Bool.false_ne_true, Operator.isLike, display, hpattern]
    by_cases htold : v.IsTold
    · obtain ⟨shown, hshown⟩ := Option.isSome_iff_exists.mp htold
      rw [if_pos htold, display, hshown]
      refine congrArg Except.ok ?_
      rw [Bool.eq_iff_iff, decide_eq_true_iff, suits_iff hv hshown]
    · rw [if_neg htold, display, Option.not_isSome_iff_eq_none.mp htold]
      rfl

end Value

end RecordStore
