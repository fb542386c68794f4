/-! # What a poll finds

A poll that succeeds finds nothing or one payload.  This is an option by another name
(`toOption_ofOption`, `ofOption_toOption`). -/

namespace Polling

/-- What a poll that succeeds finds. -/
inductive Polled (α : Type) where
  | empty
  | payload (a : α)
deriving DecidableEq

namespace Polled

variable {α : Type}

/-- Whether there is a payload. -/
def isPayload : Polled α → Bool
  | empty => false
  | payload _ => true

/-- The payload, if there is one. -/
def toOption : Polled α → Option α
  | empty => none
  | payload a => some a

/-- A payload, or nothing. -/
def ofOption : Option α → Polled α
  | none => empty
  | some a => payload a

@[simp] theorem toOption_ofOption (o : Option α) : (ofOption o).toOption = o := by
  cases o <;> rfl

@[simp] theorem ofOption_toOption (p : Polled α) : ofOption p.toOption = p := by
  cases p <;> rfl

end Polled

end Polling
