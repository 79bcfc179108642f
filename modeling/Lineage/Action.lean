namespace Lineage

/-- What a walk does after a visitor has answered: the program's `Action`. -/
inductive Action where
  | proceed
  | skip
  | exit
  deriving DecidableEq, Repr

namespace Action

/-- The word that stands for the action. It is also equal to the action
    wherever values are compared. -/
def text : Action → String
  | proceed => "continue"
  | skip => "skip"
  | exit => "exit"

/-- The name of the action among its fellows. -/
def name : Action → String
  | proceed => "CONTINUE"
  | skip => "SKIP"
  | exit => "EXIT"

/-- The action that a word stands for. -/
def ofText? : String → Option Action
  | "continue" => some proceed
  | "skip" => some skip
  | "exit" => some exit
  | _ => none

/-- Every action is read back from its word. -/
theorem ofText?_text (action : Action) : ofText? action.text = some action := by
  cases action <;> rfl

/-- The action in running text. -/
def label (action : Action) : String :=
  "Action." ++ action.name

/-- The action inside a compound value. -/
def shown (action : Action) : String :=
  "<" ++ action.label ++ ": '" ++ action.text ++ "'>"

end Action

end Lineage
