import OmniStack.Lib.Checked

/-! The errors a module, an adapter or the worker returns. -/
namespace OmniStack

/-- `Error`. `nop` and `dropped` only report what happened: nothing was polled, the
packet went no further. -/
inductive Error where
  | nop
  | dropped
  | memoryError
  | unknown
  | serviceError
  | ioError
  | jsonParseError
  deriving DecidableEq, Repr

abbrev Result (α : Type) := Except Error α

end OmniStack
