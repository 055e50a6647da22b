import CallGuard.Value

/-!
# Conversion to values

Host data that a caller can hand over as a value: integers of both widths, texts, truth
values, floats, and lists and optional ones of what converts.
-/

namespace CallGuard

/-- Data that has a value. -/
class ToValue (α : Type) where
  toValue : α → Value

export ToValue (toValue)

instance : ToValue Value := ⟨id⟩

instance : ToValue Unit := ⟨fun _ => .null⟩

instance : ToValue Bool := ⟨.bool⟩

instance : ToValue Int64 := ⟨.int⟩

instance : ToValue Int32 := ⟨fun i => .int i.toInt64⟩

instance : ToValue Binary64 := ⟨.float⟩

instance : ToValue String := ⟨.str⟩

instance {α : Type} [ToValue α] : ToValue (List α) := ⟨fun items => .list (items.map toValue)⟩

/-- What is absent is null. -/
instance {α : Type} [ToValue α] : ToValue (Option α) := ⟨fun item => (item.map toValue).getD .null⟩

end CallGuard
