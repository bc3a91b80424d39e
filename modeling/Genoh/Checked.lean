/-!
# Checked computations

Code as a computation that stops at its first fault, over any kind of faults. A computation that
returns a value has met none.
-/
namespace Genoh

abbrev Checked (Fault α : Type) := Except Fault α

namespace Checked

variable {Fault α β : Type}

@[simp] theorem ok_bind (a : α) (f : α → Checked Fault β) :
    (Except.ok a >>= f : Checked Fault β) = f a := rfl

@[simp] theorem error_bind (fault : Fault) (f : α → Checked Fault β) :
    (Except.error fault >>= f : Checked Fault β) = .error fault := rfl

@[simp] theorem pure_eq_ok (a : α) : (pure a : Checked Fault α) = .ok a := rfl

end Checked

end Genoh
