/-!
# Methods under a lock

An object with a lock that its holder cannot take again, and the methods that threads call
on it. A method returns, raises, or waits for the lock; what waits for a lock of its own
thread waits forever.
-/
namespace Genoh.Monitor

/-- An object, and the thread that holds its lock. -/
structure Object (Thread State : Type) where
  holder : Option Thread
  state : State
  deriving DecidableEq, Repr

inductive Ending (Error α : Type) where
  | returned (value : α)
  | raised (error : Error)
  | waits
  | selfDeadlock
  deriving DecidableEq, Repr

/-- A method in a thread: how it ends, the calls it makes to other objects, and the object
afterwards. -/
def Method (Thread State Call Error α : Type) : Type :=
  Thread → Object Thread State → Ending Error α × List Call × Object Thread State

variable {Thread State Call Error α β : Type}

namespace Method

def run (method : Method Thread State Call Error α) (t : Thread) (m : Object Thread State) :
    Ending Error α × List Call × Object Thread State := method t m

/-- The rest of a method after a part of it has ended. -/
def continueWith (f : α → Method Thread State Call Error β) (t : Thread) :
    Ending Error α × List Call × Object Thread State →
      Ending Error β × List Call × Object Thread State
  | (.returned value, calls, m) =>
    let (ending, more, m) := (f value).run t m
    (ending, calls ++ more, m)
  | (.raised error, calls, m) => (.raised error, calls, m)
  | (.waits, calls, m) => (.waits, calls, m)
  | (.selfDeadlock, calls, m) => (.selfDeadlock, calls, m)

instance : Monad (Method Thread State Call Error) where
  pure value := fun _ m => (.returned value, [], m)
  bind method f := fun t m => continueWith f t (method.run t m)

def get : Method Thread State Call Error State := fun _ m => (.returned m.state, [], m)

def set (state : State) : Method Thread State Call Error Unit :=
  fun _ m => (.returned (), [], { m with state := state })

/-- Calls to other objects, none of which comes back to this one. -/
def emit (calls : List Call) : Method Thread State Call Error Unit :=
  fun _ m => (.returned (), calls, m)

def raise (error : Error) : Method Thread State Call Error α := fun _ m => (.raised error, [], m)

/-- Waiting for a lock that the own thread holds. -/
def stuck : Method Thread State Call Error α := fun _ m => (.selfDeadlock, [], m)

/-- The end of a method body under the lock. It gives the lock back if it gets there. -/
def release : Ending Error α × List Call × Object Thread State →
    Ending Error α × List Call × Object Thread State
  | (.returned value, calls, m) => (.returned value, calls, { m with holder := none })
  | (.raised error, calls, m) => (.raised error, calls, { m with holder := none })
  | unfinished => unfinished

/-- A method body under the lock. -/
def locked [DecidableEq Thread] (body : Method Thread State Call Error α) :
    Method Thread State Call Error α := fun t m =>
  match m.holder with
  | none => release (body.run t { m with holder := some t })
  | some holder => if holder = t then (.selfDeadlock, [], m) else (.waits, [], m)

section Rules

variable (t : Thread) (m : Object Thread State)

@[simp] theorem run_pure (value : α) :
    (pure value : Method Thread State Call Error α).run t m = (.returned value, [], m) := rfl

@[simp] theorem run_bind (method : Method Thread State Call Error α)
    (f : α → Method Thread State Call Error β) :
    (method >>= f).run t m = continueWith f t (method.run t m) := rfl

@[simp] theorem run_get : (get : Method Thread State Call Error State).run t m =
    (.returned m.state, [], m) := rfl

@[simp] theorem run_set (state : State) :
    (set state : Method Thread State Call Error Unit).run t m =
      (.returned (), [], { m with state := state }) := rfl

@[simp] theorem run_emit (calls : List Call) :
    (emit calls : Method Thread State Call Error Unit).run t m = (.returned (), calls, m) := rfl

@[simp] theorem run_raise (error : Error) :
    (raise error : Method Thread State Call Error α).run t m = (.raised error, [], m) := rfl

@[simp] theorem run_stuck :
    (stuck : Method Thread State Call Error α).run t m = (.selfDeadlock, [], m) := rfl

variable [DecidableEq Thread]

/-- A free lock is taken. -/
@[simp] theorem run_locked_free (body : Method Thread State Call Error α) (state : State) :
    (locked body).run t ⟨none, state⟩ = release (body.run t ⟨some t, state⟩) := rfl

/-- A lock that is held is waited for: forever, if the own thread holds it. -/
@[simp] theorem run_locked_held (body : Method Thread State Call Error α) (holder : Thread)
    (state : State) : (locked body).run t ⟨some holder, state⟩ =
      (if holder = t then .selfDeadlock else .waits, [], ⟨some holder, state⟩) := by
  simp only [run, locked]
  split <;> rfl

end Rules

end Method

end Genoh.Monitor
