import OriginTags.Hook
import OriginTags.Log
/-!
# Traced computations

A computation with what happened on its way: the records it logged and the hooks it called.
-/

namespace OriginTags

/-- Something that happened during a computation. -/
inductive Event
  | log (record : LogRecord)
  | call (call : HookCall)

/-- The record of an event, if it is one. -/
def Event.record? : Event → Option LogRecord
  | .log record => some record
  | .call _ => none

/-- The call of an event, if it is one. -/
def Event.call? : Event → Option HookCall
  | .log _ => none
  | .call hookCall => some hookCall

/-- A value and what happened until it was there. -/
structure Traced (α : Type) where
  value : α
  events : List Event := []

namespace Traced

variable {α β : Type}

/-- One computation after another. -/
protected def bind (x : Traced α) (f : α → Traced β) : Traced β :=
  let y := f x.value
  ⟨y.value, x.events ++ y.events⟩

instance : Monad Traced where
  pure a := ⟨a, []⟩
  bind := Traced.bind

@[simp] theorem value_pure (a : α) : (pure a : Traced α).value = a := rfl

@[simp] theorem value_bind (x : Traced α) (f : α → Traced β) :
    (x >>= f).value = (f x.value).value := rfl

def records (x : Traced α) : List LogRecord := x.events.filterMap Event.record?

def calls (x : Traced α) : List HookCall := x.events.filterMap Event.call?

end Traced

def log (level : LogLevel) (fields : List (String × String)) (message : String) : Traced Unit :=
  ⟨(), [.log { level, message, fields }]⟩

def warn (fields : List (String × String)) (message : String) : Traced Unit :=
  log .warn fields message

/-- Calls a hook on an argument, perhaps for an element. -/
def invoke {α β : Type} (call : HookCall) (hook : Hook α β) (argument : α)
    (element : Option ElementContext := none) : Traced (Except HookFailure β) :=
  ⟨(hook argument).reply element, [.call call]⟩

@[simp] theorem value_invoke {α β : Type} (call : HookCall) (hook : Hook α β) (argument : α)
    (element : Option ElementContext) :
    (invoke call hook argument element).value = (hook argument).reply element := rfl

end OriginTags
