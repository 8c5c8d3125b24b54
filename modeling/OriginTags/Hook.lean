import OriginTags.Tagging.Context
import OriginTags.Tagging.Statistics
/-!
# Hooks

Functions that a user supplies. Every one of them may fail, and whoever calls it has something to
fall back on.
-/

namespace OriginTags

/-- How a hook fails: it says why, or it breaks off, perhaps with a message. -/
inductive HookFailure
  | rejected (message : String)
  | crashed (payload : Option String)
deriving DecidableEq, Repr

/-- The failure in words. -/
def HookFailure.message : HookFailure → String
  | .rejected message => message
  | .crashed payload => "callback panicked: " ++ payload.getD "unknown panic payload"

/-- What a user's function answers. It may answer otherwise every time, so its answer depends on the
element that it is called for, if any: while a file is tagged, no two calls with one argument are made
for the same element. -/
structure Answer (β : Type) where
  reply : Option ElementContext → Except HookFailure β

namespace Answer

variable {β : Type}

/-- The same answer for every element. -/
def ok (b : β) : Answer β := ⟨fun _ => .ok b⟩

/-- The same failure for every element. -/
def error (failure : HookFailure) : Answer β := ⟨fun _ => .error failure⟩

@[simp] theorem reply_ok (b : β) (element : Option ElementContext) : (ok b).reply element = .ok b :=
  rfl

@[simp] theorem reply_error (failure : HookFailure) (element : Option ElementContext) :
    (error failure : Answer β).reply element = .error failure := rfl

end Answer

abbrev Hook (α β : Type) := α → Answer β

/-- Decides whether an eligible element is tagged. -/
abbrev TagPredicate := Hook ElementContext Bool

/-- Changes the value of an attribute; only a string counts as a new value. -/
abbrev Transformer := Hook String Json

/-- Supplies further attributes of an element, in order. -/
abbrev AttributeProvider := Hook ElementContext (List (String × Json))

abbrev FileHook := Hook FileReport Unit

abbrev RunHook := Hook Statistics Unit

inductive HookCall
  | transformer (key value : String)
  | shouldTag (context : ElementContext)
  | customAttributes (context : ElementContext)
  | onTransform (report : FileReport)
  | onComplete (statistics : Statistics)

end OriginTags
