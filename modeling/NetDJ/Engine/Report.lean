import NetDJ.Text

/-!
# `StdException.cpp`, `LogService.h`: what the engine reports

* `StdException`, `Failure` : exceptions, and calls without a defined result;
* `EntryClass` : the classes of log entries.
-/

namespace NetDJ.Engine

/-! ## Exceptions -/

/-- `StdException` and its subclasses, with `mDescription`. -/
inductive StdException where
  | std (mDescription : Str)
  | emptyCollection (mDescription : Str)
  | shoutException (mDescription : Str)
  deriving DecidableEq

namespace StdException

def what : StdException → Str
  | std d | emptyCollection d | shoutException d => d

def getType : StdException → Str
  | std _ => "StdException".toList
  | emptyCollection _ => "EmptyCollection".toList
  | shoutException _ => "ShoutException".toList

end StdException

/-- Why a call of the engine does not come back with a value. -/
inductive Failure where
  | thrown (e : StdException)
  /-- An index outside a `deque`. -/
  | undefined
  deriving DecidableEq

/-! ## Log entries -/

inductive EntryClass where
  | crit | warn | info
  deriving DecidableEq

end NetDJ.Engine
