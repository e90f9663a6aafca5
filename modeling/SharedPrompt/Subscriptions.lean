/-!
# Subscriptions to the idle notification

Subscribers are told of an idle moment in the order in which they subscribed. The engine may tear
all subscriptions down; those that still live subscribe again at once.
-/

namespace SharedPrompt

/-- Subscribers by name, in order. -/
structure Subscriptions where
  subscribers : List Nat := []
  deriving Repr, DecidableEq, Inhabited

namespace Subscriptions

def subscribe (s : Subscriptions) (slot : Nat) : Subscriptions := ⟨s.subscribers ++ [slot]⟩

def count (s : Subscriptions) : Nat := s.subscribers.length

/-- Ends every subscription. Each subscriber that lives asks again, and is heard if the engine
takes subscriptions; the others that asked are the second part. -/
def teardown (s : Subscriptions) (lives : Nat → Bool) (accepts : Bool) : Subscriptions × List Nat :=
  let again := s.subscribers.filter lives
  if accepts then (⟨again⟩, []) else (⟨[]⟩, again)

end Subscriptions

end SharedPrompt
