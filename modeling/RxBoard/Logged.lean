import RxBoard.Event

/-!
Results with the events that led to them.

Operations in sequence report their events in sequence: `value_bind` and
`events_bind` say what a sequence returns and what it reports, so a statement
about a result never has to look at the events, nor the other way round.
-/

namespace RxBoard

/-- A result and the events reported on the way to it, oldest first. -/
structure Logged (α : Type) where
  value : α
  events : List Event
  deriving DecidableEq

namespace Logged

variable {α β : Type}

def report (event : Event) : Logged Unit :=
  ⟨(), [event]⟩

instance : Monad Logged where
  pure result := ⟨result, []⟩
  bind first next :=
    let second := next first.value
    ⟨second.value, first.events ++ second.events⟩

def forEach (items : List α) (operation : α → Logged β) :
    Logged (List β) :=
  ⟨items.map fun item => (operation item).value,
    items.flatMap fun item => (operation item).events⟩

@[simp] theorem value_pure (result : α) :
    (pure result : Logged α).value = result := rfl

@[simp] theorem events_pure (result : α) :
    (pure result : Logged α).events = [] := rfl

@[simp] theorem value_bind (first : Logged α) (next : α → Logged β) :
    (first >>= next).value = (next first.value).value := rfl

@[simp] theorem events_bind (first : Logged α) (next : α → Logged β) :
    (first >>= next).events =
      first.events ++ (next first.value).events := rfl

@[simp] theorem value_map (result : α → β) (first : Logged α) :
    (result <$> first).value = result first.value := rfl

@[simp] theorem events_map (result : α → β) (first : Logged α) :
    (result <$> first).events = first.events := by
  change first.events ++ [] = first.events
  exact List.append_nil first.events

@[simp] theorem value_report (event : Event) :
    (report event).value = () := rfl

@[simp] theorem events_report (event : Event) :
    (report event).events = [event] := rfl

@[simp] theorem value_forEach (items : List α)
    (operation : α → Logged β) :
    (forEach items operation).value =
      items.map fun item => (operation item).value := rfl

@[simp] theorem events_forEach (items : List α)
    (operation : α → Logged β) :
    (forEach items operation).events =
      items.flatMap fun item => (operation item).events := rfl

end Logged

end RxBoard
