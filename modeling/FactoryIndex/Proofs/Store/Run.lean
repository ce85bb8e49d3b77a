import FactoryIndex.Store.Timed

/-!
# Runs of a store

An `Operation` is a call of one operation of a store together with its arguments, and `perform` makes that
call. The states a store can be in are those that calls lead to from a new store. Each call is made at a
moment of its own, and nothing relates one moment to the next: the clocks may go forward or backward by any
amount in between. A call that fails is a step like any other, since what it has done until then stays done.
-/

namespace FactoryIndex

/-- A moment at which both clocks can be read. -/
structure Moment where
  clock : Clock
  measures : clock.measures = true
  tellsDay : clock.tellsDay = true

namespace Store

inductive Operation where
  | upsertFactory (factory : Factory)
  | upsertTrait (t : Trait)
  | addFactory (factory : Factory)
  | addTrait (t : Trait)
  | findFactory (name : String)
  | findTrait (factory name : String)
  | removeFactory (name : String)
  | removeFile (file : RawText)
  | replaceFile (file : RawText) (factories : List Factory) (traits : List Trait) (modified : Option Int)
  | shouldReindex (file : RawText) (modified : Int)
  | cleanup
  | clear
  | setTtl (ttl : Value)
  | setInitialized (initialized : Bool)

inductive Answer where
  | nothing
  | factory (found : Option Factory)
  | trait (found : Option Trait)
  | flag (value : Bool)
  | count (number : Nat)

/-- An outcome with the answer that its value stands for. -/
def answering {α : Type} (answer : α → Answer) (result : Store × Except Failure α) :
    Store × Except Failure Answer :=
  (result.1, result.2.map answer)

def perform (clock : Clock) (store : Store) : Operation → Store × Except Failure Answer
  | .upsertFactory factory => answering (fun _ => .nothing) (Timed.upsertFactory clock store factory)
  | .upsertTrait t => answering (fun _ => .nothing) (Timed.upsertTrait clock store t)
  | .addFactory factory => answering .flag (Timed.addFactory clock store factory)
  | .addTrait t => answering .flag (Timed.addTrait clock store t)
  | .findFactory name => answering .factory (Timed.findFactory clock store name)
  | .findTrait factory name => answering .trait (Timed.findTrait clock store factory name)
  | .removeFactory name => (store.removeFactory name, .ok .nothing)
  | .removeFile file => (store.removeFile file, .ok .nothing)
  | .replaceFile file factories traits modified =>
      answering (fun _ => .nothing) (Timed.replaceFile clock store file factories traits modified)
  | .shouldReindex file modified => (store, .ok (.flag (store.shouldReindex file modified)))
  | .cleanup => answering .count (Timed.cleanup clock store)
  | .clear => (store.clear, .ok .nothing)
  | .setTtl ttl => answering (fun _ => .nothing) (store.setTtl ttl)
  | .setInitialized initialized => (store.setInitialized initialized, .ok .nothing)

/-- The states that calls lead to from a new store. -/
inductive Reachable : Store → Prop
  | start {ttl : Value} {store : Store} (hcreate : create ttl = .ok store) : Reachable store
  | step {store : Store} (moment : Moment) (operation : Operation) (hstore : Reachable store) :
      Reachable (store.perform moment.clock operation).1

end Store

end FactoryIndex
