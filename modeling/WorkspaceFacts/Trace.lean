import WorkspaceFacts.Manifest

/-!
# Work that leaves a trace

Gathering the facts about a workspace tells what it does by **events**, which a log may
show. `WorkspaceFacts.Traced α` is work that ends in an `α` or in an error, together with
the events up to there: an error keeps the events before it, and nothing comes after it.
-/

namespace WorkspaceFacts

/-- The importance of an event, from what must be told to what is hardly ever told. -/
inductive Level
  | error
  | warn
  | info
  | debug
  | trace
  deriving DecidableEq

/-- What is told while the facts are gathered. -/
inductive Event
  /-- The work on a workspace begins. -/
  | collecting (root : Path)
  /-- The bytes of a manifest have been read. -/
  | readManifest (path : Path) (size : Nat)
  /-- The version of a package is that of the workspace. -/
  | inheritedVersion (path : Path)
  /-- A rule is set to the level that disables it. -/
  | lintDisabled (group rule : String)
  /-- A rule is set to another level, or to no level at all. -/
  | lintKept (group rule : String) (level : Option String)
  deriving DecidableEq

/-- Work that ends in a result or an error, with the events up to there. -/
structure Traced (α : Type) where
  events : List Event
  outcome : Except ManifestError α

namespace Traced

variable {α β : Type}

/-- A result or an error that comes without events. -/
def of (outcome : Except ManifestError α) : Traced α := ⟨[], outcome⟩

/-- An event. -/
def tell (event : Event) : Traced Unit := ⟨[event], .ok ()⟩

/-- Goes on with the result of some work, if there is one. -/
def bind (work : Traced α) (next : α → Traced β) : Traced β :=
  match work.outcome with
  | .ok a => ⟨work.events ++ (next a).events, (next a).outcome⟩
  | .error e => ⟨work.events, .error e⟩

instance : Monad Traced where
  pure a := .of (.ok a)
  bind := .bind

/-- Work on each item of a list, in order. -/
def each (work : α → Traced β) : List α → Traced (List β)
  | [] => pure []
  | a :: rest => do
    let b ← work a
    let bs ← each work rest
    pure (b :: bs)

end Traced

end WorkspaceFacts
