import AppAssembly.Factory.Keywords

/-!
# The workshop

Where things are built. Its bench hands out a new tag to every object that is made and keeps the
journal native code writes into; the workshop also remembers which work was done on behalf of an
application's life cycle. How a recipe is made is left open: a builder gets the bound keyword
arguments and the bench, and nothing else of the application.
-/

namespace AppAssembly

/-- What the life cycle does: it begins and ends steps, and a step sets native code to work. -/
inductive Deed where
  | enter (step : Step)
  /-- A step has done all its work. -/
  | finish (step : Step)
  /-- A step gave up, after it had begun. -/
  | abort (step : Step)
  /-- The factory of a custom object or of a component was called. -/
  | build (name : String)
  | check (identity : String)
  | install (identity : String)
  | run
deriving DecidableEq, Repr

/-- What a build finds and leaves behind. -/
structure Bench where
  /-- How many objects were made. -/
  made : Nat := 0
  /-- The lines written by native code, oldest first. -/
  journal : List String := []
deriving DecidableEq, Repr

namespace Bench

/-- A tag that no object has yet. -/
def newTag (b : Bench) : Tag × Bench :=
  (.built b.made, { b with made := b.made + 1 })

def write (b : Bench) (line : String) : Bench :=
  { b with journal := b.journal ++ [line] }

end Bench

/-- What building and running leave behind. -/
structure Workshop extends Bench where
  /-- What the life cycle did, oldest first. -/
  deeds : List Deed := []
deriving DecidableEq, Repr

namespace Workshop

def newTag (w : Workshop) : Tag × Workshop :=
  let (tag, bench) := w.toBench.newTag
  (tag, { w with toBench := bench })

def write (w : Workshop) (line : String) : Workshop :=
  { w with toBench := w.toBench.write line }

def note (w : Workshop) (deed : Deed) : Workshop :=
  { w with deeds := w.deeds ++ [deed] }

end Workshop

/-- Why a factory made nothing. -/
inductive BuildFault where
  | arguments (e : ArgumentError)
  /-- The recipe gave up. -/
  | failed (message : String)
deriving DecidableEq, Repr

def BuildFault.message : BuildFault → String
  | arguments e => e.message
  | failed message => message

/-- How recipes are made: with bound keyword arguments, at a bench. The recipe gives a value or
gives up with a message. -/
abbrev Builder := Recipe → Kwargs → Bench → Except String Value × Bench

/-- Makes a recipe at the bench of a workshop. -/
def Builder.build (make : Builder) (recipe : Recipe) (bound : Kwargs) (w : Workshop) :
    Except BuildFault Value × Workshop :=
  let (made, bench) := make recipe bound w.toBench
  (made.mapError .failed, { w with toBench := bench })

/-- What a recipe makes of bound keyword arguments. -/
def Recipe.make : Builder
  | constant v, _, b => (.ok v, b)
  | kwarg name, bound, b => (.ok ((bound.get? name).getD .null), b)
  | kwargs, bound, b => (.ok (.list (bound.map fun (key, v) => .list [.str key, v])), b)
  | object typeName attrs methods, bound, b =>
      let (tag, b) := b.newTag
      (.ok (.object ⟨tag, typeName, Entries.overlay attrs bound, methods⟩), b)
  | fail message, _, b => (.error message, b)
  | log line next, bound, b => make next bound (b.write line)
  | switch name next, bound, b =>
      let on := ((bound.get? name).bind Value.bool?).getD true
      make next (bound.insert name (.bool on)) b

/-- Calls a factory: its recipe is made exactly if the keyword arguments can be bound. -/
def Factory.construct (f : Factory) (kwargs : Kwargs) (make : Builder := Recipe.make)
    (w : Workshop) : Except BuildFault Value × Workshop :=
  match f.bind kwargs with
  | .ok bound => make.build f.recipe bound w
  | .error e => (.error (.arguments e), w)

end AppAssembly
