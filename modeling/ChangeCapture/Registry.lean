import ChangeCapture.Dictionary
import ChangeCapture.Text.Debug

/-!
# Connector registry

The connectors that a host knows how to build, by class name. Registering a class again replaces its
factory.

## Main definitions

* `Registry`, `Registry.register`, `Registry.create?`, `Registry.classes`.
-/

namespace ChangeCapture

/-- The factories of connectors, in the order of their class names. -/
structure Registry (φ : Type) where
  factories : Dictionary String φ
  deriving DecidableEq, Repr

namespace Registry

variable {φ : Type}

/-- The registry of no connector. -/
def empty : Registry φ := ⟨[]⟩

/-- Puts a factory under a class, in place of any earlier one. -/
def register (r : Registry φ) (className : String) (factory : φ) : Registry φ :=
  ⟨Dictionary.put className factory r.factories⟩

/-- The factory of a class. -/
def create? (r : Registry φ) (className : String) : Option φ :=
  Dictionary.get? className r.factories

/-- Whether a class is registered. -/
def contains (r : Registry φ) (className : String) : Bool :=
  Dictionary.contains className r.factories

/-- The registered classes, sorted. -/
def classes (r : Registry φ) : List String :=
  Dictionary.keys r.factories

/-- A description that lists the classes, quoted. -/
def describe (r : Registry φ) : String :=
  "ConnectorRegistry \x7b classes: [" ++ ", ".intercalate (r.classes.map Debug.quote) ++ "] \x7d"

/-- A registered class has its own factory; every other class keeps what it had. -/
theorem create?_register (r : Registry φ) (c c' : String) (f : φ) :
    (r.register c f).create? c' = if c' = c then some f else r.create? c' :=
  Dictionary.get?_put c c' f r.factories

end Registry

end ChangeCapture
