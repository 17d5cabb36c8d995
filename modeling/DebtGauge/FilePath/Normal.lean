import DebtGauge.FilePath.Basic

/-!
# The lexical normal form of a path

A path is normalised without a look at the file system: `.` disappears, `..` takes the
name before it away, stays where there is no name to take, and has no effect at the root.

Main definitions:

* `FilePath.fold` — one more component behind a normal list of components;
* `FilePath.normalize` — the normal form of a path;
* `FilePath.resolve` — a module specifier seen from a directory, in normal form.
-/

namespace DebtGauge.FilePath

/-- One more component behind those already folded, which are held last first. -/
def fold : List Component → Component → List Component
  | done, .current => done
  | .name _ :: done, .parent => done
  | .root :: done, .parent => .root :: done
  | done, .parent => .parent :: done
  | done, component => component :: done

/-- The components of a path's normal form. -/
def normalComponents (path : FilePath) : List Component :=
  (path.components.foldl fold []).reverse

/-- The normal form of a path. -/
def normalize (path : FilePath) : FilePath :=
  ofComponents path.normalComponents

/-- A module specifier seen from a directory, in normal form. -/
def resolve (directory : FilePath) (specifier : String) : FilePath :=
  (directory.join ⟨specifier⟩).normalize

/-- Specifiers that name a file start with a dot; the others name packages. -/
def isRelativeSpecifier (specifier : String) : Bool :=
  specifier.toList.head? = some '.'

end DebtGauge.FilePath
