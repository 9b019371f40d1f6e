import Typewright.Document.Graph

/-!
# Options of the compiler

What a user can choose about the compilation of a schema.
-/

namespace Typewright.Compile

/-- The options of a compilation.

* `declareReferenced`: schemas other than the root get declarations too, not only names.
* `constEnums`: an enumeration with names for its values is declared as one.
* `declareUnreachable`: every definition of the root is declared, reached or not.
* `strictIndexSignatures`: an index signature admits `undefined`.
* `ignoreBounds`: arrays are not spelled out by their least and greatest sizes.
* `banner`: the text above the declarations; `none` if what was given is no text. -/
structure Options where
  declareReferenced : Bool := true
  constEnums : Bool := true
  declareUnreachable : Bool := false
  strictIndexSignatures : Bool := false
  ignoreBounds : Bool := false
  banner : Option String := some ""
  deriving DecidableEq, Repr

/-- The truth of an option, or its default if it is not given. -/
def Options.flag (g : Graph) (given : Entries) (name : String) (default : Bool) : Bool :=
  match given.get? name with
  | some v => g.isTruthy v
  | none => default

/-- The banner among the given options. -/
def Options.givenBanner (g : Graph) (given : Entries) : Option String :=
  match given.get? "bannerComment" with
  | none => some ""
  | some (.scalar (.str text)) => some text
  | some v => if g.isTruthy v then none else some ""

/-- Reads options from a mapping; whatever else it holds counts for nothing. -/
def Options.ofEntries (g : Graph) (given : Entries) : Options where
  declareReferenced := flag g given "declareExternallyReferenced" true
  constEnums := flag g given "enableConstEnums" true
  declareUnreachable := flag g given "unreachableDefinitions" false
  strictIndexSignatures := flag g given "strictIndexSignatures" false
  ignoreBounds := flag g given "ignoreMinAndMaxItems" false
  banner := givenBanner g given

end Typewright.Compile
