/-!
# Tables of code points

Properties of characters come as sorted runs of code points. This module holds the two shapes of
such tables, a set (`CharSet`) and a map (`CharMap`), the compact text in which they are
written down, and look-up by binary search.

A set is written as hexadecimal numbers and ranges, `41-5a 5f 61-7a`. A map is written as runs with
their images: `c0-d6>e0` sends the run to the run that begins at `e0`, `100~12e>101` does the same
for every second code point, `bd>31.2044.32` sends one code point to three, and `300-34e>` sends a
run to nothing.
-/

namespace Typewright.Text

/-- The value of a hexadecimal digit; every other character counts as zero. -/
def hexDigitValue (c : Char) : Nat :=
  if '0' ≤ c ∧ c ≤ '9' then c.toNat - '0'.toNat
  else if 'a' ≤ c ∧ c ≤ 'f' then c.toNat - 'a'.toNat + 10
  else if 'A' ≤ c ∧ c ≤ 'F' then c.toNat - 'A'.toNat + 10
  else 0

/-- The value of a hexadecimal numeral, most significant digit first. -/
def hexValue (digits : List Char) : Nat :=
  digits.foldl (fun value digit => 16 * value + hexDigitValue digit) 0

/-- The pieces of a text between the occurrences of a separator; always at least one. -/
def splitAtChar (separator : Char) : List Char → List (List Char)
  | [] => [[]]
  | c :: rest =>
    if c = separator then [] :: splitAtChar separator rest
    else match splitAtChar separator rest with
      | piece :: pieces => (c :: piece) :: pieces
      | [] => [[c]]

/-- The words of a text, which stand between spaces and line feeds. -/
def words (text : List Char) : List (List Char) :=
  (splitAtChar ' ' (text.map fun c => if c = '\n' then ' ' else c)).filter (!·.isEmpty)

/-- A run of code points: its first and last member and the distance between neighbours. -/
structure Run where
  first : Nat
  last : Nat
  step : Nat := 1
  deriving Inhabited

/-- Membership in a run. -/
def Run.contains (run : Run) (code : Nat) : Bool :=
  run.first ≤ code && code ≤ run.last && (code - run.first) % run.step == 0

/-- Reads `first`, `first-last` or `first~last`. -/
def Run.ofText (text : List Char) : Run :=
  match splitAtChar '-' text with
  | [first, last] => ⟨hexValue first, hexValue last, 1⟩
  | _ => match splitAtChar '~' text with
    | [first, last] => ⟨hexValue first, hexValue last, 2⟩
    | _ => ⟨hexValue text, hexValue text, 1⟩

/-- The index of the last run that starts at or before a code point, searched between two
indexes of a table sorted by first members. -/
def lastStart (start : Nat → Nat) (code low high : Nat) : Nat :=
  if low + 1 < high then
    let middle := (low + high) / 2
    if start middle ≤ code then lastStart start code middle high
    else lastStart start code low middle
  else low
termination_by high - low
decreasing_by all_goals omega

/-- A set of code points: sorted, disjoint runs. -/
structure CharSet where
  runs : Array Run

/-- Reads a set from its compact text. -/
def CharSet.ofText (text : String) : CharSet :=
  ⟨((words text.toList).map Run.ofText).toArray⟩

/-- Membership, by binary search. -/
def CharSet.contains (set : CharSet) (c : Char) : Bool :=
  let run (index : Nat) : Run := set.runs.getD index ⟨0, 0, 1⟩
  (run (lastStart (fun index => (run index).first) c.toNat 0 set.runs.size)).contains c.toNat

/-- A run of code points with the image of its first member. A one-point image moves along with
the run; any other image is the same for the whole run. -/
structure Mapping where
  source : Run
  image : List Nat
  deriving Inhabited

/-- Reads `run>image`, the image being code points with full stops between them. -/
def Mapping.ofText (text : List Char) : Mapping :=
  match splitAtChar '>' text with
  | [source, []] => ⟨Run.ofText source, []⟩
  | [source, image] => ⟨Run.ofText source, (splitAtChar '.' image).map hexValue⟩
  | _ => ⟨Run.ofText text, []⟩

/-- The image of a member of the run. -/
def Mapping.apply (mapping : Mapping) (code : Nat) : List Char :=
  match mapping.image with
  | [target] => [Char.ofNat (target + (code - mapping.source.first))]
  | image => image.map Char.ofNat

/-- A map from code points to texts that leaves most of them alone. -/
structure CharMap where
  mappings : Array Mapping

/-- Reads a map from its compact text. -/
def CharMap.ofText (text : String) : CharMap :=
  ⟨((words text.toList).map Mapping.ofText).toArray⟩

/-- The image of a character, the character itself where the map says nothing. -/
def CharMap.apply (map : CharMap) (c : Char) : List Char :=
  let entry (index : Nat) : Mapping := map.mappings.getD index ⟨⟨0, 0, 1⟩, []⟩
  let mapping :=
    entry (lastStart (fun index => (entry index).source.first) c.toNat 0 map.mappings.size)
  if mapping.source.contains c.toNat then mapping.apply c.toNat else [c]

end Typewright.Text
