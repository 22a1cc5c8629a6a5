import AppAssembly.Text.CaseTable

/-!
# Lower case

Lower-casing of whole texts by the Unicode rules. Two characters need more than the table: a
capital sigma at the end of a word becomes the final form, and a dotted capital I becomes two
characters. Block names and handler names are compared after lower-casing.
-/

namespace AppAssembly.Text

/-- Whether a code point lies in one of the ranges. -/
def inRanges (ranges : List (Nat × Nat)) (n : Nat) : Bool :=
  ranges.any fun range => range.1 ≤ n && n ≤ range.2

/-- The lower-case form of a single character, the character itself if it has none. -/
def lowerChar (c : Char) : Char :=
  if c.toNat < 0x80 then c.toLower
  else
    match CaseTable.lowering.find? fun (first, last, step, _) =>
        first ≤ c.toNat && c.toNat ≤ last && (c.toNat - first) % step == 0 with
    | some (_, _, _, offset) => Char.ofNat (c.toNat + offset).toNat
    | none => c

/-- Whether the first character that case rules do not skip is a cased one. -/
def leadsToCased (cs : List Char) : Bool :=
  match cs.dropWhile fun c => inRanges CaseTable.ignorable c.toNat with
  | c :: _ => inRanges CaseTable.cased c.toNat
  | [] => false

/-- Lower-cases the characters; `before` holds those already passed, nearest first. -/
def lowerChars (before : List Char) : List Char → List Char
  | [] => []
  | c :: cs =>
      let lowered :=
        if c = 'Σ' then [if leadsToCased before && !leadsToCased cs then 'ς' else 'σ']
        else if c = 'İ' then ['i', Char.ofNat 0x307]
        else [lowerChar c]
      lowered ++ lowerChars (c :: before) cs

def lowercase (s : String) : String :=
  String.ofList (lowerChars [] s.toList)

end AppAssembly.Text
