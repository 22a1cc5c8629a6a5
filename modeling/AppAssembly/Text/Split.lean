/-!
# Splitting texts

A text is split at every occurrence of a character, or at the last one. Nothing is lost: joining
the pieces with the character gives the text back.
-/

namespace AppAssembly.Text

/-- The pieces between the occurrences of `sep`; there is always at least one. -/
def splitAt (sep : Char) : List Char → List Char × List (List Char)
  | [] => ([], [])
  | c :: cs =>
      let (first, rest) := splitAt sep cs
      if c = sep then ([], first :: rest) else (c :: first, rest)

/-- A text without the character is its only piece. -/
theorem splitAt_of_not_mem {sep : Char} {cs : List Char} (h : sep ∉ cs) :
    splitAt sep cs = (cs, []) := by
  induction cs with
  | nil => rfl
  | cons c cs ih =>
      have hc : c ≠ sep := fun heq => h (heq ▸ List.mem_cons_self)
      have hcs : sep ∉ cs := fun hmem => h (List.mem_cons_of_mem c hmem)
      simp only [splitAt, ih hcs, hc, if_false]

/-- What stands in front of an occurrence of the character comes first, if it lacks the
character. -/
theorem splitAt_append_cons {sep : Char} {cs : List Char} (h : sep ∉ cs) (ds : List Char) :
    splitAt sep (cs ++ sep :: ds) = (cs, (splitAt sep ds).1 :: (splitAt sep ds).2) := by
  induction cs with
  | nil => simp [splitAt]
  | cons c cs ih =>
      have hc : c ≠ sep := fun heq => h (heq ▸ List.mem_cons_self)
      have hcs : sep ∉ cs := fun hmem => h (List.mem_cons_of_mem c hmem)
      simp only [List.cons_append, splitAt, ih hcs, hc, if_false]

/-- What stands before and after the last occurrence of `sep`. -/
def splitLast? (sep : Char) : List Char → Option (List Char × List Char)
  | [] => none
  | c :: cs =>
      match splitLast? sep cs with
      | some (before, after) => some (c :: before, after)
      | none => if c = sep then some ([], cs) else none

end AppAssembly.Text
