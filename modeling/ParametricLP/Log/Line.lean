/-! # Lines of a text

A text is cut into lines at every line break: line feed, carriage return, vertical tab, form feed,
the three separators of files, groups and records, next line, and the separators of lines and
paragraphs. A carriage return and a line feed right after it are one break. Nothing is left over
after a final break. -/

namespace ParametricLP.Log

/-- Whether a character ends a line. -/
def isLineBreak (c : Char) : Bool :=
  ['\n', '\r', '\x0b', '\x0c', '\x1c', '\x1d', '\x1e', '\x85', '\u2028', '\u2029'].contains c

/-- The lines of a text that follows `line`, which is kept backwards. -/
def linesAfter (line : List Char) : List Char → List (List Char)
  | [] => if line.isEmpty then [] else [line.reverse]
  | '\r' :: '\n' :: cs => line.reverse :: linesAfter [] cs
  | c :: cs => if isLineBreak c then line.reverse :: linesAfter [] cs else linesAfter (c :: line) cs

/-- The lines of a text, without their breaks. -/
def lines (text : String) : List String :=
  (linesAfter [] text.toList).map String.ofList

/-- No line holds a line break. -/
theorem not_isLineBreak_of_mem_linesAfter {line cs l : List Char} {c : Char}
    (hline : ∀ c ∈ line, isLineBreak c = false) (hl : l ∈ linesAfter line cs) (hc : c ∈ l) :
    isLineBreak c = false := by
  induction line, cs using linesAfter.induct with
  | case1 line h => simp [linesAfter, h] at hl
  | case2 line h =>
    simp only [linesAfter, h, Bool.false_eq_true, ↓reduceIte, List.mem_singleton] at hl
    subst hl
    exact hline c (List.mem_reverse.1 hc)
  | case3 line cs ih =>
    simp only [linesAfter, List.mem_cons] at hl
    rcases hl with rfl | hl
    · exact hline c (List.mem_reverse.1 hc)
    · exact ih (by simp) hl
  | case4 line d cs h hd ih =>
    simp only [linesAfter, hd, ↓reduceIte, List.mem_cons] at hl
    rcases hl with rfl | hl
    · exact hline c (List.mem_reverse.1 hc)
    · exact ih (by simp) hl
  | case5 line d cs h hd ih =>
    simp only [linesAfter, hd, Bool.false_eq_true, ↓reduceIte] at hl
    refine ih (fun e he => ?_) hl
    rcases List.mem_cons.1 he with rfl | he
    · simpa using hd
    · exact hline e he

end ParametricLP.Log
