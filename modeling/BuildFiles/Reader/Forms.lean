import BuildFiles.Reader.Stack

/-!
# Reading forms

`forms` reads all forms of a text, and tells what stopped it if something did; `first` reads only
as far as the first form reaches. Reader conditionals are decided by the features that are on.
-/

namespace BuildFiles.Reader

/-- Read on from the text `cs` with the frames pending, up to the end of a form that stands alone:
that form and the text after it, or nothing if the text ends first. -/
def advance (features : List String) (frames : List Frame) (cs : List Char) :
    Except Stop (Option (Datum × List Char)) :=
  match _hskip : skipBlank cs with
  | [] =>
    match endFault? frames with
    | some stop => .error stop
    | none => .ok none
  | c :: tail =>
    match _hscan : scan c tail with
    | .error stop => .error stop
    | .ok (lexeme, rest) =>
      match push features rest frames lexeme with
      | .error stop => .error stop
      | .ok (.complete d) => .ok (some (d, rest))
      | .ok (.pending frames') => advance features frames' rest
termination_by cs.length
decreasing_by
  have h₁ := length_skipBlank_le cs
  have h₂ := scan_length _hscan
  rw [_hskip, List.length_cons] at h₁
  omega

/-- What was read is gone from the text, and it is one character at least. -/
theorem advance_length {features : List String} {frames : List Frame} {cs : List Char} {d : Datum}
    {rest : List Char} (h : advance features frames cs = .ok (some (d, rest))) :
    rest.length < cs.length := by
  fun_induction advance features frames cs with
  | case1 => cases h
  | case2 => cases h
  | case3 => cases h
  | case4 => cases h
  | case5 frames cs c tail hskip lexeme rest' hscan d' hpush =>
    cases h
    have h₁ := length_skipBlank_le cs
    have h₂ := scan_length hscan
    rw [hskip, List.length_cons] at h₁
    omega
  | case6 frames cs c tail hskip lexeme rest' hscan frames' hpush ih =>
    have h₁ := length_skipBlank_le cs
    have h₂ := scan_length hscan
    have h₃ := ih h
    rw [hskip, List.length_cons] at h₁
    omega

/-- The forms of a text up to its end or to where reading stops. -/
def formsFrom (features : List String) (cs : List Char) : List Datum × Option Stop :=
  match _h : advance features [] cs with
  | .error stop => ([], some stop)
  | .ok none => ([], none)
  | .ok (some (d, rest)) =>
    let (ds, stop) := formsFrom features rest
    (d :: ds, stop)
termination_by cs.length
decreasing_by exact advance_length _h

/-- The line on which a text is left over with `rest` to go. -/
def lineAt (text rest : List Char) : Nat := 1 + (Text.lineFeeds text - Text.lineFeeds rest)

/-- Why reading the text failed. -/
def Stop.fault (text : List Char) : Stop → ReadFault
  | .malformed cause rest => .malformed cause (lineAt text rest)
  | .worthless fault => fault

/-- The features that are on when none are named. -/
def defaultFeatures : List String := ["clj"]

/-- All forms of the text before its end or before the fault that ends reading. -/
def forms (text : String) (features : List String) : List Datum × Option ReadFault :=
  let (ds, stop) := formsFrom features text.toList
  (ds, stop.map (·.fault text.toList))

/-- The first form of the text, nil if it has none. -/
def first (text : String) (features : List String) : Except ReadFault Datum :=
  match advance features [] text.toList with
  | .ok (some (d, _)) => .ok d
  | .ok none => .ok .nil
  | .error stop => .error (stop.fault text.toList)

end BuildFiles.Reader
