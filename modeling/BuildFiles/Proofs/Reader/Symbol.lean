import BuildFiles.Proofs.Reader.Remainder
import BuildFiles.Proofs.Reader.Rendering
import Mathlib.Data.List.TakeWhile

/-!
# Symbols

A symbol is read from one token, which is its name: `isToken_of_scan`. The other way round, a token
is a symbol as a whole or it is none, since a form that a mark at its beginning waits for is put
behind that mark (`isSymbol_of_advance`). So a token that is read as one symbol is read as that
symbol wherever it stands: `isToken_of_isSymbol`.
-/

namespace BuildFiles

theorem Name.text_parse (s : String) : (parse s).text = s := by
  rw [parse]
  split
  · next space base h =>
    split_ifs with hempty
    · rfl
    · simp only [Bool.or_eq_true, not_or, Bool.not_eq_true] at hempty
      obtain ⟨⟨before, after⟩, hcut, hparts⟩ := Option.map_eq_some_iff.1 h
      obtain ⟨rfl, rfl⟩ := Prod.mk.inj hparts
      rw [text]
      simp only [hempty.1, Bool.false_eq_true, if_false]
      rw [← String.toList_inj, (Text.cut?_eq_some hcut).1]
      simp
  · rfl

namespace Reader

variable {features : List String} {c : Char} {cs rest t : List Char} {d : Datum} {n : Name}
  {attached : List (Datum × Datum)} {frames : List Frame}

/-! ## The token of a symbol -/

theorem isSymbol_of_number? (h : number? t = some (.ok d)) : d.isSymbol = false := by
  unfold number? at h
  dsimp only at h
  split at h
  · cases h
    rfl
  · cases h
  · split at h
    · cases h
      rfl
    · obtain ⟨r, -, hr⟩ := Option.map_eq_some_iff.1 h
      cases r <;> cases hr
      rfl

/-- A token that is a symbol is nothing else that a token can be. -/
theorem atomOf_eq_symbol (h : atomOf t rest = .ok (.symbol n attached)) :
    t ≠ [] ∧ t ∉ [['n', 'i', 'l'], ['t', 'r', 'u', 'e'], ['f', 'a', 'l', 's', 'e']] ∧
      startsNumber t = false ∧ n = .parse (String.ofList t) ∧ attached = [] := by
  unfold atomOf at h
  split_ifs at h with hempty hnil htrue hfalse hnumber
  · cases h
  · cases h
  · cases h
  · split at h <;> cases h
    next hd => exact absurd (isSymbol_of_number? hd) (by simp [Datum.isSymbol, Datum.symbolName?])
  · cases h
    exact ⟨by simpa using hempty, by simp [hnil, htrue, hfalse], by simpa using hnumber, rfl, rfl⟩

/-- What starts with a mark is no symbol. -/
theorem isSymbol_of_mark (hc : c ∈ marks) (h : scan c cs = .ok (.atom d, rest)) :
    d.isSymbol = false := by
  cases scans_of_scan h with
  | token hc' => exact absurd hc hc'
  | string | character | keyword | regex | symbolicValue => rfl

/-- A symbol is scanned from the token that is its name; no other lexeme is a symbol. -/
theorem isToken_of_scan (h : scan c cs = .ok (.atom (.symbol n attached), rest)) :
    attached = [] ∧ n = .parse (String.ofList (token (c :: cs))) ∧
      IsToken (.symbol n []) (token (c :: cs)) := by
  have hc : c ∉ marks := fun hmem => absurd (isSymbol_of_mark hmem h) (by
    simp [Datum.isSymbol, Datum.symbolName?])
  rw [scan_of_not_mem hc] at h
  split at h
  · next d hd =>
    cases h
    obtain ⟨hne, hliteral, hnumber, rfl, rfl⟩ := atomOf_eq_symbol hd
    have htoken : ∀ x ∈ token (c :: cs), isTokenChar x = true := fun x => List.mem_takeWhile_imp
    refine ⟨rfl, rfl, .symbol hne htoken hliteral ?_ hnumber⟩
    -- the token is not empty, so it starts as the text does
    intro x hx
    rw [token, List.takeWhile_cons] at hx
    split_ifs at hx
    · cases hx
      exact fun hmem => hc (List.mem_of_mem_filter (p := isTokenChar) (by
        rw [show marks.filter isTokenChar = [':', '\'', '#'] by decide]
        simp only [List.mem_cons, List.not_mem_nil, or_false] at hmem ⊢
        tauto))
    · cases hx
  · cases h

/-! ## Reading a single token -/

/-- What a lexeme of a token can be: an atom takes all of it, and nothing is closed or has metadata
put before it. -/
def Lexeme.IsInToken (rest : List Char) : Lexeme → Prop
  | .atom _ => rest = []
  | .closing _ | .metadata => False
  | _ => True

theorem afterToken_eq_nil (h : ∀ x ∈ cs, isTokenChar x = true) : afterToken cs = [] :=
  List.dropWhile_eq_nil_iff.2 h

theorem isInToken_of_scan {x : Lexeme} (hcs : ∀ a ∈ c :: cs, isTokenChar a = true)
    (h : scan c cs = .ok (x, rest)) : x.IsInToken rest := by
  obtain ⟨hc, htail⟩ := List.forall_mem_cons.1 hcs
  cases scans_of_scan h with
  | closing hmark =>
    simp only [List.mem_cons, List.not_mem_nil, or_false] at hmark
    rcases hmark with rfl | rfl | rfl <;> cases hc
  | string | character | metadata => cases hc
  | regex => cases htail '"' List.mem_cons_self
  | keyword => exact afterToken_eq_nil fun a ha => htail a ((dropColon_suffix cs).subset ha)
  | symbolicValue => exact afterToken_eq_nil fun a ha => htail a (List.mem_cons_of_mem _ ha)
  | token => exact afterToken_eq_nil hcs
  | opening | wrapping | unquote | unquoteSplicing | set | function | discard | var | conditional
  | qualifying | gap | tag => trivial

/-- The frame does not come from metadata. -/
def Frame.IsPlain : Frame → Prop
  | .metadata | .target _ => False
  | _ => True

/-- What is completed behind a mark is no symbol: the mark makes a list of it, or a tagged datum. -/
theorem isSymbol_of_deliver {item : Item} (hframes : ∀ f ∈ frames, f.IsPlain)
    (hitem : frames = [] → ∀ d, item = .form d → d.isSymbol = false)
    (h : deliver rest item frames = .ok (.complete d)) : d.isSymbol = false := by
  fun_induction deliver rest item frames with
  | case1 => cases h
  | case2 d' =>
    cases h
    exact hitem rfl d rfl
  | case3 => cases h
  | case4 => cases h
  | case5 => cases h
  | case6 item head frames hne ih =>
    refine ih (List.forall_mem_cons.1 hframes).2 ?_ h
    rintro - d' ⟨⟩
    rfl
  | case7 => cases h
  | case8 item metadata frames hne result hattach ih =>
    exact absurd (List.forall_mem_cons.1 hframes).1 id
  | case9 => cases h
  | case10 => cases h
  | case11 => cases h
  | case12 => cases h
  | case13 item n attached frames hne ih =>
    refine ih (List.forall_mem_cons.1 hframes).2 ?_ h
    rintro - d' ⟨⟩
    rfl

/-- So a token behind a mark completes no symbol, however the reading goes on from there. -/
theorem isSymbol_of_advance (hcs : ∀ a ∈ cs, isTokenChar a = true)
    (hframes : ∀ f ∈ frames, f.IsPlain) (hne : frames ≠ [])
    (h : advance features frames cs = .ok (some (d, rest))) : d.isSymbol = false := by
  fun_induction advance features frames cs with
  | case1 => cases h
  | case2 => cases h
  | case3 => cases h
  | case4 => cases h
  | case5 frames cs c tail hskip x rest' hscan d' hpush =>
    cases h
    have hx :=
      isInToken_of_scan (fun a ha => hcs a (hskip ▸ skipBlank_suffix cs |>.subset ha)) hscan
    cases x with
    | atom d' => exact isSymbol_of_deliver hframes (fun hnil => absurd hnil hne) hpush
    | closing delimiter => exact absurd hx id
    | _ => cases hpush
  | case6 frames cs c tail hskip x rest' hscan frames' hpush ih =>
    have hx :=
      isInToken_of_scan (fun a ha => hcs a (hskip ▸ skipBlank_suffix cs |>.subset ha)) hscan
    have hrest : ∀ a ∈ rest', isTokenChar a = true :=
      fun a ha => hcs a ((suffix_of_scan hskip hscan).subset ha)
    cases x with
    | atom d' =>
      -- nothing is left to complete what is pending
      obtain rfl : rest' = [] := hx
      rw [advance_of_end rfl] at h
      split at h <;> cases h
    | closing delimiter => exact absurd hx id
    | metadata => exact absurd hx id
    | gap =>
      cases hpush
      exact ih hrest hframes hne h
    | _ =>
      cases hpush
      exact ih hrest (List.forall_mem_cons.2 ⟨trivial, hframes⟩) (List.cons_ne_nil _ _) h

/-- The text is a token, and it is read as one symbol. -/
def IsSymbol (features : List String) (s : String) : Prop :=
  (∀ a ∈ s.toList, isTokenChar a = true) ∧
    ∃ n attached, forms s features = ([.symbol n attached], none)

theorem exists_of_forms {text : String} {ds : List Datum} {fault : Option ReadFault}
    (h : forms text features = (d :: ds, fault)) :
    ∃ rest, advance features [] text.toList = .ok (some (d, rest)) := by
  rw [forms] at h
  rcases hfirst : advance features [] text.toList with stop | _ | ⟨d', rest⟩
  · rw [formsFrom_of_error hfirst] at h
    cases h
  · rw [formsFrom_of_none hfirst] at h
    cases h
  · rw [formsFrom_of_some hfirst] at h
    obtain ⟨rfl, -⟩ := List.cons.inj (Prod.mk.inj h).1
    exact ⟨rest, rfl⟩

theorem afterLine_eq_nil (h : ∀ a ∈ cs, isTokenChar a = true) : Text.afterLine cs = [] := by
  rw [Text.afterLine, List.dropWhile_eq_nil_iff.2 ?_, List.drop_nil]
  intro a ha
  have hline : isTokenChar '\n' = false := rfl
  simpa using ne_of_isTokenChar (h a ha) hline

/-- A token that is read as one symbol is that symbol wherever it stands. -/
theorem isToken_of_isSymbol {s : String} (h : IsSymbol features s) :
    IsToken (.symbol (.parse s) []) s.toList := by
  obtain ⟨htoken, n, attached, hforms⟩ := h
  obtain ⟨rest, hfirst⟩ := exists_of_forms hforms
  rcases hs : s.toList with _ | ⟨c, cs⟩
  · rw [hs, advance_of_end rfl] at hfirst
    cases hfirst
  · rw [hs] at htoken hfirst
    obtain ⟨hc, hcs⟩ := List.forall_mem_cons.1 htoken
    have hskip : skipBlank (c :: cs) = c :: cs := skipBlank_of_isTokenChar hc
    rcases hscan : scan c cs with stop | ⟨x, rest'⟩
    · rw [advance_of_scan_error hskip hscan] at hfirst
      cases hfirst
    have hx := isInToken_of_scan htoken hscan
    have hrest : ∀ a ∈ rest', isTokenChar a = true :=
      fun a ha => htoken a ((suffix_of_scan hskip hscan).subset ha)
    have hwaiting : ∀ f, push features rest' [] x = .ok (.pending [f]) → ¬ f.IsPlain := by
      intro f hpush hf
      rw [advance_of_scan hskip hscan, hpush] at hfirst
      have := isSymbol_of_advance hrest (by simpa using hf) (List.cons_ne_nil _ _) hfirst
      cases this
    cases x with
    | atom d =>
      rw [advance_of_scan hskip hscan] at hfirst
      cases hfirst
      obtain ⟨-, hn, ht⟩ := isToken_of_scan hscan
      have hall : token (c :: cs) = c :: cs := List.takeWhile_eq_self_iff.2 htoken
      rw [hall] at hn
      rwa [hall, hn, ← hs, String.ofList_toList, hs] at ht
    | closing delimiter => exact absurd hx id
    | metadata => exact absurd hx id
    | gap =>
      obtain ⟨-, line, rfl, rfl⟩ := scan_isFrom hscan
      have hline : Text.afterLine line = [] :=
        afterLine_eq_nil fun a ha => hcs a (List.mem_cons_of_mem _ ha)
      rw [advance_of_scan hskip hscan, hline] at hfirst
      change advance features [] [] = _ at hfirst
      rw [advance_of_end rfl] at hfirst
      cases hfirst
    | opening b => exact absurd trivial (hwaiting _ rfl)
    | wrapping head => exact absurd trivial (hwaiting _ rfl)
    | discard => exact absurd trivial (hwaiting _ rfl)
    | tag => exact absurd trivial (hwaiting _ rfl)

/-- A token that starts with no mark and is no literal and no number is read as a symbol. -/
theorem isSymbol_of_token {s : String}
    (h : s.toList ≠ [] ∧ s.toList.all isTokenChar = true ∧
      s.toList ∉ [['n', 'i', 'l'], ['t', 'r', 'u', 'e'], ['f', 'a', 'l', 's', 'e']] ∧
      s.toList.head?.all (fun c => c ∉ [':', '#', '\'']) = true ∧ startsNumber s.toList = false) :
    IsSymbol features s := by
  obtain ⟨hne, htoken, hliteral, hmark, hnumber⟩ := h
  have htoken : ∀ a ∈ s.toList, isTokenChar a = true := List.all_eq_true.1 htoken
  have hs : IsToken (.symbol (.parse s) []) s.toList := by
    have := IsToken.symbol hne htoken hliteral (fun c hc => by
      rw [hc] at hmark
      exact of_decide_eq_true hmark) hnumber
    rwa [String.ofList_toList] at this
  exact ⟨htoken, _, _, (read_of_spellsAlone (fun _ hrest => .token hs hrest) features).2⟩

end Reader

end BuildFiles
