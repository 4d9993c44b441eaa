import BuildFiles.Proofs.LongIntegers
import BuildFiles.Proofs.Reader.Numeral
import BuildFiles.Proofs.Reader.Stack

/-!
# Spelled data

`Spells` is the grammar of the texts that plain data are written as: tokens, text between quotes,
brackets around items, and anywhere about them what says nothing, which are blanks, comments and
forms that are discarded. A part of a text is given as what the text is before it and after it, so
that what has to stand after a token is a condition on the latter.

Such a text is read as the datum that it spells, whatever features are on:
`read_of_isSpelling`. Behind that stands `isRead_of_spells`, by induction on the spelling: reading
goes on after a part as if the part had been delivered in one piece.
-/

namespace BuildFiles

namespace Entries

variable {β : Type}

/-- The entries with their keys as keywords. -/
def withKeywords (es : Entries Name β) : Entries Datum β := es.map fun e => (.keyword e.1, e.2)

/-- Putting a name in before it is made a keyword is putting the keyword in. -/
theorem insert_withKeywords (es : Entries Name β) (n : Name) (v : β) :
    insert (withKeywords es) (.keyword n) v = withKeywords (es.insert n v) := by
  induction es with
  | nil => rfl
  | cons e es ih =>
    obtain ⟨m, w⟩ := e
    change insert ((.keyword m, w) :: withKeywords es) _ _ = _
    by_cases h : m = n
    · rw [insert, if_pos ((Datum.keyword_beq m n).2 h), insert, if_pos (beq_iff_eq.2 h)]
      rfl
    · rw [insert, if_neg (fun hk => h ((Datum.keyword_beq m n).1 hk)), ih, insert,
        if_neg (fun hk => h (beq_iff_eq.1 hk))]
      rfl

/-- Putting several names in before they are made keywords is putting the keywords in. -/
theorem insertAll_withKeywords (es new : Entries Name β) :
    insertAll (withKeywords es) (withKeywords new) = withKeywords (es.insertAll new) := by
  induction new generalizing es with
  | nil => rfl
  | cons e new ih =>
    obtain ⟨n, v⟩ := e
    change insertAll (insert (withKeywords es) (.keyword n) v) (withKeywords new) = _
    rw [insert_withKeywords, ih]
    rfl

/-- Entries with new keys are put at the end. -/
theorem insertAll_eq_append {α : Type} [BEq α] [LawfulBEq α] {es new : Entries α β}
    (h : (es ++ new).keys.Nodup) : es.insertAll new = es ++ new := by
  induction new generalizing es with
  | nil => exact (List.append_nil es).symm
  | cons e new ih =>
    have hnew : es.get? e.1 = none := by
      rw [get?_eq_none_iff]
      rw [keys, List.map_append, List.map_cons, List.nodup_append] at h
      exact fun hmem => h.2.2 e.1 hmem e.1 List.mem_cons_self rfl
    change (es.insert e.1 e.2).insertAll new = _
    rw [insert_eq_append e.2 hnew, ih (by rwa [List.append_assoc]), List.append_assoc]
    rfl

/-- Keywords that are written once each are a map as they stand. -/
theorem ofList_withKeywords {es : Entries Name β} (h : es.keys.Nodup) :
    ofList es.withKeywords = es.withKeywords := by
  have hall : insertAll [] es = es := insertAll_eq_append h
  change insertAll (withKeywords []) es.withKeywords = _
  rw [insertAll_withKeywords, hall]

end Entries

namespace Reader

/-! ## The grammar -/

/-- The tokens and the data that they are. -/
inductive IsToken : Datum → List Char → Prop
  | nil : IsToken .nil ['n', 'i', 'l']
  | true : IsToken (.bool true) ['t', 'r', 'u', 'e']
  | false : IsToken (.bool false) ['f', 'a', 'l', 's', 'e']
  | int {n : Int} (hlong : Datum.isLong n = false) : IsToken (.int n) (toString n).toList
  | symbol {t : List Char} (hne : t ≠ []) (htoken : ∀ c ∈ t, isTokenChar c = true)
      (hliteral : t ∉ [['n', 'i', 'l'], ['t', 'r', 'u', 'e'], ['f', 'a', 'l', 's', 'e']])
      (hmark : ∀ c ∈ t.head?, c ∉ [':', '#', '\'']) (hnumber : startsNumber t = false) :
      IsToken (.symbol (.parse (String.ofList t)) []) t
  | keyword {t : List Char} (hne : t ≠ []) (htoken : ∀ c ∈ t, isTokenChar c = true)
      (hmark : t.head? ≠ some ':') : IsToken (.keyword (.parse (String.ofList t))) (':' :: t)

/-- A token may end before the text: a blank, a comma, a semicolon or another delimiter follows, or
the text ends. -/
def EndsToken (rest : List Char) : Prop := ∀ c ∈ rest.head?, isTokenChar c = false

example : [' ', '\t', '\r', '\n', '\x0c', ',', ';', ')', ']', '}'].all
    (fun c => !isTokenChar c) = true := by decide

/-- A token ends before every character that belongs to none. -/
theorem endsToken_cons {c : Char} (h : isTokenChar c = false) (cs : List Char) :
    EndsToken (c :: cs) := by
  rintro _ ⟨⟩
  exact h

/-- What a part of a text can be. -/
inductive Part where
  /-- what says nothing: blanks, comments and forms that are discarded -/
  | trivia
  | form (d : Datum)
  /-- the items in a bracket and the delimiter that closes it -/
  | items (ds : List Datum) (delimiter : Char)

/-- `Spells part cs rest`: the text `cs` starts with a spelling of the part, and `rest` is the text
after it. -/
inductive Spells : Part → List Char → List Char → Prop
  | nothing (cs : List Char) : Spells .trivia cs cs
  | blank {c : Char} {cs rest : List Char} (hc : isSpace c = true) (h : Spells .trivia cs rest) :
      Spells .trivia (c :: cs) rest
  | comment {cs rest : List Char} (h : Spells .trivia (Text.afterLine cs) rest) :
      Spells .trivia (';' :: cs) rest
  | commentLine {cs rest : List Char} (h : Spells .trivia (Text.afterLine cs) rest) :
      Spells .trivia ('#' :: '!' :: cs) rest
  | discard {d : Datum} {cs cs₁ cs₂ rest : List Char} (hbefore : Spells .trivia cs cs₁)
      (hform : Spells (.form d) cs₁ cs₂) (hafter : Spells .trivia cs₂ rest) :
      Spells .trivia ('#' :: '_' :: cs) rest
  | token {d : Datum} {t rest : List Char} (ht : IsToken d t) (hrest : EndsToken rest) :
      Spells (.form d) (t ++ rest) rest
  | text (s : String) (rest : List Char) :
      Spells (.form (.str s)) ((Datum.quote s).toList ++ rest) rest
  | list {ds : List Datum} {cs rest : List Char} (h : Spells (.items ds ')') cs rest) :
      Spells (.form (.list ds)) ('(' :: cs) rest
  | vector {ds : List Datum} {cs rest : List Char} (h : Spells (.items ds ']') cs rest) :
      Spells (.form (.vector ds)) ('[' :: cs) rest
  | map {es : Entries Name Datum} {cs rest : List Char} (hkeys : es.keys.Nodup)
      (h : Spells (.items (es.flatMap fun e => [.keyword e.1, e.2]) '}') cs rest) :
      Spells (.form (.map es.withKeywords)) ('{' :: cs) rest
  | closing {delimiter : Char} {cs rest : List Char}
      (h : Spells .trivia cs (delimiter :: rest)) : Spells (.items [] delimiter) cs rest
  | item {d : Datum} {ds : List Datum} {delimiter : Char} {cs cs₁ cs₂ rest : List Char}
      (hbefore : Spells .trivia cs cs₁) (hform : Spells (.form d) cs₁ cs₂)
      (hitems : Spells (.items ds delimiter) cs₂ rest) : Spells (.items (d :: ds) delimiter) cs rest

/-- The text spells the datum, and besides says nothing. -/
def IsSpelling (text : String) (d : Datum) : Prop :=
  ∃ cs rest, Spells .trivia text.toList cs ∧ Spells (.form d) cs rest ∧ Spells .trivia rest []

/-! ## Tokens -/

variable {features : List String} {cs rest t : List Char} {frames : List Frame} {c : Char}
  {d : Datum}

/-- No character of a token is blank. -/
theorem isSpace_of_isTokenChar (h : isTokenChar c = true) : isSpace c = false := by
  simpa using (Bool.and_eq_true_iff.1 h).1

/-- A character of a token is none that is not. -/
theorem ne_of_isTokenChar {c' : Char} (h : isTokenChar c = true) (h' : isTokenChar c' = false) :
    c ≠ c' := by
  rintro rfl
  rw [h] at h'
  cases h'

/-- Nothing is skipped before a token. -/
theorem skipBlank_of_isTokenChar (h : isTokenChar c = true) : skipBlank (c :: cs) = c :: cs :=
  skipBlank_cons (isSpace_of_isTokenChar h) (ne_of_isTokenChar h rfl)

/-- A character of a token that is not a colon, a number sign or an apostrophe starts nothing but
tokens. -/
theorem not_mem_marks (h : isTokenChar c = true) (hc : c ∉ [':', '#', '\'']) : c ∉ marks := by
  have hmarks : marks.filter isTokenChar = [':', '\'', '#'] := by decide
  intro hmem
  have := List.mem_filter.2 ⟨hmem, h⟩
  rw [hmarks] at this
  simp only [List.mem_cons, List.not_mem_nil, or_false] at this hc
  tauto

/-- A token is read as far as it goes. -/
theorem token_append_of_endsToken (ht : ∀ c ∈ t, isTokenChar c = true) (hrest : EndsToken rest) :
    token (t ++ rest) = t := by
  rw [token, List.takeWhile_append_of_pos ht]
  cases rest with
  | nil => rw [List.takeWhile_nil, List.append_nil]
  | cons c rest =>
    rw [List.takeWhile_cons_of_neg (by simp [hrest c rfl]), List.append_nil]

/-- The reading goes on where it ends. -/
theorem afterToken_append_of_endsToken (ht : ∀ c ∈ t, isTokenChar c = true)
    (hrest : EndsToken rest) : afterToken (t ++ rest) = rest := by
  rw [afterToken, List.dropWhile_append_of_pos ht]
  cases rest with
  | nil => rfl
  | cons c rest => exact List.dropWhile_cons_of_neg (by simp [hrest c rfl])

/-- A token is scanned as the datum that it is, and with the fault that it has. -/
theorem exists_scan_token {result : Except Stop Datum} (ht : (c :: t).all isTokenChar = true)
    (hc : c ∉ [':', '#', '\'']) (hrest : EndsToken rest) (hd : atomOf (c :: t) rest = result) :
    ∃ c' tail, skipBlank (c :: t ++ rest) = c' :: tail ∧
      scan c' tail = result.map fun d => (.atom d, rest) := by
  have ht : ∀ x ∈ c :: t, isTokenChar x = true := List.all_eq_true.1 ht
  have hfirst := ht c List.mem_cons_self
  refine ⟨c, t ++ rest, skipBlank_of_isTokenChar hfirst, ?_⟩
  rw [scan_of_not_mem (not_mem_marks hfirst hc), ← List.cons_append,
    token_append_of_endsToken ht hrest, afterToken_append_of_endsToken ht hrest, hd]
  cases result <;> rfl

theorem isTokenChar_of_isAlphanum (h : c.isAlphanum = true) : isTokenChar c = true := by
  have hne : ∀ x : Char, x.isAlphanum = false → c ≠ x := by
    rintro x hx rfl
    rw [h] at hx
    cases hx
  simp [isTokenChar, isSpace, isDelimiter, hne]

/-- Digits belong to tokens. -/
theorem isTokenChar_of_isDigit (h : c.isDigit = true) : isTokenChar c = true :=
  isTokenChar_of_isAlphanum (by simp [Char.isAlphanum, h])

/-- An integer is written with digits, and a sign. -/
theorem mem_toString {n : Int} (h : c ∈ (toString n).toList) : c = '-' ∨ c.isDigit = true := by
  rw [toList_toString] at h
  split_ifs at h with hn
  · exact (List.mem_cons.1 h).imp_right isDigit_of_mem_toDigits
  · exact .inr (isDigit_of_mem_toDigits h)

/-- The characters that an integer is written with occur in tokens: they are figures and a sign. -/
theorem isTokenChar_of_mem_toString {n : Int} (h : c ∈ (toString n).toList) :
    isTokenChar c = true := by
  rcases mem_toString h with rfl | h
  · rfl
  · exact isTokenChar_of_isDigit h

/-- What does not occur in tokens does not occur in any of them. -/
theorem not_mem_of_isToken (h : IsToken d t) (hc : isTokenChar c = false) : c ∉ t := by
  intro hmem
  have htoken : isTokenChar c = true := by
    cases h with
    | nil | true | false => exact List.all_eq_true.1 (by decide) c hmem
    | int hlong => exact isTokenChar_of_mem_toString hmem
    | symbol _ hall _ _ _ => exact hall c hmem
    | keyword _ hall _ =>
      rcases List.mem_cons.1 hmem with rfl | hmem
      · rfl
      · exact hall c hmem
  rw [htoken] at hc
  cases hc

/-- An integer is written with one digit at least. -/
theorem toString_ne_nil (n : Int) : (toString n).toList ≠ [] := by
  intro hnil
  have := startsNumber_toString n
  rw [hnil] at this
  cases this

/-- The decimal form of an integer is read as that integer, unless it has too many digits. -/
theorem atomOf_toString (n : Int) : atomOf (toString n).toList rest =
    if Datum.isLong n then .error (.worthless .badDigits) else .ok (.int n) := by
  -- the literals that a token is compared with first start with letters
  have hletter : ∀ c s, c.isDigit = false → c ≠ '-' → (toString n).toList ≠ c :: s := by
    intro c s hdigit hsign hs
    rcases mem_toString (n := n) (c := c) (by rw [hs]; exact List.mem_cons_self) with h | h
    · exact hsign h
    · rw [hdigit] at h
      cases h
  rw [atomOf, if_neg (by simpa using toString_ne_nil n), if_neg (hletter 'n' _ rfl (by decide)),
    if_neg (hletter 't' _ rfl (by decide)), if_neg (hletter 'f' _ rfl (by decide)),
    if_pos (startsNumber_toString n), number?_toString]
  split_ifs <;> rfl

/-- A token that is no constant and starts no number is a symbol. -/
theorem atomOf_symbol (hne : t ≠ [])
    (hliteral : t ∉ [['n', 'i', 'l'], ['t', 'r', 'u', 'e'], ['f', 'a', 'l', 's', 'e']])
    (hnumber : startsNumber t = false) :
    atomOf t rest = .ok (.symbol (.parse (String.ofList t)) []) := by
  simp only [List.mem_cons, List.not_mem_nil, or_false, not_or] at hliteral
  rw [atomOf, if_neg (by simpa using hne), if_neg hliteral.1, if_neg hliteral.2.1,
    if_neg hliteral.2.2, if_neg (by simp [hnumber])]

/-- A token after a colon is a keyword. -/
theorem scanKeyword_append_of_endsToken (hne : t ≠ []) (ht : ∀ c ∈ t, isTokenChar c = true)
    (hmark : t.head? ≠ some ':') (hrest : EndsToken rest) :
    scanKeyword (t ++ rest) = .ok (.atom (.keyword (.parse (String.ofList t))), rest) := by
  have hcolon : dropColon (t ++ rest) = t ++ rest := by
    cases t with
    | nil => exact absurd rfl hne
    | cons c t => exact dropColon_cons fun hc => hmark (by rw [hc]; rfl)
  rw [scanKeyword, hcolon, token_append_of_endsToken ht hrest,
    afterToken_append_of_endsToken ht hrest]
  cases t with
  | nil => exact absurd rfl hne
  | cons c t => rfl

/-- So an integer is read before anything that ends a token, if it is not long; a long one is
refused. -/
theorem exists_scan_toString (n : Int) (hrest : EndsToken rest) :
    ∃ c tail, skipBlank ((toString n).toList ++ rest) = c :: tail ∧
      scan c tail = Except.map (fun d => (.atom d, rest))
        (if Datum.isLong n then .error (.worthless .badDigits) else .ok (.int n)) := by
  have hd : atomOf (toString n).toList rest = _ := atomOf_toString n
  have ht : (toString n).toList.all isTokenChar = true :=
    List.all_eq_true.2 fun c => isTokenChar_of_mem_toString
  have hmark : ∀ c ∈ (toString n).toList, c ∉ [':', '#', '\''] := by
    intro c hc
    rcases mem_toString hc with rfl | hdigit
    · decide
    · rintro hmem
      simp only [List.mem_cons, List.not_mem_nil, or_false] at hmem
      rcases hmem with rfl | rfl | rfl <;> cases hdigit
  obtain ⟨c, s, hs⟩ := List.exists_cons_of_ne_nil (toString_ne_nil n)
  rw [hs] at hd ht hmark ⊢
  exact exists_scan_token ht (hmark c List.mem_cons_self) hrest hd

/-- A token is read as the datum that it is. -/
theorem scan_of_isToken (h : IsToken d t) (hrest : EndsToken rest) :
    ∃ c tail, skipBlank (t ++ rest) = c :: tail ∧ scan c tail = .ok (.atom d, rest) := by
  cases h with
  | nil => exact exists_scan_token rfl (by decide) hrest rfl
  | true => exact exists_scan_token rfl (by decide) hrest rfl
  | false => exact exists_scan_token rfl (by decide) hrest rfl
  | @int n hlong =>
    have hscan := exists_scan_toString n hrest
    rwa [if_neg (Bool.eq_false_iff.1 hlong)] at hscan
  | symbol hne htoken hliteral hmark hnumber =>
    have hd : atomOf t rest = _ := atomOf_symbol hne hliteral hnumber
    cases t with
    | nil => exact absurd rfl hne
    | cons c s => exact exists_scan_token (List.all_eq_true.2 htoken) (hmark c rfl) hrest hd
  | keyword hne htoken hmark =>
    exact ⟨_, _, rfl, scanKeyword_append_of_endsToken hne htoken hmark hrest⟩

/-! ## Text between quotes -/

/-- What a character is escaped to is read as that character. -/
theorem stringBody_escapedChar {start : List Char} (c : Char) :
    stringBody start (Datum.escapedChar c ++ cs) =
      (stringBody start cs).map fun p => (c :: p.1, p.2) := by
  unfold Datum.escapedChar
  split
  case h_8 h₁ h₂ h₃ h₄ h₅ h₆ h₇ => exact stringBody_cons h₁ h₂
  all_goals exact stringBody_escape rfl

/-- So a text that is written between quotes is read as it was. -/
theorem stringBody_quoted {start : List Char} (s : List Char) :
    stringBody start (s.flatMap Datum.escapedChar ++ '"' :: rest) = .ok (s, rest) := by
  induction s with
  | nil => rfl
  | cons c s ih =>
    rw [List.flatMap_cons, List.append_assoc, stringBody_escapedChar, ih]
    rfl

/-- The characters of a text that is written between quotes. -/
theorem toList_quote (s : String) :
    (Datum.quote s).toList = '"' :: (s.toList.flatMap Datum.escapedChar ++ ['"']) := by
  rw [Datum.quote, String.toList_ofList]
  rfl

/-- A text between quotes is read as a text. -/
theorem scan_quote (s : String) :
    scan '"' (s.toList.flatMap Datum.escapedChar ++ '"' :: rest) = .ok (.atom (.str s), rest) := by
  change (stringBody _ _).map _ = _
  rw [stringBody_quoted]
  change Except.ok (Lexeme.atom (.str (String.ofList s.toList)), rest) = _
  rw [String.ofList_toList]

/-! ## Brackets -/

/-- Keys and values that are written in turn are paired again. -/
theorem pairs_flatMap {α : Type} (es : List α) (f g : α → Datum) :
    pairs (es.flatMap fun e => [f e, g e]) = es.map fun e => (f e, g e) := by
  induction es with
  | nil => rfl
  | cons e es ih => exact congrArg (List.cons (f e, g e)) ih

/-- A map with keywords as its keys, each once, is that of its items. -/
theorem mapOf_withKeywords {es : Entries Name Datum} (hkeys : es.keys.Nodup) :
    mapOf (es.flatMap fun e => [.keyword e.1, e.2]) rest = .ok es.withKeywords := by
  have hlength : (es.flatMap fun e => [Datum.keyword e.1, e.2]).length % 2 = 0 := by
    simp [List.length_flatMap]
  have hfrozen : (pairs (es.flatMap fun e => [.keyword e.1, e.2])).map
      (fun e => (e.1.frozen, e.2)) = es.withKeywords := by
    rw [pairs_flatMap es (fun e => .keyword e.1) Prod.snd, List.map_map]
    rfl
  have hkeyable : es.withKeywords.all (fun e => e.1.keyable) = true := by
    simp [Entries.withKeywords, Datum.keyable]
  have hentries : Datum.entriesOf? es.withKeywords = some es.withKeywords := by
    rw [Datum.entriesOf?, if_pos hkeyable, Entries.ofList_withKeywords hkeys]
  rw [← hfrozen] at hentries
  rw [mapOf, if_neg (by omega)]
  erw [hentries]
  rw [hfrozen]

theorem skipBlank_closer (b : Bracket) : skipBlank (b.closer :: cs) = b.closer :: cs := by
  cases b <;> rfl

/-- A closing bracket is read as one. -/
theorem scan_closer (b : Bracket) : scan b.closer cs = .ok (.closing b.closer, cs) := by
  cases b <;> rfl

/-- A bracket that closes hands the form that it makes to what is around it. -/
theorem close_collecting {b : Bracket} {ds : List Datum} (opened : List Char)
    (h : closed features b ds rest = .ok (.form d)) :
    close features b.closer rest (.collecting b opened (ds.reverse ++ []) :: frames) =
      deliver rest (.form d) frames := by
  rw [close, if_pos rfl, List.append_nil, List.reverse_reverse, h]

/-! ## Reading -/

/-- A part is read as if it were delivered in one piece. -/
def Part.IsRead (features : List String) (cs rest : List Char) : Part → Prop
  | .trivia => ∀ frames, advance features frames cs = advance features frames rest
  | .form d => ∀ frames,
      advance features frames cs = resume features rest (deliver rest (.form d) frames)
  | .items ds delimiter => ∀ b opened items frames, b.closer = delimiter →
      advance features (.collecting b opened items :: frames) cs =
        resume features rest
          (close features delimiter rest (.collecting b opened (ds.reverse ++ items) :: frames))

/-- A bracket is read as the form that its items make, if they are read. -/
theorem isRead_bracket {b : Bracket} {ds : List Datum} {tail opened : List Char}
    (hskip : skipBlank cs = c :: tail) (hscan : scan c tail = .ok (.opening b, opened))
    (hitems : (Part.items ds b.closer).IsRead features opened rest)
    (hclosed : closed features b ds rest = .ok (.form d)) :
    (Part.form d).IsRead features cs rest := by
  intro frames
  rw [advance_of_scan hskip hscan, ← close_collecting opened hclosed]
  exact hitems b opened [] frames rfl

/-- Trivia is read before any frames, those of the bracket too. -/
theorem isRead_closing {delimiter : Char}
    (h : Part.trivia.IsRead features cs (delimiter :: rest)) :
    (Part.items [] delimiter).IsRead features cs rest := by
  rintro b opened items frames rfl
  rw [h, advance_of_scan (skipBlank_closer b) (scan_closer b)]
  rfl

/-- Items are read one after the other, with what is between them. -/
theorem isRead_item {ds : List Datum} {delimiter : Char} {cs₁ cs₂ : List Char}
    (hbefore : Part.trivia.IsRead features cs cs₁) (hform : (Part.form d).IsRead features cs₁ cs₂)
    (hitems : (Part.items ds delimiter).IsRead features cs₂ rest) :
    (Part.items (d :: ds) delimiter).IsRead features cs rest := by
  intro b opened items frames hb
  rw [hbefore, hform, List.reverse_cons, List.append_assoc]
  exact hitems b opened _ frames hb

/-- What is between items can come before the closing bracket as well. -/
theorem isRead_items_of_trivia {ds : List Datum} {delimiter : Char} {cs₁ : List Char}
    (hbefore : Part.trivia.IsRead features cs cs₁)
    (h : (Part.items ds delimiter).IsRead features cs₁ rest) :
    (Part.items ds delimiter).IsRead features cs rest := by
  intro b opened items frames hb
  rw [hbefore]
  exact h b opened items frames hb

/-- A mark before a form puts the form into a list after a symbol. -/
theorem isRead_wrapped {head : String} {tail cs₁ : List Char} (hskip : skipBlank cs = c :: tail)
    (hscan : scan c tail = .ok (.wrapping head, cs₁))
    (h : (Part.form d).IsRead features cs₁ rest) :
    (Part.form (.list [.sym head, d])).IsRead features cs rest := by
  intro frames
  rw [advance_of_scan hskip hscan]
  exact h _

/-- What a text spells is what is read of it. By induction on the spelling, for all frames about it
at once, since the items in a bracket are read with one more frame. -/
theorem isRead_of_spells {part : Part} (h : Spells part cs rest) :
    part.IsRead features cs rest := by
  induction h with
  | nothing cs => exact fun _ => rfl
  | blank hc h ih =>
    intro frames
    rw [advance_congr (skipBlank_cons_of_isSpace hc), ih frames]
  | comment h ih =>
    intro frames
    rw [advance_congr (skipBlank_semicolon.trans (skipComment_eq _)), ih frames]
  | commentLine h ih =>
    intro frames
    rw [advance_of_scan (x := .gap) rfl rfl]
    exact ih frames
  | discard hbefore hform hafter ihbefore ihform ihafter =>
    -- the form is delivered to the frame of the mark, which takes it in and is gone
    intro frames
    rw [advance_of_scan (x := .discard) rfl rfl]
    exact (ihbefore _).trans ((ihform _).trans (ihafter frames))
  | token ht hrest =>
    intro frames
    obtain ⟨c, tail, hskip, hscan⟩ := scan_of_isToken ht hrest
    exact advance_of_scan hskip hscan
  | text s rest =>
    intro frames
    rw [toList_quote, List.cons_append, List.append_assoc]
    exact advance_of_scan rfl (scan_quote s)
  | list h ih => exact isRead_bracket (b := .round) rfl rfl ih rfl
  | vector h ih => exact isRead_bracket (b := .square) rfl rfl ih rfl
  | map hkeys h ih =>
    refine isRead_bracket (b := .curly) rfl rfl ih ?_
    rw [closed, mapOf_withKeywords hkeys]
    rfl
  | closing h ih => exact isRead_closing ih
  | item hbefore hform hitems ihbefore ihform ihitems => exact isRead_item ihbefore ihform ihitems

/-- The form that a text spells first is the first that is read. -/
theorem first_of_spells {text : String} {d : Datum} {cs rest : List Char}
    (hbefore : Spells .trivia text.toList cs) (hform : Spells (.form d) cs rest)
    (features : List String) : first text features = .ok d := by
  have hfirst : advance features [] text.toList = .ok (some (d, rest)) :=
    (isRead_of_spells hbefore []).trans (isRead_of_spells hform [])
  rw [first, hfirst]

/-- A text that spells a datum and besides says nothing is read as that datum, and as nothing else,
whatever features are on. -/
theorem read_of_isSpelling {text : String} {d : Datum} (h : IsSpelling text d)
    (features : List String) :
    first text features = .ok d ∧ forms text features = ([d], none) := by
  obtain ⟨cs, rest, hbefore, hform, hafter⟩ := h
  have hfirst : advance features [] text.toList = .ok (some (d, rest)) :=
    (isRead_of_spells hbefore []).trans (isRead_of_spells hform [])
  have hlast : advance features [] rest = .ok none :=
    (isRead_of_spells hafter []).trans (advance_of_end rfl)
  refine ⟨first_of_spells hbefore hform features, ?_⟩
  rw [forms, formsFrom_of_some hfirst, formsFrom_of_none hlast]
  rfl

/-- The decimal numeral of a long integer is not read. -/
theorem first_toString_of_isLong {n : Int} (h : Datum.isLong n = true) (features : List String) :
    first (toString n) features = .error .badDigits := by
  have hend : EndsToken [] := by simp [EndsToken]
  obtain ⟨c, tail, hskip, hscan⟩ := exists_scan_toString n hend
  rw [List.append_nil] at hskip
  rw [if_pos h] at hscan
  rw [first, advance_of_scan_error hskip hscan]
  rfl

/-- The least integer with too many digits, written in decimal, is one that is not read. -/
theorem first_toString_leastLong :
    first (toString Datum.leastLong) ["clj"] = .error .badDigits :=
  first_toString_of_isLong Datum.isLong_leastLong ["clj"]

/-- A form is discarded and a line is a comment between the items of a map and a vector. -/
theorem read_of_isSpelling_discarding :
    IsSpelling "\x7b:a #_ b [1;c\nnil]\x7d" (.map [(.key "a", .vector [.int 1, .nil])]) ∧
      first "\x7b:a #_ b [1;c\nnil]\x7d" ["cljs"] =
        .ok (.map [(.key "a", .vector [.int 1, .nil])]) ∧
      forms "\x7b:a #_ b [1;c\nnil]\x7d" ["cljs"] =
        ([.map [(.key "a", .vector [.int 1, .nil])]], none) := by
  have h : IsSpelling "\x7b:a #_ b [1;c\nnil]\x7d" (.map [(.key "a", .vector [.int 1, .nil])]) := by
    have htext : "\x7b:a #_ b [1;c\nnil]\x7d".toList = ['{', ':', 'a', ' ', '#', '_', ' ', 'b',
      ' ', '[', '1', ';', 'c', '\n', 'n', 'i', 'l', ']', '}'] := by decide
    refine ⟨_, [], .nothing _, ?_, .nothing _⟩
    rw [htext]
    have hkey : IsToken (.keyword (.plain "a")) [':', 'a'] :=
      .keyword (t := ['a']) (by decide) (List.all_eq_true.1 rfl) (by decide)
    have hsymbol : IsToken (.sym "b") ['b'] :=
      .symbol (t := ['b']) (by decide) (List.all_eq_true.1 rfl) (by decide) (by simp) rfl
    have hone : IsToken (.int 1) ['1'] := .int (by decide)
    have hkeys : Entries.keys [(Name.plain "a", Datum.vector [.int 1, .nil])] |>.Nodup := by
      decide
    refine .map hkeys ?_
    refine .item (.nothing _) (.token hkey (endsToken_cons rfl _)) ?_
    refine .item (.blank rfl (.discard (.blank rfl (.nothing _))
      (.token hsymbol (endsToken_cons rfl _)) (.blank rfl (.nothing _)))) (.vector ?_)
      (.closing (.nothing _))
    refine .item (.nothing _) (.token hone (endsToken_cons rfl _)) ?_
    exact .item (.comment (.nothing _)) (.token .nil (endsToken_cons rfl _)) (.closing (.nothing _))
  exact ⟨h, read_of_isSpelling h ["cljs"]⟩

end Reader

end BuildFiles
