import BuildFiles.Loader.Text
import BuildFiles.Namespace.Source
import BuildFiles.Proofs.Reader.Rendering
import BuildFiles.Proofs.Reader.Symbol
import Mathlib.Data.List.Forall2

/-!
# Reading a loader

The text of a loader is a comment and two forms, whatever names it is made of: the declaration of
its namespace (`isRead_declarationForm`) and the function that returns the names
(`isRead_functionForm`). In a file for both dialects the requirements stand in a reader conditional,
which the dialect that they were found for reads as they are (`isRead_clause`). So a loader declares
the namespace it was asked for, with the requirements it was asked for: `read_of_text`.
-/

namespace BuildFiles

namespace Loader

open Reader

/-- The symbol that a name is written as. -/
def symbolOf (s : String) : Datum := .symbol (.parse s) []

/-- The clause that requires the names. -/
def clause (names : List String) : Datum := .list (.key "require" :: names.map symbolOf)

/-- The declaration of the namespace. -/
def declarationForm (ns : String) (names : List String) : Datum :=
  .list [.sym "ns", symbolOf ns, clause names]

/-- The function that returns the names. -/
def functionForm (function : String) (names : List String) : Datum :=
  .list [.sym "defn", symbolOf function, .vector [],
    .list [.sym "quote", .vector (names.map symbolOf)]]

variable {rest : List Char} {names : List String} {ns function s : String} {p : Platform}
  {features : List String} {delimiter : Char} {d : Datum}

/-! ## Parts of the text -/

theorem separates_lines : Separates "\n    " where
  trivia _ := .blank (c := '\n') rfl <| .blank (c := ' ') rfl <| .blank (c := ' ') rfl <|
    .blank (c := ' ') rfl <| .blank (c := ' ') rfl <| .nothing _
  endsToken _ := endsToken_cons (c := '\n') rfl _

theorem isRead_nameLines (hclose : isTokenChar delimiter = false)
    (h : ∀ n ∈ names, IsToken (symbolOf n) n.toList) :
    (Part.items (names.map symbolOf) delimiter).IsRead features
      ((nameLines names).toList ++ delimiter :: rest) rest := by
  refine isRead_of_spells (spells_intercalate separates_lines hclose ?_)
  rw [List.forall₂_map_left_iff, List.forall₂_same]
  exact fun n hn _ hrest => .token (h n hn) hrest

/-- A keyword before a blank or a bracket. -/
theorem isRead_keyword {t : List Char} (hne : t ≠ []) (ht : t.all isTokenChar = true)
    (hmark : t.head? ≠ some ':') (hrest : EndsToken rest) :
    (Part.form (.keyword (.parse (String.ofList t)))).IsRead features (':' :: t ++ rest) rest :=
  isRead_of_spells (.token (.keyword hne (List.all_eq_true.1 ht) hmark) hrest)

/-- A token that is a symbol. -/
theorem isRead_symbol {t : List Char} (hne : t ≠ []) (ht : t.all isTokenChar = true)
    (hliteral : t ∉ [['n', 'i', 'l'], ['t', 'r', 'u', 'e'], ['f', 'a', 'l', 's', 'e']])
    (hmark : ∀ c ∈ t.head?, c ∉ [':', '#', '\'']) (hnumber : startsNumber t = false)
    (hrest : EndsToken rest) :
    (Part.form (.symbol (.parse (String.ofList t)) [])).IsRead features (t ++ rest) rest :=
  isRead_of_spells (.token (.symbol hne (List.all_eq_true.1 ht) hliteral hmark hnumber) hrest)

theorem isRead_blank : Part.trivia.IsRead features (' ' :: rest) rest :=
  isRead_of_spells (.blank rfl (.nothing _))

theorem isRead_requirements (h : ∀ n ∈ names, IsToken (symbolOf n) n.toList) :
    (Part.form (clause names)).IsRead features
      ("(:require ".toList ++ ((nameLines names).toList ++ ')' :: rest)) rest :=
  isRead_bracket (b := .round) rfl rfl (isRead_item (fun _ => rfl)
    (isRead_keyword (t := ['r', 'e', 'q', 'u', 'i', 'r', 'e']) (by decide) rfl (by decide)
      (endsToken_cons (c := ' ') rfl _))
    (isRead_items_of_trivia isRead_blank (isRead_nameLines rfl h))) rfl

/-- A reader conditional of the dialect is the form that it holds. -/
theorem isRead_conditional {cs : List Char} (hrest : EndsToken cs)
    (h : (Part.form d).IsRead p.features cs (')' :: rest)) :
    (Part.form d).IsRead p.features ("#?(:".toList ++ (p.name.toList ++ cs)) rest := by
  cases p with
  | clj =>
    exact isRead_bracket (b := .conditional false) rfl rfl (isRead_item (fun _ => rfl)
      (isRead_keyword (t := ['c', 'l', 'j']) (by decide) rfl (by decide) hrest)
      (isRead_item (fun _ => rfl) h (isRead_closing fun _ => rfl))) (by with_unfolding_all rfl)
  | cljs =>
    exact isRead_bracket (b := .conditional false) rfl rfl (isRead_item (fun _ => rfl)
      (isRead_keyword (t := ['c', 'l', 'j', 's']) (by decide) rfl (by decide) hrest)
      (isRead_item (fun _ => rfl) h (isRead_closing fun _ => rfl))) (by with_unfolding_all rfl)

/-! ## The two forms -/

/-- The clause of requirements, and in a file for both dialects the conditional that it is in. The
text ends with the delimiters that close them and the one of the declaration. -/
theorem isRead_clause (shared : Bool) (h : ∀ n ∈ names, IsToken (symbolOf n) n.toList) :
    (Part.form (clause names)).IsRead p.features
      ((if shared then "#?(:" ++ p.name else "").toList ++ ("(:require ".toList ++
        ((nameLines names).toList ++ ("))".toList ++
          ((if shared then ")" else "").toList ++ rest)))))
      (')' :: rest) := by
  cases shared with
  | false => exact isRead_requirements h
  | true =>
    rw [if_pos rfl, if_pos rfl, String.toList_append, List.append_assoc]
    exact isRead_conditional (endsToken_cons (c := '(') rfl _) (isRead_requirements h)

theorem isRead_declarationForm {cs : List Char} (hns : IsToken (symbolOf ns) ns.toList)
    (h : (Part.form (clause names)).IsRead features cs (')' :: rest)) :
    (Part.form (declarationForm ns names)).IsRead features
      ("(ns ".toList ++ (ns.toList ++ ("\n  ".toList ++ cs))) rest := by
  have hhead : (Part.form (.sym "ns")).IsRead features
      ("ns".toList ++ (' ' :: (ns.toList ++ ("\n  ".toList ++ cs)))) _ :=
    isRead_symbol (t := ['n', 's']) (by decide) rfl (by decide) (by simp) rfl
      (endsToken_cons (c := ' ') rfl _)
  have hgap : Part.trivia.IsRead features ("\n  ".toList ++ cs) cs :=
    isRead_of_spells (.blank (c := '\n') rfl (.blank (c := ' ') rfl (.blank (c := ' ') rfl
      (.nothing _))))
  exact isRead_bracket (b := .round) rfl rfl (isRead_item (fun _ => rfl) hhead
    (isRead_item isRead_blank
      (isRead_of_spells (.token hns (endsToken_cons (c := '\n') rfl _)))
      (isRead_item hgap h (isRead_closing fun _ => rfl)))) rfl

/-- The second form of a loader is read from its text: the name of the function, no arguments, and a
quoted vector with one name on each line. -/
theorem isRead_functionForm (hfunction : IsToken (symbolOf function) function.toList)
    (h : ∀ n ∈ names, IsToken (symbolOf n) n.toList) :
    (Part.form (functionForm function names)).IsRead features
      ("(defn ".toList ++ (function.toList ++ (" []\n    '[".toList ++
        ((nameLines names).toList ++ ("])".toList ++ rest))))) rest := by
  have hhead : (Part.form (.sym "defn")).IsRead features
      ("defn".toList ++ (' ' :: (function.toList ++ (" []\n    '[".toList ++
        ((nameLines names).toList ++ ("])".toList ++ rest)))))) _ :=
    isRead_symbol (t := ['d', 'e', 'f', 'n']) (by decide) rfl (by decide) (by simp) rfl
      (endsToken_cons (c := ' ') rfl _)
  have hempty : (Part.form (.vector [])).IsRead features
      ('[' :: ("]\n    '[".toList ++ ((nameLines names).toList ++ ("])".toList ++ rest)))) _ :=
    isRead_bracket (b := .square) rfl rfl (isRead_closing fun _ => rfl) rfl
  have hvector : (Part.form (.vector (names.map symbolOf))).IsRead features
      ('[' :: ((nameLines names).toList ++ ("])".toList ++ rest))) (')' :: rest) :=
    isRead_bracket (b := .square) rfl rfl (isRead_nameLines rfl h) rfl
  have hgap : Part.trivia.IsRead features ("\n    ".toList ++
      ('\'' :: '[' :: ((nameLines names).toList ++ ("])".toList ++ rest)))) _ :=
    isRead_of_spells (separates_lines.trivia _)
  exact isRead_bracket (b := .round) rfl rfl (isRead_item (fun _ => rfl) hhead
    (isRead_item isRead_blank
      (isRead_of_spells (.token hfunction (endsToken_cons (c := ' ') rfl _)))
      (isRead_item isRead_blank hempty
        (isRead_item hgap (isRead_wrapped rfl rfl hvector) (isRead_closing fun _ => rfl))))) rfl

theorem isRead_comment {cs : List Char} : Part.trivia.IsRead features
    (";;; Generated by bazel, do not edit\n\n(ns ".toList ++ cs) ("(ns ".toList ++ cs) := by
  have hline : Spells .trivia ("\n(ns ".toList ++ cs) ("(ns ".toList ++ cs) :=
    .blank (c := '\n') rfl (.nothing _)
  exact isRead_of_spells
    (@Spells.comment (";; Generated by bazel, do not edit\n\n(ns ".toList ++ cs) _ hline)

theorem isRead_gap {cs : List Char} :
    Part.trivia.IsRead features ("\n\n\n(defn ".toList ++ cs) ("(defn ".toList ++ cs) :=
  isRead_of_spells (.blank (c := '\n') rfl (.blank (c := '\n') rfl (.blank (c := '\n') rfl
    (.nothing _))))

/-- The text of the function in its file, and the line feed that ends the file. -/
def functionText (function : String) (names : List String) : List Char :=
  "\n\n\n(defn ".toList ++ (function.toList ++ (" []\n    '[".toList ++
    ((nameLines names).toList ++ "])\n".toList)))

theorem advance_text (fileName function : String) (hns : IsToken (symbolOf ns) ns.toList)
    (h : ∀ n ∈ names, IsToken (symbolOf n) n.toList) :
    advance p.features [] (text fileName ns function names p).toList =
      .ok (some (declarationForm ns names, functionText function names)) := by
  have hform := isRead_declarationForm hns
    (@isRead_clause (functionText function names) names p (Text.endsWith fileName ".cljc") h)
  delta text
  simp only [String.toList_append, List.append_assoc]
  exact (isRead_comment []).trans (hform [])

theorem advance_functionText (hfunction : IsToken (symbolOf function) function.toList)
    (h : ∀ n ∈ names, IsToken (symbolOf n) n.toList) :
    advance features [] (functionText function names) =
      .ok (some (functionForm function names, ['\n'])) :=
  (isRead_gap []).trans (isRead_functionForm hfunction h [])

/-- The text of a loader is read as its two forms. -/
theorem forms_text (fileName : String) (hns : IsToken (symbolOf ns) ns.toList)
    (hfunction : IsToken (symbolOf function) function.toList)
    (h : ∀ n ∈ names, IsToken (symbolOf n) n.toList) :
    forms (text fileName ns function names p) p.features =
      ([declarationForm ns names, functionForm function names], none) := by
  rw [forms, formsFrom_of_some (advance_text fileName function hns h),
    formsFrom_of_some (advance_functionText hfunction h), formsFrom_of_none (advance_of_end rfl)]
  rfl

/-! ## The declaration -/

theorem allNames_symbolOf (names : List String) :
    Declaration.allNames none (names.map symbolOf) = names := by
  induction names with
  | nil => rfl
  | cons n names ih =>
    rw [List.map_cons, Declaration.allNames, ih, symbolOf, Declaration.specNames,
      Declaration.joined, Name.text_parse]
    rfl

/-- A loader declares its namespace, which requires the names. -/
theorem exists_declaration (fileName function source : String)
    (hns : IsToken (symbolOf ns) ns.toList) (h : ∀ n ∈ names, IsToken (symbolOf n) n.toList) :
    ∃ d, Source.declaration? (text fileName ns function names p) source p = .ok (some d) ∧
      d.name = ns ∧ ∀ n, n ∈ d.requires ↔ n ∈ names := by
  have hfirst : first (text fileName ns function names p) p.features =
      .ok (declarationForm ns names) := by
    rw [first, advance_text fileName function hns h]
  have hhead : (Datum.sym "ns" == .sym "ns") = true := by with_unfolding_all rfl
  have hclause : Declaration.dependencyClauses.contains "require" = true := by decide
  rw [Source.declaration?, hfirst]
  simp only [declarationForm, Declaration.isForm, Declaration.ofForm, symbolOf, hhead, if_true]
  refine ⟨_, rfl, Name.text_parse ns, fun n => ?_⟩
  rw [Text.mem_sortedOnce]
  change n ∈ Declaration.Clause.requires ⟨"require", names.map symbolOf⟩ ++ [] ↔ _
  rw [List.append_nil, Declaration.Clause.requires, if_pos hclause, allNames_symbolOf]

/-- A loader is read as what was asked for, by the dialect that it was written for: two forms of
the given names, and a declaration that requires those names and no others. -/
theorem read_of_text {p : Platform} {ns function : String} {names : List String}
    (hns : IsSymbol p.features ns) (hfunction : IsSymbol p.features function)
    (hnames : ∀ n ∈ names, IsSymbol p.features n) (fileName source : String) :
    forms (text fileName ns function names p) p.features =
        ([declarationForm ns names, functionForm function names], none) ∧
      ∃ d, Source.declaration? (text fileName ns function names p) source p = .ok (some d) ∧
        d.name = ns ∧ ∀ n, n ∈ d.requires ↔ n ∈ names := by
  have hns : IsToken (symbolOf ns) ns.toList := isToken_of_isSymbol hns
  have hnames : ∀ n ∈ names, IsToken (symbolOf n) n.toList :=
    fun n hn => isToken_of_isSymbol (hnames n hn)
  exact ⟨forms_text fileName hns (isToken_of_isSymbol hfunction) hnames,
    exists_declaration fileName function source hns hnames⟩

/-- A file for both dialects, with requirements for the second of them. -/
theorem read_of_text_shared :
    IsSymbol ["cljs"] "app.all" ∧ IsSymbol ["cljs"] "names" ∧
      (∀ n ∈ ["app.b", "lib/a"], IsSymbol ["cljs"] n) ∧
      forms (text "all.cljc" "app.all" "names" ["app.b", "lib/a"] .cljs) ["cljs"] =
        ([declarationForm "app.all" ["app.b", "lib/a"],
          functionForm "names" ["app.b", "lib/a"]], none) ∧
      ∃ d, Source.declaration? (text "all.cljc" "app.all" "names" ["app.b", "lib/a"] .cljs)
          "all.cljc" .cljs = .ok (some d) ∧
        d.name = "app.all" ∧ ∀ n, n ∈ d.requires ↔ n ∈ ["app.b", "lib/a"] := by
  have hns : IsSymbol ["cljs"] "app.all" := isSymbol_of_token (by decide)
  have hfunction : IsSymbol ["cljs"] "names" := isSymbol_of_token (by decide)
  have hnames : ∀ n ∈ ["app.b", "lib/a"], IsSymbol ["cljs"] n :=
    List.forall_mem_cons.2 ⟨isSymbol_of_token (by decide), List.forall_mem_cons.2
      ⟨isSymbol_of_token (by decide), fun _ h => nomatch h⟩⟩
  exact ⟨hns, hfunction, hnames, read_of_text (p := .cljs) hns hfunction hnames _ _⟩

end Loader

end BuildFiles
