import BuildFiles.Archive.Contents
import BuildFiles.Proofs.Reader.Worthless
import BuildFiles.Proofs.Sources.Frame

/-!
# Files that are passed over

A source file that cannot be read is to be passed over while files are gone through. That holds of
every fault of a text but those of values that stand for nothing: `isSkippable_of_not_stumbles`.
So a folder is gone through to its end if the reading of no file stumbles over such a value
(`returns_declarationsIn`), and the first file where it does so is the end of it
(`fails_declarationsIn`); the entries of an archive likewise.
-/

namespace BuildFiles

namespace Source

variable {t : Tree} {platform : Platform} {folder p : Path} {text source : String}

/-! ## One text -/

/-- A text whose first form stumbles has no declaration, and the fault is that of the reading: it is
not told as one of the text. -/
theorem declaration?_of_stumbles {e : ReadFault}
    (h : Reader.Stumbles platform.features [] text.toList e) :
    declaration? text source platform = .error (.reading e) := by
  rw [declaration?, Reader.first_of_stumbles h]
  have hline : e.IsLineless := h.isLineless
  cases e with
  | malformed cause line => exact hline.elim
  | _ => rfl

/-- Every disagreement of a form with what declarations look like is passed over. -/
theorem isSkippable_of_ofForm {form : Datum} {f : Fault}
    (h : Declaration.ofForm form source = .error f) : isSkippable f = true := by
  unfold Declaration.ofForm at h
  dsimp only at h
  generalize (if source.isEmpty = true then "<form>" else source) = place at h
  split at h
  · split at h
    · split at h
      · cases h
      · cases h
        rfl
    · cases h
      rfl
  · cases h
    rfl

/-- So a text that does not stumble either has a declaration, or none, or is passed over. -/
theorem isSkippable_of_not_stumbles {f : Fault}
    (h : ∀ e, ¬ Reader.Stumbles platform.features [] text.toList e)
    (hf : declaration? text source platform = .error f) : isSkippable f = true := by
  rw [declaration?] at hf
  split at hf
  · next e he =>
    cases hf
    rcases Reader.malformed_or_stumbles he with ⟨cause, line, rfl⟩ | hstumbles
    · rw [fault]
      split_ifs <;> rfl
    · exact (h e hstumbles).elim
  · next form hform =>
    split_ifs at hf
    · rcases hd : Declaration.ofForm form source with f' | d
      · rw [hd] at hf
        cases hf
        exact isSkippable_of_ofForm hd
      · rw [hd] at hf
        cases hf

/-! ## The files of a folder -/

/-- The file can be read without stumbling, or it is no text. -/
def ReadsOn (t : Tree) (platform : Platform) (p : Path) : Prop :=
  ∀ text, t.readText p = .ok text → ∀ e, ¬ Reader.Stumbles platform.features [] text.toList e

/-- The declaration that is found in a file, none in one that is passed over. -/
def found? (t : Tree) (platform : Platform) (p : Path) : Option (Path × Declaration) :=
  match declarationOf? t p platform with
  | .ok d => d.map fun d => (p, d)
  | .error _ => none

/-- No name of a file in a proper tree holds a null character, so there is none in the path of a
file that is gone through. -/
theorem whole_of_mem_files (ht : t.IsProper) (hp : p ∈ files t folder platform) :
    ∀ n ∈ p.names, Tree.isBroken n = false := by
  rw [files] at hp
  split at hp
  · cases hp
  · next l hlocate =>
    obtain ⟨way, hway, rfl⟩ := List.mem_map.1 hp
    rw [List.mem_mergeSort, List.mem_filter] at hway
    obtain ⟨-, hfile, -⟩ := Sources.mem_filesWalked.1 hway.1
    obtain ⟨ns, hns, -⟩ := Except.bind_eq_ok hlocate
    intro n hn
    rw [Path.join_ofNames, List.mem_append] at hn
    rcases hn with hn | hn
    · rw [Tree.namesOf] at hns
      split_ifs at hns with hbroken
      rw [Bool.not_eq_true] at hbroken
      exact Bool.not_eq_true _ ▸ List.any_eq_false.1 hbroken n hn
    · have hkey := List.mem_append_left t.folders (Tree.isFile_iff.1 hfile)
      exact (ht.names _ hkey n (List.mem_append_right l hn)).whole

/-- A walk along names never complains of the null character: it is looked for before. -/
theorem go_ne_nullCharacter (l : Location) (ns : List String) :
    t.go l ns ≠ .error .nullCharacter := by
  induction ns generalizing l with
  | nil => rintro ⟨⟩
  | cons n ns ih =>
    rw [Tree.go]
    split_ifs
    · rintro ⟨⟩
    · rintro ⟨⟩
    · rintro ⟨⟩
    · exact ih _
    · exact ih _

/-- A path whose names hold no null character is looked at without that complaint. -/
theorem locate_ne_nullCharacter (h : ∀ n ∈ p.names, Tree.isBroken n = false) :
    t.locate p ≠ .error .nullCharacter := by
  have hwhole : p.names.any Tree.isBroken = false := by
    rw [List.any_eq_false]
    exact fun n hn => by simp [h n hn]
  rw [Tree.locate, Tree.namesOf, hwhole, if_neg Bool.false_ne_true]
  split_ifs
  · rintro ⟨⟩
  · exact go_ne_nullCharacter [] p.names

/-- A path whose names hold no null character is read without that complaint, whatever else may be
wrong with it. -/
theorem readText_ne_nullCharacter (h : ∀ n ∈ p.names, Tree.isBroken n = false) :
    t.readText p ≠ .error .nullCharacter := by
  intro hnull
  rcases Except.bind_eq_error hnull with hread | ⟨bytes, -, htext⟩
  · rcases Except.bind_eq_error hread with hlocate | ⟨l, -, hget⟩
    · exact locate_ne_nullCharacter h hlocate
    · split at hget
      · cases hget
      · split_ifs at hget <;> cases hget
  · split at htext <;> cases htext

/-- A file that can be read on is indexed as what is found in it, and no fault comes of it. -/
theorem returns_indexed? (hp : t.readText p ≠ .error .nullCharacter) (h : ReadsOn t platform p) :
    (indexed? t platform p).Returns (found? t platform p) := by
  rcases hd : declarationOf? t p platform with f | d
  · have hskip : isSkippable f = true := by
      rw [declarationOf?] at hd
      split at hd
      · next text htext => exact isSkippable_of_not_stumbles (h text htext) hd
      · next hnull => exact absurd hnull hp
      · cases hd
        rfl
    have hfound : found? t platform p = none := by rw [found?, hd]
    rw [indexed?, hd, hfound]
    dsimp only
    rw [if_pos hskip]
    exact (Logged.Returns.say _).bind (.pure none)
  · have hfound : found? t platform p = d.map fun d => (p, d) := by rw [found?, hd]
    rw [indexed?, hd, hfound]
    exact .pure _

/-- A file whose first form stumbles ends the indexing. -/
theorem fails_indexed? {e : ReadFault} (htext : t.readText p = .ok text)
    (h : Reader.Stumbles platform.features [] text.toList e) :
    (indexed? t platform p).Fails (.reading e) := by
  have hfault : declarationOf? t p platform = .error (.reading e) := by
    rw [declarationOf?, htext]
    exact declaration?_of_stumbles h
  rw [indexed?, hfault]
  exact .throw _

/-- Looking for a folder says nothing. -/
theorem hasFolder_bind {b : Bool} (hfolder : t.hasFolder folder = .ok b) :
    (Logged.of ((t.hasFolder folder).mapError Fault.file)).Returns b := .of (by rw [hfolder]; rfl)

theorem filterMap_id_map {α β : Type} (f : α → Option β) (l : List α) :
    (l.map f).filterMap id = l.filterMap f := by
  rw [List.filterMap_map]
  rfl

/-- A folder is gone through to its end if no file is stumbled over, and the files that cannot be
read are left out. -/
theorem returns_declarationsIn (ht : t.IsProper) {b : Bool} (hfolder : t.hasFolder folder = .ok b)
    (h : ∀ p ∈ files t folder platform, ReadsOn t platform p) :
    (declarationsIn t folder platform).Returns
      ((files t folder platform).filterMap (found? t platform)) := by
  have hmapM : ((files t folder platform).mapM (indexed? t platform)).Returns
      ((files t folder platform).map (found? t platform)) :=
    .mapM fun p hp =>
      returns_indexed? (readText_ne_nullCharacter (whole_of_mem_files ht hp)) (h p hp)
  rw [declarationsIn, ← filterMap_id_map]
  exact (hasFolder_bind hfolder).bind (hmapM.bind (.pure _))

/-- The first file that is stumbled over is the end of it. -/
theorem fails_declarationsIn (ht : t.IsProper) {b : Bool} (hfolder : t.hasFolder folder = .ok b)
    {before after : List Path} (hfiles : files t folder platform = before ++ p :: after)
    (hbefore : ∀ q ∈ before, ReadsOn t platform q) (htext : t.readText p = .ok text) {e : ReadFault}
    (h : Reader.Stumbles platform.features [] text.toList e) :
    (declarationsIn t folder platform).Fails (.reading e) := by
  have hmapM : ((files t folder platform).mapM (indexed? t platform)).Fails (.reading e) := by
    rw [hfiles]
    refine .mapM (fun q hq => ⟨_, returns_indexed? ?_ (hbefore q hq)⟩) (fails_indexed? htext h)
    have hmem : q ∈ files t folder platform := by
      rw [hfiles]
      exact List.mem_append_left _ hq
    exact readText_ne_nullCharacter (whole_of_mem_files ht hmem)
  rw [declarationsIn]
  exact (hasFolder_bind hfolder).bind_fails (hmapM.of_first _)

end Source

/-! ## The entries of an archive -/

namespace Archive.Contents

variable {t : Tree} {p : Path} {o : Opened} {e : Entry}

/-- The entry is looked into. -/
def isLookedInto (e : Entry) : Bool := !e.isFolder && isSource e

/-- The entry has a name, and it can be taken out if it is looked into. -/
def Opened.IsSound (o : Opened) (e : Entry) : Prop :=
  e.shownName.isEmpty = false ∧ (isLookedInto e = true → ∃ text, o.text? e = .ok text)

/-- The entry can be read without stumbling, or it is no text or not looked into. -/
def Opened.ReadsOn (o : Opened) (e : Entry) : Prop :=
  isLookedInto e = true → ∀ text, o.text? e = .ok (some text) →
    ∀ fault, ¬ Reader.Stumbles Platform.clj.features [] text.toList fault

/-- The declaration that is found in an entry, none in one that is passed over. -/
def Opened.found? (o : Opened) (e : Entry) : Option Declaration :=
  if isLookedInto e then
    match o.text? e with
    | .ok (some text) =>
      match Source.declaration? text (o.place e) .clj with
      | .ok d => d
      | .error _ => none
    | _ => none
  else none

/-- An entry of an archive that can be read on has the declaration that is found in it. -/
theorem returns_declaration? (hlooked : isLookedInto e = true) {content : Option String}
    (hcontent : o.text? e = .ok content) (h : o.ReadsOn e) :
    (o.declaration? e).Returns (o.found? e) := by
  rw [Opened.declaration?, Opened.found?, if_pos hlooked, hcontent]
  refine (Logged.Returns.of rfl).bind ?_
  cases content with
  | none => exact (Logged.Returns.say _).bind (.pure none)
  | some text =>
    dsimp only
    rcases hd : Source.declaration? text (o.place e) .clj with f | d
    · have hskip : Source.isSkippable f = true :=
        Source.isSkippable_of_not_stumbles (h hlooked text hcontent) hd
      dsimp only
      rw [if_pos hskip]
      exact (Logged.Returns.say _).bind (.pure none)
    · exact .pure d

/-- An entry with a name is looked into if its name says so, and passed over otherwise. -/
theorem visit_eq (hname : e.shownName.isEmpty = false) :
    o.visit e = if isLookedInto e then o.declaration? e else pure none :=
  if_neg (by simp [hname])

/-- A sound entry that can be read on gives what is found in it. -/
theorem returns_visit (hsound : o.IsSound e) (h : o.ReadsOn e) :
    (o.visit e).Returns (o.found? e) := by
  rw [visit_eq hsound.1]
  by_cases hlooked : isLookedInto e = true
  · obtain ⟨content, hcontent⟩ := hsound.2 hlooked
    rw [if_pos hlooked]
    exact returns_declaration? hlooked hcontent h
  · rw [if_neg hlooked, Opened.found?, if_neg hlooked]
    exact .pure none

/-- An entry whose first form stumbles ends the scan of its archive. -/
theorem fails_visit (hname : e.shownName.isEmpty = false) (hlooked : isLookedInto e = true)
    {text : String} (htext : o.text? e = .ok (some text)) {fault : ReadFault}
    (h : Reader.Stumbles Platform.clj.features [] text.toList fault) :
    (o.visit e).Fails (.reading fault) := by
  rw [visit_eq hname, if_pos hlooked, Opened.declaration?, htext]
  refine (Logged.Returns.of rfl).bind_fails ?_
  dsimp only
  rw [Source.declaration?_of_stumbles h]
  exact .throw _

/-- An archive is gone through to its end if no entry is stumbled over, and the entries that cannot
be read are left out. -/
theorem returns_ofFile (hopened : opened t p = .ok o) (hsound : ∀ e ∈ o.entries, o.IsSound e)
    (h : ∀ e ∈ o.entries, o.ReadsOn e) :
    ∃ contents, (ofFile t p).Returns contents ∧
      contents.declarations = o.entries.filterMap o.found? := by
  have hmapM : (o.entries.mapM o.visit).Returns (o.entries.map o.found?) :=
    .mapM fun e he => returns_visit (hsound e he) (h e he)
  have hreturns : (ofFile t p).Returns ⟨(o.entries.map o.found?).filterMap id,
      Text.sortedOnce ((o.entries.filter fun e => !e.isFolder).filterMap
        fun e => className? e.shownName)⟩ :=
    (Logged.Returns.of hopened).bind (hmapM.bind ((Logged.Returns.say _).bind (.pure _)))
  exact ⟨_, hreturns, Source.filterMap_id_map o.found? o.entries⟩

/-- The first entry that is stumbled over is the end of it. -/
theorem fails_ofFile (hopened : opened t p = .ok o) {before after : List Entry}
    (hentries : o.entries = before ++ e :: after) (hsound : ∀ e ∈ o.entries, o.IsSound e)
    (hbefore : ∀ e ∈ before, o.ReadsOn e) (hlooked : isLookedInto e = true) {text : String}
    (htext : o.text? e = .ok (some text)) {fault : ReadFault}
    (h : Reader.Stumbles Platform.clj.features [] text.toList fault) :
    (ofFile t p).Fails (.reading fault) := by
  have hmem : ∀ e' ∈ before ++ [e], e' ∈ o.entries := by
    intro e' he'
    rw [hentries, ← List.singleton_append, ← List.append_assoc]
    exact List.mem_append_left after he'
  have hmapM : (o.entries.mapM o.visit).Fails (.reading fault) := by
    rw [hentries]
    refine .mapM (fun e' he' => ⟨_, returns_visit ?_ (hbefore e' he')⟩)
      (fails_visit ?_ hlooked htext h)
    · exact hsound e' (hmem e' (List.mem_append_left _ he'))
    · exact (hsound e (hmem e (by simp))).1
  rw [ofFile]
  exact (Logged.Returns.of hopened).bind_fails (hmapM.of_first _)

end Archive.Contents

/-! ## Texts, folders and archives -/

open Reader

/-- A source text that cannot be read is a fault that lets it be passed over, unless its reading
stumbles. So the folders and archives of a tree are gone through to the end, and what cannot be read
is left out, as long as nothing in them is stumbled over; and what is stumbled over first is the end
of it. Nothing is said of the texts whose reading comes to half of a character, which no text here
can hold. -/
theorem skippable_unless_stumbling (t : Tree) (ht : t.IsProper) (platform : Platform) :
    (∀ text source,
      ((∀ e, ¬ Stumbles platform.features [] text.toList e) → ∀ f,
        Source.declaration? text source platform = .error f → Source.isSkippable f = true) ∧
      ∀ e, e ≠ .halfCharacter → Stumbles platform.features [] text.toList e →
        Source.declaration? text source platform = .error (.reading e)) ∧
    (∀ folder isThere, t.hasFolder folder = .ok isThere →
      ((∀ p ∈ Source.files t folder platform, Source.ReadsOn t platform p) →
        (Source.declarationsIn t folder platform).Returns
          ((Source.files t folder platform).filterMap (Source.found? t platform))) ∧
      ∀ before p after text e, Source.files t folder platform = before ++ p :: after →
        (∀ q ∈ before, Source.ReadsOn t platform q) → t.readText p = .ok text →
        e ≠ .halfCharacter → Stumbles platform.features [] text.toList e →
        (Source.declarationsIn t folder platform).Fails (.reading e)) ∧
    ∀ p o, Archive.Contents.opened t p = .ok o → (∀ entry ∈ o.entries, o.IsSound entry) →
      ((∀ entry ∈ o.entries, o.ReadsOn entry) →
        ∃ contents, (Archive.Contents.ofFile t p).Returns contents ∧
          contents.declarations = o.entries.filterMap o.found?) ∧
      ∀ before entry after text e, o.entries = before ++ entry :: after →
        (∀ other ∈ before, o.ReadsOn other) → Archive.Contents.isLookedInto entry = true →
        o.text? entry = .ok (some text) → e ≠ .halfCharacter →
        Stumbles Platform.clj.features [] text.toList e →
        (Archive.Contents.ofFile t p).Fails (.reading e) := by
  refine ⟨fun text source => ⟨?_, ?_⟩, fun folder isThere hfolder => ⟨?_, ?_⟩,
    fun p o hopened hsound => ⟨?_, ?_⟩⟩
  · exact fun h f hf => Source.isSkippable_of_not_stumbles h hf
  · exact fun e _ h => Source.declaration?_of_stumbles h
  · exact Source.returns_declarationsIn ht hfolder
  · intro before p after text e hfiles hbefore htext _ h
    exact Source.fails_declarationsIn ht hfolder hfiles hbefore htext h
  · exact Archive.Contents.returns_ofFile hopened hsound
  · intro before entry after text e hentries hbefore hlooked htext _ h
    exact Archive.Contents.fails_ofFile hopened hentries hsound hbefore hlooked htext h

/-- The example stumbles: it is a ratio with nothing but zero below the stroke. -/
theorem stumbles_overZero (features : List String) :
    Stumbles features [] "1/0".toList .zeroDenominator := by
  have hratio : (splitSign (token ['1', '/', '0'])).2 = ['1'] ++ '/' :: ['0'] := rfl
  have hworthless : IsWorthless ['1', '/', '0'] .zeroDenominator := by
    refine .number ?_
    rw [hratio]
    exact .ratio rfl rfl (by decide) (by decide) rfl
  exact .literal hworthless

/-- A folder with a declaration, a ratio over zero, and an archive that holds one too. -/
def stumblingTree : Tree where
  files := [(["w", "a.clj"], "(ns a)".toUTF8), (["w", "b.clj"], "1/0".toUTF8),
    (["w", "c.jar"], Archive.encode [("b.clj", "1/0".toUTF8)])]

/-- The folder has two files, and the first one is sound. -/
theorem files_stumblingTree : Source.files stumblingTree (.parse "/w") .clj =
    [.parse "/w/a.clj"] ++ .parse "/w/b.clj" :: [] := by
  have hlocate : stumblingTree.locate (.parse "/w") = .ok ["w"] := by decide +kernel
  have hread : (stumblingTree.filesWalked (fun _ => true) (.parse "/w") ["w"]).filter
      (fun way => Platform.clj.reads (Tree.lastName way)) = [["a.clj"], ["b.clj"]] := by
    decide +kernel
  rw [Source.files, hlocate]
  dsimp only
  rw [hread, List.mergeSort_of_pairwise (by decide)]
  decide +kernel

/-- Nothing keeps the first file from being read on. -/
theorem readsOn_stumblingTree : Source.ReadsOn stumblingTree .clj (.parse "/w/a.clj") := by
  have htext : stumblingTree.readText (.parse "/w/a.clj") = .ok "(ns a)" := by decide +kernel
  have hfirst : (Reader.first "(ns a)" Platform.clj.features).toOption.isSome = true := by
    decide +kernel
  intro text h e hstumbles
  obtain rfl : "(ns a)" = text := Except.ok.inj (htext.symm.trans h)
  rw [Reader.first_of_stumbles hstumbles] at hfirst
  cases hfirst

/-- The archive has one entry, which is named, can be taken out, and reads as a ratio over zero. -/
theorem exists_opened_stumblingTree : ∃ o entry,
    Archive.Contents.opened stumblingTree (.parse "/w/c.jar") = .ok o ∧ o.entries = [entry] ∧
      entry.shownName.isEmpty = false ∧ Archive.Contents.isLookedInto entry = true ∧
      o.text? entry = .ok (some "1/0") := by
  have hopened : (Archive.Contents.opened stumblingTree (.parse "/w/c.jar")).toOption.any
      (fun o => o.entries.length == 1 && o.entries.all fun entry => !entry.shownName.isEmpty &&
        Archive.Contents.isLookedInto entry &&
        (o.text? entry).toOption.any fun content => content == some "1/0") = true := by
    decide +kernel
  rcases ho : Archive.Contents.opened stumblingTree (.parse "/w/c.jar") with e | o
  · rw [ho] at hopened
    cases hopened
  · rw [ho] at hopened
    obtain ⟨hlength, hall⟩ := Bool.and_eq_true_iff.1 hopened
    obtain ⟨entry, hentry⟩ := List.length_eq_one_iff.1 (eq_of_beq hlength)
    rw [hentry, List.all_cons, List.all_nil, Bool.and_true, Bool.and_eq_true, Bool.and_eq_true,
      Bool.not_eq_true'] at hall
    obtain ⟨⟨hname, hlooked⟩, htext⟩ := hall
    refine ⟨o, entry, rfl, hentry, hname, hlooked, ?_⟩
    rcases hcontent : o.text? entry with e | content
    · rw [hcontent] at htext
      cases htext
    · rw [hcontent] at htext
      rw [eq_of_beq (show (content == some "1/0") = true from htext)]

/-- One ratio over zero is the end of a folder with another file in it, and of an archive. -/
theorem skippable_unless_stumbling_overZero :
    Source.declaration? "1/0" "b.clj" .clj = .error (.reading .zeroDenominator) ∧
      (Source.declarationsIn stumblingTree (.parse "/w") .clj).Fails (.reading .zeroDenominator) ∧
      (Archive.Contents.ofFile stumblingTree (.parse "/w/c.jar")).Fails
        (.reading .zeroDenominator) := by
  have hproper : stumblingTree.IsProper := by decide +kernel
  obtain ⟨htexts, hfolders, harchives⟩ := skippable_unless_stumbling stumblingTree hproper .clj
  have hfolder : stumblingTree.hasFolder (.parse "/w") = .ok true := by decide +kernel
  have htext : stumblingTree.readText (.parse "/w/b.clj") = .ok "1/0" := by decide +kernel
  obtain ⟨o, entry, hopened, hentries, hname, hlooked, hcontent⟩ := exists_opened_stumblingTree
  refine ⟨?_, ?_, ?_⟩
  · exact (htexts "1/0" "b.clj").2 _ nofun (stumbles_overZero _)
  · refine (hfolders _ true hfolder).2 _ _ _ _ _ files_stumblingTree
      (fun q hq => ?_) htext nofun (stumbles_overZero _)
    rw [List.mem_singleton.1 hq]
    exact readsOn_stumblingTree
  · refine (harchives _ o hopened fun e he => ?_).2 [] entry [] _ _ hentries
      (List.forall_mem_nil _) hlooked hcontent nofun (stumbles_overZero _)
    rw [hentries] at he
    obtain rfl := List.mem_singleton.1 he
    exact ⟨hname, fun _ => ⟨_, hcontent⟩⟩

end BuildFiles
