import BuildFiles.Library.Targets
import BuildFiles.Proofs.Sources.Generation

/-!
# Line endings of generated files

When a file is brought up to a text, it comes to hold the bytes of the text, whatever it held
before, with one exception: bytes that are those of a text with carriage returns, which reads as the
new one only as line endings are read as line feeds, are kept (`ReadsOnly`). So the build file of a
folder or of the libraries holds the bytes of its text once it is generated, unless it held that
text with other line endings (`updated_of_generated`).
-/

namespace BuildFiles

namespace Tree

variable {t t' : Tree} {p : Path} {text : String}

/-- Bytes of a text that reads as the given one, but has some line endings with a carriage
return. -/
def ReadsOnly (content : ByteArray) (text : String) : Prop :=
  ∃ s, String.fromUTF8? content = some s ∧ '\r' ∈ s.toList ∧ Text.plainLines s = text

theorem not_readsOnly_toUTF8 (text : String) : ¬ ReadsOnly text.toUTF8 text := by
  rintro ⟨s, hs, hmem, hplain⟩
  obtain rfl : text = s := Option.some.inj ((fromUTF8?_toUTF8 text).symm.trans hs)
  exact Text.plainLines_eq_iff.1 hplain hmem

theorem ReadsOnly.reads {content : ByteArray} (h : ReadsOnly content text) :
    (String.fromUTF8? content).map Text.plainLines = some text := by
  obtain ⟨s, hs, -, hplain⟩ := h
  rw [hs, Option.map_some, hplain]

/-- A file that is brought up to a text holds the bytes of the text, unless it read as the text by
its carriage returns. -/
theorem leftBy_eq_toUTF8_iff {old : Option ByteArray} : leftBy old text = text.toUTF8 ↔
    ¬ ∃ content, old = some content ∧ ReadsOnly content text := by
  constructor
  · rintro hleft ⟨content, rfl, hreads⟩
    rw [leftBy, if_pos hreads.reads] at hleft
    exact not_readsOnly_toUTF8 text (hleft ▸ hreads)
  · intro hnot
    rcases old with _ | content
    · rfl
    · rw [leftBy]
      split
      · next hreads =>
        obtain ⟨s, hs, rfl⟩ := Option.map_eq_some_iff.1 hreads
        have hplain : Text.plainLines s = s :=
          Text.plainLines_eq fun hmem => hnot ⟨content, rfl, s, hs, hmem, rfl⟩
        rw [hplain, toUTF8_of_fromUTF8? hs]
      · rfl

/-- What bringing a file up to a text makes of a tree. The file holds the bytes of the text, except
that nothing is done where the old bytes read as the text only by their carriage returns. -/
structure Updated (t : Tree) (p : Path) (text : String) (t' : Tree) : Prop where
  writes : ∃ l, t'.locate p = .ok l ∧ t.Writes l t'
  holds_iff : t'.read p = .ok text.toUTF8 ↔
    ¬ ∃ content, t.read p = .ok content ∧ ReadsOnly content text
  kept : ∀ content, t.read p = .ok content → ReadsOnly content text → t' = t

theorem updated_of_update {changed : Bool} (h : t.update p text = .ok (t', changed)) :
    t.Updated p text t' := by
  obtain ⟨l, hl, hwrites, hread⟩ := read_of_update h
  refine ⟨⟨l, hl, hwrites⟩, ?_, fun content hcontent hreads => ?_⟩
  · have hold : ∀ content, (t.read p).toOption = some content ↔ t.read p = .ok content := by
      intro content
      cases t.read p <;> simp [Except.toOption]
    rw [hread, Except.ok.injEq, leftBy_eq_toUTF8_iff]
    simp only [hold]
  · have hsame : t.readText p = .ok text := readText_eq_ok_iff.2 ⟨content, hcontent, hreads.reads⟩
    rw [update_of_readText hsame] at h
    cases h
    rfl

end Tree

/-- The build file of the libraries is brought up to its text. -/
theorem Library.Context.Yields.generate {c : Library.Context} {t t' : Tree} {p : Path}
    (h : (c.generate t).Yields (t', p)) : ∃ text changed, c.text.Yields text ∧
      t.update (c.folder.entry BuildFile.fileName) text = .ok (t', changed) ∧
      p = c.folder.entry BuildFile.fileName := by
  obtain ⟨_, -, h⟩ := h.bind
  obtain ⟨text, htext, h⟩ := h.bind
  split at h
  · exact h.throw.elim
  · next t'' changed hupdate =>
    obtain ⟨rfl, rfl⟩ := Prod.mk.inj h.pure
    exact ⟨text, changed, htext, hupdate, rfl⟩

/-- What is brought up to a text, by itself or as a build file that is generated, holds the bytes of
the text, unless it read as the text by its carriage returns; then it is as before. -/
theorem updated_of_generated (t t' : Tree) (p : Path) :
    (∀ text changed, t.update p text = .ok (t', changed) → t.Updated p text t') ∧
    (∀ (l : Sources.Layout) (folder : Path), (l.generate t folder).Yields (t', p) →
      p = folder.entry BuildFile.fileName ∧
        ∃ text, (l.text t folder).Yields text ∧ t.Updated p text t') ∧
    (∀ c : Library.Context, (c.generate t).Yields (t', p) →
      p = c.folder.entry BuildFile.fileName ∧
        ∃ text, c.text.Yields text ∧ t.Updated p text t') := by
  refine ⟨fun text changed h => Tree.updated_of_update h, fun l folder h => ?_, fun c h => ?_⟩
  · obtain ⟨text, changed, htext, hupdate, rfl⟩ := Sources.Layout.Yields.generate h
    exact ⟨rfl, text, htext, Tree.updated_of_update hupdate⟩
  · obtain ⟨text, changed, htext, hupdate, rfl⟩ := Library.Context.Yields.generate h
    exact ⟨rfl, text, htext, Tree.updated_of_update hupdate⟩

/-! ## A file with a carriage return -/

/-- No libraries, so that there is only the target for all of them. -/
def bareLibraries : Library.Context where
  index := {}
  folder := ⟨.root, []⟩

/-- No sources and no overrides, so that there are only the targets for the subtree of a folder. -/
def bareLayout : Sources.Layout where
  index := {}
  overrides := {}
  settings := {}
  base := ⟨.root, []⟩
  folders := []
  ignored := []

/-- A tree with a file of two lines, of which the first ends in a carriage return and a line
feed. -/
def markedTree : Tree where
  files := [(["x"], "a\r\nb".toUTF8)]

theorem not_readsOnly_markedTree (text : String) : ¬ ∃ content,
    markedTree.read (Path.entry ⟨.root, []⟩ BuildFile.fileName) = .ok content ∧
      Tree.ReadsOnly content text := by
  have hmissing : markedTree.read (Path.entry ⟨.root, []⟩ BuildFile.fileName) =
      .error .missing := by
    decide +kernel
  rintro ⟨content, hread, -⟩
  rw [hmissing] at hread
  cases hread

/-- The file reads as its two lines with a line feed, so it is kept instead of them. The build file
was not there, so it holds the bytes of its text, whatever it is generated for. -/
theorem updated_of_generated_marked :
    (markedTree.update ⟨.root, ["x"]⟩ "a\nb" = .ok (markedTree, false) ∧
      markedTree.read ⟨.root, ["x"]⟩ ≠ .ok "a\nb".toUTF8) ∧
    (∃ t' p text, (bareLayout.generate markedTree ⟨.root, []⟩).Yields (t', p) ∧
      (bareLayout.text markedTree ⟨.root, []⟩).Yields text ∧ t'.read p = .ok text.toUTF8) ∧
    ∃ t' p text, (bareLibraries.generate markedTree).Yields (t', p) ∧
      bareLibraries.text.Yields text ∧ t'.read p = .ok text.toUTF8 := by
  have hread : markedTree.read ⟨.root, ["x"]⟩ = .ok "a\r\nb".toUTF8 := by decide +kernel
  have hupdate : markedTree.update ⟨.root, ["x"]⟩ "a\nb" = .ok (markedTree, false) :=
    Tree.update_of_readText (by decide +kernel)
  refine ⟨⟨hupdate, fun hbytes => ?_⟩, ?_, ?_⟩
  · have hreads : Tree.ReadsOnly "a\r\nb".toUTF8 "a\nb" :=
      ⟨"a\r\nb", Tree.fromUTF8?_toUTF8 _, by decide +kernel, by decide +kernel⟩
    exact ((updated_of_generated _ _ _).1 _ _ hupdate).holds_iff.1 hbytes ⟨_, hread, hreads⟩
  · obtain ⟨⟨t', p⟩, hyields, -⟩ := Logged.exists_yields
      (bareLayout.generate markedTree ⟨.root, []⟩) (fun _ => true) (by decide +kernel)
    obtain ⟨rfl, text, htext, hupdated⟩ := (updated_of_generated _ _ _).2.1 _ _ hyields
    exact ⟨t', _, text, hyields, htext, hupdated.holds_iff.2 (not_readsOnly_markedTree text)⟩
  · obtain ⟨⟨t', p⟩, hyields, -⟩ := Logged.exists_yields
      (bareLibraries.generate markedTree) (fun _ => true) (by decide +kernel)
    obtain ⟨rfl, text, htext, hupdated⟩ := (updated_of_generated _ _ _).2.2 _ hyields
    exact ⟨t', _, text, hyields, htext, hupdated.holds_iff.2 (not_readsOnly_markedTree text)⟩

end BuildFiles
