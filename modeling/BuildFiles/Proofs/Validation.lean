import BuildFiles.Proofs.Library.Imports
import BuildFiles.Proofs.Rule.Fitness
import BuildFiles.Proofs.Rule.Merging
import BuildFiles.Proofs.Sources.Generation

/-!
# What validation covers

Validation refuses a target when it is finished. A target that stands for others is made without
that, but its labels are made up of nothing that was set. So with validation on all labels are texts
that start as a label does (`Target.IsLabelled`): those of each target of the libraries, and those
of each target that is written in the text of a folder (`isLabelled_of_validate`).
-/

namespace BuildFiles

namespace Label

/-- The text starts as a label of another repository, of another package or of the same one. -/
def StartsOne (s : String) : Prop := ∃ start ∈ ["@", "//", ":"], start.toList <+: s.toList

theorem startsOne_of_isLabel {s : String} (h : Attributes.isLabel (.str s) = true) :
    StartsOne s := by
  obtain ⟨start, hstart, hle⟩ := List.any_eq_true.1 h
  exact ⟨start, hstart, List.isPrefixOf_iff_prefix.1 hle⟩

end Label

namespace Attributes

/-- What is a label is a text. -/
theorem exists_texts {xs : List Datum} (h : ∀ x ∈ xs, isLabel x = true) :
    ∃ labels : List String, xs = labels.map .str := by
  induction xs with
  | nil => exact ⟨[], rfl⟩
  | cons x xs ih =>
    obtain ⟨hx, hxs⟩ := List.forall_mem_cons.1 h
    obtain ⟨labels, rfl⟩ := ih hxs
    cases x with
    | str s => exact ⟨s :: labels, rfl⟩
    | _ => cases hx

/-- Labels that were brought in order and are all labels are held as texts. -/
theorem OnlyLabels.holdsLabels {before a : Attributes} {sort : Bool} (h : a.OnlyLabels)
    (hnormalize : before.normalize sort = .ok a) : a.HoldsLabels := by
  intro key hkey value hvalue
  obtain ⟨xs, rfl⟩ := exists_vector_of_normalizeAll hnormalize hkey hvalue
  have hxs := h key hkey _ xs hvalue rfl
  obtain ⟨labels, rfl⟩ := exists_texts hxs
  exact ⟨labels, rfl, fun s hs => hxs _ (List.mem_map_of_mem hs)⟩

end Attributes

/-- Whatever is written where the target needs labels is a list of texts that start as labels do. -/
def Target.IsLabelled (t : Target) : Prop :=
  ∀ e ∈ t.attributes, e.1 = "deps" ∨ e.1 = "runtime_deps" →
    ∃ labels : List String, e.2 = .texts labels ∧ ∀ s ∈ labels, Label.StartsOne s

theorem Target.isLabelled_of_holdsLabels {t : Target} (h : t.attributes.HoldsLabels)
    (hnodup : t.attributes.keys.Nodup) : t.IsLabelled := by
  intro e he hkey
  have hget : t.attributes.get? e.1 = some e.2 := (Entries.get?_eq_some_iff_mem hnodup).2 he
  obtain ⟨labels, hlabels, hall⟩ :=
    h e.1 (by simpa [Attributes.labelAttributes] using hkey) e.2 hget
  exact ⟨labels, hlabels, fun s hs => Label.startsOne_of_isLabel (hall s hs)⟩

namespace Sources

variable {settings : Settings} {target : Target}

theorem IsFinished.isLabelled (h : IsFinished settings target)
    (hvalidate : settings.validate = true) : target.IsLabelled := by
  have honly := Target.onlyLabels_of_validate (h.validate hvalidate)
  obtain ⟨kind, layers, h⟩ := h
  obtain ⟨-, hnormalize⟩ := Library.Context.finished_eq_ok h
  exact Target.isLabelled_of_holdsLabels (honly.holdsLabels hnormalize)
    (Attributes.nodup_keys_normalize hnormalize (Attributes.nodup_keys_merge layers))

theorem Layout.isLabelled_of_subtreeTargets {l : Layout} {t : Tree} {folder : Path}
    {subtree : List Target} (h : l.subtreeTargets t folder = .ok subtree)
    (htarget : target ∈ subtree) : target.IsLabelled := by
  obtain ⟨strip, a, targets, ha, hmem⟩ := exists_of_subtreeTargets h htarget
  refine Target.isLabelled_of_holdsLabels (holdsLabels_of_aggregateTargets ha target hmem) ?_
  obtain ⟨files, -, ha⟩ := Except.bind_eq_ok ha
  obtain ⟨deps, -, ha⟩ := Except.bind_eq_ok ha
  obtain ⟨data, -, ha⟩ := Except.bind_eq_ok ha
  obtain rfl := Except.ok.inj ha
  rcases List.mem_pair.1 hmem with rfl | rfl
  · rcases stripAttributes_eq strip with hstrip | ⟨s, hstrip⟩ <;> simp [hstrip, Entries.keys]
  · simp [Entries.keys]

end Sources

namespace Library.Context

variable {c : Context} {target : Target}

theorem isFinished_of_targetsOf {s : ScannedLibrary} {targets : List Target}
    (h : (c.targetsOf s).Yields targets) :
    ∀ target ∈ targets, Sources.IsFinished c.settings target := by
  obtain ⟨imported, himported, h⟩ := h.bind
  obtain ⟨modules, hmodules, hpure⟩ := h.bind
  obtain rfl := hpure.pure
  refine List.forall_mem_cons.2 ⟨⟨_, _, finished_of_importTarget himported⟩, fun target ht => ?_⟩
  obtain ⟨d, -, hd⟩ := exists_left_of_forall₂ (Except.forall₂_of_mapM hmodules.of) ht
  obtain ⟨needed, -, hfinished⟩ := Except.bind_eq_ok hd
  exact ⟨_, _, hfinished⟩

theorem isLabelled_allTarget : c.allTarget.IsLabelled := by
  intro e he hkey
  simp only [allTarget, List.mem_pair] at he
  rcases he with rfl | rfl
  · simp at hkey
  · refine ⟨_, rfl, fun s hs => ?_⟩
    obtain ⟨library, -, rfl⟩ := List.mem_map.1 hs
    exact Label.startsOne_of_isLabel (Label.isLabel_ofSamePackage _)

theorem isLabelled_of_targets {targets : List Target} (h : c.targets.Yields targets)
    (hvalidate : c.settings.validate = true) : ∀ target ∈ targets, target.IsLabelled := by
  obtain ⟨lists, hlists, hpure⟩ := h.bind
  obtain rfl := hpure.pure
  refine List.forall_mem_append.2 ⟨fun target htarget => ?_,
    List.forall_mem_singleton.2 isLabelled_allTarget⟩
  obtain ⟨ts, hts, hmem⟩ := List.mem_flatten.1 htarget
  obtain ⟨s, -, hs⟩ := exists_left_of_forall₂ hlists.mapM hts
  exact (isFinished_of_targetsOf hs target hmem).isLabelled hvalidate

end Library.Context

/-- With validation on, all labels of the targets of the libraries are texts that start as labels
do, and so are those of the targets that the text of a folder is made of. -/
theorem isLabelled_of_validate (c : Library.Context) (l : Sources.Layout) :
    (c.settings.validate = true → ∀ targets, c.targets.Yields targets →
      ∀ target ∈ targets, target.IsLabelled) ∧
    (l.settings.validate = true → ∀ (t : Tree) (folder : Path) (text : String),
      (l.text t folder).Yields text → ∃ own subtree head sections,
        (l.fileTargets t folder).Yields own ∧ l.subtreeTargets t folder = .ok subtree ∧
        Sources.Layout.head l.settings = .ok head ∧
        List.Forall₂ (fun target text => target.render = .ok text) (own ++ subtree) sections ∧
        text = BuildFile.sections (head :: sections) ++ "\n" ∧
        ∀ target ∈ own ++ subtree, target.IsLabelled) := by
  refine ⟨fun hvalidate targets h => Library.Context.isLabelled_of_targets h hvalidate,
    fun hvalidate t folder text h => ?_⟩
  obtain ⟨own, subtree, head, sections, hown, hsubtree, hhead, hsections, htext⟩ :=
    Sources.Layout.Yields.text h
  refine ⟨own, subtree, head, sections, hown, hsubtree, hhead, hsections, htext,
    List.forall_mem_append.2 ⟨fun target htarget => ?_, fun target htarget => ?_⟩⟩
  · exact (Sources.Layout.isFinished_of_fileTargets hown target htarget).isLabelled hvalidate
  · exact Sources.Layout.isLabelled_of_subtreeTargets hsubtree htarget

/-! ## Targets with labels that were set -/

/-- A library with a namespace that is compiled, for whose import a label is set. -/
def checkedLibraries : Library.Context where
  index := { scanned := [⟨⟨.root, ["r", "a.jar"]⟩, "g/a", ⟨[⟨"a", ["b"], [], none, [], ""⟩], []⟩⟩] }
  overrides := { deps := [("@deps//:g_a", [("deps", .texts [":x"])])] }
  settings := { validate := true }
  folder := ⟨.root, ["r"]⟩

/-- A test file. -/
def checkedSources : Tree where
  files := [(["w", "src", "a_test.clj"], "(ns a)".toUTF8)]

/-- The folder of the file, where a label is set for all libraries. -/
def checkedLayout : Sources.Layout where
  index := {}
  overrides := { clojureLibrary := [("runtime_deps", .texts [":x"])] }
  settings := { validate := true }
  base := ⟨.root, ["w"]⟩
  folders := [⟨.root, ["w", "src"]⟩]
  ignored := []

/-- The library has a target for its import, one for its namespace and the one for all; the targets
of the folder are those of the file and those of the subtree. -/
theorem isLabelled_of_validate_checked :
    checkedLibraries.settings.validate = true ∧ checkedLayout.settings.validate = true ∧
      (∃ targets, checkedLibraries.targets.Yields targets ∧ targets.length = 3 ∧
        ∀ target ∈ targets, target.IsLabelled) ∧
      ∃ text own subtree, (checkedLayout.text checkedSources ⟨.root, ["w", "src"]⟩).Yields text ∧
        (checkedLayout.fileTargets checkedSources ⟨.root, ["w", "src"]⟩).Yields own ∧
        checkedLayout.subtreeTargets checkedSources ⟨.root, ["w", "src"]⟩ = .ok subtree ∧
        ∀ target ∈ own ++ subtree, target.IsLabelled := by
  obtain ⟨targets, htargets, hlength⟩ := Logged.exists_yields checkedLibraries.targets
    (fun targets => targets.length == 3) (by decide +kernel)
  obtain ⟨text, htext, -⟩ := Logged.exists_yields
    (checkedLayout.text checkedSources ⟨.root, ["w", "src"]⟩) (fun _ => true) (by decide +kernel)
  obtain ⟨own, subtree, -, -, hown, hsubtree, -, -, -, hall⟩ :=
    (isLabelled_of_validate checkedLibraries checkedLayout).2 rfl checkedSources _ text htext
  exact ⟨rfl, rfl, ⟨targets, htargets, eq_of_beq hlength,
    (isLabelled_of_validate checkedLibraries checkedLayout).1 rfl targets htargets⟩,
    text, own, subtree, htext, hown, hsubtree, hall⟩

end BuildFiles
