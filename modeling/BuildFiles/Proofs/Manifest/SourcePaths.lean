import BuildFiles.Proofs.Manifest.Aliases
import BuildFiles.Proofs.Tree

/-!
# Source paths under aliases

What aliases add to a manifest is told twice: by what they come to together (`Manifest.combined`),
and by the list of source paths with the key of who names each of them (`Manifest.keyedPaths`). One
leaves out repetitions among the aliases, the other those of the manifest as well. They agree:
`Manifest.sourceEntries_of_aliases` says which source paths there are, in which order, under which
keys, and when folders can be made of them.
-/

namespace BuildFiles

namespace Manifest

variable {m : Manifest} {aliases : List String} {p key : String}

/-- The alias is defined and adds the path. -/
def Adds (m : Manifest) (p a : String) : Prop :=
  ∃ found, m.aliases.get? (aliasName a) = some found ∧ p ∈ found.extraPaths

/-- Who names the path first: the manifest itself, or else the first of the aliases that are asked
for that adds it. -/
inductive IsKeyOf (m : Manifest) (aliases : List String) (p : String) : String → Prop
  | own (h : p ∈ m.paths) : IsKeyOf m aliases p "paths"
  | added {a : String} (hown : p ∉ m.paths) (h : IsFirstWith (m.Adds p) aliases a) :
    IsKeyOf m aliases p (aliasName a)

/-- The element of the classpath is the folder that the path leads to from that of the manifest, as
named by who names the path first. -/
structure IsFolderOf (m : Manifest) (aliases : List String) (p : String) (e : ClasspathEntry) :
    Prop where
  path : e.path = m.folder.settled (.parse p)
  key : ∃ key, e.pathKey = some key ∧ m.IsKeyOf aliases p key
  library : e.library = none

/-! ## What aliases add -/

/-- The paths that an alias adds, none if it is not defined. -/
def pathsOf (m : Manifest) (a : String) : List String :=
  ((m.aliases.get? (aliasName a)).map Alias.extraPaths).getD []

theorem mem_pathsOf {a : String} : p ∈ m.pathsOf a ↔ m.Adds p a := by
  rw [pathsOf, Adds]
  cases m.aliases.get? (aliasName a) with
  | none => simp
  | some found => simp

/-- Aliases that are not defined may be gone through as well. -/
theorem flatMap_requested {β : Type} (f : String → String → β) :
    ((m.requested aliases).flatMap fun a => a.2.extraPaths.map (f a.1)) =
      aliases.flatMap fun a => (m.pathsOf a).map (f (aliasName a)) := by
  rw [requested]
  induction aliases with
  | nil => rfl
  | cons a aliases ih =>
    rw [List.filterMap_cons, List.flatMap_cons, ← ih, pathsOf]
    cases m.aliases.get? (aliasName a) <;> rfl

/-- What the aliases add together. -/
theorem extraPaths_combined :
    (m.combined aliases).extraPaths = (aliases.flatMap m.pathsOf).eraseDups := by
  have hall : ((m.requested aliases).flatMap fun a => a.2.extraPaths.map fun p => p) =
      aliases.flatMap fun a => (m.pathsOf a).map fun p => p := flatMap_requested fun _ p => p
  simp only [List.map_id'] at hall
  rw [combined, hall]

/-- The paths that the aliases add, with their names. -/
def addedPaths (m : Manifest) (aliases : List String) : Entries String String :=
  aliases.flatMap fun a => (m.pathsOf a).map fun p => (p, aliasName a)

theorem keys_addedPaths : (m.addedPaths aliases).keys = aliases.flatMap m.pathsOf := by
  simp [addedPaths, Entries.keys, List.map_flatMap, Function.comp_def]

/-- A path that aliases add has the name of the first that does. -/
theorem get?_addedPaths : (m.addedPaths aliases).get? p = some key ↔
    ∃ a, IsFirstWith (m.Adds p) aliases a ∧ key = aliasName a := by
  have hone : ∀ a ∈ aliases, ∀ key,
      Entries.get? ((m.pathsOf a).map fun p => (p, aliasName a)) p = some key ↔
        m.Adds p a ∧ key = aliasName a := by
    intro a _ key
    rw [Entries.get?_map_keys (m.pathsOf a) fun _ => aliasName a, ← mem_pathsOf]
    split
    · next h => simp [h, eq_comm]
    · next h => simp [h]
  rw [addedPaths, Entries.get?_flatMap, findSome?_eq_some_iff_of hone]
  simp only [exists_and_left, exists_eq, and_true]
  refine exists_congr fun a => and_congr_right fun ⟨_, _, _, hadds, _⟩ => ?_
  exact and_iff_right hadds

/-! ## The list of source paths -/

/-- The paths with the keys of all who name them. -/
def namedPaths (m : Manifest) (aliases : List String) : Entries String String :=
  (m.paths.map fun p => (p, ownKey)) ++ m.addedPaths aliases

theorem keyedPaths_eq : m.keyedPaths aliases = (m.namedPaths aliases).foldl
    (fun (es : Entries String String) e => es.insertNew e.1 e.2) [] := by
  rw [keyedPaths, namedPaths, addedPaths, ← flatMap_requested fun name p => (p, name)]

theorem keys_namedPaths :
    (m.namedPaths aliases).keys = m.paths ++ (m.addedPaths aliases).keys := by
  simp [namedPaths, Entries.keys, Function.comp_def]

theorem keys_keyedPaths_eq :
    (m.keyedPaths aliases).keys = (m.paths ++ (m.addedPaths aliases).keys).eraseDups := by
  have hnone : (Entries.keys ([] : Entries String String)).Nodup := List.nodup_nil
  rw [keyedPaths_eq, ← keys_namedPaths]
  exact Entries.keys_foldl (fun es e => Entries.keys_insertNew es e.1 e.2) hnone _

/-- The source paths are those of the manifest, and then those that the aliases add together and
that are none of them. -/
theorem keys_keyedPaths : (m.keyedPaths aliases).keys = m.paths.eraseDups ++
    (m.combined aliases).extraPaths.filter fun p => p ∉ m.paths := by
  rw [keys_keyedPaths_eq, keys_addedPaths, List.eraseDups_append, List.removeAll,
    eraseDups_filter, extraPaths_combined]
  simp

/-- The key of a path is of who names it first. -/
theorem isKeyOf_of_mem (h : (p, key) ∈ m.keyedPaths aliases) : m.IsKeyOf aliases p key := by
  have hnodup : (m.keyedPaths aliases).keys.Nodup := keys_keyedPaths_eq ▸ nodup_eraseDups _
  have hfirst : (m.keyedPaths aliases).get? p = (m.namedPaths aliases).get? p := by
    rw [keyedPaths_eq]
    exact Entries.get?_foldl_insertNew [] (m.namedPaths aliases) p
  have hget := hfirst.symm.trans ((Entries.get?_eq_some_iff_mem hnodup).2 h)
  rw [namedPaths, Entries.get?_append, Entries.get?_map_keys m.paths fun _ => ownKey] at hget
  split at hget
  · next hown =>
    obtain rfl := Option.some.inj hget
    exact .own hown
  · next hown =>
    obtain ⟨a, hfirst, rfl⟩ := get?_addedPaths.1 hget
    exact .added hown hfirst

/-! ## Folders of sources -/

/-- Each source path is made into its folder. -/
theorem isFolderOf_of_sourceEntries {entries : List ClasspathEntry}
    (h : m.sourceEntries aliases = .ok entries) :
    List.Forall₂ (m.IsFolderOf aliases) (m.keyedPaths aliases).keys entries := by
  have hkeys : ∀ e ∈ m.keyedPaths aliases, m.IsKeyOf aliases e.1 e.2 := fun _ => isKeyOf_of_mem
  rw [Entries.keys, List.forall₂_map_left_iff]
  refine ((List.forall₂_and_left _ _).2 ⟨hkeys, Except.forall₂_of_mapM h⟩).imp ?_
  rintro ⟨p, key⟩ e ⟨hkey, he⟩
  obtain ⟨path, hpath, rfl⟩ := Except.map_eq_ok he
  exact ⟨Tree.eq_settled_of_resolved hpath, ⟨key, rfl, hkey⟩, rfl⟩

/-- Folders can be made of all paths that hold no null character, and of no others. -/
theorem exists_sourceEntries_iff : (∃ entries, m.sourceEntries aliases = .ok entries) ↔
    ∀ p ∈ (m.keyedPaths aliases).keys, ∀ n ∈ (m.folder / p).names, '\x00' ∉ n.toList := by
  constructor
  · rintro ⟨entries, hentries⟩ p hp
    obtain ⟨e, -, hpath⟩ := exists_right_of_forall₂ (forall₂_of_sourceEntries hentries) hp
    exact Tree.exists_resolved_iff.1 ⟨e.path, hpath⟩
  · intro h
    have hone : ∀ e ∈ m.keyedPaths aliases, ∃ entry : ClasspathEntry,
        (m.folder.resolved (.parse e.1)).map
          (fun path => { path := path, pathKey := some e.2 }) = .ok entry ∧ True := by
      intro e he
      obtain ⟨path, hpath⟩ := Tree.exists_resolved_iff.2 (h e.1 (List.mem_map_of_mem he))
      exact ⟨{ path := path, pathKey := some e.2 }, by rw [hpath]; rfl, trivial⟩
    obtain ⟨entries, hentries, -⟩ := Except.exists_mapM_of_mem hone
    exact ⟨entries, hentries⟩

/-- The source paths of a manifest under aliases are its own without repetitions, followed by those
that the aliases add together and that are none of them. The folders of sources correspond to them
one to one and in this order, each under the key of who names its path first: that of the manifest
itself, or the name of the first alias that adds the path. They can be made of all paths that a file
system can hold, which is of those without a null character. -/
theorem sourceEntries_of_aliases (m : Manifest) (aliases : List String) :
    (m.keyedPaths aliases).keys = m.paths.eraseDups ++
        (m.combined aliases).extraPaths.filter (fun p => p ∉ m.paths) ∧
      (∀ entries, m.sourceEntries aliases = .ok entries →
        List.Forall₂ (m.IsFolderOf aliases) (m.keyedPaths aliases).keys entries) ∧
      ((∃ entries, m.sourceEntries aliases = .ok entries) ↔
        ∀ p ∈ (m.keyedPaths aliases).keys, ∀ n ∈ (m.folder / p).names, '\x00' ∉ n.toList) :=
  ⟨keys_keyedPaths, fun _ => isFolderOf_of_sourceEntries, exists_sourceEntries_iff⟩

/-- A manifest that lists a path twice, with aliases that add a path of it and one of each other. -/
def sharing : Manifest where
  path := ⟨.root, ["w", "deps.edn"]⟩
  paths := ["src", "lib", "src"]
  aliases := [("a", { extraPaths := ["test", "src"] }), ("b", { extraPaths := ["gen", "test"] })]

/-- What both aliases add has the name of the one that is asked for first. -/
theorem sourceEntries_of_aliases_sharing :
    (sharing.keyedPaths [":b", "none", "a", "b"]).keys = ["src", "lib", "gen", "test"] ∧
      ∃ entries, sharing.sourceEntries [":b", "none", "a", "b"] = .ok entries ∧
        entries.map ClasspathEntry.pathKey = [some "paths", some "paths", some "b", some "b"] ∧
        List.Forall₂ (sharing.IsFolderOf [":b", "none", "a", "b"]) ["src", "lib", "gen", "test"]
          entries := by
  have hnamed : sharing.sourceEntries [":b", "none", "a", "b"] =
      .ok [{ path := ⟨.root, ["w", "src"]⟩, pathKey := some "paths" },
        { path := ⟨.root, ["w", "lib"]⟩, pathKey := some "paths" },
        { path := ⟨.root, ["w", "gen"]⟩, pathKey := some "b" },
        { path := ⟨.root, ["w", "test"]⟩, pathKey := some "b" }] := by
    with_unfolding_all rfl
  obtain ⟨hkeys, hfolders, -⟩ := sourceEntries_of_aliases sharing [":b", "none", "a", "b"]
  have hpaths : (sharing.keyedPaths [":b", "none", "a", "b"]).keys =
      ["src", "lib", "gen", "test"] := hkeys.trans (by decide +kernel)
  have hall := hfolders _ hnamed
  rw [hpaths] at hall
  exact ⟨hpaths, _, hnamed, rfl, hall⟩

end Manifest

end BuildFiles
