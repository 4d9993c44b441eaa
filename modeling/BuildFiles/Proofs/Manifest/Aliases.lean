import BuildFiles.Manifest.Aliases
import BuildFiles.Proofs.Computation
import BuildFiles.Proofs.Entries

/-!
# Which mention of a library counts

A manifest and the aliases that are asked for mention libraries with coordinates, and a library may
be spelled in two ways. The mentions are put together by their spellings, in the order in which
these are first written, and only what comes of that is put under the names of the libraries. So of
two spellings the one counts that is mentioned for the first time later, whichever alias mentions
the library last: `Manifest.topLevel_of_spellings`.
-/

namespace BuildFiles

namespace Manifest

variable {m : Manifest} {aliases : List String} {library : String}

/-- Each folder of sources is that of its path, taken from the folder of the manifest. -/
theorem forall₂_of_sourceEntries {entries : List ClasspathEntry}
    (h : m.sourceEntries aliases = .ok entries) :
    List.Forall₂ (fun p e => m.folder.resolved (.parse p) = .ok e.path)
      (m.keyedPaths aliases).keys entries := by
  rw [Entries.keys, List.forall₂_map_left_iff]
  refine (Except.forall₂_of_mapM h).imp ?_
  rintro ⟨p, key⟩ e he
  obtain ⟨path, hpath, rfl⟩ := Except.map_eq_ok he
  exact hpath

/-- Every map of dependencies has one coordinate for each spelling of a library. -/
structure IsProper (m : Manifest) : Prop where
  deps : m.deps.keys.Nodup
  aliases : ∀ name a, m.aliases.get? name = some a → a.extraDeps.keys.Nodup

/-- The maps of dependencies: that of the manifest, and then those of the aliases. -/
def layers (m : Manifest) (aliases : List String) : List (Entries String Datum) :=
  m.deps :: (m.requested aliases).map fun a => a.2.extraDeps

/-- The mentions of libraries, in their order. -/
def mentions (m : Manifest) (aliases : List String) : List (String × Datum) :=
  (m.layers aliases).flatten

/-- The spellings of libraries, in the order in which they are first mentioned. -/
def spellings (m : Manifest) (aliases : List String) : List String :=
  (Entries.keys (m.mentions aliases)).eraseDups

/-- The map mentions the library, in some spelling. -/
def Mentions (layer : Entries String Datum) (library : String) : Prop :=
  ∃ s ∈ layer.keys, Label.canonicalLibrary s = library

/-- The dependencies by the spellings of the libraries. -/
def spelled (m : Manifest) (aliases : List String) : Entries String Datum :=
  Entries.insertAll m.deps (m.combined aliases).extraDeps

theorem nodup_keys_spelled (h : m.IsProper) : (m.spelled aliases).keys.Nodup :=
  Entries.nodup_keys_insertAll h.deps _

theorem mentions_eq : m.mentions aliases =
    m.deps ++ (m.requested aliases).flatMap fun a => a.2.extraDeps := by
  rw [mentions, layers, List.flatten_cons, List.flatMap_def]

theorem keys_spelled (h : m.IsProper) : (m.spelled aliases).keys = m.spellings aliases := by
  have hnone : (Entries.keys ([] : Entries String Datum)).Nodup := List.nodup_nil
  have hadded : Entries.keys (m.combined aliases).extraDeps =
      (Entries.keys ((m.requested aliases).flatMap fun a => a.2.extraDeps)).eraseDups :=
    Entries.keys_insertAll hnone _
  rw [spelled, Entries.keys_insertAll h.deps, hadded, eraseDups_append_eraseDups, spellings,
    mentions_eq]
  congr 1
  exact List.map_append.symm

/-- A spelling has the coordinate that is mentioned for it last. -/
theorem get?_spelled (h : m.IsProper) {s : String} {d : Datum} :
    (m.spelled aliases).get? s = some d ↔
      IsLastWith (fun e => e.1 = s) (m.mentions aliases) (s, d) := by
  have hadded : Entries.get? (m.combined aliases).extraDeps.reverse s =
      Entries.get? ((m.requested aliases).flatMap fun a => a.2.extraDeps).reverse s := by
    rw [combined, Entries.get?_reverse_of_nodup (Entries.nodup_keys_ofList _), Entries.get?_ofList]
  rw [← Entries.get?_reverse_eq_some, mentions_eq, List.reverse_append, Entries.get?_append,
    Entries.get?_reverse_of_nodup h.deps, spelled, Entries.get?_insertAll, hadded]

/-- A library has the coordinate of that spelling of it which is the last to be mentioned first. -/
theorem get?_topLevel (h : m.IsProper) {d : Datum} :
    (m.topLevel aliases).get? library = some d ↔ ∃ s,
      IsLastWith (fun s => Label.canonicalLibrary s = library) (m.spellings aliases) s ∧
        IsLastWith (fun e => e.1 = s) (m.mentions aliases) (s, d) := by
  have htop : (m.topLevel aliases).get? library = some d ↔ ∃ e : String × Datum,
      IsLastWith (fun e => Label.canonicalLibrary e.1 = library) (m.spelled aliases) e ∧
        (Label.canonicalLibrary e.1, e.2) = (library, d) := by
    rw [topLevel, Entries.get?_ofList, Entries.get?_reverse_eq_some, isLastWith_map]
    rfl
  have hentry : ∀ s d, IsLastWith (fun e => Label.canonicalLibrary e.1 = library)
      (m.spelled aliases) (s, d) ↔
        IsLastWith (fun s => Label.canonicalLibrary s = library) (m.spellings aliases) s ∧
          IsLastWith (fun e => e.1 = s) (m.mentions aliases) (s, d) := by
    intro s d
    rw [← get?_spelled h, ← keys_spelled h]
    exact Entries.isLastWith_keys (p := fun s => Label.canonicalLibrary s = library)
      (nodup_keys_spelled h)
  rw [htop]
  constructor
  · rintro ⟨⟨s, d'⟩, hlast, hpair⟩
    obtain ⟨-, rfl⟩ := Prod.mk.inj hpair
    exact ⟨s, (hentry s d').1 hlast⟩
  · rintro ⟨s, hs⟩
    obtain ⟨-, -, -, hlibrary, -⟩ := id hs.1
    refine ⟨(s, d), (hentry s d).2 hs, ?_⟩
    rw [hlibrary]

theorem mem_keys_topLevel (h : m.IsProper) :
    library ∈ (m.topLevel aliases).keys ↔ ∃ layer ∈ m.layers aliases, Mentions layer library := by
  have hkeys : library ∈ (m.topLevel aliases).keys ↔
      ∃ s ∈ (m.spelled aliases).keys, Label.canonicalLibrary s = library := by
    rw [topLevel, Entries.mem_keys_ofList, Entries.keys, List.map_map, spelled, Entries.keys]
    simp only [List.mem_map, Function.comp_def]
    constructor
    · rintro ⟨e, he, rfl⟩
      exact ⟨e.1, ⟨e, he, rfl⟩, rfl⟩
    · rintro ⟨-, ⟨e, he, rfl⟩, rfl⟩
      exact ⟨e, he, rfl⟩
  rw [hkeys, keys_spelled h]
  simp only [spellings, mentions, List.mem_eraseDups, Entries.keys, List.map_flatten,
    List.mem_flatten, List.mem_map, Mentions]
  constructor
  · rintro ⟨s, ⟨-, ⟨layer, hlayer, rfl⟩, hs⟩, hlibrary⟩
    exact ⟨layer, hlayer, s, List.mem_map.1 hs, hlibrary⟩
  · rintro ⟨layer, hlayer, s, hs, hlibrary⟩
    exact ⟨s, ⟨_, ⟨layer, hlayer, rfl⟩, List.mem_map.2 hs⟩, hlibrary⟩

/-- The layers of a proper manifest are maps. -/
theorem IsProper.nodup_of_mem_layers (h : m.IsProper) {layer : Entries String Datum}
    (hlayer : layer ∈ m.layers aliases) : layer.keys.Nodup := by
  rw [layers, List.mem_cons, List.mem_map] at hlayer
  rcases hlayer with rfl | ⟨⟨name, a⟩, ha, rfl⟩
  · exact h.deps
  · obtain ⟨written, -, hfound⟩ := List.mem_filterMap.1 ha
    obtain ⟨found, hget, hpair⟩ := Option.map_eq_some_iff.1 hfound
    obtain ⟨-, rfl⟩ := Prod.mk.inj hpair
    exact h.aliases _ _ hget

/-- The last alias that mentions a library wins if it does so in the newest spelling. -/
theorem get?_topLevel_of_last (h : m.IsProper) {layer : Entries String Datum} {s : String}
    (hlayer : IsLastWith (fun layer => Mentions layer library) (m.layers aliases) layer)
    (hs : IsLastWith (fun s => Label.canonicalLibrary s = library) (m.spellings aliases) s)
    (hmem : s ∈ layer.keys) : (m.topLevel aliases).get? library = layer.get? s := by
  obtain ⟨before, after, hlayers, -, hafter⟩ := id hlayer
  obtain ⟨-, -, -, hlibrary, -⟩ := id hs
  obtain ⟨⟨s', d⟩, he, rfl⟩ := List.mem_map.1 hmem
  have hnodup := h.nodup_of_mem_layers hlayer.mem
  rw [(Entries.get?_eq_some_iff_mem hnodup).2 he, get?_topLevel h]
  refine ⟨s', hs, ?_⟩
  obtain ⟨inner, outer, hsplit, -, houter⟩ := Entries.get?_reverse_eq_some.1
    ((Entries.get?_reverse_of_nodup hnodup s').trans ((Entries.get?_eq_some_iff_mem hnodup).2 he))
  -- the mentions after it are those of the rest of its layer and of the layers after that
  refine ⟨before.flatten ++ inner, outer ++ after.flatten, ?_, rfl, ?_⟩
  · rw [mentions, hlayers, List.flatten_append, List.flatten_cons, hsplit]
    simp
  · intro x hx hsame
    rcases List.mem_append.1 hx with hx | hx
    · exact houter x hx hsame
    · obtain ⟨layer', hlayer', hx⟩ := List.mem_flatten.1 hx
      exact hafter layer' hlayer' ⟨x.1, List.mem_map_of_mem hx, by rw [hsame, hlibrary]⟩

/-- What a library has that is mentioned in one spelling only is what the last alias that mentions
it says, or the manifest itself if no alias does. -/
theorem get?_topLevel_of_one (h : m.IsProper) {layer : Entries String Datum} {s : String}
    (hone : ∀ s' ∈ m.spellings aliases, Label.canonicalLibrary s' = library → s' = s)
    (hlayer : IsLastWith (fun layer => Mentions layer library) (m.layers aliases) layer) :
    (m.topLevel aliases).get? library = layer.get? s := by
  obtain ⟨-, -, -, ⟨s', hs', hlibrary⟩, -⟩ := id hlayer
  have hkey : library ∈ (m.topLevel aliases).keys :=
    (mem_keys_topLevel h).2 ⟨layer, hlayer.mem, s', hs', hlibrary⟩
  obtain ⟨d, hd⟩ := Option.ne_none_iff_exists'.1 (mt Entries.get?_eq_none_iff.1 (not_not.2 hkey))
  obtain ⟨newest, hnewest, -⟩ := (get?_topLevel h).1 hd
  have hsame : s' ∈ m.spellings aliases := by
    rw [spellings, List.mem_eraseDups, mentions, Entries.keys, List.map_flatten, List.mem_flatten]
    exact ⟨_, List.mem_map_of_mem hlayer.mem, hs'⟩
  obtain ⟨-, -, -, hcanonical, -⟩ := id hnewest
  obtain rfl := hone newest hnewest.mem hcanonical
  obtain rfl := hone s' hsame hlibrary
  exact get?_topLevel_of_last h hlayer hnewest hs'

/-! ## Manifests that are read -/

theorem nodup_keys_dependencies {d : Datum} {deps : Entries String Datum}
    (h : dependencies d = .ok deps) : deps.keys.Nodup := by
  unfold dependencies at h
  split at h
  · cases h
    exact List.nodup_nil
  · obtain ⟨found, -, h⟩ := Except.bind_eq_ok h
    cases h
    exact Entries.nodup_keys_ofList found
  · cases h

theorem nodup_keys_aliasOf {key body : Datum} {a : String × Alias} (h : aliasOf key body = .ok a) :
    a.2.extraDeps.keys.Nodup := by
  unfold aliasOf at h
  split at h
  · obtain ⟨paths, -, h⟩ := Except.bind_eq_ok h
    obtain ⟨deps, hdeps, h⟩ := Except.bind_eq_ok h
    cases h
    exact nodup_keys_dependencies hdeps
  · cases h

/-- A manifest that is read has no dependency and no alias twice, as both come out of maps. -/
theorem isProper_of_ofEntries {path : Path} {es : Entries Datum Datum}
    (h : ofEntries path es = .ok m) : m.IsProper := by
  obtain ⟨paths, -, h⟩ := Except.bind_eq_ok h
  obtain ⟨deps, hdeps, h⟩ := Except.bind_eq_ok h
  obtain ⟨aliases, haliases, h⟩ := Except.bind_eq_ok h
  obtain ⟨repositories, -, h⟩ := Except.bind_eq_ok h
  obtain ⟨overrides, -, h⟩ := Except.bind_eq_ok h
  cases h
  refine ⟨nodup_keys_dependencies hdeps, ?_⟩
  intro name a ha
  dsimp only at ha
  unfold aliasesOf at haliases
  split at haliases
  · cases haliases
    cases ha
  · obtain ⟨found, hfound, haliases⟩ := Except.bind_eq_ok haliases
    cases haliases
    have hmem := Entries.mem_of_get?_ofList ha
    obtain ⟨written, -, hof⟩ := exists_left_of_forall₂ (Except.forall₂_of_mapM hfound) hmem
    exact nodup_keys_aliasOf hof
  · cases haliases

/-- A manifest that is read is proper. -/
theorem isProper_of_ofText {path : Path} {text : String} (h : ofText path text = .ok m) :
    m.IsProper := by
  unfold ofText at h
  split at h
  · cases h
  · cases h
  · exact isProper_of_ofEntries h
  · exact isProper_of_ofEntries h
  · cases h

/-- The dependencies under aliases are the libraries that the manifest or one of the aliases
mentions in some spelling. Of the spellings of a library that counts which is mentioned for the
first time last, with the coordinate that is mentioned for it last. So the last alias that mentions
a library wins if it does so in that spelling, and so it does where the library is spelled in one
way only. -/
theorem topLevel_of_spellings (h : m.IsProper) (aliases : List String) (library : String) :
    (library ∈ (m.topLevel aliases).keys ↔ ∃ layer ∈ m.layers aliases, Mentions layer library) ∧
      (∀ d, (m.topLevel aliases).get? library = some d ↔ ∃ s,
        IsLastWith (fun s => Label.canonicalLibrary s = library) (m.spellings aliases) s ∧
          IsLastWith (fun e => e.1 = s) (m.mentions aliases) (s, d)) ∧
      ∀ layer, IsLastWith (fun layer => Mentions layer library) (m.layers aliases) layer → ∀ s,
        (IsLastWith (fun s => Label.canonicalLibrary s = library) (m.spellings aliases) s ∧
            s ∈ layer.keys ∨
          ∀ s' ∈ m.spellings aliases, Label.canonicalLibrary s' = library → s' = s) →
        (m.topLevel aliases).get? library = layer.get? s := by
  refine ⟨mem_keys_topLevel h, fun d => get?_topLevel h, ?_⟩
  rintro layer hlayer s (⟨hs, hmem⟩ | hone)
  · exact get?_topLevel_of_last h hlayer hs hmem
  · exact get?_topLevel_of_one h hone hlayer

/-- The coordinate of a version. -/
def versioned (version : String) : Datum := .map [(.str "mvn/version", .str version)]

/-- A library in one spelling, an alias with another one and an alias with the first again. -/
def crossed : Manifest where
  path := .parse "/deps.edn"
  deps := [("foo", versioned "1")]
  aliases := [("a", { extraDeps := [("foo/foo", versioned "2")] }),
    ("b", { extraDeps := [("foo", versioned "3")] })]

theorem isProper_crossed : crossed.IsProper := by
  refine ⟨by decide, ?_⟩
  intro name a ha
  have hmem := (Entries.get?_eq_some_iff_mem (by decide)).1 ha
  rcases List.mem_pair.1 hmem with h | h
  · obtain ⟨-, rfl⟩ := Prod.mk.inj h
    decide
  · obtain ⟨-, rfl⟩ := Prod.mk.inj h
    decide

/-- The last alias mentions the library, but another spelling of it is newer. -/
theorem topLevel_of_spellings_crossed : crossed.IsProper ∧
    (crossed.topLevel ["a", "b"]).get? "foo/foo" = some (versioned "2") ∧
      IsLastWith (fun layer => Mentions layer "foo/foo") (crossed.layers ["a", "b"])
        [("foo", versioned "3")] ∧
      (crossed.topLevel ["b"]).get? "foo/foo" = some (versioned "3") := by
  have h := isProper_crossed
  refine ⟨h, ?_, ?_, ?_⟩
  · obtain ⟨-, hcoordinate, -⟩ := topLevel_of_spellings h ["a", "b"] "foo/foo"
    exact (hcoordinate _).2 ⟨"foo/foo", ⟨["foo"], [], by decide, by decide, by simp⟩,
      ⟨[("foo", versioned "1")], [("foo", versioned "3")], rfl, rfl, by simp⟩⟩
  · exact ⟨[_, _], [], rfl, ⟨"foo", by simp [Entries.keys], by decide⟩, by simp⟩
  · obtain ⟨-, -, hlast⟩ := topLevel_of_spellings h ["b"] "foo/foo"
    exact hlast [("foo", versioned "3")]
      ⟨[_], [], rfl, ⟨"foo", by simp [Entries.keys], by decide⟩, by simp⟩ "foo"
      (.inl ⟨⟨[], [], by decide, by decide, by simp⟩, by simp [Entries.keys]⟩)

end Manifest

end BuildFiles
