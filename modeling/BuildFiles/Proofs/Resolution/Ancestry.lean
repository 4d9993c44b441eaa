import BuildFiles.Proofs.Resolution.Description
import BuildFiles.Proofs.Update
import Mathlib.Data.List.Perm.Subperm
import Mathlib.Logic.Relation

/-!
# Chains of parents

What the files of a repository tell about a library, with nothing kept of what was read: `told`. A
chain of parents that does not come back to itself goes through each file once at most
(`ends_of_acyclic`), so there are enough descriptions for it, and `told_eq` says how the
description of a library comes from that of its parent.
-/

namespace BuildFiles.Repository

variable {r : Repository} {c p : Coordinate} {root : Xml.Element}

/-! ## Descriptions and places -/

/-- The element that the file at a place holds. -/
def rootAt? (r : Repository) (place : Location) : Option Xml.Element := do
  let text ← String.fromUTF8? (← r.tree.get? place)
  Xml.parse? (Text.plainLines text)

/-- A place that holds a text has the root that the text has. -/
theorem rootAt?_of_text {place : Location} {text : String}
    (hget : r.tree.get? place = some text.toUTF8) (htext : '\r' ∉ text.toList) :
    r.rootAt? place = Xml.parse? text := by
  have hroot : r.rootAt? place =
      (String.fromUTF8? text.toUTF8).bind fun text => Xml.parse? (Text.plainLines text) := by
    rw [rootAt?, hget]
    rfl
  rw [hroot, Tree.fromUTF8?_toUTF8, Option.bind_some, Text.plainLines_eq htext]

/-- What describes a library is in the file that the path leads to, and nothing else matters. -/
theorem description?_eq_some : r.description? c = .ok (some root) ↔
    ∃ place, r.tree.locate (c.pom r.path) = .ok place ∧ r.rootAt? place = some root := by
  constructor
  · intro h
    obtain ⟨there, -, h⟩ := Except.bind_eq_ok h
    split at h
    · obtain ⟨text, htext, h⟩ := Except.bind_eq_ok h
      obtain ⟨content, hread, htext⟩ := Except.bind_eq_ok (Except.ok_of_mapError htext)
      obtain ⟨place, hplace, hread⟩ := Except.bind_eq_ok hread
      refine ⟨place, hplace, ?_⟩
      split at hread
      · next hget =>
        obtain rfl := Except.ok.inj hread
        split at htext
        · next hutf8 =>
          obtain rfl := Except.ok.inj htext
          split at h
          · next hparse =>
            obtain rfl := Option.some.inj (Except.ok.inj h)
            simp [rootAt?, hget, hutf8, hparse]
          · cases h
        · cases htext
      · cases hread
    · cases h
  · rintro ⟨place, hplace, hroot⟩
    obtain ⟨content, hget, hroot⟩ := Option.bind_eq_some_iff.1 hroot
    obtain ⟨text, hutf8, hparse⟩ := Option.bind_eq_some_iff.1 hroot
    have hthere : (r.tree.has (c.pom r.path)).mapError Fault.file = .ok true := by
      rw [Tree.has, Tree.holdsAt, hplace]
      simp only [Tree.isFile_of_get? hget, Bool.true_or]
      rfl
    have hread : (r.tree.readText (c.pom r.path)).mapError Fault.file =
        .ok (Text.plainLines text) := by
      have hcontent : r.tree.read (c.pom r.path) = .ok content := by
        rw [Tree.read, Except.bind_of_ok hplace, hget]
      rw [Tree.readText, Except.bind_of_ok hcontent, hutf8]
      rfl
    rw [description?, Except.bind_of_ok hthere, if_pos rfl, Except.bind_of_ok hread, hparse]
    rfl

/-! ## Parents -/

/-- The parent that the description of a library names. -/
def parentOf? (r : Repository) (c : Coordinate) : Option Coordinate :=
  (r.description? c).toOption.join.bind Pom.parent?

/-- The first library has the second as its parent. -/
def IsParent (r : Repository) (c p : Coordinate) : Prop := r.parentOf? c = some p

/-- The parent of a coordinate is told by the description of it. -/
theorem isParent_iff : r.IsParent c p ↔
    ∃ root, r.description? c = .ok (some root) ∧ Pom.parent? root = some p := by
  rw [IsParent, parentOf?, Option.bind_eq_some_iff]
  simp only [Except.toOption_join_eq_some]

/-- A library with a parent is described by a file, and all that the file describes have that
parent. -/
theorem exists_place_of_isParent (h : r.IsParent c p) : ∃ place ∈ r.tree.files.keys,
    r.tree.locate (c.pom r.path) = .ok place ∧
      ∀ x, r.tree.locate (x.pom r.path) = .ok place → r.IsParent x p := by
  obtain ⟨root, hroot, hparent⟩ := isParent_iff.1 h
  obtain ⟨place, hplace, hfile⟩ := description?_eq_some.1 hroot
  obtain ⟨content, hget, -⟩ := Option.bind_eq_some_iff.1 hfile
  exact ⟨place, Tree.isFile_iff.1 (Tree.isFile_of_get? hget), hplace, fun x hx =>
    isParent_iff.2 ⟨root, description?_eq_some.2 ⟨place, hx, hfile⟩, hparent⟩⟩

/-- The chain of parents ends after at most that many descriptions. -/
def EndsWithin (r : Repository) : Nat → Coordinate → Prop
  | 0, _ => False
  | n + 1, c => ∀ p, r.IsParent c p → EndsWithin r n p

/-- The chain of parents ends. -/
def Ends (r : Repository) (c : Coordinate) : Prop := r.EndsWithin (r.tree.files.length + 1) c

/-- No library is among its own parents and theirs. -/
def IsAcyclic (r : Repository) : Prop := ∀ c, ¬ Relation.TransGen r.IsParent c c

/-- A chain that ends within some steps ends within more. -/
theorem EndsWithin.mono {n m : Nat} (h : r.EndsWithin n c) (hnm : n ≤ m) : r.EndsWithin m c := by
  induction n generalizing c m with
  | zero => exact h.elim
  | succ n ih =>
    obtain ⟨m, rfl⟩ : ∃ k, m = k + 1 := ⟨m - 1, by omega⟩
    exact fun p hp => ih (h p hp) (by omega)

/-- The chain of a parent is part of that of its child, so it ends, too. -/
theorem Ends.parent (h : r.Ends c) (hp : r.IsParent c p) : r.Ends p :=
  EndsWithin.mono (h p hp) (Nat.le_succ _)

/-- The places are those of files whose chains of parents lead to the library. If the library lay at
one of them again, the chain would come back. The induction is on the descriptions that are left:
there are no more than files that were not gone through. -/
theorem endsWithin_of_places {n : Nat} {places : List Location} (hnodup : places.Nodup)
    (hplaces : ∀ place ∈ places, place ∈ r.tree.files.keys ∧
      ∃ x, Relation.TransGen r.IsParent x c ∧ r.tree.locate (x.pom r.path) = .ok place)
    (hacyclic : ∀ x, Relation.TransGen r.IsParent c x → ¬ Relation.TransGen r.IsParent x x)
    (hn : r.tree.files.length < n + places.length) : r.EndsWithin n c := by
  induction n generalizing c places with
  | zero =>
    have hlength : places.length ≤ r.tree.files.keys.length :=
      (List.Nodup.subperm hnodup fun place hplace => (hplaces place hplace).1).length_le
    rw [Entries.keys, List.length_map] at hlength
    omega
  | succ n ih =>
    intro p hp
    obtain ⟨place, hfile, hplace, hall⟩ := exists_place_of_isParent hp
    have hnew : place ∉ places := by
      intro hmem
      obtain ⟨-, x, hx, hxplace⟩ := hplaces place hmem
      obtain ⟨q, hq, hqc⟩ := Relation.TransGen.head'_iff.1 hx
      obtain rfl := Option.some.inj (hq.symm.trans (hall x hxplace))
      exact hacyclic q (.single hp) (Relation.TransGen.tail' hqc hp)
    have hnodup' : (place :: places).Nodup := List.nodup_cons.2 ⟨hnew, hnodup⟩
    refine ih hnodup' ?_ (fun x hx => hacyclic x (.head hp hx))
      (by rw [List.length_cons]; omega)
    intro place' hplace'
    rcases List.mem_cons.1 hplace' with rfl | hplace'
    · exact ⟨hfile, c, .single hp, hplace⟩
    · obtain ⟨hfile', x, hx, hxplace⟩ := hplaces place' hplace'
      exact ⟨hfile', x, hx.tail hp, hxplace⟩

/-- A chain of parents that never comes back ends. -/
theorem ends_of_acyclic
    (h : ∀ x, Relation.TransGen r.IsParent c x → ¬ Relation.TransGen r.IsParent x x) : r.Ends c :=
  endsWithin_of_places List.nodup_nil (by simp) h (by simp)

/-- An ancestor is a step nearer to the end at least. -/
theorem EndsWithin.of_transGen {n : Nat} {x : Coordinate} (h : r.EndsWithin (n + 1) c)
    (hx : Relation.TransGen r.IsParent c x) : r.EndsWithin n x := by
  induction hx with
  | single hp => exact h _ hp
  | tail _ hp ih =>
    cases n with
    | zero => exact ih.elim
    | succ n => exact (ih _ hp).mono (Nat.le_succ n)

/-- However long a chain of parents is that ends, there are enough files for it. On a way back to
where it began it would end after fewer and fewer descriptions. -/
theorem EndsWithin.ends {n : Nat} (h : r.EndsWithin n c) : r.Ends c := by
  have hnever : ∀ n x, Relation.TransGen r.IsParent x x → ¬ r.EndsWithin n x := by
    intro n x hcycle
    induction n with
    | zero => exact id
    | succ n ih => exact fun hx => ih (hx.of_transGen hcycle)
  refine ends_of_acyclic fun x hx hcycle => hnever n x hcycle ?_
  exact (h.mono (Nat.le_succ n)).of_transGen hx

/-- How many parents there are above a library, of at most that many. -/
def depthWithin (r : Repository) : Nat → Coordinate → Nat
  | 0, _ => 0
  | n + 1, c => ((r.parentOf? c).map fun p => r.depthWithin n p + 1).getD 0

/-- How many parents there are above a library. -/
def depth (r : Repository) (c : Coordinate) : Nat := r.depthWithin (r.tree.files.length + 1) c

/-- No depth is greater than the number of steps that were allowed. -/
theorem depthWithin_le (n : Nat) (c : Coordinate) : r.depthWithin n c ≤ n := by
  induction n generalizing c with
  | zero => exact Nat.le_refl 0
  | succ n ih =>
    rw [depthWithin]
    cases r.parentOf? c with
    | none => exact Nat.zero_le _
    | some p => exact Nat.succ_le_succ (ih p)

/-- Once the chain has come to its end, more steps make no difference to the depth. -/
theorem depthWithin_eq {n m : Nat} (h : r.EndsWithin n c) (h' : r.EndsWithin m c) :
    r.depthWithin n c = r.depthWithin m c := by
  induction n generalizing c m with
  | zero => exact h.elim
  | succ n ih =>
    cases m with
    | zero => exact h'.elim
    | succ m =>
      rw [depthWithin, depthWithin]
      rcases hparent : r.parentOf? c with _ | p
      · rfl
      · rw [Option.map_some, Option.map_some, ih (h p hparent) (h' p hparent)]

/-- A child is a step deeper than its parent. -/
theorem depth_of_isParent (h : r.Ends c) (hp : r.IsParent c p) : r.depth c = r.depth p + 1 := by
  have hsame : r.depthWithin r.tree.files.length p = r.depth p :=
    depthWithin_eq (h p hp) (h.parent hp)
  rw [depth, depthWithin, show r.parentOf? c = some p from hp, Option.map_some, hsame,
    Option.getD_some]

/-! ## What the files tell -/

/-- The description of a library by its file and the description of the parent. -/
def toldOver (r : Repository) (parentTold : Coordinate → Except Fault (Option Pom))
    (c : Coordinate) : Except Fault (Option Pom) :=
  match r.description? c with
  | .error e => .error e
  | .ok none => .ok none
  | .ok (some root) =>
    match Pom.parent? root with
    | none => .ok (some (Pom.ofElement c {} root))
    | some p => (parentTold p).map fun inherited =>
        some (Pom.ofElement c (inherited.getD {}) root)

/-- The description of a library by the files alone, over at most that many descriptions. -/
def toldWithin (r : Repository) : Nat → Coordinate → Except Fault (Option Pom)
  | 0, _ => .error .endlessParents
  | n + 1, c => r.toldOver (r.toldWithin n) c

/-- The description of a library by the files alone. -/
def told (r : Repository) (c : Coordinate) : Except Fault (Option Pom) :=
  r.toldWithin (r.tree.files.length + 1) c

/-- Of the parent nothing matters but its description. -/
theorem toldOver_congr {f g : Coordinate → Except Fault (Option Pom)}
    (h : ∀ p, r.IsParent c p → f p = g p) : r.toldOver f c = r.toldOver g c := by
  unfold toldOver
  rcases hroot : r.description? c with e | _ | root
  · rfl
  · rfl
  · rcases hparent : Pom.parent? root with _ | p
    · simp only [hparent]
    · simp only [hparent, h p (isParent_iff.2 ⟨root, hroot, hparent⟩)]

/-- It does not matter how many descriptions more than needed there may be. -/
theorem toldWithin_eq {n m : Nat} (h : r.EndsWithin n c) (h' : r.EndsWithin m c) :
    r.toldWithin n c = r.toldWithin m c := by
  induction n generalizing c m with
  | zero => exact h.elim
  | succ n ih =>
    cases m with
    | zero => exact h'.elim
    | succ m => exact toldOver_congr fun p hp => ih (h p hp) (h' p hp)

/-- What is told within enough steps is what is told. -/
theorem told_eq_of_endsWithin {n : Nat} (h : r.EndsWithin n c) (hends : r.Ends c) :
    r.toldWithin n c = r.told c :=
  toldWithin_eq h hends

/-- The description of a library is what its file tells on top of that of its parent. -/
theorem told_eq (h : r.Ends c) : r.told c = r.toldOver r.told c :=
  toldOver_congr fun p hp => told_eq_of_endsWithin (h p hp) (h.parent hp)

/-- If the file cannot be read, then that is what is told. -/
theorem told_of_error {e : Fault} (h : r.Ends c) (hfile : r.description? c = .error e) :
    r.told c = .error e := by
  rw [told_eq h]
  unfold toldOver
  simp only [hfile]

/-- If there is no file, nothing is told. -/
theorem told_of_missing (h : r.Ends c) (hfile : r.description? c = .ok none) :
    r.told c = .ok none := by
  rw [told_eq h]
  unfold toldOver
  simp only [hfile]

/-- A description without a parent is told by its file alone. -/
theorem told_of_alone (h : r.Ends c) (hfile : r.description? c = .ok (some root))
    (hparent : Pom.parent? root = none) : r.told c = .ok (some (Pom.ofElement c {} root)) := by
  rw [told_eq h]
  unfold toldOver
  simp only [hfile, hparent]

/-- A description with a parent is told by its file and by what is told of the parent; a parent that
has no file leaves nothing to inherit. -/
theorem told_of_parent (h : r.Ends c) (hfile : r.description? c = .ok (some root))
    (hparent : Pom.parent? root = some p) : r.told c = (r.told p).map fun inherited =>
      some (Pom.ofElement c (inherited.getD {}) root) := by
  rw [told_eq h]
  unfold toldOver
  simp only [hfile, hparent]

/-! ## A small family -/

/-- What describes a library that has a parent. -/
def childText : String :=
  "<a><parent><groupId>g</groupId><artifactId>p</artifactId><version>1</version></parent>" ++
    "<properties><v>2</v></properties></a>"

/-- What describes the parent. -/
def parentText : String := "<a><properties><v>1</v><w>3</w></properties></a>"

/-- A repository with a library and its parent. -/
def family : Repository where
  tree.files := [(["r", "g", "a", "1", "a-1.pom"], childText.toUTF8),
    (["r", "g", "p", "1", "p-1.pom"], parentText.toUTF8)]
  path := .parse "/r"

/-- What an element without a name space says about the parent and the properties. -/
def plainly (root : Xml.Element) : Bool × Option Coordinate × Properties :=
  (root.name.space == "",
    (root.named (some "") "parent").head?.map fun e => ⟨Pom.textOf (some "") e "groupId",
      Pom.textOf (some "") e "artifactId", Pom.textOf (some "") e "version"⟩,
    match (root.named (some "") "properties").head? with
    | some e => e.children.map fun p => (p.name.base, Text.trim p.text)
    | none => [])

/-- What the evaluation of the example says of its parent and its properties. -/
theorem eq_of_plainly {parent : Option Coordinate} {defined : Properties}
    (h : plainly root = (true, parent, defined)) :
    Pom.parent? root = parent ∧ Pom.definedProperties root = defined := by
  obtain ⟨hspace, hparent, hdefined⟩ : _ ∧ _ ∧ _ := by simpa only [plainly, Prod.mk.injEq] using h
  have hplain : Pom.spaceOf root = some "" := by
    rw [Pom.spaceOf, eq_of_beq hspace]
    simp
  rw [Pom.parent?, Pom.definedProperties, hplain]
  exact ⟨hparent, hdefined⟩

/-- The child of the example has a parent, and one property of its own. -/
theorem plainly_childText : (Xml.parse? childText).map plainly =
    some (true, some ⟨"g", "p", "1"⟩, [("v", "2")]) := by
  decide +kernel

/-- The parent has two properties, and no parent. -/
theorem plainly_parentText : (Xml.parse? parentText).map plainly =
    some (true, none, [("v", "1"), ("w", "3")]) := by
  decide +kernel

/-- What the files of the family tell. -/
theorem exists_family : ∃ child parent,
    family.rootAt? ["r", "g", "a", "1", "a-1.pom"] = some child ∧
      family.rootAt? ["r", "g", "p", "1", "p-1.pom"] = some parent ∧
      (Pom.parent? child = some ⟨"g", "p", "1"⟩ ∧ Pom.definedProperties child = [("v", "2")]) ∧
      Pom.parent? parent = none ∧ Pom.definedProperties parent = [("v", "1"), ("w", "3")] := by
  obtain ⟨child, hchild, hplain⟩ := Option.map_eq_some_iff.1 plainly_childText
  obtain ⟨parent, hparent, hplain'⟩ := Option.map_eq_some_iff.1 plainly_parentText
  refine ⟨child, parent, ?_, ?_, eq_of_plainly hplain, eq_of_plainly hplain'⟩
  · exact (rootAt?_of_text rfl (by decide +kernel)).trans hchild
  · exact (rootAt?_of_text rfl (by decide +kernel)).trans hparent

/-- The two files are where the coordinates say. -/
theorem locate_family :
    family.tree.locate (Coordinate.pom ⟨"g", "a", "1"⟩ family.path) =
        .ok ["r", "g", "a", "1", "a-1.pom"] ∧
      family.tree.locate (Coordinate.pom ⟨"g", "p", "1"⟩ family.path) =
        .ok ["r", "g", "p", "1", "p-1.pom"] := by
  constructor <;> with_unfolding_all rfl

/-- Only one library of the family is a parent, and it has none itself, so no chain comes back. -/
theorem isAcyclic_family : family.IsAcyclic := by
  obtain ⟨child, parent, hchild, hparent, ⟨hof, -⟩, hnone, -⟩ := exists_family
  have hplace : ∀ c p, family.IsParent c p → p = ⟨"g", "p", "1"⟩ ∧
      family.tree.locate (c.pom family.path) = .ok ["r", "g", "a", "1", "a-1.pom"] := by
    intro c p hp
    obtain ⟨root, hroot, hp⟩ := isParent_iff.1 hp
    obtain ⟨place, hplace, hfile⟩ := description?_eq_some.1 hroot
    obtain ⟨content, hget, -⟩ := Option.bind_eq_some_iff.1 hfile
    have hmem : place ∈ family.tree.files.keys := Tree.isFile_iff.1 (Tree.isFile_of_get? hget)
    rcases List.mem_pair.1 hmem with rfl | rfl
    · obtain rfl := Option.some.inj (hchild.symm.trans hfile)
      exact ⟨Option.some.inj (hp.symm.trans hof), hplace⟩
    · obtain rfl := Option.some.inj (hparent.symm.trans hfile)
      rw [hnone] at hp
      cases hp
  intro c hcycle
  obtain ⟨x, hx, -⟩ := Relation.TransGen.head'_iff.1 hcycle
  obtain ⟨y, -, hy⟩ := Relation.TransGen.tail'_iff.1 hcycle
  obtain ⟨rfl, -⟩ := hplace y c hy
  have hplaces := (hplace _ x hx).2.symm.trans locate_family.2
  exact absurd (Except.ok.inj hplaces) (by decide)

end BuildFiles.Repository
