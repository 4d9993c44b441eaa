import BuildFiles.Label
import BuildFiles.Proofs.Tree

/-!
# What a label tells

A label of a target in the package of a folder tells the folder and the target apart from all
others: `inPackage_inj`. The name of the target stands after the last colon, and what stands before
it are the names of the folder, which hold no slash.
-/

namespace BuildFiles.Label

/-- The text of the package of a folder that is reached through the names. -/
def packageText (names : List String) : String :=
  if names.isEmpty then "" else (Path.ofNames names).toText

theorem inPackage_eq_ok {base folder : Path} (h : folder.isWithin base = true) (name : String) :
    inPackage base folder name =
      .ok ("//" ++ packageText (folder.names.drop base.names.length) ++ ":" ++ name) := by
  rw [inPackage, relative, Path.relativeTo?, if_pos h]
  rfl

/-- What two lists of characters with the same separator are made of, if it is the last one. -/
theorem append_cons_inj {sep : Char} {a a' b b' : List Char} (hb : sep ∉ b) (hb' : sep ∉ b')
    (h : a ++ sep :: b = a' ++ sep :: b') : a = a' ∧ b = b' := by
  -- if one of the lists before went on, the separator of the other would stand in what comes after
  rcases List.append_eq_append_iff.1 h with ⟨more, rfl, hmore⟩ | ⟨more, rfl, hmore⟩
  · cases more with
    | nil => exact ⟨(List.append_nil a).symm, (List.cons.inj hmore).2⟩
    | cons c more =>
      obtain ⟨-, rfl⟩ := List.cons.inj hmore
      exact absurd (List.mem_append_right more List.mem_cons_self) hb
  · cases more with
    | nil => exact ⟨List.append_nil a', (List.cons.inj hmore).2.symm⟩
    | cons c more =>
      obtain ⟨-, rfl⟩ := List.cons.inj hmore
      exact absurd (List.mem_append_right more List.mem_cons_self) hb'

theorem packageText_eq (names : List String) : packageText names = "/".intercalate names := by
  cases names with
  | nil => rfl
  | cons n names =>
    change Path.toText (.ofNames (n :: names)) = _
    rw [Path.toText, if_neg (by simp [Path.ofNames])]
    exact String.empty_append

theorem toList_packageText (names : List String) :
    (packageText names).toList = ['/'].intercalate (names.map String.toList) := by
  rw [packageText_eq, String.toList_intercalate]
  rfl

theorem splitOn_packageText {names : List String} (hnames : ∀ n ∈ names, Path.IsSegment n)
    (h : names ≠ []) : (packageText names).toList.splitOn '/' = names.map String.toList := by
  rw [toList_packageText]
  refine List.splitOn_intercalate '/' ?_ (by simpa using h)
  intro cs hcs
  obtain ⟨n, hn, rfl⟩ := List.mem_map.1 hcs
  exact (hnames n hn).no_slash

theorem packageText_ne_empty {names : List String} (hnames : ∀ n ∈ names, Path.IsSegment n)
    (h : names ≠ []) : packageText names ≠ "" := by
  intro hempty
  have hsplit := splitOn_packageText hnames h
  rw [hempty] at hsplit
  obtain ⟨n, more, rfl⟩ := List.exists_cons_of_ne_nil h
  obtain ⟨hn, -⟩ := List.cons.inj hsplit
  exact (hnames n List.mem_cons_self).ne_empty (String.toList_inj.1 hn.symm)

theorem packageText_inj {names names' : List String} (hnames : ∀ n ∈ names, Path.IsSegment n)
    (hnames' : ∀ n ∈ names', Path.IsSegment n) (h : packageText names = packageText names') :
    names = names' := by
  -- the names are found again by splitting at slashes, unless there are none
  by_cases hnil : names = []
  · by_cases hnil' : names' = []
    · rw [hnil, hnil']
    · refine absurd ?_ (packageText_ne_empty hnames' hnil')
      rw [← h, hnil]
      rfl
  · by_cases hnil' : names' = []
    · refine absurd ?_ (packageText_ne_empty hnames hnil)
      rw [h, hnil']
      rfl
    · have hsplit := splitOn_packageText hnames hnil
      rw [h, splitOn_packageText hnames' hnil'] at hsplit
      exact (List.map_injective_iff.2 fun _ _ => String.toList_inj.1) hsplit.symm

/-- Where there is a label of a target, it tells how its folder is reached, and its name. -/
theorem exists_way_of_inPackage {base folder : Path} {name label : String}
    (h : inPackage base folder name = .ok label) : ∃ way, folder = base.join (.ofNames way) ∧
      label = "//" ++ "/".intercalate way ++ ":" ++ name := by
  by_cases hwithin : folder.isWithin base = true
  · obtain ⟨way, rfl⟩ := Path.isWithin_iff_join.1 hwithin
    rw [inPackage_eq_ok hwithin, Path.join_ofNames, List.drop_left, packageText_eq] at h
    exact ⟨way, rfl, (Except.ok.inj h).symm⟩
  · rw [inPackage, relative, Path.relativeTo?, if_neg hwithin] at h
    cases h

/-- The label of a target tells its folder and its name: the path of the folder below the base has
no colon in front of the last one, and its parts can be told apart. -/
theorem inPackage_inj {base folder folder' : Path} {name name' label : String}
    (hwithin : folder.isWithin base = true) (hwithin' : folder'.isWithin base = true)
    (hnames : ∀ n ∈ folder.names, Path.IsSegment n)
    (hnames' : ∀ n ∈ folder'.names, Path.IsSegment n)
    (hname : ':' ∉ name.toList) (hname' : ':' ∉ name'.toList)
    (h : inPackage base folder name = .ok label) (h' : inPackage base folder' name' = .ok label) :
    folder = folder' ∧ name = name' := by
  rw [inPackage_eq_ok hwithin] at h
  rw [inPackage_eq_ok hwithin'] at h'
  have htext := congrArg String.toList (Except.ok.inj (h.trans h'.symm))
  simp only [String.toList_append, List.append_assoc, List.append_cancel_left_eq] at htext
  obtain ⟨hpackage, hsame⟩ := append_cons_inj hname hname' htext
  have hdrop := packageText_inj (fun n hn => hnames n (List.mem_of_mem_drop hn))
    (fun n hn => hnames' n (List.mem_of_mem_drop hn)) (String.toList_inj.1 hpackage)
  obtain ⟨hanchor, hle⟩ := Path.isWithin_iff.1 hwithin
  obtain ⟨hanchor', hle'⟩ := Path.isWithin_iff.1 hwithin'
  have hall : folder.names = folder'.names := by
    rw [← List.prefix_iff_eq_append.1 hle, hdrop, List.prefix_iff_eq_append.1 hle']
  obtain ⟨anchor, names⟩ := folder
  obtain ⟨anchor', names'⟩ := folder'
  obtain rfl : anchor = anchor' := hanchor.trans hanchor'.symm
  obtain rfl : names = names' := hall
  exact ⟨rfl, String.toList_inj.1 hsame⟩

end BuildFiles.Label
