import Mathlib.Data.List.Basic
import WordMachine.CommandLine.Desk
import WordMachine.Proofs.Lockstep
import WordMachine.Proofs.Text.Cuts

/-!
# Proofs/CommandLine/Desk — two files side by side

Paths that differ in their ending only lead into the same directory: where one can be walked, so can
the other (`Enters`).  And a file that is put into a directory leaves all other files and all
directories where they are (`place?_put_of_ne`, `Enters.put`).

Main statement: `exists_write_beside`.  Beside a file that can be read another one can be written,
unless there is a directory in its place; both can be read afterwards.
-/

namespace WordMachine

/-! ## The last step of a path -/

namespace Trail

/-- The steps of a path up to its last one. -/
def stepsBefore (path : Text) : List Text := (steps path).dropLast

/-- The last step of a path. -/
def lastStep (path : Text) : Text := (steps path).getLast?.getD []

variable {p e : Text}

/-- What has no slash in it goes to the last step. -/
theorem steps_append (he : '/' ∉ e) : steps (p ++ e) = stepsBefore p ++ [lastStep p ++ e] := by
  obtain ⟨before, last, hsteps⟩ := Text.exists_splitOn_append '/' p
  have hp : steps p = before ++ [last] := by
    have hnil := hsteps [] List.not_mem_nil
    rwa [List.append_nil, List.append_nil] at hnil
  rw [stepsBefore, lastStep, hp, List.dropLast_concat, List.getLast?_concat, Option.getD_some]
  exact hsteps e he

theorem start_append (he : '/' ∉ e) : start (p ++ e) = start p := by
  cases p with
  | cons c p => rfl
  | nil =>
    have hhead : e.head? ≠ some '/' := fun h => he (List.mem_of_head? h)
    rw [List.nil_append, start, if_neg hhead]
    rfl

end Trail

/-- The ending of a file name: a dot and three more characters. -/
structure IsEnding (e : Text) : Prop where
  dot : e.head? = some '.'
  length : e.length = 4
  size : e.utf8Size = 4
  slash : '/' ∉ e

namespace IsEnding

variable {e : Text}

theorem four_le_length (he : IsEnding e) (t : Text) : 4 ≤ (t ++ e).length := by
  rw [List.length_append, he.length]
  exact Nat.le_add_left _ _

theorem ne_nil (he : IsEnding e) (t : Text) : t ++ e ≠ [] :=
  fun h => absurd (h ▸ he.four_le_length t) (by decide)

theorem not_stays (he : IsEnding e) (step : Text) : Trail.stays (step ++ e) = false := by
  rw [Trail.stays, Bool.or_eq_false_iff, beq_eq_false_iff_ne, beq_eq_false_iff_ne]
  exact ⟨he.ne_nil step, fun h => absurd (h ▸ he.four_le_length step) (by decide)⟩

theorem not_rises (he : IsEnding e) (step : Text) : Trail.rises (step ++ e) = false := by
  rw [Trail.rises, beq_eq_false_iff_ne]
  exact fun h => absurd (h ▸ he.four_le_length step) (by decide)

/-- A step with an ending is a name. -/
theorem follow_append (he : IsEnding e) (t : Trail) (step : Text) :
    t.follow (step ++ e) = t.down (step ++ e) := by
  rw [Trail.follow, he.not_stays, he.not_rises]
  rfl

theorem getLast?_append (he : IsEnding e) (t : Text) : (t ++ e).getLast? ≠ some '/' := by
  have hne : e ≠ [] := he.ne_nil []
  rw [List.getLast?_append_of_ne_nil _ hne]
  exact fun h => he.slash (List.mem_of_getLast? h)

end IsEnding

namespace Desk

variable {desk : Desk} {t u : Trail} {contents source : Text} {p e e' : Text} {x : Place}

/-! ## After a file was put -/

theorem lookup_replace (files : List (Trail × Text)) :
    (files.map fun file => if file.1 = t then (t, contents) else file).lookup u =
      if u = t then (files.lookup t).map fun _ => contents else files.lookup u := by
  induction files with
  | nil => split <;> rfl
  | cons file files ih =>
    obtain ⟨v, text⟩ := file
    rw [List.map_cons]
    by_cases hv : v = t
    · subst hv
      by_cases hu : u = v
      · simp [hu]
      · have hne : (u == v) = false := beq_eq_false_iff_ne.mpr hu
        simp [List.lookup_cons, hu, hne, ih]
    · by_cases hu : u = t
      · have hne : (t == v) = false := beq_eq_false_iff_ne.mpr (Ne.symm hv)
        subst hu
        simp [List.lookup_cons, hv, hne, ih]
      · simp [List.lookup_cons, hv, hu, ih]

/-- **A file that was put somewhere is there, and all others are where they were.** -/
theorem lookup_put (desk : Desk) (t u : Trail) (contents : Text) :
    (desk.put t contents).files.lookup u =
      if u = t then some contents else desk.files.lookup u := by
  rw [put]
  split
  · next hthere =>
    obtain ⟨old, hold⟩ := Option.isSome_iff_exists.mp hthere
    rw [lookup_replace, hold]
    rfl
  · next hnew =>
    have hnone : desk.files.lookup t = none := Option.not_isSome_iff_eq_none.mp hnew
    rw [List.lookup_append]
    by_cases hu : u = t
    · subst hu
      simp [hnone]
    · have hne : (u == t) = false := beq_eq_false_iff_ne.mpr hu
      simp [List.lookup_cons, hu, hne]

theorem isOccupied_put (h : desk.isOccupied u = true) :
    (desk.put t contents).isOccupied u = true := by
  rw [isOccupied, Bool.or_eq_true] at h ⊢
  refine h.imp_left fun hfiles => ?_
  obtain ⟨file, hfile, hinside⟩ := List.any_eq_true.mp hfiles
  refine List.any_eq_true.mpr ?_
  rw [put]
  split
  · refine ⟨_, List.mem_map_of_mem hfile, ?_⟩
    split
    · next heq => exact heq ▸ hinside
    · exact hinside
  · exact ⟨file, List.mem_append_left _ hfile, hinside⟩

theorem place?_put (desk : Desk) (t : Trail) (contents : Text) :
    (desk.put t contents).place? t = some (.file contents) := by
  rw [place?, lookup_put, if_pos rfl]

/-- What is somewhere else stays there. -/
theorem place?_put_of_ne (hne : u ≠ t) (h : desk.place? u = some x) :
    (desk.put t contents).place? u = some x := by
  rw [place?] at h ⊢
  rw [lookup_put, if_neg hne]
  cases hfile : desk.files.lookup u with
  | some text =>
    rw [hfile] at h
    exact h
  | none =>
    rw [hfile] at h
    cases hfixture : fixtures.lookup u with
    | some place =>
      rw [hfixture] at h
      exact h
    | none =>
      rw [hfixture] at h
      dsimp only at h ⊢
      split at h
      · next hdirectory =>
        rw [Bool.or_eq_true] at hdirectory
        rw [if_pos (Bool.or_eq_true _ _ ▸ hdirectory.imp_right isOccupied_put)]
        exact h
      · cases h

/-! ## Walking -/

theorem checkDirectory_eq_ok_iff :
    desk.checkDirectory t = .ok () ↔ desk.place? t = some .directory := by
  rw [checkDirectory]
  cases desk.place? t with
  | none => exact ⟨nofun, nofun⟩
  | some place =>
    cases place with
    | directory => exact ⟨fun _ => rfl, fun _ => rfl⟩
    | _ => exact ⟨nofun, nofun⟩

/-- A step that can be taken is taken from a directory, by a name that is not too long. -/
theorem walkStep_eq_ok_iff {step : Text} :
    desk.walkStep t step = .ok u ↔
      desk.place? t = some .directory ∧ step.utf8Size ≤ longestName ∧ t.follow step = u := by
  rw [← checkDirectory_eq_ok_iff, walkStep]
  cases desk.checkDirectory t with
  | error e => exact ⟨nofun, nofun⟩
  | ok _ =>
    by_cases hlong : longestName < step.utf8Size
    · have hthrow : (do
          if longestName < step.utf8Size then throw FileError.nameTooLong
          return t.follow step : Except FileError Trail) = .error .nameTooLong := by
        rw [if_pos hlong]
        rfl
      refine ⟨fun h => ?_, fun h => absurd h.2.1 (Nat.not_le.mpr hlong)⟩
      cases hthrow.symm.trans h
    · have hreturn : (do
          if longestName < step.utf8Size then throw FileError.nameTooLong
          return t.follow step : Except FileError Trail) = .ok (t.follow step) := by
        rw [if_neg hlong]
        rfl
      refine ⟨fun h => ⟨rfl, Nat.not_lt.mp hlong, ?_⟩, fun h => ?_⟩
      · exact Except.ok.inj (hreturn.symm.trans h)
      · exact hreturn.trans (congrArg Except.ok h.2.2)

/-- A directory stays one, unless the file was put in its place. -/
theorem directory_put (ht : desk.place? t ≠ some .directory)
    (h : desk.place? u = some .directory) : (desk.put t contents).place? u = some .directory :=
  place?_put_of_ne (fun heq => ht (heq ▸ h)) h

theorem foldlM_walkStep_put (ht : desk.place? t ≠ some .directory) {steps : List Text}
    {start u : Trail} (h : steps.foldlM desk.walkStep start = .ok u) :
    steps.foldlM (desk.put t contents).walkStep start = .ok u := by
  induction steps generalizing start with
  | nil => exact h
  | cons step steps ih =>
    rw [List.foldlM_cons] at h ⊢
    obtain ⟨v, hfirst, hrest⟩ := exists_of_except_ok h
    obtain ⟨hdirectory, hname, hv⟩ := walkStep_eq_ok_iff.mp hfirst
    have hfirst' : (desk.put t contents).walkStep start step = .ok v :=
      walkStep_eq_ok_iff.mpr ⟨directory_put ht hdirectory, hname, hv⟩
    rw [hfirst']
    exact ih hrest

/-! ## Paths that differ in their ending -/

/-- Paths that begin with `p` and go on with an ending lead into the directory `parent`. -/
structure Enters (desk : Desk) (p : Text) (parent : Trail) : Prop where
  path : p.utf8Size + 4 ≤ longestPath
  steps : (Trail.stepsBefore p).foldlM desk.walkStep (Trail.start p) = .ok parent
  directory : desk.place? parent = some .directory
  name : (Trail.lastStep p).utf8Size + 4 ≤ longestName

namespace Enters

variable {parent : Trail}

theorem checkPath_append (he : IsEnding e) :
    checkPath (p ++ e) =
      if longestPath < p.utf8Size + 4 then .error .nameTooLong else .ok () := by
  have hempty : (p ++ e).isEmpty = false := List.isEmpty_eq_false_iff.mpr (he.ne_nil p)
  rw [checkPath, hempty, Text.utf8Size_append, he.size]
  rfl

/-- Where a path with an ending leads, it leads into a directory… -/
theorem exists_of_walk (he : IsEnding e) (h : desk.walk (p ++ e) = .ok u) :
    ∃ parent, desk.Enters p parent ∧ u = parent.down (Trail.lastStep p ++ e) := by
  rw [walk, checkPath_append he] at h
  split at h
  · cases h
  · next hpath =>
    change (Trail.steps (p ++ e)).foldlM desk.walkStep (Trail.start (p ++ e)) = _ at h
    rw [Trail.steps_append he.slash, Trail.start_append he.slash, List.foldlM_append] at h
    obtain ⟨parent, hsteps, hlast⟩ := exists_of_except_ok h
    rw [List.foldlM_cons] at hlast
    obtain ⟨v, hstep, hdone⟩ := exists_of_except_ok hlast
    cases hdone
    obtain ⟨hdirectory, hname, rfl⟩ := walkStep_eq_ok_iff.mp hstep
    rw [Text.utf8Size_append, he.size] at hname
    exact ⟨parent, ⟨Nat.not_lt.mp hpath, hsteps, hdirectory, hname⟩, he.follow_append _ _⟩

variable (h : desk.Enters p parent)
include h

theorem checkPath_eq (he : IsEnding e) : checkPath (p ++ e) = .ok () := by
  rw [checkPath_append he, if_neg (Nat.not_lt.mpr h.path)]

theorem walkStep_eq (he : IsEnding e) :
    desk.walkStep parent (Trail.lastStep p ++ e) = .ok (parent.down (Trail.lastStep p ++ e)) := by
  refine walkStep_eq_ok_iff.mpr ⟨h.directory, ?_, he.follow_append _ _⟩
  rw [Text.utf8Size_append, he.size]
  exact h.name

/-- …**and with any other ending it leads there too**, be it to read… -/
theorem walk_eq (he : IsEnding e) :
    desk.walk (p ++ e) = .ok (parent.down (Trail.lastStep p ++ e)) := by
  rw [walk, h.checkPath_eq he, Trail.steps_append he.slash, Trail.start_append he.slash]
  change List.foldlM desk.walkStep (Trail.start p) _ = _
  rw [List.foldlM_append, h.steps]
  change List.foldlM desk.walkStep parent [_] = _
  rw [List.foldlM_cons, h.walkStep_eq he]
  rfl

/-- …or to write. -/
theorem target_eq (he : IsEnding e) :
    desk.target (p ++ e) = .ok (parent.down (Trail.lastStep p ++ e)) := by
  have hempty : (Trail.lastStep p ++ e).isEmpty = false :=
    List.isEmpty_eq_false_iff.mpr (he.ne_nil _)
  have hsplit : (Trail.steps (p ++ e)).reverse.dropWhile List.isEmpty =
      (Trail.lastStep p ++ e) :: (Trail.stepsBefore p).reverse := by
    rw [Trail.steps_append he.slash, List.reverse_append, List.reverse_singleton,
      List.singleton_append, List.dropWhile_cons, hempty]
    rfl
  rw [target, h.checkPath_eq he, hsplit]
  change ((Trail.stepsBefore p).reverse.reverse.foldlM desk.walkStep (Trail.start (p ++ e)) >>= _) =
    _
  rw [List.reverse_reverse, Trail.start_append he.slash, h.steps]
  change (desk.checkDirectory parent >>= _) = _
  rw [checkDirectory_eq_ok_iff.mpr h.directory]
  change (if _ then _ else desk.walkStep parent (Trail.lastStep p ++ e)) = _
  rw [he.not_stays, he.not_rises, if_neg (by simpa using he.getLast?_append p), h.walkStep_eq he]

/-- A file in the place of no directory closes no way. -/
theorem put (ht : desk.place? t ≠ some .directory) : (desk.put t contents).Enters p parent :=
  ⟨h.path, foldlM_walkStep_put ht h.steps, directory_put ht h.directory, h.name⟩

end Enters

/-! ## A file beside another one -/

/-- Only what is written to `/dev/null` is lost. -/
theorem name_of_sink (h : desk.place? t = some .sink) : t.names.head? = some "null".toList := by
  have hnull : (Trail.ofPath "/dev/null".toList).names.head? = some "null".toList := by
    decide +kernel
  rw [place?] at h
  split at h
  · cases h
  · split at h
    · next place hfixture =>
      cases h
      rw [fixtures, List.lookup_cons] at hfixture
      split at hfixture
      · next heq => exact eq_of_beq heq ▸ hnull
      · rw [List.lookup_cons] at hfixture
        split at hfixture <;> cases hfixture
    · split at h <;> cases h

theorem place?_ne_sink (he : IsEnding e) (parent : Trail) (step : Text) :
    desk.place? (parent.down (step ++ e)) ≠ some .sink := by
  intro hsink
  have hname : step ++ e = "null".toList := Option.some.inj (name_of_sink hsink)
  have hlength := congrArg List.length hname
  rw [List.length_append, he.length] at hlength
  have hnil : step = [] := List.eq_nil_of_length_eq_zero (Nat.add_right_cancel hlength)
  have hdot := he.dot
  rw [hnil, List.nil_append] at hname
  rw [hname] at hdot
  exact absurd hdot (by decide)

section Access

variable {path : String}

theorem read_eq (h : desk.walk path.toList = .ok u) :
    desk.read path =
      match desk.place? u with
      | some (.file contents) => .ok contents
      | some .sink => .ok []
      | some .directory => .error .isDirectory
      | none => .error .notFound := by
  rw [read, h]
  rfl

theorem write_eq (h : desk.target path.toList = .ok t) :
    desk.write path contents =
      match desk.place? t with
      | some .directory => .error .isDirectory
      | some .sink => .ok desk
      | _ => .ok (desk.put t contents) := by
  rw [write, h]
  rfl

/-- What can be read is a file, or lost. -/
theorem exists_of_read (h : desk.read path = .ok source) :
    ∃ u, desk.walk path.toList = .ok u ∧
      (desk.place? u = some (.file source) ∨ desk.place? u = some .sink) := by
  obtain ⟨u, hwalk, -⟩ := exists_of_except_ok h
  refine ⟨u, hwalk, ?_⟩
  rw [read_eq hwalk] at h
  split at h
  · next text hfile =>
    cases h
    exact .inl hfile
  · next hsink => exact .inr hsink
  · cases h
  · cases h

end Access

/-- **Beside a file that can be read another one can be written**, under the same name but for its
ending, unless a directory has this name.  Then both can be read. -/
theorem exists_write_beside {path path' : String} (hpath : path.toList = p ++ e)
    (hpath' : path'.toList = p ++ e') (he : IsEnding e) (he' : IsEnding e') (hne : e ≠ e')
    (hread : desk.read path = .ok source) (hfree : desk.read path' ≠ .error .isDirectory)
    (contents : Text) :
    ∃ t, desk.write path' contents = .ok (desk.put t contents) ∧
      (desk.put t contents).read path' = .ok contents ∧
      (desk.put t contents).read path = .ok source := by
  obtain ⟨u, hwalk, hplace⟩ := exists_of_read hread
  rw [hpath] at hwalk
  obtain ⟨parent, henters, rfl⟩ := Enters.exists_of_walk he hwalk
  let t := parent.down (Trail.lastStep p ++ e')
  have hopen : desk.place? t ≠ some .directory := fun h =>
    hfree (by rw [read_eq (hpath' ▸ henters.walk_eq he'), h])
  have hother : parent.down (Trail.lastStep p ++ e) ≠ t := by
    intro h
    have hnames := congrArg Trail.names h
    exact hne (List.append_cancel_left (List.cons.inj hnames).1)
  have henters' : (desk.put t contents).Enters p parent := henters.put hopen
  refine ⟨t, ?_, ?_, ?_⟩
  · rw [write_eq (hpath' ▸ henters.target_eq he')]
    split
    · next hdirectory => exact absurd hdirectory hopen
    · next hsink => exact absurd hsink (place?_ne_sink he' parent _)
    · rfl
  · rw [read_eq (hpath' ▸ henters'.walk_eq he'), place?_put]
  · have hfile := hplace.resolve_right (place?_ne_sink he parent _)
    rw [read_eq (hpath ▸ henters'.walk_eq he), place?_put_of_ne hother hfile]

end Desk

end WordMachine
