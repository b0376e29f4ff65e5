import WordMachine.CommandLine.Basic
import WordMachine.Proofs.CommandLine.Desk
import WordMachine.Proofs.Image.RoundTrip

/-!
# Proofs/CommandLine/Assembled — a source file runs as its image does

A run needs of its program nothing but the words (`run_eq`), and these are the same, whether a source
text is assembled or the image of its words is read (`loadWords_source`, `loadWords_image`).  So once
a source file `p.asm` has been assembled to `p.hex`, either can be run in the place of the other.

Main statement: `run_image_eq_run_source`.
-/

namespace WordMachine

namespace CommandLine

/-! ## Names -/

/-- The ending of the names of image files. -/
def imageEnding : Text := ['.', 'h', 'e', 'x']

theorem isEnding_source : IsEnding sourceEnding := ⟨rfl, rfl, rfl, by decide⟩

theorem isEnding_image : IsEnding imageEnding := ⟨rfl, rfl, rfl, by decide⟩

theorem toList_sourceName (p : String) : (p ++ ".asm").toList = p.toList ++ sourceEnding :=
  String.toList_append

theorem toList_imageName (p : String) : (p ++ ".hex").toList = p.toList ++ imageEnding :=
  String.toList_append

theorem stem?_source (p : String) : stem? (p ++ ".asm") = some p.toList := by
  rw [stem?, toList_sourceName, List.reverse_append, Text.after?_append, Option.map_some,
    List.reverse_reverse]

theorem stem?_image (p : String) : stem? (p ++ ".hex") = none := by
  rw [stem?, toList_imageName, List.reverse_append]
  rfl

theorem imageName_source (p : String) : imageName (p ++ ".asm") = p ++ ".hex" := by
  rw [imageName, stem?_source, Option.getD_some, ← String.toList_inj, String.toList_ofList,
    toList_imageName]
  rfl

/-! ## Commands on a desk -/

/-- What a command does on a desk. -/
abbrev DeskShell := Shell (StateM Desk)

section DeskShell

variable {α β : Type} {f : DeskShell α} {k : α → DeskShell β} {desk desk' : Desk}

theorem bind_of_shell_ok {a : α} (h : f desk = (.ok a, desk')) : (f >>= k) desk = k a desk' :=
  congrArg (fun reached : Except UInt8 α × Desk => ExceptT.bindCont k reached.1 reached.2) h

theorem bind_of_shell_error {code : UInt8} (h : f desk = (.error code, desk')) :
    (f >>= k) desk = (.error code, desk') :=
  congrArg (fun reached : Except UInt8 α × Desk => ExceptT.bindCont k reached.1 reached.2) h

/-- The exit code of a command that has ended so. -/
def exitCode : Except UInt8 Unit → UInt8
  | .ok () => 0
  | .error code => code

/-- **A command line does what its command does**, and ends with its exit code. -/
theorem performWords_eq {words : List String} {command : Command}
    (h : command? words = some command) {result : Except UInt8 Unit}
    (hperform : (perform command : DeskShell Unit) desk = (result, desk')) :
    (performWords words : StateM Desk UInt8) desk = (exitCode result, desk') := by
  have hbind : ∀ k : Except UInt8 Unit → StateM Desk UInt8,
      ((perform command : DeskShell Unit).run >>= k) desk = k result desk' := fun k =>
    congrArg (fun reached : Except UInt8 Unit × Desk => k reached.1 reached.2) hperform
  rw [performWords, h]
  refine (hbind _).trans ?_
  cases result <;> rfl

theorem lift_readFile (desk : Desk) (name : String) :
    (ExceptT.lift (Host.readFile name) : DeskShell _) desk =
      (.ok (desk.read name), desk) := rfl

theorem lift_writeFile {name : String} {contents : Text}
    (h : desk.write name contents = .ok desk') :
    (ExceptT.lift (Host.writeFile name contents) : DeskShell _) desk =
      (.ok (.ok ()), desk') := by
  have hwrite : (Host.writeFile name contents : StateM Desk (Except FileError Unit)) desk =
      (.ok (), desk') := by
    simp only [Host.writeFile, h]
  exact congrArg (fun reached : Except FileError Unit × Desk => (Except.ok reached.1, reached.2))
    hwrite

/-- The desk once a line has been printed. -/
def printed (line : String) (desk : Desk) : Desk :=
  { desk with output := desk.output ++ line ++ "\n" }

theorem print_eq (line : String) (desk : Desk) :
    (print line : DeskShell Unit) desk = (.ok (), printed line desk) := rfl

theorem readSource_eq {name : String} {source : Text} (h : desk.read name = .ok source) :
    (readSource name : DeskShell Text) desk = (.ok source, desk) := by
  rw [readSource, bind_of_shell_ok (lift_readFile desk name), h]
  rfl

theorem assembleFile_eq {name : String} {source : Text} {program : Assembly.Program}
    (h : desk.read name = .ok source) (hassemble : Assembly.assemble? source = .ok program) :
    (assembleFile name : DeskShell Assembly.Program) desk = (.ok program, desk) := by
  rw [assembleFile, bind_of_shell_ok (readSource_eq h), hassemble]
  rfl

theorem readImage_eq {name : String} {words : List Word}
    (h : desk.read name = .ok (Image.format words)) :
    (readImage name : DeskShell (List Word)) desk = (.ok words, desk) := by
  have hparse : Image.parse (Image.format words) = .ok words := Image.wordsAfter_format [] words
  rw [readImage, bind_of_shell_ok (lift_readFile desk name), h]
  dsimp only
  rw [hparse]
  rfl

end DeskShell

/-! ## Runs -/

section Run

variable {desk desk' : Desk} {source : Text} {program : Assembly.Program} {words : List Word}

/-- What a run is to do with the words of its program, of which there must be one at least. -/
def demandWords (name : String) (words : List Word) : DeskShell (List Word) := do
  if words.isEmpty then
    failWith "Nothing to execute" name
  return words

theorem loadWords_eq (name : String) :
    (loadWords name false : DeskShell (List Word)) =
      if (stem? name).isSome then
        assembleFile name >>= fun program => demandWords name program.words
      else readImage name >>= demandWords name := rfl

/-- **A source file is as good as its words**… -/
theorem loadWords_source {name : String} (hname : (stem? name).isSome = true)
    (h : desk.read name = .ok source) (hassemble : Assembly.assemble? source = .ok program) :
    (loadWords name false : DeskShell (List Word)) desk =
      demandWords name program.words desk := by
  rw [loadWords_eq, if_pos hname, bind_of_shell_ok (assembleFile_eq h hassemble)]

/-- …**and so is an image**. -/
theorem loadWords_image {name : String} (hname : stem? name = none)
    (h : desk.read name = .ok (Image.format words)) :
    (loadWords name false : DeskShell (List Word)) desk =
      demandWords name words desk := by
  rw [loadWords_eq, hname, if_neg (by decide), bind_of_shell_ok (readImage_eq h)]

/-- What a run with a report does once it has the words of its program. -/
def reportOn (maxCycles : Nat) (trace : Bool) (config : Option String) (words : List Word) :
    DeskShell Unit := do
  let config ← readConfig config
  let computer ← buildComputer config words
  let e := Execution.ofComputer trace maxCycles computer
  e.trace.forM print
  print (String.ofList e.report.pretty)
  match e.fault with
  | none => return
  | some fault =>
    let place := String.ofList (Numeral.hex4 e.computer.regs.pc)
    failWith s!"CPU fault at PC={place}" fault.message

/-- **A run with a report needs the name of its program to load the words** and for nothing else. -/
theorem run_eq (options : RunOptions) (h : options.json = true) :
    (run options : DeskShell Unit) =
      loadWords options.program false >>=
        reportOn options.maxCycles options.trace options.config := by
  obtain ⟨name, maxCycles, trace, json, config⟩ := options
  subst h
  rfl

/-- Two runs that differ in the names of their programs alone, of which the words are the same, end
with the same code and have printed the same. -/
theorem output_run_congr {name name' : String}
    (h : (loadWords name false : DeskShell (List Word)) desk = demandWords name words desk)
    (h' : (loadWords name' false : DeskShell (List Word)) desk =
      demandWords name' words desk)
    {options : RunOptions} (hjson : options.json = true) :
    let reached := (run { options with program := name } : DeskShell Unit) desk
    let reached' := (run { options with program := name' } : DeskShell Unit) desk
    reached'.1 = reached.1 ∧ reached'.2.output = reached.2.output := by
  have hrun := run_eq { options with program := name } hjson
  have hrun' := run_eq { options with program := name' } hjson
  dsimp only
  rw [hrun, hrun']
  cases words with
  | nil =>
    -- Neither has anything to run, and each complains of it by its own name.
    rw [bind_of_shell_error h, bind_of_shell_error h']
    exact ⟨rfl, rfl⟩
  | cons w words =>
    rw [bind_of_shell_ok h, bind_of_shell_ok h']
    exact ⟨rfl, rfl⟩

/-- **A source file that assembles is assembled to its image.** -/
theorem exists_assembleTo (p : String) (hread : desk.read (p ++ ".asm") = .ok source)
    (hassemble : Assembly.assemble? source = .ok program)
    (hfree : desk.read (p ++ ".hex") ≠ .error .isDirectory) :
    ∃ after, (assembleTo (p ++ ".asm") none : DeskShell Unit) desk = (.ok (), after) ∧
      after.read (p ++ ".hex") = .ok (Image.format program.words) ∧
      after.read (p ++ ".asm") = .ok source := by
  let name := p ++ ".asm"
  let image := p ++ ".hex"
  let first := printed s!"📝 Assembling: {name} → {image}" desk
  let second := printed s!"✓ Assembled {program.words.length} words" first
  -- Nothing that is printed is a file.
  have hread' : second.read name = .ok source := hread
  have hfree' : second.read image ≠ .error .isDirectory := hfree
  obtain ⟨t, hwrite, himage, hsource⟩ := Desk.exists_write_beside (toList_sourceName p)
    (toList_imageName p) isEnding_source isEnding_image (by decide) hread' hfree'
    (Image.format program.words)
  refine ⟨printed s!"✓ Saved to {image}" (second.put t (Image.format program.words)), ?_,
    himage, hsource⟩
  have hprogram : (assembleFile name : DeskShell Assembly.Program) first =
      (.ok program, first) := assembleFile_eq hread hassemble
  rw [assembleTo, Option.getD_none, imageName_source, bind_of_shell_ok (print_eq _ _),
    bind_of_shell_ok hprogram, bind_of_shell_ok (print_eq _ _),
    bind_of_shell_ok (lift_writeFile hwrite)]
  rfl

end Run

/-- **A source file runs as its image does.**  A source file that assembles is assembled to an image
file, unless a directory has the name of the image.  After that, to run the one or the other with the
same options, of which the report is one, prints the same and ends with the same exit code. -/
theorem run_image_eq_run_source (p : String) {desk : Desk} {source : Text}
    {program : Assembly.Program} (hread : desk.read (p ++ ".asm") = .ok source)
    (hassemble : Assembly.assemble? source = .ok program)
    (hfree : desk.read (p ++ ".hex") ≠ .error .isDirectory) :
    ∃ after : Desk,
      (∀ words, command? words = some (.assemble (p ++ ".asm") none) →
        (performWords words : StateM Desk UInt8) desk = (0, after)) ∧
      after.read (p ++ ".hex") = .ok (Image.format program.words) ∧
      ∀ options : RunOptions, options.json = true → ∀ words words',
        command? words = some (.run { options with program := p ++ ".asm" }) →
        command? words' = some (.run { options with program := p ++ ".hex" }) →
        let bySource := (performWords words : StateM Desk UInt8) after
        let byImage := (performWords words' : StateM Desk UInt8) after
        byImage.1 = bySource.1 ∧ byImage.2.output = bySource.2.output := by
  obtain ⟨after, hasm, himage, hsource⟩ := exists_assembleTo p hread hassemble hfree
  refine ⟨after, fun words hwords => performWords_eq hwords hasm, himage, ?_⟩
  intro options hjson words words' hwords hwords'
  have hbySource := loadWords_source (by rw [stem?_source, Option.isSome_some]) hsource hassemble
  have hbyImage := loadWords_image (stem?_image p) himage
  obtain ⟨hcode, houtput⟩ := output_run_congr hbySource hbyImage hjson
  dsimp only
  rw [performWords_eq hwords rfl, performWords_eq hwords' rfl]
  exact ⟨congrArg exitCode hcode, houtput⟩

/-- A desk with one source file on it. -/
def sourceDesk : Desk := .ofFiles [("p.asm", "SET A, 1".toList)]

/-- Three instructions, traced and reported. -/
def tracedRun : RunOptions := { program := "", maxCycles := 3, trace := true, json := true }

theorem run_image_eq_run_source_traced :
    ∃ after : Desk,
      (performWords ["asm", "p.asm"] : StateM Desk UInt8) sourceDesk = (0, after) ∧
      let bySource := (performWords ["run", "-tm3", "p.asm", "--json"] : StateM Desk UInt8) after
      let byImage := (performWords ["run", "-tm3", "p.hex", "--json"] : StateM Desk UInt8) after
      byImage.1 = bySource.1 ∧ byImage.2.output = bySource.2.output := by
  have hread : sourceDesk.read ("p" ++ ".asm") = .ok "SET A, 1".toList := by decide +kernel
  have hfree : sourceDesk.read ("p" ++ ".hex") ≠ .error .isDirectory := by decide +kernel
  obtain ⟨program, hassemble⟩ : ∃ program, Assembly.assemble? "SET A, 1".toList = .ok program :=
    ⟨_, by rfl⟩
  obtain ⟨after, hasm, -, hruns⟩ := run_image_eq_run_source "p" hread hassemble hfree
  exact ⟨after, hasm _ (by decide +kernel),
    hruns tracedRun rfl _ _ (by decide +kernel) (by decide +kernel)⟩

end CommandLine

end WordMachine
