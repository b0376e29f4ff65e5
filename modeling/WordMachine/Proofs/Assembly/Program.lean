import Mathlib.Data.List.Induction
import WordMachine.Proofs.Assembly.Layout

/-!
# Proofs/Assembly/Program — which source texts are programs, and which program they are

A source text is read as a list of statements, one after the other.  It is `Acceptable` if every
line can be read, every label stands at an address that is a word, all statements fit into memory
and every label that is used is defined somewhere.  Its `Translation` gives a label the number of
words before its last definition, lists the labels in the order of their first definitions, and
puts down the words of each statement in turn (`Emits`).

Main statement: `exists_program_iff`, by way of the layout that takes in the statements one at a
time (`Layout.ofLines_eq_iff`, `Layout.of_ofStatements?`).
-/

namespace WordMachine

/-- The three fields of an instruction word are its bits. -/
theorem Fields.toNat_toWord (f : Fields) :
    f.toWord.toNat = f.op ||| (f.a : Nat) <<< 4 ||| (f.b : Nat) <<< 10 := by
  obtain ⟨⟨op, hop⟩, ⟨a, ha⟩, ⟨b, hb⟩⟩ := f
  have hlow : op ||| a <<< 4 = op + 16 * a := by
    rw [Nat.or_comm, ← Nat.shiftLeft_add_eq_or_of_lt hop, Nat.shiftLeft_eq]
    omega
  have hall : op ||| a <<< 4 ||| b <<< 10 = op + 16 * a + 1024 * b := by
    rw [hlow, Nat.or_comm, ← Nat.shiftLeft_add_eq_or_of_lt (by omega), Nat.shiftLeft_eq]
    omega
  change (UInt16.ofNat (op + 16 * a + 1024 * b)).toNat = op ||| a <<< 4 ||| b <<< 10
  rw [hall, UInt16.toNat_ofNat']
  omega

namespace Assembly

/-! ## Statements of a source text -/

/-- The statement that a line makes, if the line is accepted and makes one. -/
def statement? (line : Text) : Option Statement := (Statement.ofLine? line).toOption.join

/-- The statements that lines make, with the numbers of the lines. -/
def numbered (lines : List (Nat × Text)) : List (Nat × Statement) :=
  lines.filterMap fun (number, line) => (statement? line).map fun s => (number, s)

/-- The statements of a source text in order. -/
def statements (source : Text) : List Statement := (numbered source.numberedLines).map (·.2)

/-- The number of words of statements. -/
def extent (ss : List Statement) : Nat := (ss.map Statement.size).sum

/-- The label that a statement defines, if it defines one. -/
def Statement.name? : Statement → Option Text
  | .label name _ => some name
  | _ => none

/-- The labels that statements define, each as often as it is defined. -/
def definedNames (ss : List Statement) : List Text := ss.filterMap Statement.name?

/-- Statements from an address on: no label stands at an address that is not a word. -/
def Fitting (addr : Nat) (ss : List Statement) : Prop :=
  ∀ ⦃before name trailing after⦄, ss = before ++ .label name trailing :: after →
    addr + extent before < Word.count

/-- What a source text must keep to be a program. -/
structure Acceptable (source : Text) : Prop where
  lines : ∀ entry ∈ source.numberedLines, ∃ s, Statement.ofLine? entry.2 = .ok s
  labels : Fitting 0 (statements source)
  size : extent (statements source) ≤ Word.count
  /-- A label that is used is defined, be it before or after its use. -/
  references : ∀ s ∈ statements source, ∀ name, .label name ∈ s.slots →
    name ∈ definedNames (statements source)

/-- The label is defined after the statements `before`, and not again. -/
def DefinedLast (ss : List Statement) (name : Text) (before : List Statement) : Prop :=
  ∃ trailing after, ss = before ++ .label name trailing :: after ∧ name ∉ definedNames after

/-- The words that a statement puts into a program with these labels: an instruction word with its
three fields and then the extra words of `a` and of `b`, or the listed values. -/
inductive Emits (labels : LabelTable) : Statement → List Word → Prop where
  | label {name trailing : Text} : Emits labels (.label name trailing) []
  | instruction {op : Fin 16} {a b : Argument} {w : Word} {xs ys : List Word}
      (hw : w.toNat = op ||| (a.code : Nat) <<< 4 ||| (b.code : Nat) <<< 10)
      (hfields : Fields.ofWord w = ⟨op, a.code, b.code⟩)
      (hxs : a.extra.toList.map (Value.word? labels) = xs.map some)
      (hys : b.extra.toList.map (Value.word? labels) = ys.map some) :
      Emits labels (.instruction op a b) (w :: (xs ++ ys))
  | data {values : List Value} {ws : List Word}
      (hws : values.map (Value.word? labels) = ws.map some) : Emits labels (.data values) ws

/-- What the program of a source text consists of. -/
structure Translation (source : Text) (program : Program) : Prop where
  length : program.words.length = extent (statements source)
  names : program.labels.map (·.1) = (definedNames (statements source)).eraseDups
  address : ∀ name addr, program.labels.address? name = some addr ↔
    ∃ before, DefinedLast (statements source) name before ∧ addr.toNat = extent before
  words : ∃ blocks, program.words = blocks.flatten ∧
    List.Forall₂ (Emits program.labels) (statements source) blocks

/-- Results that agree with options are all known just if the options are. -/
theorem mapM_eq_ok_iff {ε α β : Type} {f : α → Except ε β} {g : α → Option β} {xs : List α}
    {zs : List β} (h : ∀ x z, f x = .ok z ↔ g x = some z) :
    xs.mapM f = .ok zs ↔ xs.map g = zs.map some := by
  induction xs generalizing zs with
  | nil =>
    cases zs with
    | nil => exact ⟨fun _ => rfl, fun _ => rfl⟩
    | cons z zs => simp [pure, Except.pure]
  | cons x xs ih =>
    constructor
    · intro hall
      obtain ⟨z, us, hz, hus, rfl⟩ := exists_of_mapM_cons hall
      rw [List.map_cons, (h x z).mp hz, ih.mp hus, List.map_cons]
    · intro hall
      obtain ⟨z, us, rfl, hz, hus⟩ := List.map_eq_cons_iff.mp hall.symm
      rw [List.mapM_cons, (h x z).mpr hz.symm, ih.mpr hus.symm]
      rfl

variable {ss before after : List Statement} {s : Statement} {addr : Nat}

@[simp] theorem extent_nil : extent [] = 0 := rfl

@[simp] theorem extent_cons (s : Statement) (ss : List Statement) :
    extent (s :: ss) = s.size + extent ss := rfl

theorem extent_eq_length (ss : List Statement) : extent ss = (ss.flatMap Statement.slots).length := by
  induction ss with
  | nil => rfl
  | cons s ss ih => simp [ih, Statement.length_slots]

theorem map_numberedLines (source : Text) :
    source.numberedLines.map (·.2) = source.splitOn '\n' := by
  rw [Text.numberedLines, List.map_map]
  exact List.zipIdx_map_fst 1 _

theorem forall_numberedLines_iff {source : Text} (p : Text → Prop) :
    (∀ entry ∈ source.numberedLines, p entry.2) ↔ ∀ line ∈ source.splitOn '\n', p line := by
  rw [← map_numberedLines, List.forall_mem_map]

theorem statement?_eq_some_iff {line : Text} :
    statement? line = some s ↔ Statement.ofLine? line = .ok (some s) := by
  unfold statement?
  cases Statement.ofLine? line with
  | error e => simp [Except.toOption]
  | ok statement => cases statement <;> simp [Except.toOption]

theorem mem_statements_iff {source : Text} : s ∈ statements source ↔
    ∃ entry ∈ source.numberedLines, Statement.ofLine? entry.2 = .ok (some s) := by
  rw [statements, numbered, List.map_filterMap, List.mem_filterMap]
  refine exists_congr fun entry => and_congr_right fun _ => ?_
  rw [← statement?_eq_some_iff, Option.map_map, Option.map_eq_some_iff]
  simp

/-- The numbers of the lines do not matter to their statements. -/
theorem statements_eq_filterMap (source : Text) :
    statements source = (source.splitOn '\n').filterMap statement? := by
  rw [statements, numbered, List.map_filterMap, ← map_numberedLines, List.filterMap_map]
  refine congrArg (List.filterMap · _) (funext fun entry => ?_)
  simp [Function.comp_def]

/-! ## Labels -/

/-- The labels after a statement at an address. -/
def Statement.defineAt (addr : Nat) (table : LabelTable) : Statement → LabelTable
  | .label name _ => table.define name (UInt16.ofNat addr)
  | _ => table

theorem Statement.defineAt_eq (addr : Nat) (table : LabelTable) (s : Statement) :
    s.defineAt addr table =
      match s.name? with
      | some name => table.define name (UInt16.ofNat addr)
      | none => table := by
  cases s <;> rfl

/-- The labels after statements from an address on. -/
def LabelTable.extend (addr : Nat) (table : LabelTable) : List Statement → LabelTable
  | [] => table
  | s :: ss => LabelTable.extend (addr + s.size) (s.defineAt addr table) ss

/-- The last definition of a label is that of the last statement, or else the one before it. -/
theorem definedLast_concat {name : Text} :
    DefinedLast (ss ++ [s]) name before ↔
      s.name? = some name ∧ before = ss ∨ s.name? ≠ some name ∧ DefinedLast ss name before := by
  constructor
  · rintro ⟨trailing, after, heq, hafter⟩
    rcases List.eq_nil_or_concat after with rfl | ⟨after, last, rfl⟩
    · obtain ⟨rfl, hs⟩ := List.append_inj' heq rfl
      exact .inl ⟨by rw [List.cons.inj hs |>.1]; rfl, rfl⟩
    · rw [List.concat_eq_append, ← List.cons_append, ← List.append_assoc] at heq
      obtain ⟨rfl, hs⟩ := List.append_inj' heq rfl
      obtain rfl := (List.cons.inj hs).1
      simp only [definedNames, List.concat_eq_append, List.filterMap_append, List.mem_append,
        not_or] at hafter
      refine .inr ⟨fun hname => hafter.2 ?_, trailing, after, rfl, hafter.1⟩
      simp [hname]
  · rintro (⟨hname, rfl⟩ | ⟨hname, trailing, after, rfl, hafter⟩)
    · cases s with
      | label other trailing =>
        cases hname
        exact ⟨trailing, [], rfl, List.not_mem_nil⟩
      | instruction op a b => cases hname
      | data values => cases hname
    · refine ⟨trailing, after ++ [s], by simp, ?_⟩
      rw [definedNames, List.filterMap_append, List.mem_append, not_or]
      exact ⟨hafter, by simpa [eq_comm] using hname⟩

namespace LabelTable

variable {table : LabelTable} {name : Text}

theorem extend_append (ss us : List Statement) :
    table.extend addr (ss ++ us) = (table.extend addr ss).extend (addr + extent ss) us := by
  induction ss generalizing addr table with
  | nil => rfl
  | cons s ss ih => simp only [List.cons_append, extend, ih, extent_cons, Nat.add_assoc]

theorem names_extend (addr : Nat) (ss : List Statement) :
    (extend addr [] ss).map (·.1) = (definedNames ss).eraseDups := by
  induction ss using List.reverseRecOn with
  | nil => rfl
  | append_singleton ss s ih =>
    rw [extend_append, definedNames, List.filterMap_append, List.eraseDups_append, ← definedNames,
      ← ih]
    have hmem : ∀ name, name ∈ (extend addr [] ss).map (·.1) ↔ name ∈ definedNames ss := by
      simp [ih]
    cases s with
    | label name trailing =>
      change ((extend addr [] ss).define name _).map (·.1) = _
      rw [names_define]
      by_cases hname : name ∈ definedNames ss
      · rw [if_pos ((hmem name).mpr hname)]
        simp [Statement.name?, List.removeAll, hname]
      · rw [if_neg (mt (hmem name).mp hname)]
        simp [Statement.name?, List.removeAll, hname, List.eraseDups_cons]
    | instruction op a b => exact (List.append_nil _).symm
    | data values => exact (List.append_nil _).symm

/-- **A label has the address of its last definition.** -/
theorem address?_extend (ss : List Statement) {w : Word} :
    (extend addr [] ss).address? name = some w ↔
      ∃ before, DefinedLast ss name before ∧ w = UInt16.ofNat (addr + extent before) := by
  induction ss using List.reverseRecOn with
  | nil => simp [extend, address?, DefinedLast]
  | append_singleton ss s ih =>
    simp only [extend_append, definedLast_concat, extend]
    rw [Statement.defineAt_eq]
    cases hname : s.name? with
    | none => simp [ih]
    | some other =>
      dsimp only
      rw [address?_define]
      by_cases heq : other = name
      · simp [heq, eq_comm]
      · simp [heq, ih]

end LabelTable

/-! ## Layouts -/

/-- A statement at the front fits if it is no label or its address is a word. -/
theorem fitting_cons : Fitting addr (s :: ss) ↔
    ((∃ name, s.name? = some name) → addr < Word.count) ∧ Fitting (addr + s.size) ss := by
  constructor
  · intro h
    refine ⟨fun ⟨name, hname⟩ => ?_, fun before name trailing after heq => ?_⟩
    · cases s with
      | label other trailing => exact @h [] other trailing ss rfl
      | instruction op a b => cases hname
      | data values => cases hname
    · rw [Nat.add_assoc, ← extent_cons]
      exact h (congrArg (s :: ·) heq)
  · rintro ⟨hs, hss⟩ before name trailing after heq
    cases before with
    | nil =>
      cases heq
      exact hs ⟨name, rfl⟩
    | cons first before =>
      cases heq
      rw [extent_cons, ← Nat.add_assoc]
      exact hss rfl

/-- Without labels everything fits. -/
theorem fitting_of_definedNames_eq_nil (h : definedNames ss = []) : Fitting addr ss := by
  rintro before name trailing after rfl
  rw [definedNames, List.filterMap_append] at h
  have hlabel := (List.append_eq_nil_iff.mp h).2
  cases hlabel

namespace Layout

variable {layout layout' : Layout} {number : Nat} {numberedStatements : List (Nat × Statement)}

/-- The layout after numbered statements, if their labels fit. -/
def ofStatements? (layout : Layout) : List (Nat × Statement) → Option Layout
  | [] => some layout
  | (number, s) :: rest => (layout.next? number s).bind fun next => next.ofStatements? rest

@[simp] theorem size_warn (layout : Layout) (s : Statement) : (layout.warn s).size = layout.size := by
  unfold warn
  split <;> rfl

@[simp] theorem labels_warn (layout : Layout) (s : Statement) :
    (layout.warn s).labels = layout.labels := by
  unfold warn
  split <;> rfl

/-- A statement can be laid out if it is no label or its address is a word… -/
theorem exists_next?_iff (number : Nat) : (∃ next, layout.next? number s = some next) ↔
    ((∃ name, s.name? = some name) → layout.size < Word.count) := by
  cases s with
  | label name trailing => simp [next?, define?, Statement.name?]
  | instruction op a b => simp [next?, define?, Statement.name?]
  | data values => simp [next?, define?, Statement.name?]

/-- …and takes the addresses from the layout's size on. -/
theorem of_next? (h : layout.next? number s = some layout') :
    layout'.size = layout.size + s.size ∧
      layout'.labels = s.defineAt layout.size layout.labels := by
  cases s with
  | label name trailing =>
    simp only [next?, define?, size_warn, labels_warn, Option.map_eq_some_iff,
      Option.ite_none_right_eq_some] at h
    obtain ⟨defined, ⟨-, hdefined⟩, rfl⟩ := h
    cases hdefined
    simp [append, Statement.defineAt]
  | instruction op a b =>
    cases h
    exact ⟨rfl, rfl⟩
  | data values =>
    cases h
    exact ⟨rfl, rfl⟩

/-- **Lines are laid out if they all are accepted and their labels fit**, as the statements they
make. -/
theorem ofLines_eq_iff {lines : List (Nat × Text)} :
    layout.ofLines lines = (layout', none) ↔
      (∀ entry ∈ lines, ∃ s, Statement.ofLine? entry.2 = .ok s) ∧
        layout.ofStatements? (numbered lines) = some layout' := by
  induction lines generalizing layout with
  | nil => simp [ofLines, numbered, ofStatements?]
  | cons entry lines ih =>
    obtain ⟨number, line⟩ := entry
    rw [ofLines_cons, List.forall_mem_cons]
    cases hline : Statement.ofLine? line with
    | error e => simp
    | ok statement =>
      have hnumbered : numbered ((number, line) :: lines) =
          (statement.map fun s => (number, s)).toList ++ numbered lines := by
        cases statement <;> simp [numbered, statement?, hline, Except.toOption]
      rw [hnumbered]
      cases statement with
      | none => simp [ih]
      | some s =>
        dsimp only
        cases hnext : layout.next? number s with
        | none => simp [ofStatements?, hnext]
        | some next => simp [ofStatements?, hnext, ih]

/-- Statements can be laid out if they fit… -/
theorem exists_ofStatements?_iff : (∃ layout', layout.ofStatements? numberedStatements = some layout')
    ↔ Fitting layout.size (numberedStatements.map (·.2)) := by
  induction numberedStatements generalizing layout with
  | nil => simp [ofStatements?, Fitting]
  | cons entry rest ih =>
    obtain ⟨number, s⟩ := entry
    rw [List.map_cons, fitting_cons, ← exists_next?_iff number, ofStatements?]
    constructor
    · rintro ⟨layout', h⟩
      obtain ⟨next, hnext, hrest⟩ := Option.bind_eq_some_iff.mp h
      exact ⟨⟨next, hnext⟩, (of_next? hnext).1 ▸ ih.mp ⟨layout', hrest⟩⟩
    · rintro ⟨⟨next, hnext⟩, hrest⟩
      obtain ⟨layout', h⟩ := ih.mpr ((of_next? hnext).1 ▸ hrest)
      exact ⟨layout', Option.bind_eq_some_iff.mpr ⟨next, hnext, h⟩⟩

/-- …and then their words follow those of the layout, and their labels are defined where they
stand. -/
theorem of_ofStatements? (h : layout.ofStatements? numberedStatements = some layout') :
    layout'.size = layout.size + extent (numberedStatements.map (·.2)) ∧
      layout'.labels = layout.labels.extend layout.size (numberedStatements.map (·.2)) ∧
      layout'.slots.map (·.2) =
        layout.slots.map (·.2) ++ (numberedStatements.map (·.2)).flatMap Statement.slots := by
  induction numberedStatements generalizing layout with
  | nil =>
    cases h
    simp [LabelTable.extend]
  | cons entry rest ih =>
    obtain ⟨number, s⟩ := entry
    obtain ⟨next, hnext, hrest⟩ := Option.bind_eq_some_iff.mp h
    obtain ⟨hsize, hlabels⟩ := of_next? hnext
    obtain ⟨ihsize, ihlabels, ihslots⟩ := ih hrest
    refine ⟨?_, ?_, ?_⟩
    · rw [ihsize, hsize, List.map_cons, extent_cons, Nat.add_assoc]
    · rw [ihlabels, hsize, hlabels]
      rfl
    · rw [ihslots, slots_next? hnext]
      simp [Function.comp_def]

/-- A layout is linked if it is not too large and each of its words is known. -/
theorem link_eq_ok_iff {program : Program} : layout.link = .ok program ↔
    layout.size ≤ Word.count ∧ program.labels = layout.labels ∧
      (layout.slots.map (·.2)).map (Value.word? layout.labels) = program.words.map some := by
  have hwords : ∀ words,
      (layout.slots.mapM fun entry => resolve layout.labels entry.1 entry.2) = .ok words ↔
        (layout.slots.map (·.2)).map (Value.word? layout.labels) = words.map some := by
    intro words
    rw [List.map_map]
    exact mapM_eq_ok_iff fun entry w => resolve_eq_ok
  constructor
  · intro h
    obtain ⟨hlabels, hslots⟩ := of_link h
    refine ⟨Nat.le_of_not_lt fun hlarge => ?_, hlabels, (hwords _).mp hslots⟩
    rw [link, if_pos hlarge] at h
    cases h
  · rintro ⟨hsize, hlabels, hslots⟩
    obtain ⟨words, labels⟩ := program
    obtain rfl : labels = layout.labels := hlabels
    have hslots := (hwords _).mpr hslots
    rw [slots] at hslots
    rw [link, if_neg (Nat.not_lt.mpr hsize)]
    simp only [hslots]
    rfl

end Layout

/-! ## Programs -/

/-- **What assembling amounts to**: every line is read, the labels fit, the words are not too many,
and each of them is a number or a label in the table. -/
theorem assemble?_eq_ok_iff {source : Text} {program : Program} : assemble? source = .ok program ↔
    (∀ entry ∈ source.numberedLines, ∃ s, Statement.ofLine? entry.2 = .ok s) ∧
      Fitting 0 (statements source) ∧ extent (statements source) ≤ Word.count ∧
      program.labels = LabelTable.extend 0 [] (statements source) ∧
      ((statements source).flatMap Statement.slots).map (Value.word? program.labels) =
        program.words.map some := by
  constructor
  · intro h
    obtain ⟨layout, hlines, hlink⟩ := exists_of_assemble? h
    obtain ⟨haccepted, hstatements⟩ := Layout.ofLines_eq_iff.mp hlines
    obtain ⟨hsize, hlabels, hslots⟩ := Layout.of_ofStatements? hstatements
    obtain ⟨hle, htable, hwords⟩ := Layout.link_eq_ok_iff.mp hlink
    refine ⟨haccepted, Layout.exists_ofStatements?_iff.mp ⟨layout, hstatements⟩, ?_, ?_, ?_⟩
    · rw [statements, ← Nat.zero_add (extent _)]
      exact hsize ▸ hle
    · rw [htable, hlabels]
      rfl
    · rw [htable, ← hwords, hslots]
      rfl
  · rintro ⟨haccepted, hfitting, hle, htable, hwords⟩
    obtain ⟨layout, hstatements⟩ : ∃ layout : Layout,
        ({} : Layout).ofStatements? (numbered source.numberedLines) = some layout :=
      Layout.exists_ofStatements?_iff.mpr hfitting
    obtain ⟨hsize, hlabels, hslots⟩ := Layout.of_ofStatements? hstatements
    have hlines := Layout.ofLines_eq_iff.mpr ⟨haccepted, hstatements⟩
    rw [assemble?, assemble, hlines]
    have hlabels' : program.labels = layout.labels := htable.trans hlabels.symm
    refine Layout.link_eq_ok_iff.mpr ⟨?_, hlabels', ?_⟩
    · rw [hsize]
      exact (Nat.zero_add _).symm ▸ hle
    · rw [hslots, ← hlabels', ← hwords]
      rfl

/-- A program has at most as many words as there are addresses. -/
theorem length_words_le {source : Text} {program : Program} (h : assemble? source = .ok program) :
    program.words.length ≤ Word.count := by
  obtain ⟨-, -, hsize, -, hwords⟩ := assemble?_eq_ok_iff.mp h
  have hlength := congrArg List.length hwords
  rw [List.length_map, List.length_map, ← extent_eq_length] at hlength
  exact hlength ▸ hsize

/-- A label has an address in the table of statements if they define it. -/
theorem exists_address?_iff (addr : Nat) {name : Text} :
    (∃ w, (LabelTable.extend addr [] ss).address? name = some w) ↔ name ∈ definedNames ss := by
  rw [← List.mem_eraseDups, ← LabelTable.names_extend addr, LabelTable.address?]
  simp only [Option.map_eq_some_iff, List.mem_map]
  constructor
  · rintro ⟨w, entry, hfound, -⟩
    exact ⟨entry, List.mem_of_find?_eq_some hfound, by simpa using List.find?_some hfound⟩
  · rintro ⟨entry, hmem, rfl⟩
    have hsome : ((LabelTable.extend addr [] ss).find? fun e => e.1 == entry.1).isSome :=
      List.find?_isSome.mpr ⟨entry, hmem, beq_self_eq_true entry.1⟩
    obtain ⟨found, hfound⟩ := Option.isSome_iff_exists.mp hsome
    exact ⟨found.2, found, hfound, rfl⟩

/-- The words of a statement's slots are what it emits. -/
theorem emits_of_slots {labels : LabelTable} {ws : List Word}
    (h : s.slots.map (Value.word? labels) = ws.map some) : Emits labels s ws := by
  cases s with
  | label name trailing =>
    obtain rfl : ws = [] := List.map_eq_nil_iff.mp h.symm
    exact .label
  | data values => exact .data h
  | instruction op a b =>
    obtain ⟨w, rest, rfl, hw, hrest⟩ := List.map_eq_cons_iff.mp h.symm
    obtain rfl : w = Fields.toWord ⟨op, a.code, b.code⟩ := Option.some.inj hw
    rw [List.map_append] at hrest
    obtain ⟨xs, ys, rfl, hxs, hys⟩ := List.map_eq_append_iff.mp hrest
    exact .instruction (Fields.toNat_toWord _) (Fields.ofWord_toWord _) hxs.symm hys.symm

/-- The words of all slots are put down statement by statement. -/
theorem exists_blocks {labels : LabelTable} {ws : List Word}
    (h : (ss.flatMap Statement.slots).map (Value.word? labels) = ws.map some) :
    ∃ blocks, ws = blocks.flatten ∧ List.Forall₂ (Emits labels) ss blocks := by
  induction ss generalizing ws with
  | nil => exact ⟨[], List.map_eq_nil_iff.mp h.symm, .nil⟩
  | cons s ss ih =>
    rw [List.flatMap_cons, List.map_append] at h
    obtain ⟨block, rest, rfl, hblock, hrest⟩ := List.map_eq_append_iff.mp h.symm
    obtain ⟨blocks, rfl, hblocks⟩ := ih hrest.symm
    exact ⟨block :: blocks, rfl, .cons (emits_of_slots hblock.symm) hblocks⟩

/-- All values are words if each of them is. -/
theorem exists_words_iff {labels : LabelTable} {values : List Value} :
    (∃ ws : List Word, values.map (Value.word? labels) = ws.map some) ↔
      ∀ v ∈ values, ∃ w, v.word? labels = some w := by
  induction values with
  | nil => exact ⟨fun _ _ hv => absurd hv List.not_mem_nil, fun _ => ⟨[], rfl⟩⟩
  | cons v values ih =>
    rw [List.forall_mem_cons, ← ih]
    constructor
    · rintro ⟨ws, h⟩
      obtain ⟨w, us, rfl, hw, hus⟩ := List.map_eq_cons_iff.mp h.symm
      exact ⟨⟨w, hw.symm⟩, us, hus.symm⟩
    · rintro ⟨⟨w, hw⟩, us, hus⟩
      exact ⟨w :: us, by rw [List.map_cons, hw, hus, List.map_cons]⟩

/-- All slots of statements are words if each label in them is defined. -/
theorem exists_slot_words_iff (addr : Nat) :
    (∃ ws : List Word, (ss.flatMap Statement.slots).map
      (Value.word? (LabelTable.extend addr [] ss)) = ws.map some) ↔
      ∀ s ∈ ss, ∀ name, .label name ∈ s.slots → name ∈ definedNames ss := by
  rw [exists_words_iff, List.forall_mem_flatMap]
  refine forall₂_congr fun s _ => ⟨fun h name hname => ?_, fun h v hv => ?_⟩
  · exact (exists_address?_iff addr).mp (h _ hname)
  · cases v with
    | number w => exact ⟨w, rfl⟩
    | label name => exact (exists_address?_iff addr).mpr (h name hv)

/-- **The source texts that are programs, and their words and labels.**  A text is a program just if
it is acceptable: no order is asked of definitions and uses.  Its program is the translation of its
statements, which leaves no word and no label open. -/
theorem exists_program_iff (source : Text) :
    ((∃ program, assemble? source = .ok program) ↔ Acceptable source) ∧
      ∀ program, assemble? source = .ok program → Translation source program := by
  refine ⟨⟨?_, ?_⟩, ?_⟩
  · rintro ⟨program, h⟩
    obtain ⟨hlines, hfitting, hsize, htable, hwords⟩ := assemble?_eq_ok_iff.mp h
    refine ⟨hlines, hfitting, hsize, fun s hs name hname => ?_⟩
    rw [← exists_address?_iff 0, ← htable]
    exact exists_words_iff.mp ⟨_, hwords⟩ _ (List.mem_flatMap.mpr ⟨s, hs, hname⟩)
  · rintro ⟨hlines, hfitting, hsize, hreferences⟩
    have hknown : ∀ v ∈ (statements source).flatMap Statement.slots,
        ∃ w, v.word? (LabelTable.extend 0 [] (statements source)) = some w := by
      intro v hv
      obtain ⟨s, hs, hv⟩ := List.mem_flatMap.mp hv
      cases v with
      | number w => exact ⟨w, rfl⟩
      | label name => exact (exists_address?_iff 0).mpr (hreferences s hs name hv)
    obtain ⟨words, hwords⟩ := exists_words_iff.mpr hknown
    exact ⟨⟨words, _⟩, assemble?_eq_ok_iff.mpr ⟨hlines, hfitting, hsize, rfl, hwords⟩⟩
  · intro program h
    obtain ⟨-, hfitting, -, htable, hwords⟩ := assemble?_eq_ok_iff.mp h
    refine ⟨?_, ?_, fun name addr => ?_, exists_blocks hwords⟩
    · rw [extent_eq_length]
      simpa using (congrArg List.length hwords).symm
    · rw [htable, LabelTable.names_extend]
    · rw [htable, LabelTable.address?_extend]
      refine exists_congr fun before => and_congr_right fun ⟨trailing, after, heq, _⟩ => ?_
      have hlt : extent before < Word.count := by simpa using hfitting heq
      rw [Nat.zero_add, ← UInt16.toNat_inj, Word.toNat_ofNat, Nat.mod_eq_of_lt hlt]

/-- Labels used before and after their definitions, one of them defined twice. -/
def loopSource : Text :=
  ":top\nSET B, end\n:end again\n:top\nADD [X + top], 40\nDAT top, 7".toList

theorem exists_program_loop :
    Acceptable loopSource ∧ Translation loopSource
      ⟨[0x7C11, 2, 0x7D32, 2, 40, 2, 7], [("top".toList, 2), ("end".toList, 2)]⟩ := by
  have h : assemble? loopSource = .ok
      ⟨[0x7C11, 2, 0x7D32, 2, 40, 2, 7], [("top".toList, 2), ("end".toList, 2)]⟩ := rfl
  exact ⟨(exists_program_iff loopSource).1.mp ⟨_, h⟩, (exists_program_iff loopSource).2 _ h⟩

end Assembly

end WordMachine
