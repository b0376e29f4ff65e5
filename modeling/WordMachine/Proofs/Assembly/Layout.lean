import WordMachine.Proofs.Assembly.Value

/-!
# Proofs/Assembly/Layout — where the words of a line stand in the program

The words of a program are those of its lines, one line after the other, and the words before a line
are as many as the layout of the lines before it has laid out.  Labels stand for addresses that are
the same on every line.  Main statement: `exists_words`.
-/

namespace WordMachine

namespace Assembly

/-! ## Lists of results -/

section Lists

variable {ε α β : Type} {f : α → Except ε β} {x : α} {xs ys : List α} {zs : List β}

theorem exists_of_mapM_cons (h : (x :: xs).mapM f = .ok zs) :
    ∃ z us, f x = .ok z ∧ xs.mapM f = .ok us ∧ zs = z :: us := by
  rw [List.mapM_cons] at h
  obtain ⟨z, hz, hrest⟩ := exists_of_except_ok h
  obtain ⟨us, hus, hdone⟩ := exists_of_except_ok hrest
  cases hdone
  exact ⟨z, us, hz, hus, rfl⟩

theorem exists_of_mapM_append (h : (xs ++ ys).mapM f = .ok zs) :
    ∃ us vs, xs.mapM f = .ok us ∧ ys.mapM f = .ok vs ∧ zs = us ++ vs := by
  induction xs generalizing zs with
  | nil => exact ⟨[], zs, rfl, h, rfl⟩
  | cons x xs ih =>
    obtain ⟨z, rest, hx, hrest, rfl⟩ := exists_of_mapM_cons h
    obtain ⟨us, vs, hus, hvs, rfl⟩ := ih hrest
    refine ⟨z :: us, vs, ?_, hvs, rfl⟩
    rw [List.mapM_cons, hx, hus]
    rfl

theorem length_of_mapM (h : xs.mapM f = .ok zs) : zs.length = xs.length := by
  induction xs generalizing zs with
  | nil =>
    cases h
    rfl
  | cons x xs ih =>
    obtain ⟨z, us, -, hus, rfl⟩ := exists_of_mapM_cons h
    rw [List.length_cons, ih hus, List.length_cons]

end Lists

/-! ## Labels -/

theorem resolve_eq_ok {labels : LabelTable} {number : Nat} {v : Value} {w : Word} :
    resolve labels number v = .ok w ↔ v.word? labels = some w := by
  cases v with
  | number n => simp [resolve, Value.word?]
  | label name =>
    simp only [resolve, Value.word?]
    cases labels.address? name <;> simp

theorem Named.define {labels : LabelTable} (h : Named labels) {name : Text}
    (hname : isLabelName name = true ∧ isReserved name = false) (addr : Word) :
    Named (labels.define name addr) := by
  intro other w hother
  rw [LabelTable.address?_define] at hother
  split at hother
  · next heq => exact heq ▸ hname
  · exact h hother

theorem of_ofLabel {t name trailing : Text} (h : Statement.ofLabel t = .ok (.label name trailing)) :
    isLabelName name = true ∧ isReserved name = false := by
  unfold Statement.ofLabel at h
  dsimp only at h
  split at h
  · cases h
  · next hname =>
    split at h
    · cases h
    · next hreserved =>
      cases h
      exact ⟨by simpa using hname, by simpa using hreserved⟩

/-- A mnemonic defines no label. -/
theorem ofMnemonic_ne_label {mnemonic operands name trailing : Text} :
    Statement.ofMnemonic mnemonic operands ≠ .ok (.label name trailing) := by
  intro h
  unfold Statement.ofMnemonic at h
  split at h
  · split at h
    · cases h
    · obtain ⟨values, -, hdone⟩ := exists_of_except_ok h
      cases hdone
  · split at h
    · split at h <;> cases h
    · split at h
      · cases h
      · split at h
        · split at h
          · obtain ⟨a, -, hrest⟩ := exists_of_except_ok h
            obtain ⟨b, -, hdone⟩ := exists_of_except_ok hrest
            cases hdone
          · cases h
        · cases h

/-- A label is defined under a name that labels may have. -/
theorem of_ofLine?_label {line name trailing : Text}
    (h : Statement.ofLine? line = .ok (some (.label name trailing))) :
    isLabelName name = true ∧ isReserved name = false := by
  unfold Statement.ofLine? at h
  split at h
  · cases h
  · obtain ⟨statement, hlabel, heq⟩ := exists_of_except_map_ok h
    cases heq
    exact of_ofLabel hlabel
  · obtain ⟨statement, hstatement, heq⟩ := exists_of_except_map_ok h
    cases heq
    exact absurd hstatement ofMnemonic_ne_label

namespace Layout

/-- The words that a layout has laid out, each with the number of its line. -/
def slots (layout : Layout) : List (Nat × Value) :=
  layout.statements.toList.flatMap fun (number, s) => s.slots.map fun v => (number, v)

/-- The layout's size is the number of its words, and its labels are named as labels may be. -/
structure Sound (layout : Layout) : Prop where
  size : layout.size = layout.slots.length
  named : Named layout.labels

/-- The layout after a statement, if its label fits. -/
def next? (layout : Layout) (number : Nat) (s : Statement) : Option Layout :=
  ((layout.warn s).define? s).map fun defined => defined.append number s

variable {layout layout' : Layout} {number : Nat} {line : Text} {s : Statement}

theorem ofLines_cons (layout : Layout) (number : Nat) (line : Text) (rest : List (Nat × Text)) :
    layout.ofLines ((number, line) :: rest) =
      match Statement.ofLine? line with
      | .error e => (layout, some (.onLine number e))
      | .ok none => layout.ofLines rest
      | .ok (some s) =>
        match layout.next? number s with
        | none => (layout.warn s, some (.onLine number (.valueOutOfRange (layout.warn s).size)))
        | some next => next.ofLines rest := by
  rw [ofLines]
  cases Statement.ofLine? line with
  | error e => rfl
  | ok statement =>
    cases statement with
    | none => rfl
    | some s =>
      dsimp only
      rw [next?]
      cases (layout.warn s).define? s <;> rfl

theorem ofLines_append (layout : Layout) (before after : List (Nat × Text)) :
    layout.ofLines (before ++ after) =
      match layout.ofLines before with
      | (middle, none) => middle.ofLines after
      | (middle, some e) => (middle, some e) := by
  induction before generalizing layout with
  | nil => rfl
  | cons line rest ih =>
    obtain ⟨number, line⟩ := line
    rw [List.cons_append, ofLines_cons, ofLines_cons]
    cases Statement.ofLine? line with
    | error e => rfl
    | ok statement =>
      cases statement with
      | none => exact ih layout
      | some s =>
        dsimp only
        cases layout.next? number s with
        | none => rfl
        | some next => exact ih next

theorem exists_of_ofLines_append {before after : List (Nat × Text)}
    (h : layout.ofLines (before ++ after) = (layout', none)) :
    ∃ middle, layout.ofLines before = (middle, none) ∧ middle.ofLines after = (layout', none) := by
  rw [ofLines_append] at h
  cases hbefore : layout.ofLines before with
  | mk middle failure =>
    rw [hbefore] at h
    cases failure with
    | none => exact ⟨middle, rfl, h⟩
    | some e => cases h

/-- A line that is accepted says nothing or makes a statement that fits. -/
theorem of_ofLines_cons {rest : List (Nat × Text)}
    (h : layout.ofLines ((number, line) :: rest) = (layout', none)) :
    Statement.ofLine? line = .ok none ∧ layout.ofLines rest = (layout', none) ∨
      ∃ s next, Statement.ofLine? line = .ok (some s) ∧ layout.next? number s = some next ∧
        next.ofLines rest = (layout', none) := by
  rw [ofLines_cons] at h
  cases hline : Statement.ofLine? line with
  | error e =>
    rw [hline] at h
    cases h
  | ok statement =>
    rw [hline] at h
    cases statement with
    | none => exact .inl ⟨rfl, h⟩
    | some s =>
      dsimp only at h
      cases hnext : layout.next? number s with
      | none =>
        rw [hnext] at h
        cases h
      | some next =>
        rw [hnext] at h
        exact .inr ⟨s, next, rfl, hnext, h⟩

/-- Defining a label lays out nothing. -/
theorem of_define? (h : (layout.warn s).define? s = some layout') :
    layout'.statements = layout.statements ∧ layout'.size = layout.size ∧
      (layout'.labels = layout.labels ∨ ∃ name trailing addr, s = .label name trailing ∧
        layout'.labels = layout.labels.define name addr) := by
  cases s with
  | label name trailing =>
    simp only [define?] at h
    split at h
    · cases h
      cases trailing with
      | nil => exact ⟨rfl, rfl, .inr ⟨name, [], _, rfl, rfl⟩⟩
      | cons c rest => exact ⟨rfl, rfl, .inr ⟨name, c :: rest, _, rfl, rfl⟩⟩
    · cases h
  | instruction op a b =>
    cases h
    exact ⟨rfl, rfl, .inl rfl⟩
  | data values =>
    cases h
    exact ⟨rfl, rfl, .inl rfl⟩

/-- **A statement's words come after those of the layout.** -/
theorem slots_next? (h : layout.next? number s = some layout') :
    layout'.slots = layout.slots ++ s.slots.map fun v => (number, v) := by
  obtain ⟨defined, hdefined, rfl⟩ := Option.map_eq_some_iff.mp h
  obtain ⟨hstatements, -, -⟩ := of_define? hdefined
  simp [slots, append, hstatements]

theorem Sound.next? (h : layout.Sound) (hs : Statement.ofLine? line = .ok (some s))
    (hnext : layout.next? number s = some layout') : layout'.Sound := by
  have hslots := slots_next? hnext
  obtain ⟨defined, hdefined, rfl⟩ := Option.map_eq_some_iff.mp hnext
  obtain ⟨-, hsize, hlabels⟩ := of_define? hdefined
  constructor
  · rw [hslots, List.length_append, List.length_map, Statement.length_slots, ← h.size, ← hsize]
    rfl
  · change Named defined.labels
    rcases hlabels with heq | ⟨name, trailing, addr, rfl, heq⟩
    · exact heq ▸ h.named
    · exact heq ▸ h.named.define (of_ofLine?_label hs) addr

/-- **A layout stays sound over all lines**, and what is laid out stays where it is. -/
theorem Sound.ofLines (lines : List (Nat × Text)) (h : layout.Sound)
    (hlines : layout.ofLines lines = (layout', none)) :
    layout'.Sound ∧ ∃ rest, layout'.slots = layout.slots ++ rest := by
  induction lines generalizing layout with
  | nil =>
    cases hlines
    exact ⟨h, [], (List.append_nil _).symm⟩
  | cons line lines ih =>
    obtain ⟨number, line⟩ := line
    rcases of_ofLines_cons hlines with ⟨-, hrest⟩ | ⟨s, next, hs, hnext, hrest⟩
    · exact ih h hrest
    · obtain ⟨hsound, rest, hslots⟩ := ih (h.next? hs hnext) hrest
      refine ⟨hsound, (s.slots.map fun v => (number, v)) ++ rest, ?_⟩
      rw [hslots, slots_next? hnext, List.append_assoc]

theorem sound_empty : Sound {} := ⟨rfl, fun _ _ h => by cases h⟩

/-- What linking makes of the words that are laid out. -/
theorem of_link {program : Program} (h : layout.link = .ok program) :
    program.labels = layout.labels ∧
      (layout.slots.mapM fun (number, v) => resolve layout.labels number v) =
        .ok program.words := by
  unfold link at h
  split at h
  · cases h
  · obtain ⟨words, hwords, hdone⟩ := exists_of_except_ok h
    cases hdone
    exact ⟨rfl, hwords⟩

end Layout

/-- What is accepted is laid out to the last line, and linked. -/
theorem exists_of_assemble? {source : Text} {program : Program}
    (h : assemble? source = .ok program) :
    ∃ layout, Layout.ofLines {} source.numberedLines = (layout, none) ∧
      layout.link = .ok program := by
  unfold assemble? assemble at h
  cases hlines : Layout.ofLines {} source.numberedLines with
  | mk layout failure =>
    rw [hlines] at h
    cases failure with
    | none => exact ⟨layout, rfl, h⟩
    | some e => cases h

/-- **A line's words stand after those of the lines before it**, with the labels' addresses in
place. -/
theorem exists_words {source : Text} {program : Program} (h : assemble? source = .ok program)
    {before after : List (Nat × Text)} {number : Nat} {line : Text}
    (hlines : source.numberedLines = before ++ (number, line) :: after) :
    ∃ statement layout, Statement.ofLine? line = .ok statement ∧
      Layout.ofLines {} before = (layout, none) ∧ Named program.labels ∧
      ∀ s, statement = some s → ∃ pre words post, pre.length = layout.size ∧
        program.words = pre ++ words ++ post ∧
        s.slots.mapM (resolve program.labels number) = .ok words := by
  obtain ⟨final, hall, hlink⟩ := exists_of_assemble? h
  obtain ⟨hlabels, hwords⟩ := Layout.of_link hlink
  rw [hlines] at hall
  obtain ⟨layout, hbefore, hrest⟩ := Layout.exists_of_ofLines_append hall
  obtain ⟨hsound, -⟩ := Layout.sound_empty.ofLines before hbefore
  rcases Layout.of_ofLines_cons hrest with ⟨hs, hafter⟩ | ⟨s, next, hs, hnext, hafter⟩
  · obtain ⟨hfinal, -⟩ := hsound.ofLines after hafter
    exact ⟨none, layout, hs, hbefore, hlabels ▸ hfinal.named, fun s hs => by cases hs⟩
  · obtain ⟨hfinal, rest, hslots⟩ := (hsound.next? hs hnext).ofLines after hafter
    refine ⟨some s, layout, hs, hbefore, hlabels ▸ hfinal.named, fun s' hs' => ?_⟩
    cases hs'
    -- the slots of the program are those before the line, its own, and those after it
    rw [hslots, Layout.slots_next? hnext] at hwords
    obtain ⟨front, post, hfront, -, heq⟩ := exists_of_mapM_append hwords
    obtain ⟨pre, words, hpre, hline, rfl⟩ := exists_of_mapM_append hfront
    refine ⟨pre, words, post, ?_, heq, ?_⟩
    · rw [hsound.size]
      exact length_of_mapM hpre
    · rw [hlabels]
      rwa [List.mapM_map] at hline

end Assembly

end WordMachine
