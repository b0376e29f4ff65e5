import WordMachine.Proofs.Assembly.Grammar
import WordMachine.Proofs.Assembly.Number
import WordMachine.Proofs.Assembly.Outline
import WordMachine.Proofs.Text.Neutral

/-!
# Proofs/Assembly/Neutral — changes of characters that the assembler does not notice

Where a neutral change makes two texts the same, they are cut in the same places, and what is read
between the cuts differs in letter case or in blanks alone.  Numbers, registers, keywords and
mnemonics are read alike then (`value_of_map_eq`, `operand_of_map_eq`).  Two things are not: a label
may have another name (`Kept`), and PICK may have another blank behind it, where only a space will
do (`PickKept`).

Main statement: `assemble?_of_map_eq`, for source texts that keep both.
-/

namespace WordMachine

namespace Assembly

variable {f : Char → Char} {p q : Text} {v : Value}

/-! ## Values -/

/-- The change makes no other text the same as the name. -/
def Kept (f : Char → Char) (name : Text) : Prop := ∀ u : Text, u.map f = name.map f → u = name

section Values

variable (hf : Text.Neutral f)
include hf

theorem writes_of_map_eq {n : Int} (h : q.map f = p.map f) (hp : Writes p n) : Writes q n := by
  cases hp with
  | literal hp => exact .literal (literal_of_upper hp (hf.upper_eq h (isBlank_of_literal hp)).2)
  | @negative t n hp =>
    obtain ⟨t', rfl, ht⟩ := hf.exists_cons_of_map_eq rfl rfl h
    have hstart : (Text.trimStart t').map f = (Text.trimStart t).map f := by
      rw [← hf.trimStart_map, ← hf.trimStart_map, ht]
    exact .negative (literal_of_upper hp (hf.upper_eq hstart (isBlank_of_literal hp)).2)

/-- **A value stays what it is**, if it is a number or a label that is kept. -/
theorem value_of_map_eq (h : q.map f = p.map f) (hnames : ∀ name, v = .label name → Kept f name)
    (hp : Value.ofText p = .ok v) : Value.ofText q = .ok v := by
  cases v with
  | number w =>
    obtain ⟨n, hn, hrange⟩ := ofText_eq_number_of_writes.mp hp
    exact ofText_eq_number_of_writes.mpr ⟨n, writes_of_map_eq hf h hn, hrange⟩
  | label name =>
    obtain ⟨-, rfl⟩ := of_ofText_label hp
    rwa [hnames _ rfl q h]

end Values

/-! ## Names of operands -/

/-- A base is what an offset can be added to. -/
theorem isBase_eq_isSome (t : Text) : isBase t = (offsetBase? t).isSome := by
  unfold isBase offsetBase?
  cases Register.ofText? t with
  | some r => rfl
  | none => cases Text.sameLetters t ['S', 'P'] <;> rfl

section Names

variable (hf : Text.Neutral f)
include hf

/-- A name of an operand is one whatever the change does, and a text that is none becomes none. -/
theorem operand_of_map_eq {read? : Text → Option Operand} (h : q.map f = p.map f)
    (hupper : ∀ {s t}, Text.upper s = Text.upper t → read? s = read? t)
    (hreserved : ∀ {t o}, read? t = some o → isReserved t = true) : read? q = read? p := by
  have hletters : ∀ {s t : Text} {o : Operand}, s.map f = t.map f → read? t = some o →
      read? s = some o := by
    intro s t o hst ht
    -- what is reserved has no blanks, so that only its letter case can change
    have hblanks : ∀ c ∈ t, Text.isBlank c = false := fun c hc =>
      Text.isBlank_eq_false_of_isAlpha (isAlpha_of_isReserved (hreserved ht) c hc)
    rw [hupper (hf.upper_eq hst hblanks).2, ht]
  exact Option.ext fun o => ⟨hletters h.symm, hletters h⟩

theorem keyword?_of_map_eq (h : q.map f = p.map f) : keyword? q = keyword? p := by
  refine operand_of_map_eq hf h (fun {s t} hupper => ?_) isReserved_of_keyword?
  rw [keyword?, keyword?, Register.ofText?, Register.ofText?, hupper]

theorem plainBase?_of_map_eq (h : q.map f = p.map f) : plainBase? q = plainBase? p := by
  refine operand_of_map_eq hf h (fun {s t} hupper => ?_) fun hbase =>
    isReserved_of_isBase (isBase_of_plainBase? hbase)
  rw [plainBase?, plainBase?, Register.ofText?, Register.ofText?, Text.sameLetters,
    Text.sameLetters, hupper]

theorem offsetBase?_of_map_eq (h : q.map f = p.map f) : offsetBase? q = offsetBase? p := by
  refine operand_of_map_eq hf h (fun {s t} hupper => ?_) fun hbase =>
    isReserved_of_isBase (isBase_of_offsetBase? hbase)
  rw [offsetBase?, offsetBase?, Register.ofText?, Register.ofText?, Text.sameLetters,
    Text.sameLetters, hupper]

theorem isBase_of_map_eq (h : q.map f = p.map f) : isBase q = isBase p := by
  rw [isBase_eq_isSome, isBase_eq_isSome, offsetBase?_of_map_eq hf h]

end Names

/-! ## Operands -/

/-- Right behind PICK, nothing but a space is made the same as a space. -/
def PickKept (f : Char → Char) (t : Text) : Prop :=
  ∀ ⦃k b u⦄, t = k ++ b :: u → Text.upper k = ['P', 'I', 'C', 'K'] → f b = f ' ' → b = ' '

section Operands

variable {arg : Argument} (hf : Text.Neutral f)
include hf

theorem value_of_extra (hnames : ∀ name, arg.extra = some (.label name) → Kept f name)
    (hextra : arg.extra = some v) (h : q.map f = p.map f) (hp : Value.ofText p = .ok v) :
    Value.ofText q = .ok v :=
  value_of_map_eq hf h (fun name hname => hnames name (hname ▸ hextra)) hp

theorem adds_of_map_eq {xs ys : List Text} (h : ys.map (List.map f) = xs.map (List.map f))
    (hnames : ∀ name, arg.extra = some (.label name) → Kept f name) (hadds : Adds xs arg) :
    Adds ys arg := by
  have hsingle : ∀ {x : Text} {ys : List Text}, ys.map (List.map f) = [x.map f] →
      ∃ y, ys = [y] ∧ y.map f = x.map f := by
    intro x ys h
    obtain ⟨y, rest, rfl, hy, hnil⟩ := List.map_eq_cons_iff.mp h
    exact ⟨y, by rw [List.map_eq_nil_iff.mp hnil], hy⟩
  cases hadds with
  | pointed hx =>
    obtain ⟨x, rfl, hfirst⟩ := hsingle h
    exact .pointed ((plainBase?_of_map_eq hf hfirst).trans hx)
  | cell hx hv =>
    obtain ⟨x, rfl, hfirst⟩ := hsingle h
    exact .cell ((isBase_of_map_eq hf hfirst).trans hx) (value_of_extra hf hnames rfl hfirst hv)
  | baseFirst hx hy hv =>
    obtain ⟨x, rest, rfl, hfirst, hrest⟩ := List.map_eq_cons_iff.mp h
    obtain ⟨y, rfl, hsecond⟩ := hsingle hrest
    exact .baseFirst ((offsetBase?_of_map_eq hf hfirst).trans hx)
      ((isBase_of_map_eq hf hsecond).trans hy) (value_of_extra hf hnames rfl hsecond hv)
  | valueFirst hx hv hy =>
    obtain ⟨x, rest, rfl, hfirst, hrest⟩ := List.map_eq_cons_iff.mp h
    obtain ⟨y, rfl, hsecond⟩ := hsingle hrest
    exact .valueFirst ((isBase_of_map_eq hf hfirst).trans hx)
      (value_of_extra hf hnames rfl hfirst hv) ((offsetBase?_of_map_eq hf hsecond).trans hy)

theorem terms_map (t : Text) : terms (t.map f) = (terms t).map (List.map f) :=
  hf.splitOn_trim_map rfl rfl t

theorem parts_map (t : Text) : parts (t.map f) = (parts t).map (List.map f) :=
  hf.splitOn_trim_map rfl rfl t

theorem afterPick?_of_map_eq {u : Text} (h : q.map f = p.map f) (hpick : PickKept f q)
    (hp : afterPick? p = some u) : ∃ u', afterPick? q = some u' ∧ u'.map f = u.map f := by
  obtain ⟨k, rfl, hk⟩ := afterPick?_eq_some_iff.mp hp
  rw [List.map_append] at h
  obtain ⟨k', rest, rfl, hletters, hrest⟩ := List.map_eq_append_iff.mp h
  obtain ⟨b, u', rfl, hb, hu⟩ := List.map_eq_cons_iff.mp hrest
  have hk' : Text.upper k' = ['P', 'I', 'C', 'K'] := by
    have hblanks : ∀ c ∈ k, Text.isBlank c = false := fun c hc =>
      Text.isBlank_eq_false_of_isAlpha (isAlpha_of_pick hk c hc)
    rw [(hf.upper_eq hletters hblanks).2, hk]
  obtain rfl := hpick rfl hk' hb
  exact ⟨u', afterPick?_eq_some_iff.mpr ⟨k', rfl, hk'⟩, hu⟩

/-- **An operand stays what it is**, if its label is kept and PICK is. -/
theorem gives_of_map_eq (h : q.map f = p.map f)
    (hnames : ∀ name, arg.extra = some (.label name) → Kept f name) (hpick : PickKept f q)
    (hgives : Gives p arg) : Gives q arg := by
  cases hgives with
  | keyword hp => exact .keyword ((keyword?_of_map_eq hf h).trans hp)
  | @indirect t _ hp =>
    obtain ⟨rest, rfl, hrest⟩ := hf.exists_cons_of_map_eq rfl rfl h
    rw [List.map_append] at hrest
    obtain ⟨t', close, rfl, ht, hclose⟩ := List.map_eq_append_iff.mp hrest
    obtain ⟨close, rfl, hnil⟩ := hf.exists_cons_of_map_eq (t := []) rfl rfl hclose
    obtain rfl := List.map_eq_nil_iff.mp hnil
    refine .indirect (adds_of_map_eq hf ?_ hnames hp)
    rw [← terms_map hf, ← terms_map hf, ← hf.trim_map, ← hf.trim_map, ht]
  | pick hu hv =>
    obtain ⟨u', hu', hoffset⟩ := afterPick?_of_map_eq hf h hpick hu
    refine .pick hu' (value_of_extra hf hnames rfl ?_ hv)
    rw [← hf.trim_map, ← hf.trim_map, hoffset]
  | @value _ v hkeyword hv =>
    have hnames' : ∀ name, v = .label name → Kept f name := by
      rintro name rfl
      exact hnames name rfl
    exact .value ((keyword?_of_map_eq hf h).trans hkeyword) (value_of_map_eq hf h hnames' hv)

end Operands

/-! ## Statements -/

/-- The statement defines the name or uses it. -/
def Statement.Involves (s : Statement) (name : Text) : Prop :=
  s.name? = some name ∨ .label name ∈ s.slots

/-- The statement without the text after a label, which means nothing. -/
def Statement.bare : Statement → Statement
  | .label name _ => .label name []
  | s => s

def Outline.map (f : Char → Char) : Outline → Outline
  | .blank => .blank
  | .definition text => .definition (text.map f)
  | .operation mnemonic operands => .operation (mnemonic.map f) (operands.map f)

section Statements

variable {s : Statement} (hf : Text.Neutral f)
include hf

theorem values_of_map_eq {ps qs : List Text} {values : List Value}
    (h : qs.map (List.map f) = ps.map (List.map f))
    (hnames : ∀ name, .label name ∈ values → Kept f name)
    (hvalues : List.Forall₂ (fun p v => Value.ofText p = .ok v) ps values) :
    List.Forall₂ (fun q v => Value.ofText q = .ok v) qs values := by
  induction hvalues generalizing qs with
  | nil =>
    rw [List.map_eq_nil_iff.mp h]
    exact .nil
  | cons hv _ ih =>
    obtain ⟨q, rest, rfl, hq, hrest⟩ := List.map_eq_cons_iff.mp h
    refine .cons (value_of_map_eq hf hq (fun name hname => hnames name ?_) hv)
      (ih hrest fun name hname => hnames name (List.mem_cons_of_mem _ hname))
    exact hname ▸ List.mem_cons_self

theorem makes_of_map_eq {mnemonic : Text} (h : q.map f = p.map f)
    (hnames : ∀ name, s.Involves name → Kept f name)
    (hpick : ∀ t ∈ parts q, PickKept f t)
    (hmakes : Makes mnemonic p s) : Makes mnemonic q s := by
  have hparts : (parts q).map (List.map f) = (parts p).map (List.map f) := by
    rw [← parts_map hf, ← parts_map hf, h]
  cases hmakes with
  | data hne hvalues =>
    refine .data ?_
      (values_of_map_eq hf hparts (fun name hname => hnames name (.inr hname)) hvalues)
    rintro rfl
    exact hne (List.map_eq_nil_iff.mp h.symm)
  | nop =>
    rw [List.map_eq_nil_iff.mp h]
    exact .nop
  | @instruction _ _ x y a b number hnumber hfield hxy ha hb =>
    rw [hxy] at hparts
    obtain ⟨x', rest, hq, hx, hrest⟩ := List.map_eq_cons_iff.mp hparts
    obtain ⟨y', rest, rfl, hy, hnil⟩ := List.map_eq_cons_iff.mp hrest
    obtain rfl := List.map_eq_nil_iff.mp hnil
    rw [hq, List.forall_mem_cons, List.forall_mem_singleton] at hpick
    refine .instruction hnumber hfield hq
      (argument_eq_ok_iff.mpr (gives_of_map_eq hf hx (fun name hname => hnames name (.inr ?_))
        hpick.1 (argument_eq_ok_iff.mp ha)))
      (argument_eq_ok_iff.mpr (gives_of_map_eq hf hy (fun name hname => hnames name (.inr ?_))
        hpick.2 (argument_eq_ok_iff.mp hb)))
    · simp [Statement.slots, hname]
    · simp [Statement.slots, hname]

theorem ofLabel_of_map_eq (h : q.map f = p.map f) (hnames : ∀ name, s.Involves name → Kept f name)
    (hs : Statement.ofLabel p = .ok s) : ∃ s', Statement.ofLabel q = .ok s' ∧ s'.bare = s.bare := by
  have hword := hf.firstWord_map q
  rw [h, hf.firstWord_map p] at hword
  unfold Statement.ofLabel at hs ⊢
  generalize (Text.splitBlank? p).getD (p, []) = cut at hs hword
  generalize (Text.splitBlank? q).getD (q, []) = cut' at hword ⊢
  obtain ⟨name, trailing⟩ := cut
  obtain ⟨name', trailing'⟩ := cut'
  dsimp only at hs ⊢
  rw [Prod.map_apply, Prod.map_apply, Prod.mk.injEq] at hword
  split at hs
  · cases hs
  · next hname =>
    split at hs
    · cases hs
    · next hreserved =>
      cases hs
      obtain rfl : name' = name := hnames name (.inl rfl) name' hword.1.symm
      rw [if_neg hname, if_neg hreserved]
      exact ⟨_, rfl, rfl⟩

theorem ofLine_map (line : Text) : Outline.ofLine (line.map f) = (Outline.ofLine line).map f := by
  rw [Outline.ofLine, Outline.ofLine, hf.content_map]
  cases Text.content line with
  | nil => rfl
  | cons c rest =>
    have hcolon : f c = ':' ↔ c = ':' := hf.eq_iff rfl rfl c
    by_cases hc : c = ':'
    · rw [List.map_cons, hcolon.mpr hc, hc]
      rfl
    · have hword := hf.firstWord_map (c :: rest)
      rw [List.map_cons] at hword
      rw [List.map_cons, ofContent_cons (mt hcolon.mp hc), ofContent_cons hc, hword]
      exact congrArg _ (hf.trim_map _)

/-- **A line stays what it is**, but for the text after a label. -/
theorem ofLine?_of_map_eq (h : q.map f = p.map f) {statement : Option Statement}
    (hnames : ∀ s ∈ statement, ∀ name, s.Involves name → Kept f name)
    (hpick : ∀ t ∈ (Outline.ofLine q).operands, PickKept f t)
    (hp : Statement.ofLine? p = .ok statement) : ∃ statement',
      Statement.ofLine? q = .ok statement' ∧
        statement'.map Statement.bare = statement.map Statement.bare := by
  have houtline : (Outline.ofLine q).map f = (Outline.ofLine p).map f := by
    rw [← ofLine_map hf, ← ofLine_map hf, h]
  rw [ofLine?_eq_read?] at hp ⊢
  generalize hline : Outline.ofLine p = outline at hp houtline
  generalize Outline.ofLine q = outline' at hpick houtline ⊢
  cases outline with
  | blank =>
    cases outline' <;> cases houtline
    exact ⟨none, rfl, by cases hp; rfl⟩
  | definition text =>
    cases outline' with
    | definition text' =>
      obtain ⟨s, hs, rfl⟩ := exists_of_except_map_ok hp
      have htext : text'.map f = text.map f := Outline.definition.inj houtline
      obtain ⟨s', hs', hbare⟩ := ofLabel_of_map_eq hf htext (hnames s rfl) hs
      refine ⟨some s', ?_, congrArg some hbare⟩
      rw [Outline.read?, hs']
      rfl
    | _ => cases houtline
  | operation mnemonic operands =>
    cases outline' with
    | operation mnemonic' operands' =>
      obtain ⟨s, hs, rfl⟩ := exists_of_except_map_ok hp
      obtain ⟨hmnemonic, hoperands⟩ := Outline.operation.inj houtline
      have hmakes := makes_of_map_eq hf hoperands (hnames s rfl) hpick (ofMnemonic_eq_ok_iff.mp hs)
      have hupper : Text.upper mnemonic' = Text.upper mnemonic :=
        (hf.upper_eq hmnemonic (isBlank_of_mem_mnemonic hline)).2
      refine ⟨some s, ?_, rfl⟩
      rw [Outline.read?, hupper, ofMnemonic_eq_ok_iff.mpr hmakes]
      rfl
    | _ => cases houtline

end Statements

/-! ## Programs -/

section Names

variable {source name : Text} {program : Program} {s : Statement}

/-- A program involves no name that it does not define. -/
theorem mem_definedNames_of_involves (h : assemble? source = .ok program)
    (hs : s ∈ statements source) (hname : s.Involves name) :
    name ∈ definedNames (statements source) := by
  rcases hname with hname | hname
  · exact List.mem_filterMap.mpr ⟨s, hs, hname⟩
  · obtain ⟨-, -, -, htable, hwords⟩ := assemble?_eq_ok_iff.mp h
    exact (exists_slot_words_iff 0).mp ⟨_, htable ▸ hwords⟩ s hs name hname

theorem exists_definition (h : name ∈ definedNames (statements source)) :
    ∃ entry ∈ source.numberedLines, ∃ trailing,
      Statement.ofLine? entry.2 = .ok (some (.label name trailing)) := by
  obtain ⟨s, hs, hname⟩ := List.mem_filterMap.mp h
  obtain ⟨entry, hentry, hline⟩ := mem_statements_iff.mp hs
  cases s with
  | label other trailing =>
    cases hname
    exact ⟨entry, hentry, trailing, hline⟩
  | instruction op a b => cases hname
  | data values => cases hname

end Names

section Bare

variable {s : Statement} {ss ss' : List Statement} {addr : Nat}

@[simp] theorem Statement.size_bare (s : Statement) : s.bare.size = s.size := by cases s <;> rfl

@[simp] theorem Statement.slots_bare (s : Statement) : s.bare.slots = s.slots := by cases s <;> rfl

@[simp] theorem Statement.name?_bare (s : Statement) : s.bare.name? = s.name? := by cases s <;> rfl

theorem extent_map_bare (ss : List Statement) : extent (ss.map Statement.bare) = extent ss := by
  simp [extent, Function.comp_def]

theorem flatMap_slots_map_bare (ss : List Statement) :
    (ss.map Statement.bare).flatMap Statement.slots = ss.flatMap Statement.slots := by
  simp [List.flatMap_map]

theorem fitting_map_bare : Fitting addr (ss.map Statement.bare) ↔ Fitting addr ss := by
  induction ss generalizing addr with
  | nil => rfl
  | cons s ss ih =>
    rw [List.map_cons, fitting_cons, fitting_cons, Statement.size_bare, Statement.name?_bare, ih]

theorem extend_map_bare (addr : Nat) (table : LabelTable) (ss : List Statement) :
    table.extend addr (ss.map Statement.bare) = table.extend addr ss := by
  induction ss generalizing addr table with
  | nil => rfl
  | cons s ss ih =>
    rw [List.map_cons, LabelTable.extend, LabelTable.extend, ih, Statement.size_bare,
      Statement.defineAt_eq, Statement.defineAt_eq, Statement.name?_bare]

/-- What stands after labels makes no difference to the program. -/
theorem assemble?_of_bare {source source' : Text} {program : Program}
    (hlines : ∀ entry ∈ source'.numberedLines, ∃ s, Statement.ofLine? entry.2 = .ok s)
    (hbare : (statements source').map Statement.bare = (statements source).map Statement.bare)
    (h : assemble? source = .ok program) : assemble? source' = .ok program := by
  obtain ⟨-, hfitting, hsize, htable, hwords⟩ := assemble?_eq_ok_iff.mp h
  refine assemble?_eq_ok_iff.mpr ⟨hlines, ?_, ?_, ?_, ?_⟩
  · rwa [← fitting_map_bare, hbare, fitting_map_bare]
  · rwa [← extent_map_bare, hbare, extent_map_bare]
  · rwa [← extend_map_bare, hbare, extend_map_bare]
  · rwa [← flatMap_slots_map_bare, hbare, flatMap_slots_map_bare]

end Bare

section Programs

variable (hf : Text.Neutral f)
include hf

theorem lines_of_map_eq {lines lines' : List Text}
    (h : lines'.map (List.map f) = lines.map (List.map f))
    (hnames : ∀ s ∈ lines.filterMap statement?, ∀ name, s.Involves name → Kept f name)
    (hpick : ∀ line ∈ lines', ∀ t ∈ (Outline.ofLine line).operands, PickKept f t)
    (hlines : ∀ line ∈ lines, ∃ s, Statement.ofLine? line = .ok s) :
    (∀ line ∈ lines', ∃ s, Statement.ofLine? line = .ok s) ∧
      (lines'.filterMap statement?).map Statement.bare =
        (lines.filterMap statement?).map Statement.bare := by
  have hread : ∀ {line : Text} {statement : Option Statement},
      Statement.ofLine? line = .ok statement → statement? line = statement := fun h => by
    rw [statement?, h]
    rfl
  have hcons : ∀ (line : Text) (lines : List Text), (line :: lines).filterMap statement? =
      (statement? line).toList ++ lines.filterMap statement? := by
    intro line lines
    rw [List.filterMap_cons]
    cases statement? line <;> rfl
  induction lines generalizing lines' with
  | nil =>
    rw [List.map_eq_nil_iff.mp h]
    exact ⟨fun _ hmem => absurd hmem List.not_mem_nil, rfl⟩
  | cons line lines ih =>
    obtain ⟨line', rest, rfl, hline, hrest⟩ := List.map_eq_cons_iff.mp h
    obtain ⟨⟨statement, hstatement⟩, hlines⟩ := List.forall_mem_cons.mp hlines
    obtain ⟨hfirst, hpick⟩ := List.forall_mem_cons.mp hpick
    rw [hcons, hread hstatement, List.forall_mem_append] at hnames
    obtain ⟨hrestLines, hrestBare⟩ := ih hrest hnames.2 hpick hlines
    obtain ⟨statement', hstatement', hbare⟩ := ofLine?_of_map_eq hf hline
      (fun s hs => hnames.1 s (Option.mem_toList.mpr hs)) hfirst hstatement
    refine ⟨List.forall_mem_cons.mpr ⟨⟨statement', hstatement'⟩, hrestLines⟩, ?_⟩
    rw [hcons, hcons, hread hstatement, hread hstatement', List.map_append, List.map_append,
      hrestBare, ← Option.toList_map, ← Option.toList_map, hbare]

/-- **A source text stays the same program** under a change that keeps all its names, and PICK
wherever it stands. -/
theorem assemble?_of_map_eq {source source' : Text} {program : Program}
    (h : source'.map f = source.map f)
    (hnames : ∀ name ∈ definedNames (statements source), Kept f name)
    (hpick : ∀ entry ∈ source'.numberedLines, ∀ t ∈ (Outline.ofLine entry.2).operands,
      PickKept f t)
    (hprogram : assemble? source = .ok program) : assemble? source' = .ok program := by
  have hlines : (source'.splitOn '\n').map (List.map f) =
      (source.splitOn '\n').map (List.map f) := by
    rw [← Text.splitOn_map hf.eq_lineEnd_iff, ← Text.splitOn_map hf.eq_lineEnd_iff, h]
  have hinvolved : ∀ s ∈ statements source, ∀ name, s.Involves name → Kept f name :=
    fun s hs name hname => hnames name (mem_definedNames_of_involves hprogram hs hname)
  have hread := (assemble?_eq_ok_iff.mp hprogram).1
  rw [statements_eq_filterMap] at hinvolved
  obtain ⟨haccepted, hbare⟩ := lines_of_map_eq hf hlines hinvolved
    ((forall_numberedLines_iff fun line => ∀ t ∈ (Outline.ofLine line).operands,
      PickKept f t).mp hpick)
    ((forall_numberedLines_iff fun line => ∃ s, Statement.ofLine? line = .ok s).mp hread)
  refine assemble?_of_bare ((forall_numberedLines_iff _).mpr haccepted) ?_ hprogram
  rw [statements_eq_filterMap, statements_eq_filterMap, hbare]

end Programs

end Assembly

end WordMachine
