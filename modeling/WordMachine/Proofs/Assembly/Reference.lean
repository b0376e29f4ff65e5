import WordMachine.Proofs.Assembly.Grammar
import WordMachine.Proofs.Assembly.Outline

/-!
# Proofs/Assembly/Reference — every label that can be defined can be used

A label is used by its bare name as an operand, between brackets with or without a base, behind
PICK, or as an item of DAT (`Mentions`, `MentionedAt`).  None of these places takes a name that can
be defined for anything else: the line is accepted with the operand it is meant to have, and the word
at the place is the label's.

Main statement: `address_of_mention`.
-/

namespace WordMachine

namespace Assembly

/-! ## Places for a name -/

/-- The text is an operand with the name as its extra word. -/
inductive Mentions (name : Text) : Text → Operand → Prop where
  | bare : Mentions name name .nextLiteral
  | cell {t : Text} (ht : Text.trim t = name) : Mentions name ('[' :: (t ++ [']'])) .indirectNext
  | baseFirst {t l r : Text} {base : Base} (ht : Text.trim t = l ++ '+' :: r)
      (hbase : Names (Text.trim l) base) (hr : Text.trim r = name) :
      Mentions name ('[' :: (t ++ [']'])) (offsetOf base)
  | nameFirst {t l r : Text} {base : Base} (ht : Text.trim t = l ++ '+' :: r)
      (hl : Text.trim l = name) (hbase : Names (Text.trim r) base) :
      Mentions name ('[' :: (t ++ [']'])) (offsetOf base)
  | pick {k t : Text} (hk : Text.upper k = ['P', 'I', 'C', 'K']) (ht : Text.trim t = name) :
      Mentions name (k ++ ' ' :: t) .pick

/-- The name stands in the line for its word at the index: in the first or the second of two
operands, or among the items of DAT.  The rest of the line is as it should be, and the fields of the
first word are those of the operand. -/
inductive MentionedAt (name : Text) : Outline → Nat → (Fields → Prop) → Prop where
  | first {mnemonic operands x y : Text} {o : Operand} {b : Argument} {number : Nat}
      (hnumber : Opcode.numberOf? (Text.upper mnemonic) = some number) (hfield : number < 16)
      (hparts : parts operands = [x, y]) (hx : Mentions name x o) (hy : Argument.ofText y = .ok b) :
      MentionedAt name (.operation mnemonic operands) 1
        fun fields => fields.op = ⟨number, hfield⟩ ∧ fields.a = o.code
  | second {mnemonic operands x y : Text} {o : Operand} {a : Argument} {number : Nat}
      (hnumber : Opcode.numberOf? (Text.upper mnemonic) = some number) (hfield : number < 16)
      (hparts : parts operands = [x, y]) (hx : Argument.ofText x = .ok a) (hy : Mentions name y o) :
      MentionedAt name (.operation mnemonic operands) (1 + a.extra.toList.length)
        fun fields => fields.op = ⟨number, hfield⟩ ∧ fields.b = o.code
  | item {mnemonic operands : Text} {front back : List Text}
      (hdata : Text.upper mnemonic = ['D', 'A', 'T'])
      (hparts : parts operands = front ++ name :: back)
      (hvalues : ∀ p ∈ front ++ back, ∃ v, Value.ofText p = .ok v) :
      MentionedAt name (.operation mnemonic operands) front.length fun _ => True

/-- What a source text must keep to be a program, apart from the lines that are not among the
others and from the uses of the name. -/
structure AcceptableApart (name source : Text) (others : List (Nat × Text)) : Prop where
  lines : ∀ entry ∈ others, ∃ s, Statement.ofLine? entry.2 = .ok s
  labels : Fitting 0 (statements source)
  size : extent (statements source) ≤ Word.count
  references : ∀ s ∈ statements source, ∀ other, .label other ∈ s.slots → other ≠ name →
    other ∈ definedNames (statements source)

variable {name t : Text} {o : Operand} {i : Nat} {coded : Fields → Prop}

/-! ## Names in operands -/

theorem snug_of_isLabelName (h : isLabelName name = true) : Text.Snug name := by
  have hne : name ≠ [] := by
    rintro rfl
    cases h
  exact Text.snug_of_forall hne (isBlank_of_isLabelName h)

/-- Neither a label name nor that of a base is a sum. -/
theorem plus_not_mem_of_isLabelName (h : isLabelName name = true) : '+' ∉ name := fun hplus =>
  absurd (isNameRest_of_mem h hplus) (by decide)

@[inherit_doc plus_not_mem_of_isLabelName]
theorem plus_not_mem_of_names {base : Base} (h : Names t base) : '+' ∉ t := fun hplus =>
  absurd (isAlpha_of_isReserved (isReserved_of_isBase (isBase_iff.mpr ⟨base, h⟩)) _ hplus)
    (by decide)

/-- **A text that mentions a label** is an operand with the label in its extra word. -/
theorem ofText_of_mentions (hname : isLabelName name = true) (hreserved : isReserved name = false)
    (h : Mentions name t o) : Argument.ofText t = .ok (.extended o (.label name)) := by
  -- a name is read as a label wherever some table has an address for it
  have hnamed : Named [(name, 0)] := by
    intro other w hother
    obtain rfl : name = other := by
      by_contra hne
      simp [LabelTable.address?, hne] at hother
    exact ⟨hname, hreserved⟩
  have hreads : Reads [(name, 0)] name 0 := .label (by simp [LabelTable.address?])
  have hvalue : Value.ofText name = .ok (.label name) := ofText_of_isLabelName hname
  have hbase : isBase name = false := isBase_of_reads hnamed hreads
  have hplus : '+' ∉ name := plus_not_mem_of_isLabelName hname
  have hterms : ∀ {l r : Text}, '+' ∉ Text.trim l → '+' ∉ Text.trim r →
      terms (l ++ '+' :: r) = [Text.trim l, Text.trim r] := fun hl hr =>
    terms_eq_pair_iff.mpr ⟨_, _, mt (Text.mem_trim_of_mem rfl) hl,
      mt (Text.mem_trim_of_mem rfl) hr, rfl, rfl, rfl⟩
  rw [argument_eq_ok_iff]
  cases h with
  | bare => exact .value (keyword?_of_reads hnamed hreads) hvalue
  | cell ht =>
    refine .indirect ?_
    rw [ht, terms_eq_single_iff.mpr ⟨hplus, rfl⟩, (snug_of_isLabelName hname).trim_eq]
    exact .cell hbase hvalue
  | baseFirst ht hl hr =>
    refine .indirect ?_
    rw [ht, hterms (plus_not_mem_of_names hl) (hr.symm ▸ hplus), hr]
    exact .baseFirst (offsetBase?_eq hl) hbase hvalue
  | nameFirst ht hl hr =>
    refine .indirect ?_
    rw [ht, hterms (hl.symm ▸ hplus) (plus_not_mem_of_names hr), hl]
    exact .valueFirst hbase hvalue (offsetBase?_eq hr)
  | @pick k t hk ht => exact .pick (afterPick?_eq_some_iff.mpr ⟨k, rfl, hk⟩) (ht.symm ▸ hvalue)

theorem exists_values {ps : List Text} (h : ∀ p ∈ ps, ∃ v, Value.ofText p = .ok v) :
    ∃ values, List.Forall₂ (fun p v => Value.ofText p = .ok v) ps values := by
  induction ps with
  | nil => exact ⟨[], .nil⟩
  | cons p ps ih =>
    obtain ⟨⟨v, hv⟩, hps⟩ := List.forall_mem_cons.mp h
    obtain ⟨values, hvalues⟩ := ih hps
    exact ⟨v :: values, .cons hv hvalues⟩

/-- **A line that mentions a label** is accepted, with the label in the word of the name and the
operand in the fields. -/
theorem exists_slot_of_mentionedAt {outline : Outline} (hname : isLabelName name = true)
    (hreserved : isReserved name = false) (h : MentionedAt name outline i coded) :
    ∃ s, outline.read? = .ok (some s) ∧ s.slots[i]? = some (.label name) ∧
      ∀ labels w, s.slots[0]?.bind (Value.word? labels) = some w → coded (Fields.ofWord w) := by
  have hread : ∀ {mnemonic operands : Text} {s : Statement}, Makes (Text.upper mnemonic) operands s →
      (Outline.operation mnemonic operands).read? = .ok (some s) := by
    intro mnemonic operands s hs
    rw [Outline.read?, ofMnemonic_eq_ok_iff.mpr hs]
    rfl
  cases h with
  | first hnumber hfield hparts hx hy =>
    have hx := ofText_of_mentions hname hreserved hx
    refine ⟨_, hread (.instruction hnumber hfield hparts hx hy), rfl, fun labels w hw => ?_⟩
    obtain rfl := Option.some.inj hw
    rw [Fields.ofWord_toWord]
    exact ⟨rfl, rfl⟩
  | @second mnemonic operands x y o a number hnumber hfield hparts hx hy =>
    have hy := ofText_of_mentions hname hreserved hy
    refine ⟨_, hread (.instruction hnumber hfield hparts hx hy), ?_, fun labels w hw => ?_⟩
    · rw [Statement.slots, Nat.add_comm, List.getElem?_cons_succ,
        List.getElem?_append_right le_rfl, Nat.sub_self]
      rfl
    · obtain rfl := Option.some.inj hw
      rw [Fields.ofWord_toWord]
      exact ⟨rfl, rfl⟩
  | @item mnemonic operands front back hdata hparts hvalues =>
    have hne : operands ≠ [] := by
      rintro rfl
      have hmem : name ∈ parts [] := by simp [hparts]
      rw [List.mem_singleton.mp hmem] at hname
      cases hname
    have hitem := ofText_of_isLabelName hname
    obtain ⟨before, hbefore⟩ := exists_values fun p hp => hvalues p (List.mem_append_left back hp)
    obtain ⟨after, hafter⟩ := exists_values fun p hp => hvalues p (List.mem_append_right front hp)
    have hall : List.Forall₂ (fun p v => Value.ofText p = .ok v) (parts operands)
        (before ++ .label name :: after) := hparts ▸ List.rel_append hbefore (.cons hitem hafter)
    refine ⟨.data (before ++ .label name :: after), hread ?_, ?_, fun _ _ _ => trivial⟩
    · rw [hdata]
      exact .data hne hall
    rw [Statement.slots, hbefore.length_eq, List.getElem?_append_right le_rfl, Nat.sub_self]
    rfl

/-! ## Names in programs -/

section Programs

variable {source line : Text} {number : Nat} {s : Statement} {before after : List (Nat × Text)}

/-- The statement of a line stands behind those of the lines before it. -/
theorem statements_append (hlines : source.numberedLines = before ++ (number, line) :: after)
    (hs : Statement.ofLine? line = .ok (some s)) :
    statements source = (numbered before).map (·.2) ++ s :: (numbered after).map (·.2) := by
  rw [statements, hlines, numbered, List.filterMap_append, List.map_append]
  simp [statement?_eq_some_iff.mpr hs, numbered]

/-- The words of a line stand behind those of the lines before it. -/
theorem getElem?_words {program : Program} (h : assemble? source = .ok program)
    (hlines : source.numberedLines = before ++ (number, line) :: after)
    (hs : Statement.ofLine? line = .ok (some s)) (hi : i < s.slots.length) :
    program.words[extent ((numbered before).map (·.2)) + i]? =
      s.slots[i]?.bind (Value.word? program.labels) := by
  obtain ⟨-, -, -, -, hwords⟩ := assemble?_eq_ok_iff.mp h
  have hslot : ((statements source).flatMap Statement.slots)[
      extent ((numbered before).map (·.2)) + i]? = s.slots[i]? := by
    rw [statements_append hlines hs, List.flatMap_append, extent_eq_length,
      List.getElem?_append_right (Nat.le_add_right _ _), Nat.add_sub_cancel_left,
      List.flatMap_cons, List.getElem?_append_left hi]
  have hplace := congrArg (·[extent ((numbered before).map (·.2)) + i]?) hwords
  simp only [List.getElem?_map, hslot, List.getElem?_eq_getElem hi, Option.map_some] at hplace
  obtain ⟨w, hw, heq⟩ := Option.map_eq_some_iff.mp hplace.symm
  rw [hw, heq, List.getElem?_eq_getElem hi, Option.bind_some]

/-- **A label that can be defined can be used**, in either letter case and wherever a word is taken.
With a line that mentions it, a source text is a program just if it is acceptable apart from that.
The word in the place of the name is the address of the label then, which is the number of words
before its last definition. -/
theorem address_of_mention {definition trailing : Text} {d : Nat}
    (hdefinition : (d, definition) ∈ source.numberedLines)
    (hname : Statement.ofLine? definition = .ok (some (.label name trailing)))
    (hlines : source.numberedLines = before ++ (number, line) :: after)
    (hmention : MentionedAt name (Outline.ofLine line) i coded) :
    ((∃ program, assemble? source = .ok program) ↔
      AcceptableApart name source (before ++ after)) ∧
      ∀ program, assemble? source = .ok program →
        (∃ addr defined, DefinedLast (statements source) name defined ∧
          addr.toNat = extent defined ∧ program.labels.address? name = some addr ∧
            program.words[extent ((numbered before).map (·.2)) + i]? = some addr) ∧
        ∀ w, program.words[extent ((numbered before).map (·.2))]? = some w →
          coded (Fields.ofWord w) := by
  obtain ⟨hlabel, hreserved⟩ := of_ofLine?_label hname
  obtain ⟨s, hs, hslot, hcoded⟩ := exists_slot_of_mentionedAt hlabel hreserved hmention
  rw [← ofLine?_eq_read?] at hs
  have hdefined : name ∈ definedNames (statements source) :=
    List.mem_filterMap.mpr ⟨_, mem_statements_iff.mpr ⟨_, hdefinition, hname⟩, rfl⟩
  refine ⟨⟨?_, ?_⟩, ?_⟩
  · rintro ⟨program, h⟩
    obtain ⟨hread, hfitting, hsize, htable, hwords⟩ := assemble?_eq_ok_iff.mp h
    rw [hlines, List.forall_mem_append, List.forall_mem_cons] at hread
    refine ⟨List.forall_mem_append.mpr ⟨hread.1, hread.2.2⟩, hfitting, hsize, ?_⟩
    exact fun s hs other hother _ =>
      (exists_slot_words_iff 0).mp ⟨_, htable ▸ hwords⟩ s hs other hother
  · rintro ⟨hread, hfitting, hsize, hreferences⟩
    have hknown : ∀ s ∈ statements source, ∀ other, .label other ∈ s.slots →
        other ∈ definedNames (statements source) := by
      intro s hs other hother
      by_cases heq : other = name
      · exact heq ▸ hdefined
      · exact hreferences s hs other hother heq
    obtain ⟨words, hwords⟩ := (exists_slot_words_iff 0).mpr hknown
    obtain ⟨hbefore, hafter⟩ := List.forall_mem_append.mp hread
    refine ⟨⟨words, _⟩, assemble?_eq_ok_iff.mpr ⟨?_, hfitting, hsize, rfl, hwords⟩⟩
    rw [hlines, List.forall_mem_append, List.forall_mem_cons]
    exact ⟨hbefore, ⟨_, hs⟩, hafter⟩
  · intro program h
    obtain ⟨-, hfitting, -, htable, hwords⟩ := assemble?_eq_ok_iff.mp h
    obtain ⟨addr, haddr⟩ := (exists_address?_iff 0).mpr hdefined
    obtain ⟨defined, hlast, heq⟩ := (LabelTable.address?_extend _).mp haddr
    have hlt : extent defined < Word.count := by
      obtain ⟨_, _, hsplit, -⟩ := hlast
      simpa using hfitting hsplit
    rw [← htable] at haddr
    have hi := (List.getElem?_eq_some_iff.mp hslot).1
    refine ⟨⟨addr, defined, hlast, ?_, haddr, ?_⟩, fun w hw => ?_⟩
    · rw [heq, Nat.zero_add, Word.toNat_ofNat, Nat.mod_eq_of_lt hlt]
    · rw [getElem?_words h hlines hs hi, hslot, Option.bind_some, Value.word?, haddr]
    · exact hcoded _ w ((getElem?_words h hlines hs (Nat.zero_lt_of_lt hi)).symm.trans hw)

/-- A label with the name of a mnemonic, used three times. -/
def mnemonicSource : Text := "NOP\n:Add\nADD [ J+ Add ], pick Add\nDAT 2, Add".toList

theorem address_of_mention_mnemonic :
    AcceptableApart "Add".toList mnemonicSource
        [(1, "NOP".toList), (2, ":Add".toList), (4, "DAT 2, Add".toList)] ∧
      (∃ addr defined, DefinedLast (statements mnemonicSource) "Add".toList defined ∧
        addr.toNat = extent defined ∧
          LabelTable.address? "Add".toList [("Add".toList, 1)] = some addr ∧
            ([0x0000, 0x6972, 1, 1, 2, 1] : List Word)[1 + 2]? = some addr) ∧
      ∀ w, ([0x0000, 0x6972, 1, 1, 2, 1] : List Word)[1]? = some w →
        (Fields.ofWord w).op = 2 ∧ (Fields.ofWord w).b = Operand.pick.code := by
  have h : assemble? mnemonicSource =
      .ok ⟨[0x0000, 0x6972, 1, 1, 2, 1], [("Add".toList, 1)]⟩ := rfl
  have hdefinition : (2, ":Add".toList) ∈ mnemonicSource.numberedLines := by decide
  have hname : Statement.ofLine? ":Add".toList = .ok (some (.label "Add".toList [])) := rfl
  have hlines : mnemonicSource.numberedLines = [(1, "NOP".toList), (2, ":Add".toList)] ++
      (3, "ADD [ J+ Add ], pick Add".toList) :: [(4, "DAT 2, Add".toList)] := rfl
  have hnumber : Opcode.numberOf? (Text.upper "ADD".toList) = some 2 := rfl
  have hfirst : Argument.ofText "[ J+ Add ]".toList =
      .ok (.extended (.indirectOffset .j) (.label "Add".toList)) := rfl
  have hsecond : Mentions "Add".toList ("pick".toList ++ ' ' :: "Add".toList) .pick := .pick rfl rfl
  have hmention : MentionedAt "Add".toList (Outline.ofLine "ADD [ J+ Add ], pick Add".toList) 2
      fun fields => fields.op = 2 ∧ fields.b = Operand.pick.code :=
    .second hnumber (by decide) rfl hfirst hsecond
  obtain ⟨hprogram, haddress⟩ := address_of_mention hdefinition hname hlines hmention
  exact ⟨hprogram.mp ⟨_, h⟩, haddress _ h⟩

end Programs

end Assembly

end WordMachine
