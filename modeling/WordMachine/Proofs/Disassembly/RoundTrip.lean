import WordMachine.Proofs.Assembly.Line
import WordMachine.Proofs.Assembly.Program
import WordMachine.Proofs.Disassembly.Operand

/-!
# Proofs/Disassembly/RoundTrip — which words survive being shown and assembled again

An item of a row of words is a NOP alone, another instruction with its extra words, or a word of
data (`Shows`), and the items are the whole row in order (`exists_items`).  An item is `Canonical`
if its words are the ones that the assembler would choose.  The line of a canonical item becomes
the item's words, and any other line is refused or becomes fewer words.

Main statement: `assemble?_source_iff`.
-/

namespace WordMachine

open Assembly

namespace Disassembly

/-! ## Items -/

/-- An instruction with the extra words `x` and `y` in text, with its operands shown. -/
def lineText (i : Instruction) (x y : Word) : Text :=
  i.opcode.mnemonic ++ ' ' :: (shown true x i.a ++ ',' :: ' ' :: shown false y i.b)

/-- The one instruction that is shown without operands. -/
def bareNop : Instruction := ⟨.nop, .register .a, .register .a⟩

/-- The words of an item and its text. -/
inductive Shows : List Word → Text → Prop where
  | nop : Shows [bareNop.encode] Opcode.nopMnemonic
  | instruction {i : Instruction} (hi : i ≠ bareNop) (x y : Word) :
      Shows (i.words x y) (lineText i x y)
  | data {w : Word} (hw : ∀ i x y, [w] ≠ Instruction.words i x y) : Shows [w] (dataText w)

/-- The assembler would choose these words: if they are an instruction, it has no operands where
none can be written, and no literal in an extra word that has room in the code. -/
def Canonical (words : List Word) : Prop :=
  ∀ ⦃i x y⦄, words = Instruction.words i x y →
    (i.opcode = .nop → i.a.code.val = 0 ∧ i.b.code.val = 0) ∧
      (i.a = .nextLiteral → 0x1F < x.toNat) ∧ (i.b = .nextLiteral → 0x1F < y.toNat)

variable {i j : Instruction} {x y u v w : Word} {words rest : List Word} {t : Text} {c : Char}

theorem length_extraWords (w : Word) (o : Operand) :
    (o.extraWords w).length = if o.usesNextWord then 1 else 0 := by
  rw [Operand.extraWords]
  split <;> rfl

theorem length_words (i : Instruction) (x y : Word) : (i.words x y).length = i.size := by
  simp only [Instruction.words, List.length_cons, List.length_append, length_extraWords,
    Instruction.size]
  omega

/-- Words are those of one instruction only, with the same extra words where it takes any. -/
theorem eq_of_words_eq (h : i.words x y = j.words u v) :
    i = j ∧ i.a.extraWords x = i.a.extraWords u ∧ i.b.extraWords y = i.b.extraWords v := by
  obtain ⟨hencode, hextra⟩ := List.cons.inj h
  obtain rfl : i = j := by
    have hdecode := congrArg Instruction.decode hencode
    rw [Instruction.decode_encode, Instruction.decode_encode] at hdecode
    exact Except.ok.inj hdecode
  have hlength : (i.a.extraWords x).length = (i.a.extraWords u).length := by
    rw [length_extraWords, length_extraWords]
  obtain ⟨ha, hb⟩ := List.append_inj hextra hlength
  exact ⟨rfl, ha, hb⟩

theorem code_eq_zero_iff {o : Operand} : o.code.val = 0 ↔ o = .register .a := by
  constructor
  · intro h
    have hcode : o.code = Operand.code (.register .a) := Fin.ext h
    rw [← Operand.ofCode_code o, hcode]
    rfl
  · rintro rfl
    rfl

theorem canonical_words_iff : Canonical (i.words x y) ↔
    (i.opcode = .nop → i = bareNop) ∧
      (i.a = .nextLiteral → 0x1F < x.toNat) ∧ (i.b = .nextLiteral → 0x1F < y.toNat) := by
  have hnop : (i.opcode = .nop → i.a.code.val = 0 ∧ i.b.code.val = 0) ↔
      (i.opcode = .nop → i = bareNop) := by
    refine forall_congr' fun hop => ?_
    rw [code_eq_zero_iff, code_eq_zero_iff]
    obtain ⟨op, a, b⟩ := i
    obtain rfl : op = .nop := hop
    simp [bareNop]
  constructor
  · intro h
    obtain ⟨hop, ha, hb⟩ := h rfl
    exact ⟨hnop.mp hop, ha, hb⟩
  · rintro ⟨hop, ha, hb⟩ j u v heq
    obtain ⟨rfl, hx, hy⟩ := eq_of_words_eq heq
    refine ⟨hnop.mpr hop, fun h => ?_, fun h => ?_⟩
    · rw [h] at hx
      rw [← (List.cons.inj hx).1]
      exact ha h
    · rw [h] at hy
      rw [← (List.cons.inj hy).1]
      exact hb h

/-- Enough words start with the extra word of an operand. -/
theorem exists_extraWords {o : Operand} (h : (o.extraWords 0).length ≤ words.length) :
    ∃ w rest, words = o.extraWords w ++ rest := by
  unfold Operand.extraWords at h ⊢
  cases huses : o.usesNextWord with
  | false => exact ⟨0, words, rfl⟩
  | true =>
    rw [huses, if_pos rfl] at h
    obtain ⟨w, rest, rfl⟩ := List.exists_cons_of_length_pos h
    exact ⟨w, rest, rfl⟩

/-- Enough words start with those of an instruction. -/
theorem exists_words_append (h : i.size ≤ rest.length + 1) :
    ∃ x y tail, rest = i.a.extraWords x ++ (i.b.extraWords y ++ tail) := by
  rw [Instruction.size] at h
  obtain ⟨x, after, rfl⟩ : ∃ x after, rest = i.a.extraWords x ++ after := by
    refine exists_extraWords ?_
    rw [length_extraWords]
    omega
  obtain ⟨y, tail, rfl⟩ : ∃ y tail, after = i.b.extraWords y ++ tail := by
    refine exists_extraWords ?_
    rw [List.length_append, length_extraWords] at h
    rw [length_extraWords]
    omega
  exact ⟨x, y, tail, rfl⟩

theorem instructionText_eq (hi : i ≠ bareNop) (x y : Word) (rest : List Word) :
    instructionText i (i.a.extraWords x ++ (i.b.extraWords y ++ rest)) = lineText i x y := by
  have hbare : i ≠ ⟨.nop, .register .a, .register .a⟩ := hi
  rw [instructionText, if_neg hbare, operandText_eq]
  dsimp only
  rw [operandText_eq]
  simp [lineText]

theorem encode_of_decode (h : Instruction.decode w = .ok i) : i.encode = w := by
  have hnumber : ∀ n : Fin 16, ∀ op ∈ Opcode.ofNumber? n, op.number = n := by decide
  cases hop : Opcode.ofNumber? (Fields.ofWord w).op with
  | none =>
    simp only [Instruction.decode, Instruction.operation, hop] at h
    cases h
  | some op =>
    simp only [Instruction.decode, Instruction.operation, hop] at h
    cases h
    rw [Instruction.encode, hnumber _ _ hop, Operand.code_ofCode, Operand.code_ofCode]
    exact Fields.toWord_ofWord w

/-- **The first item of a row of words** shows as many words as it takes. -/
theorem exists_shows (w : Word) (rest : List Word) :
    ∃ block tail, w :: rest = block ++ tail ∧ (ofWords (w :: rest)).2 = block.length ∧
      Shows block (ofWords (w :: rest)).1 := by
  cases hdecode : Instruction.decode w with
  | error e =>
    have hdata : ∀ i x y, [w] ≠ Instruction.words i x y := fun i x y heq => by
      rw [(List.cons.inj heq).1, Instruction.decode_encode] at hdecode
      cases hdecode
    simp only [ofWords, hdecode]
    exact ⟨[w], rest, rfl, rfl, .data hdata⟩
  | ok i =>
    obtain rfl := encode_of_decode hdecode
    simp only [ofWords, hdecode]
    split
    · next hlength =>
      have hsize : i.size ≤ rest.length + 1 :=
        hlength.symm.trans_le (List.length_take_le' _ _)
      obtain ⟨x, y, tail, rfl⟩ := exists_words_append hsize
      refine ⟨i.words x y, tail, by simp [Instruction.words], (length_words i x y).symm, ?_⟩
      by_cases hi : i = bareNop
      · subst hi
        exact .nop
      · rw [instructionText_eq hi]
        exact .instruction hi x y
    · next hlength =>
      have hdata : ∀ j x y, [i.encode] ≠ Instruction.words j x y := fun j x y heq => by
        have hj : j = i := by
          rw [(List.cons.inj heq).1, Instruction.decode_encode] at hdecode
          exact Except.ok.inj hdecode
        have hsize : i.size = 1 := by rw [← hj, ← length_words j x y, ← heq, List.length_singleton]
        refine hlength ?_
        rw [hsize, List.take_succ_cons, List.take_zero, List.length_singleton]
      exact ⟨[i.encode], rest, rfl, rfl, .data hdata⟩

/-- **The items are the whole row in order**, and each shows its words. -/
theorem exists_itemsAfter (before : List Item) (addr : Nat) (words : List Word) :
    ∃ new : List Item, itemsAfter before addr words = before.reverse ++ new ∧
      words = new.flatMap (·.words) ∧ ∀ item ∈ new, Shows item.words item.text := by
  fun_induction itemsAfter before addr words with
  | case1 before addr => exact ⟨[], by simp⟩
  | case2 before addr w rest first ih =>
    obtain ⟨new, hitems, hwords, hnew⟩ := ih
    obtain ⟨block, tail, heq, hlength, hshows⟩ := exists_shows w rest
    have hblock : (w :: rest).take first.2 = block := by
      rw [heq, hlength, List.take_left]
    have htail : (w :: rest).drop first.2 = tail := by
      rw [heq, hlength, List.drop_left]
    refine ⟨⟨addr, first.1, block⟩ :: new, ?_, ?_, ?_⟩
    · rw [hitems, hblock]
      simp
    · rw [List.flatMap_cons, ← hwords, htail, heq]
    · exact List.forall_mem_cons.mpr ⟨hshows, hnew⟩

theorem flatMap_items (words : List Word) : (items words).flatMap (·.words) = words := by
  obtain ⟨new, hitems, hwords, -⟩ := exists_itemsAfter [] 0 words
  rw [items, hitems, List.reverse_nil, List.nil_append, ← hwords]

theorem shows_of_mem_items {item : Item} (h : item ∈ items words) : Shows item.words item.text := by
  obtain ⟨new, hitems, -, hnew⟩ := exists_itemsAfter [] 0 words
  rw [items, hitems] at h
  exact hnew item h

/-! ## Lines -/

theorem upper_mnemonic (op : Opcode) : Text.upper op.mnemonic = op.mnemonic := by cases op <;> rfl

theorem snug_lineText (i : Instruction) (x y : Word) : Text.Snug (lineText i x y) := by
  have hmnemonic : Text.Snug i.opcode.mnemonic := by
    cases i.opcode <;> exact snug_of_all (List.cons_ne_nil _ _) rfl
  exact hmnemonic.append [' '] ((snug_shown true x i.a).append [',', ' '] (snug_shown false y i.b))

/-- A line with an instruction has no characters but those of operands and a comma. -/
theorem not_mem_lineText (hc : isOperandChar c = false) (hcomma : c ≠ ',') : c ∉ lineText i x y := by
  have halpha : c.isAlpha = false := by
    by_contra halpha
    rw [Bool.not_eq_false] at halpha
    simp [isOperandChar, Char.isAlphanum, halpha] at hc
  have hmnemonic : c ∉ i.opcode.mnemonic := fun hmem => by
    rw [isAlpha_of_mnemonic (upper_mnemonic _) hmem] at halpha
    cases halpha
  have hspace : c ≠ ' ' := by
    rintro rfl
    cases hc
  simp [lineText, hmnemonic, hspace, hcomma, not_mem_shown hc]

/-- **The line of an instruction** is read as its operation and its operands, unless it is a NOP,
which takes none. -/
theorem ofLine?_lineText (i : Instruction) (x y : Word) :
    Statement.ofLine? (lineText i x y) =
      if i.opcode = .nop then .error (.malformed .operandsAfterNop)
      else .ok (some (.instruction i.opcode.number (argument x i.a) (argument y i.b))) := by
  have hcontent : Text.content (lineText i x y) = lineText i x y :=
    (snug_lineText i x y).content_eq (not_mem_lineText rfl (by decide))
  have hoperands : Text.Snug (shown true x i.a ++ ',' :: ' ' :: shown false y i.b) :=
    (snug_shown true x i.a).append [',', ' '] (snug_shown false y i.b)
  have hupper : Text.upper i.opcode.mnemonic = i.opcode.mnemonic := upper_mnemonic _
  have hne : i.opcode.mnemonic ≠ [] := by cases i.opcode <;> exact List.cons_ne_nil _ _
  rw [ofLine?_of_content hcontent (fun _ => isAlpha_of_mnemonic hupper) hne rfl, hupper, hoperands.trim_eq]
  split
  · next hop =>
    obtain ⟨c, t, hfirst, -⟩ := hoperands.first
    rw [hop, Opcode.mnemonic, ofMnemonic_nop (by rw [hfirst]; exact List.cons_ne_nil _ _)]
    rfl
  · next hop =>
    have hright : ',' ∉ ' ' :: shown false y i.b := by
      simpa using not_mem_shown (c := ',') rfl
    rw [ofMnemonic_eq hop, parts_append (not_mem_shown rfl) hright, (snug_shown true x i.a).trim_eq,
      Text.trim_cons rfl, (snug_shown false y i.b).trim_eq]
    simp only [ofText_shown]
    rfl

theorem snug_dataText (w : Word) : Text.Snug (dataText w) :=
  (snug_of_all (t := ['D', 'A', 'T']) (List.cons_ne_nil _ _) rfl).append [' '] (snug_wordText w)

/-- The line of a word of data is read as the word. -/
theorem ofLine?_dataText (w : Word) :
    Statement.ofLine? (dataText w) = .ok (some (.data [.number w])) := by
  have hcomment : ';' ∉ dataText w := by simpa [dataText] using not_mem_wordText rfl
  have hcontent : Text.content (dataText w) = ['D', 'A', 'T'] ++ ' ' :: wordText w :=
    (snug_dataText w).content_eq hcomment
  have hparts : parts (wordText w) = [wordText w] := by
    rw [parts, List.splitOn_eq_singleton (not_mem_wordText rfl), List.map_singleton,
      (snug_wordText w).trim_eq]
  have hletters : ∀ c ∈ ['D', 'A', 'T'], c.isAlpha = true := List.all_eq_true.mp rfl
  have hupper : Text.upper ['D', 'A', 'T'] = ['D', 'A', 'T'] := rfl
  rw [ofLine?_of_content hcontent hletters (List.cons_ne_nil _ _) rfl, (snug_wordText w).trim_eq,
    hupper, ofMnemonic_data (wordText_ne_nil w), hparts]
  simp only [List.mapM_cons, List.mapM_nil, ofText_wordText]
  rfl

/-- The text of an item has no characters but those of operands and a comma… -/
theorem Shows.not_mem_of (h : Shows words t) (hc : isOperandChar c = false) (hcomma : c ≠ ',') :
    c ∉ t := by
  have hplain : ∀ {u : Text}, u.all isOperandChar = true → c ∉ u := fun hall hmem => by
    rw [List.all_eq_true.mp hall c hmem] at hc
    cases hc
  cases h with
  | nop => exact hplain rfl
  | instruction hi x y => exact not_mem_lineText hc hcomma
  | data hw => exact hplain (List.all_append.trans (by rw [all_wordText]; rfl))

/-- …and so no line has a line end in it. -/
theorem Shows.not_mem (h : Shows words t) : '\n' ∉ t := h.not_mem_of rfl (by decide)

/-- **The line of a canonical item becomes the item's words**… -/
theorem Shows.exists_statement (h : Shows words t) (hcanonical : Canonical words) :
    ∃ s, Statement.ofLine? t = .ok (some s) ∧ s.name? = none ∧ s.slots = words.map .number := by
  cases h with
  | nop => exact ⟨_, rfl, rfl, rfl⟩
  | @data w hw => exact ⟨_, ofLine?_dataText w, rfl, rfl⟩
  | @instruction i hi x y =>
    obtain ⟨hnop, ha, hb⟩ := canonical_words_iff.mp hcanonical
    obtain ⟨hcode, hextra⟩ := argument_of_large ha
    obtain ⟨hcode', hextra'⟩ := argument_of_large hb
    refine ⟨_, (ofLine?_lineText i x y).trans (if_neg fun hop => hi (hnop hop)), rfl, ?_⟩
    simp [Statement.slots, Instruction.words, Instruction.encode, hcode, hextra, hcode', hextra']

/-- …and that of any other item is refused or becomes fewer words. -/
theorem Shows.of_ofLine? (h : Shows words t) {statement : Option Statement}
    (hline : Statement.ofLine? t = .ok statement) :
    ∃ s, statement = some s ∧ s.size ≤ words.length ∧ (s.size = words.length → Canonical words) := by
  cases h with
  | nop =>
    cases hline
    have hbare : Canonical (bareNop.words 0 0) :=
      canonical_words_iff.mpr (by simp [bareNop])
    exact ⟨_, rfl, le_rfl, fun _ => hbare⟩
  | @data w hw =>
    rw [ofLine?_dataText] at hline
    cases hline
    exact ⟨_, rfl, le_rfl, fun _ i x y heq => absurd heq (hw i x y)⟩
  | @instruction i hi x y =>
    rw [ofLine?_lineText] at hline
    split at hline
    · cases hline
    · next hop =>
      cases hline
      obtain ⟨hle, hlarge⟩ := length_argument x i.a
      obtain ⟨hle', hlarge'⟩ := length_argument y i.b
      refine ⟨_, rfl, ?_⟩
      simp only [Statement.size, Instruction.words, List.length_cons, List.length_append]
      -- The arguments are as long as the extra words together just if each of them is.
      exact ⟨by omega, fun heq => canonical_words_iff.mpr
        ⟨fun h => absurd h hop, hlarge (by omega), hlarge' (by omega)⟩⟩

/-! ## Source texts -/

/-- The lines of all items of a row of words, as a source text. -/
def source (words : List Word) : Text := ['\n'].intercalate ((items words).map (·.text))

/-- The statements of lines are as many words as the items' at most, and as many only if all items
are canonical. -/
theorem extent_le {is : List Item} (hshows : ∀ item ∈ is, Shows item.words item.text)
    (haccepted : ∀ item ∈ is, ∃ s, Statement.ofLine? item.text = .ok s) :
    extent ((is.map (·.text)).filterMap statement?) ≤ (is.flatMap (·.words)).length ∧
      (extent ((is.map (·.text)).filterMap statement?) = (is.flatMap (·.words)).length →
        ∀ item ∈ is, Canonical item.words) := by
  induction is with
  | nil => exact ⟨le_rfl, fun _ _ hitem => absurd hitem List.not_mem_nil⟩
  | cons item is ih =>
    obtain ⟨hitem, hrest⟩ := List.forall_mem_cons.mp hshows
    obtain ⟨⟨statement, hline⟩, hlines⟩ := List.forall_mem_cons.mp haccepted
    obtain ⟨s, rfl, hle, hcanonical⟩ := hitem.of_ofLine? hline
    obtain ⟨ihle, ihcanonical⟩ := ih hrest hlines
    have hstatement : statement? item.text = some s := by rw [statement?, hline]; rfl
    rw [List.map_cons, List.filterMap_cons_some hstatement, extent_cons, List.flatMap_cons,
      List.length_append, List.forall_mem_cons]
    exact ⟨by omega, fun heq => ⟨hcanonical (by omega), ihcanonical (by omega)⟩⟩

/-- The statements of canonical items define no labels and have the items' words. -/
theorem slots_of_canonical {is : List Item} (hshows : ∀ item ∈ is, Shows item.words item.text)
    (hcanonical : ∀ item ∈ is, Canonical item.words) :
    (∀ item ∈ is, ∃ s, Statement.ofLine? item.text = .ok s) ∧
      definedNames ((is.map (·.text)).filterMap statement?) = [] ∧
      ((is.map (·.text)).filterMap statement?).flatMap Statement.slots =
        (is.flatMap (·.words)).map .number := by
  induction is with
  | nil => exact ⟨fun _ hitem => absurd hitem List.not_mem_nil, rfl, rfl⟩
  | cons item is ih =>
    obtain ⟨hitem, hrest⟩ := List.forall_mem_cons.mp hshows
    obtain ⟨hfirst, hothers⟩ := List.forall_mem_cons.mp hcanonical
    obtain ⟨s, hline, hname, hslots⟩ := hitem.exists_statement hfirst
    obtain ⟨ihlines, ihnames, ihslots⟩ := ih hrest hothers
    have hstatement : statement? item.text = some s := by rw [statement?, hline]; rfl
    rw [List.map_cons, List.filterMap_cons_some hstatement, List.flatMap_cons, List.flatMap_cons,
      List.map_append, hslots, ihslots]
    refine ⟨List.forall_mem_cons.mpr ⟨⟨_, hline⟩, ihlines⟩, ?_, rfl⟩
    rw [definedNames, List.filterMap_cons_none hname]
    exact ihnames

/-- The lines of the source text are those of the items; without items there is an empty one. -/
theorem splitOn_source (words : List Word) :
    (source words).splitOn '\n' =
      if items words = [] then [[]] else (items words).map (·.text) := by
  rw [source]
  split
  · next hnil =>
    rw [hnil]
    rfl
  · next hne =>
    refine List.splitOn_intercalate '\n' ?_ (by simpa using hne)
    exact List.forall_mem_map.mpr fun item hitem => (shows_of_mem_items hitem).not_mem

theorem statements_source (words : List Word) :
    statements (source words) = ((items words).map (·.text)).filterMap statement? := by
  rw [statements_eq_filterMap, splitOn_source]
  split
  · next hnil =>
    rw [hnil]
    rfl
  · rfl

theorem accepted_source_iff (words : List Word) :
    (∀ entry ∈ (source words).numberedLines, ∃ s, Statement.ofLine? entry.2 = .ok s) ↔
      ∀ item ∈ items words, ∃ s, Statement.ofLine? item.text = .ok s := by
  have hlines : (∀ entry ∈ (source words).numberedLines, ∃ s, Statement.ofLine? entry.2 = .ok s) ↔
      ∀ line ∈ (source words).splitOn '\n', ∃ s, Statement.ofLine? line = .ok s := by
    rw [← map_numberedLines]
    simp only [List.forall_mem_map]
  rw [hlines, splitOn_source]
  split
  · next hnil => simpa [hnil] using ⟨_, rfl⟩
  · exact List.forall_mem_map

/-- **Words come back from their own listing just if all its items are canonical.** -/
theorem assemble?_source_iff (words : List Word) (hsize : words.length ≤ Word.count) :
    (∃ program, assemble? (source words) = .ok program ∧ program.words = words) ↔
      ∀ item ∈ items words, Canonical item.words := by
  have hshows : ∀ item ∈ items words, Shows item.words item.text := fun _ => shows_of_mem_items
  constructor
  · rintro ⟨program, h, hwords⟩
    obtain ⟨haccepted, -, -, -, hslots⟩ := assemble?_eq_ok_iff.mp h
    refine (extent_le hshows ((accepted_source_iff words).mp haccepted)).2 ?_
    have hlength := congrArg List.length hslots
    rw [List.length_map, List.length_map, ← extent_eq_length, hwords] at hlength
    rw [← statements_source, hlength, flatMap_items]
  · intro hcanonical
    obtain ⟨haccepted, hnames, hslots⟩ := slots_of_canonical hshows hcanonical
    rw [← statements_source] at hnames hslots
    rw [flatMap_items] at hslots
    refine ⟨⟨words, _⟩, assemble?_eq_ok_iff.mpr ⟨(accepted_source_iff words).mpr haccepted,
      fitting_of_definedNames_eq_nil hnames, ?_, rfl, ?_⟩, rfl⟩
    · rwa [extent_eq_length, hslots, List.length_map]
    · rw [hslots, List.map_map]
      rfl

/-- A literal in an extra word comes back just if it has no room in the code. -/
theorem assemble?_source_literal :
    (∃ program, assemble? (source [0x7C01, 0x20]) = .ok program ∧
        program.words = [0x7C01, 0x20]) ∧
      ¬ ∃ program, assemble? (source [0x7C01, 0x1F]) = .ok program ∧
        program.words = [0x7C01, 0x1F] := by
  have hcanonical : ∀ w, Canonical [0x7C01, w] ↔ 0x1F < w.toNat := fun w => by
    have hwords : [0x7C01, w] = Instruction.words ⟨.set, .register .a, .nextLiteral⟩ 0 w := rfl
    rw [hwords, canonical_words_iff]
    simp
  have hlarge : items [0x7C01, 0x20] = [⟨0, "SET A, 0x0020".toList, [0x7C01, 0x20]⟩] := by
    decide +kernel
  have hsmall : items [0x7C01, 0x1F] = [⟨0, "SET A, 0x001f".toList, [0x7C01, 0x1F]⟩] := by
    decide +kernel
  rw [assemble?_source_iff [0x7C01, 0x20] (by decide),
    assemble?_source_iff [0x7C01, 0x1F] (by decide), hlarge, hsmall]
  simp [hcanonical]

end Disassembly

end WordMachine
